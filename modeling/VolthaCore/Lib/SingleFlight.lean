import VolthaCore.Lib.Runs

/-! Single flight: of all calls for one key one loads the value while the others wait
for it. A call checks under a lock whether a load is in progress and whether the
value is cached, loads without the lock, and takes the lock again to announce the
end to those who wait. While every load ends so that the call announces it, an
entry stands exactly as long as a call is loading, and at most one value is
stored. -/

namespace VolthaCore.SingleFlight

open Function Runs

variable {A R : Type}

/-- How a load ends: with a value or without one, or so that the call never announces the end,
since it leaves early or blocks. -/
inductive Ending (A : Type) where
  | found (a : A)
  | nothing
  | leaves
  | blocks
  deriving DecidableEq

def Ending.Announced : Ending A → Prop
  | .found _ | .nothing => True
  | .leaves | .blocks => False

inductive Phase (A : Type) where
  | idle
  | loading
  | publishing
  | waiting
  | checking
  | returned (a : Option A)
  | left
  | blocked
  deriving DecidableEq

/-- The cached value, the calls that wait if a load is in progress, the phases of the calls, and
what the loading calls have stored. -/
structure Flight (A : Type) where
  cache : Option A := none
  inProgress : Option (List ℕ) := none
  phase : ℕ → Phase A := fun _ => .idle
  stored : List A := []

inductive Event (R : Type) where
  | call (i : ℕ)
  | work (i : ℕ) (r : R)
  | publish (i : ℕ)
  | check (i : ℕ)
  deriving DecidableEq

def Event.From (S : R → Prop) : Event R → Prop
  | .work _ r => S r
  | _ => True

namespace Flight

def setPhase (s : Flight A) (i : ℕ) (p : Phase A) : Flight A :=
  { s with phase := update s.phase i p }

/-- The load of a call ends. `put` says what is cached when a value is stored. -/
def work (put : Option A → A → A) (s : Flight A) (i : ℕ) : Ending A → Flight A
  | .found a =>
    { s.setPhase i .publishing with
      cache := some (put s.cache a)
      stored := s.stored ++ [put s.cache a] }
  | .nothing => s.setPhase i .publishing
  | .leaves => s.setPhase i .left
  | .blocks => s.setPhase i .blocked

/-- The first section of a call, under the lock. -/
def enter (s : Flight A) (i : ℕ) : Flight A :=
  match s.inProgress with
  | some waiters => { s.setPhase i .waiting with inProgress := some (waiters ++ [i]) }
  | none =>
    if s.cache.isSome then s.setPhase i .checking
    else { s.setPhase i .loading with inProgress := some [] }

/-- The last section of a loading call, under the lock: the waiting calls go on. -/
def release (s : Flight A) (i : ℕ) : Flight A :=
  { s with
    inProgress := none
    phase := fun j => if j = i ∨ j ∈ s.inProgress.getD [] then .checking else s.phase j }

/-- One section of one call; a section for which the call is not ready changes nothing. -/
def step (put : Option A → A → A) (load : R → Ending A) (s : Flight A) : Event R → Flight A
  | .call i =>
    match s.phase i with
    | .idle => s.enter i
    | _ => s
  | .work i r =>
    match s.phase i with
    | .loading => s.work put i (load r)
    | _ => s
  | .publish i =>
    match s.phase i with
    | .publishing => s.release i
    | _ => s
  | .check i =>
    match s.phase i with
    | .checking => s.setPhase i (.returned s.cache)
    | _ => s

/-- The load that ends in an event. -/
def workOf (s : Flight A) : Event R → Option R
  | .work i r =>
    match s.phase i with
    | .loading => some r
    | _ => none
  | _ => none

/-- What becomes of a call for a key that is refused. -/
def refuse (s : Flight A) : Event R → Flight A
  | .call i =>
    match s.phase i with
    | .idle => s.setPhase i (.returned none)
    | _ => s
  | _ => s

/-- The call has the load in its hands. -/
def Leads (s : Flight A) (i : ℕ) : Prop := s.phase i = .loading ∨ s.phase i = .publishing

def Active (s : Flight A) (i : ℕ) : Prop :=
  s.Leads i ∨ s.phase i = .waiting ∨ s.phase i = .checking ∨ s.phase i = .blocked

/-- What holds while every load ends with its announcement. -/
structure Orderly (s : Flight A) : Prop where
  led : ∀ l, s.Leads l → (∀ i, s.Leads i → i = l) ∧
    ∃ waiters, s.inProgress = some waiters ∧ ∀ i, s.phase i = .waiting → i ∈ waiters
  free : (∀ l, ¬s.Leads l) → s.inProgress = none ∧ ∀ i, s.phase i ≠ .waiting
  unblocked : ∀ i, s.phase i ≠ .blocked
  loading : ∀ i, s.phase i = .loading → s.stored = []
  uncached : s.cache = none → s.stored = []
  stored : s.stored.length ≤ 1

variable {put : Option A → A → A} {load : R → Ending A} {s : Flight A}

theorem orderly_start : ({} : Flight A).Orderly := by
  constructor <;> simp [Leads]

@[simp] theorem phase_setPhase (i : ℕ) (p : Phase A) (j : ℕ) :
    (s.setPhase i p).phase j = if j = i then p else s.phase j := by
  simp [setPhase, update_apply]

variable {i : ℕ} {p : Phase A} {S : R → Prop} {r : R}

theorem leads_setPhase (j : ℕ) :
    (s.setPhase i p).Leads j ↔
      if j = i then p = .loading ∨ p = .publishing else s.Leads j := by
  unfold Leads
  rw [phase_setPhase]
  split_ifs <;> rfl

theorem leads_setPhase_iff (h : p = .loading ∨ p = .publishing ↔ s.Leads i) (j : ℕ) :
    (s.setPhase i p).Leads j ↔ s.Leads j := by
  rw [leads_setPhase]
  split_ifs with hj
  · rw [hj, h]
  · rfl

/-- A call that goes to a phase other than `q` leaves a fact about the calls in phase `q`. -/
theorem forall_phase_setPhase {q : Phase A} {C : ℕ → Prop} (hp : p ≠ q)
    (h : ∀ j, s.phase j = q → C j) : ∀ j, (s.setPhase i p).phase j = q → C j := by
  intro j hj
  rw [phase_setPhase] at hj
  split_ifs at hj
  · exact absurd hj hp
  · exact h j hj

namespace Orderly

variable (hs : s.Orderly)
include hs

/-- Without an entry nobody leads. -/
theorem not_leads (h : s.inProgress = none) (l : ℕ) : ¬s.Leads l := by
  intro hl
  obtain ⟨-, waiters, hwaiters, -⟩ := hs.led l hl
  rw [h] at hwaiters
  cases hwaiters

variable {waiters : List ℕ} {i : ℕ}

/-- With an entry somebody leads. -/
theorem exists_leads (h : s.inProgress = some waiters) : ∃ l, s.Leads l := by
  by_contra hnone
  have hfree := hs.free (not_exists.mp hnone)
  rw [h] at hfree
  cases hfree.1

/-- A call that does not lead and goes to a phase in which it neither leads nor waits. -/
theorem setPhase {p : Phase A} (hi : ¬s.Leads i) (hload : p ≠ .loading) (hpublish : p ≠ .publishing)
    (hwait : p ≠ .waiting) (hblock : p ≠ .blocked) :
    (s.setPhase i p).Orderly := by
  have hleads : ∀ j, (s.setPhase i p).Leads j ↔ s.Leads j :=
    leads_setPhase_iff (by simp [hload, hpublish, hi])
  refine ⟨fun l hl => ?_, fun hnone => ?_, forall_phase_setPhase hblock hs.unblocked,
    forall_phase_setPhase hload hs.loading, hs.uncached, hs.stored⟩
  · obtain ⟨hone, waiters, hwaiters, hmem⟩ := hs.led l ((hleads l).mp hl)
    exact ⟨fun j hj => hone j ((hleads j).mp hj), waiters, hwaiters,
      forall_phase_setPhase hwait hmem⟩
  · have hfree := hs.free fun l hl => hnone l ((hleads l).mpr hl)
    exact ⟨hfree.1, forall_phase_setPhase hwait hfree.2⟩

/-- A call joins those who wait. -/
theorem join (hi : ¬s.Leads i) (hwaiters : s.inProgress = some waiters) :
    Orderly { s.setPhase i .waiting with inProgress := some (waiters ++ [i]) } := by
  obtain ⟨l, hl⟩ := hs.exists_leads hwaiters
  have hleads : ∀ j, (s.setPhase i .waiting).Leads j ↔ s.Leads j :=
    leads_setPhase_iff (by simp [hi])
  refine ⟨fun k hk => ⟨fun j hj => ?_, _, rfl, fun j hj => ?_⟩, fun hnone => ?_,
    forall_phase_setPhase (by simp) hs.unblocked, forall_phase_setPhase (by simp) hs.loading,
    hs.uncached, hs.stored⟩
  · exact (hs.led k ((hleads k).mp hk)).1 j ((hleads j).mp hj)
  · obtain ⟨-, waiters', hwaiters', hmem⟩ := hs.led l hl
    rw [hwaiters] at hwaiters'
    cases hwaiters'
    by_cases hji : j = i
    · simp [hji]
    · have hwaits : s.phase j = .waiting := by
        simpa [hji] using (phase_setPhase i .waiting j).symm.trans hj
      exact List.mem_append_left _ (hmem j hwaits)
  · exact absurd ((hleads l).mpr hl) (hnone l)

/-- A call becomes the one that loads. -/
theorem lead (hnone : s.inProgress = none) (hcache : s.cache = none) :
    Orderly { s.setPhase i .loading with inProgress := some [] } := by
  have hleads : ∀ j, (s.setPhase i .loading).Leads j → j = i := by
    intro j hj
    rw [leads_setPhase] at hj
    split_ifs at hj with hji
    · exact hji
    · exact absurd hj (hs.not_leads hnone j)
  have hfree := hs.free (hs.not_leads hnone)
  refine ⟨fun l hl => ⟨fun j hj => (hleads j hj).trans (hleads l hl).symm, [], rfl,
    forall_phase_setPhase (by simp) fun j hj => absurd hj (hfree.2 j)⟩, fun hnot => ?_,
    forall_phase_setPhase (by simp) hs.unblocked, fun j _ => hs.uncached hcache, hs.uncached,
    hs.stored⟩
  exact absurd (.inl (by simp)) (hnot i)

theorem enter (hi : s.phase i = .idle) : (s.enter i).Orderly := by
  have hnot : ¬s.Leads i := by simp [Leads, hi]
  unfold Flight.enter
  split
  · next waiters hwaiters => exact hs.join hnot hwaiters
  · next hnone =>
    split_ifs with hcache
    · exact hs.setPhase hnot (by simp) (by simp) (by simp) (by simp)
    · exact hs.lead hnone (by simpa using hcache)

/-- The load of the leading call ends, and it stores at most one value. -/
theorem publishing (hi : s.phase i = .loading) {cache : Option A} {stored : List A}
    (hcache : cache = none → stored = []) (hstored : stored.length ≤ 1) :
    Orderly { s.setPhase i .publishing with cache, stored } := by
  have hleads : ∀ j, (s.setPhase i .publishing).Leads j ↔ s.Leads j :=
    leads_setPhase_iff (by simp [Leads, hi])
  refine ⟨fun l hl => ?_, fun hnone => ?_, forall_phase_setPhase (by simp) hs.unblocked,
    fun j hj => ?_, hcache, hstored⟩
  · obtain ⟨hone, waiters, hwaiters, hmem⟩ := hs.led l ((hleads l).mp hl)
    exact ⟨fun j hj => hone j ((hleads j).mp hj), waiters, hwaiters,
      forall_phase_setPhase (by simp) hmem⟩
  · exact absurd (.inl hi) fun h => hnone i ((hleads i).mpr h)
  · -- nobody else was loading
    have hload : s.phase j = .loading ∧ j ≠ i := by
      have hphase := (phase_setPhase i .publishing j).symm.trans hj
      split_ifs at hphase with hji
      exact ⟨hphase, hji⟩
    exact absurd ((hs.led i (.inl hi)).1 j (.inl hload.1)) hload.2

theorem work (hi : s.phase i = .loading) {e : Ending A} (he : e.Announced) :
    (s.work put i e).Orderly := by
  cases e with
  | found a =>
    have hempty := hs.loading i hi
    exact hs.publishing hi (by simp) (by simp [hempty])
  | nothing => exact hs.publishing hi hs.uncached hs.stored
  | leaves | blocks => exact he.elim

theorem release (hi : s.Leads i) : (s.release i).Orderly := by
  obtain ⟨hone, waiters, hwaiters, hmem⟩ := hs.led i hi
  have hphase : ∀ j, (s.release i).phase j =
      if j = i ∨ j ∈ waiters then .checking else s.phase j := by
    intro j
    simp [Flight.release, hwaiters]
  have hleads : ∀ j, ¬(s.release i).Leads j := by
    intro j
    unfold Leads
    rw [hphase]
    split_ifs with hj
    · simp
    · exact fun h => hj (.inl (hone j h))
  refine ⟨fun l hl => absurd hl (hleads l), fun _ => ⟨rfl, fun j => ?_⟩, fun j => ?_,
    fun j hj => absurd (.inl hj) (hleads j), hs.uncached, hs.stored⟩
  · rw [hphase]
    split_ifs with hj
    · simp
    · exact fun h => hj (.inr (hmem j h))
  · rw [hphase]
    split_ifs
    · simp
    · exact hs.unblocked j

theorem step {e : Event R} (he : ∀ i r, e = .work i r → (load r).Announced) :
    (s.step put load e).Orderly := by
  unfold Flight.step
  cases e with
  | call i =>
    dsimp only
    split
    · next hi => exact hs.enter hi
    · exact hs
  | work i r =>
    dsimp only
    split
    · next hi => exact hs.work hi (he i r rfl)
    · exact hs
  | publish i =>
    dsimp only
    split
    · next hi => exact hs.release (.inr hi)
    · exact hs
  | check i =>
    dsimp only
    split
    · next hi =>
      have hnot : ¬s.Leads i := by simp [Leads, hi]
      exact hs.setPhase hnot (by simp) (by simp) (by simp) (by simp)
    · exact hs

end Orderly

/-! ### Runs -/

section

variable (put : Option A → A → A)

theorem orderly_run (hS : ∀ r, S r → (load r).Announced) {events : List (Event R)}
    (hevents : ∀ e ∈ events, e.From S) :
    (run (step put load) events {}).Orderly := by
  have hstep : ∀ (s : Flight A) (e : Event R), e.From S → s.Orderly →
      (s.step put load e).Orderly := by
    intro s e he hs
    refine hs.step fun i r hwork => hS r ?_
    rw [hwork] at he
    exact he
  exact run_invariant hstep (along_of_forall hevents _) orderly_start

theorem run_call_work (load : R → Ending A) (r : R) :
    run (step put load) [.call 0, .work 0 r] {} =
      work put { setPhase {} 0 .loading with inProgress := some [] } 0 (load r) := by
  simp [step, enter]

/-- A load that is not announced leaves its entry behind, and nobody leads. -/
theorem run_unannounced (load : R → Ending A) (hr : ¬(load r).Announced) :
    let s := run (step put load) [.call 0, .work 0 r] {}
    s.inProgress = some [] ∧ ∀ i, ¬s.Leads i := by
  rw [run_call_work]
  cases hload : load r with
  | found a | nothing => rw [hload] at hr; exact absurd trivial hr
  | leaves | blocks =>
    refine ⟨rfl, fun i => ?_⟩
    by_cases hi : i = 0 <;> simp [work, Leads, hi]

/-- After a load that is left early its entry stands although no call is active. -/
theorem run_leaves (load : R → Ending A) (hr : load r = .leaves) :
    let s := run (step put load) [.call 0, .work 0 r] {}
    s.inProgress = some [] ∧ ∀ i, ¬s.Active i := by
  rw [run_call_work, hr]
  refine ⟨rfl, fun i => ?_⟩
  by_cases hi : i = 0 <;> simp [work, Active, Leads, hi]

end

theorem from_of_workOf {e : Event R} (he : e.From S) (hr : s.workOf e = some r) : S r := by
  cases e with
  | work i r' =>
    unfold workOf at hr
    dsimp only at hr
    split at hr
    · cases hr
      exact he
    · cases hr
  | call i | publish i | check i => cases hr

/-- Calls for a key that is refused return at once. -/
theorem run_refuse (events : List (Event R)) :
    let s := run refuse events ({} : Flight A)
    s.inProgress = none ∧ s.stored = [] ∧ ∀ i, s.phase i = .idle ∨ s.phase i = .returned none := by
  have hstep : ∀ (s : Flight A) (e : Event R), True →
      (s.inProgress = none ∧ s.stored = [] ∧ ∀ i, s.phase i = .idle ∨ s.phase i = .returned none) →
      (s.refuse e).inProgress = none ∧ (s.refuse e).stored = [] ∧
        ∀ i, (s.refuse e).phase i = .idle ∨ (s.refuse e).phase i = .returned none := by
    rintro s e - ⟨hnone, hempty, hphase⟩
    cases e with
    | call j =>
      unfold refuse
      dsimp only
      split
      · refine ⟨hnone, hempty, fun i => ?_⟩
        rw [phase_setPhase]
        split_ifs
        · exact .inr rfl
        · exact hphase i
      · exact ⟨hnone, hempty, hphase⟩
    | work j r | publish j | check j => exact ⟨hnone, hempty, hphase⟩
  exact run_invariant hstep (along_of_forall (fun _ _ => trivial) _)
    ⟨rfl, rfl, fun i => .inl rfl⟩

theorem orderly_refuse (events : List (Event R)) :
    (run refuse events ({} : Flight A)).Orderly := by
  obtain ⟨hnone, hempty, hphase⟩ := run_refuse (A := A) events
  have hnot : ∀ i p, p ≠ .idle → p ≠ .returned none →
      (run refuse events ({} : Flight A)).phase i ≠ p := by
    rintro i p hidle hreturned rfl
    rcases hphase i with h | h
    · exact hidle h
    · exact hreturned h
  have hleads : ∀ l, ¬(run refuse events ({} : Flight A)).Leads l := by
    rintro l (h | h)
    · exact hnot l _ (by simp) (by simp) h
    · exact hnot l _ (by simp) (by simp) h
  refine ⟨fun l hl => absurd hl (hleads l), fun _ => ⟨hnone, fun i => ?_⟩, fun i => ?_,
    fun _ _ => hempty, fun _ => hempty, by simp [hempty]⟩
  · exact hnot i _ (by simp) (by simp)
  · exact hnot i _ (by simp) (by simp)

/-- A waiting call goes on only when the leading call announces the end. -/
theorem phase_of_waiting (hi : s.phase i = .waiting) (e : Event R) :
    (s.step put load e).phase i = .waiting ∨
      ∃ l, e = .publish l ∧ s.phase l = .publishing ∧
        (s.step put load e).phase i = .checking := by
  unfold step
  cases e with
  | call j =>
    dsimp only
    split
    · next hj =>
      have hne : i ≠ j := by rintro rfl; simp [hi] at hj
      unfold enter
      split
      · simp [hne, hi]
      · split_ifs <;> simp [hne, hi]
    · exact .inl hi
  | work j r =>
    dsimp only
    split
    · next hj =>
      have hne : i ≠ j := by rintro rfl; simp [hi] at hj
      cases load r <;> simp [work, hne, hi]
    · exact .inl hi
  | publish l =>
    dsimp only
    split
    · next hl =>
      by_cases hreleased : i = l ∨ i ∈ s.inProgress.getD []
      · exact .inr ⟨l, rfl, hl, by simp [release, hreleased]⟩
      · exact .inl (by simp [release, hreleased, hi])
    · exact .inl hi
  | check j =>
    dsimp only
    split
    · next hj =>
      have hne : i ≠ j := by rintro rfl; simp [hi] at hj
      simp [hne, hi]
    · exact .inl hi

/-- When the leading call announces the end, all waiting calls go on and the entry is gone. -/
theorem Orderly.publish (hs : s.Orderly) {l : ℕ} (hl : s.phase l = .publishing) :
    (s.step put load (.publish l)).inProgress = none ∧
      ∀ i, s.phase i = .waiting → (s.step put load (.publish l)).phase i = .checking := by
  obtain ⟨-, waiters, hwaiters, hmem⟩ := hs.led l (.inr hl)
  have hstep : s.step put load (.publish l) = s.release l := by
    simp [Flight.step, hl]
  rw [hstep]
  exact ⟨rfl, fun i hi => by simp [Flight.release, hwaiters, hmem i hi]⟩

end Flight

end VolthaCore.SingleFlight
