import VolthaCore.Proxies.Watches

/-! The data of a watched entry in time. Local updates, remote writes and deliveries of events
follow each other as a whole, and the state notes under which version the data in memory was
written. -/

namespace VolthaCore.Proxies

open List Function Runs

/-- Operations as a whole: updates of the entry, remote writes and deliveries of events between
them. The watch looks at the entry some time before it receives an event. -/
inductive Delivery (δ : Type) where
  | update (data : δ)
  | remotePut (data : δ)
  | look
  | deliver

variable {δ : Type}

def Delivery.moves : Delivery δ → List (Move δ)
  | .update data =>
    [.begin 0 (.update data), .update 0, .update 0, .update 0, .put 0, .finish 0]
  | .remotePut data => [.remotePut data]
  | .look => [.look]
  | .deliver => [.receive, .check, .flag, .load, .load, .load, .load]

/-- `written` is the version under which the data in memory was written to the key-value store:
that of the last update which was stored, or of the event that was loaded since. -/
structure Dated (δ : Type) where
  replica : Replica δ
  written : ℕ

def Dated.initial (data : δ) (version : ℕ) (hashed : Option Bool) (proxied : Bool) : Dated δ :=
  ⟨.initial data version hashed proxied, version⟩

/-- An update is only made when every event has been delivered. -/
def CaughtUp (s : Dated δ) : Delivery δ → Prop
  | .update _ => s.replica.queue = []
  | _ => True

/-- Between operations the undelivered events come in the order of their versions, and none is
older than the data in memory. -/
structure Ordered (s : Dated δ) : Prop where
  valid : s.replica.entry.Valid
  idle : s.replica.calls 0 = .idle
  unlocked : s.replica.locked = none
  watch : s.replica.watch = .looking ∨ ∃ r, s.replica.watch = .waiting r
  written_le : s.written ≤ s.replica.store.version
  events : ∀ ev ∈ s.replica.queue, s.written ≤ ev.version ∧ ev.version ≤ s.replica.store.version
  sorted : s.replica.queue.Pairwise fun a b => a.version < b.version

theorem ordered_initial (data : δ) (version : ℕ) (hashed : Option Bool) (proxied : Bool) :
    Ordered (Dated.initial data version hashed proxied) where
  valid := ⟨Nat.one_pos, Nat.one_pos, rfl⟩
  idle := rfl
  unlocked := rfl
  watch := .inl rfl
  written_le := le_rfl
  events ev hev := by cases hev
  sorted := .nil

variable {s : Dated δ} {w w' : Replica δ}

/-- A write adds the newest event. -/
theorem Ordered.concat (h : Ordered s) (d : δ) :
    List.Pairwise (fun a b : Event δ => a.version < b.version)
      (s.replica.queue ++ [⟨d, s.replica.store.version + 1⟩]) := by
  rw [pairwise_append]
  refine ⟨h.sorted, pairwise_singleton _ _, fun ev hev b hb => ?_⟩
  rw [mem_singleton.mp hb]
  exact Nat.lt_succ_of_le (h.events ev hev).2

variable [DecidableEq δ]

def Dated.step (s : Dated δ) (a : Delivery δ) : Dated δ :=
  let w := Runs.run Replica.step a.moves s.replica
  { replica := w
    written :=
      match a with
      | .update _ =>
        if w.store.version = s.replica.store.version then s.written else w.store.version
      | .deliver =>
        if w.entry.child = s.replica.entry.child then s.written else w.entry.current.version
      | _ => s.written }

/-- When nothing comes between its steps, a reload keeps a child that is not older and replaces or
raises one that is. -/
theorem Entry.Valid.reloaded {event : Event δ} (he : w.entry.Valid)
    (hwatch : w.watch = .reloading (.begun event)) :
    ∃ e', w.load.load.load.load = { w with entry := e', watch := .looking } ∧ e'.Valid ∧
      (e'.child = w.entry.child ∨ e'.current.version = event.version) := by
  by_cases hold : (w.entry.revs w.entry.child).version < event.version
  · by_cases hdata : (w.entry.revs w.entry.child).data = event.data
    · refine ⟨_, ?_, (he.raised hold hdata).valid, .inl rfl⟩
      simp [Replica.load, Entry.reload, hwatch, hdata, hold, Entry.current]
    · have hv := he.replaced hold hdata
      refine ⟨_, ?_, hv.valid, .inr hv.version_eq⟩
      have hchild := w.entry.addRev_revs_of_lt ⟨event.data, event.version, some true⟩ he.child_lt
      have hnext := w.entry.addRev_revs_next ⟨event.data, event.version, some true⟩
      have hhash : (⟨event.data, event.version, some true⟩ : Revision δ).hash ≠
          (w.entry.revs w.entry.child).hash := by
        cases hh : (w.entry.revs w.entry.child).hashed <;>
          simp [Revision.hash, hh, Ne.symm hdata]
      simp [Replica.load, Entry.reload, hwatch, hdata, hold, he.replaceChild_next hdata,
        Entry.childDrop, Entry.current, hchild, hnext, hhash]
  · refine ⟨w.entry, ?_, he, .inl rfl⟩
    simp [Replica.load, Entry.reload, hwatch, hold]

/-- A watch that deals with no event stays as it is. -/
theorem Replica.check_of_idle (hwatch : w.watch = .looking ∨ ∃ r, w.watch = .waiting r) :
    w.check = w ∧ w.flag = w ∧ w.load = w := by
  obtain hwatch | ⟨r, hwatch⟩ := hwatch <;>
    simp [Replica.check, Replica.flag, Replica.load, hwatch]

/-- What a delivery does: nothing, or it takes the first event, which it may load. -/
theorem deliver_cases (hvalid : w.entry.Valid)
    (hwatch : w.watch = .looking ∨ ∃ r, w.watch = .waiting r)
    (hrun : w.receive.check.flag.load.load.load.load = w') :
    w' = w ∨
      ∃ event queue, w.queue = event :: queue ∧ w'.queue = queue ∧ w'.watch = .looking ∧
        w'.store = w.store ∧ w'.calls = w.calls ∧ w'.locked = w.locked ∧ w'.entry.Valid ∧
        (w'.entry.child = w.entry.child ∨ w'.entry.current.version = event.version) := by
  subst hrun
  have hidle : ∀ {w : Replica δ}, w.watch = .looking ∨ (∃ r, w.watch = .waiting r) →
      w.check.flag.load.load.load.load = w := fun hwatch => by
    obtain ⟨hcheck, hflag, hload⟩ := Replica.check_of_idle hwatch
    rw [hcheck, hflag, hload, hload, hload, hload]
  obtain hlooking | ⟨r, hwaiting⟩ := hwatch
  · left
    rw [show w.receive = w by simp [Replica.receive, hlooking], hidle (.inl hlooking)]
  · cases hqueue : w.queue with
    | nil =>
      left
      rw [show w.receive = w by simp [Replica.receive, hwaiting, hqueue],
        hidle (.inr ⟨r, hwaiting⟩)]
    | cons event queue =>
      refine .inr ⟨event, queue, rfl, ?_⟩
      have hloaded : ∀ operation w',
          ({ w with queue, operation, watch := .reloading (.begun event) } :
            Replica δ).load.load.load.load = w' →
          w'.queue = queue ∧ w'.watch = .looking ∧ w'.store = w.store ∧ w'.calls = w.calls ∧
            w'.locked = w.locked ∧ w'.entry.Valid ∧
            (w'.entry.child = w.entry.child ∨ w'.entry.current.version = event.version) := by
        rintro operation w' rfl
        obtain ⟨e', hloads, hvalid', hchild⟩ := Entry.Valid.reloaded (w := { w with
          queue, operation, watch := .reloading (.begun event) }) hvalid rfl
        rw [hloads]
        exact ⟨rfl, rfl, rfl, rfl, rfl, hvalid', hchild⟩
      simp only [Replica.receive, hwaiting, hqueue]
      split_ifs
      · rw [hidle (.inl rfl)]
        exact ⟨rfl, rfl, rfl, rfl, rfl, hvalid, .inl rfl⟩
      · simp only [Replica.check]
        split_ifs
        · exact hloaded w.operation _ rfl
        · exact hloaded .watch _ rfl
        · exact ⟨rfl, rfl, rfl, rfl, rfl, hvalid, .inl rfl⟩

omit [DecidableEq δ] in
theorem Replica.calls_setCall (w : Replica δ) (i : ℕ) (p : Progress δ) :
    (w.setCall i p).calls i = p := update_self ..

section

variable {i r c : ℕ} {data : δ} {e : Entry δ}

theorem Replica.update_copy (hi : w.calls i = .begun (.update data)) (hunlocked : w.locked = none) :
    w.update i = { w with entry := { w.entry with proxied := true }, locked := some i }.setCall i
      (.updating data w.entry.child) := by
  unfold Replica.update
  rw [hi, hunlocked]

theorem Replica.update_node (hi : w.calls i = .updating data c)
    (hdo : w.entry.doUpdate data = (r, e)) :
    w.update i = if (e.revs r).hash = (e.revs c).hash then
        { w with
          entry := if r = c then e else e.setRev r { e.revs r with hashed := none }
          locked := none }.setCall i (.worked none)
      else { w with entry := e }.setCall i (.updated r) := by
  unfold Replica.update
  rw [hi]
  dsimp only
  rw [hdo]

theorem Replica.update_list (hi : w.calls i = .updated r) :
    w.update i = { w with entry := w.entry.replaceChild r, locked := none }.setCall i
      (.worked (some (w.entry.revs r).data)) := by
  unfold Replica.update
  rw [hi]

theorem Replica.update_worked {put : Option δ} (hi : w.calls i = .worked put) :
    w.update i = w := by
  unfold Replica.update
  rw [hi]

/-- The work of an update on the tree as a whole. -/
theorem Replica.updates (hvalid : w.entry.Valid) (hi : w.calls i = .begun (.update data))
    (hunlocked : w.locked = none) :
    ∃ e put, ((w.update i).update i).update i =
      { w with entry := e, locked := none }.setCall i (.worked put) ∧ e.Valid := by
  have hproxied : ({ w.entry with proxied := true } : Entry δ).Valid :=
    ⟨hvalid.child_lt, hvalid.latest_lt, hvalid.listed⟩
  obtain ⟨hr, hlt⟩ := hproxied.doUpdate_refreshed data
  cases hdo : ({ w.entry with proxied := true } : Entry δ).doUpdate data with | mk r e
  rw [hdo] at hr hlt
  rw [Replica.update_copy hi hunlocked, Replica.update_node (calls_setCall ..) hdo]
  split_ifs
  · refine ⟨e, none, ?_, hr.valid⟩
    rw [Replica.update_worked (calls_setCall ..)]
    simp only [Replica.setCall, update_idem]
  · refine ⟨_, none, ?_, (hr.clearHash r).valid⟩
    rw [Replica.update_worked (calls_setCall ..)]
    simp only [Replica.setCall, update_idem]
  · refine ⟨_, some (e.revs r).data, ?_, hr.valid.replaceChild hlt⟩
    rw [Replica.update_list (calls_setCall ..)]
    simp only [Replica.setCall, update_idem]

end

/-- What an update as a whole does to the key-value store: it writes the key or leaves it. -/
theorem update_cases (hvalid : w.entry.Valid) (hidle : w.calls 0 = .idle)
    (hunlocked : w.locked = none) {data : δ}
    (hrun : run Replica.step (Delivery.update data).moves w = w') :
    w'.entry.Valid ∧ w'.calls 0 = .idle ∧ w'.locked = none ∧ w'.watch = w.watch ∧
      (w'.store = w.store ∧ w'.queue = w.queue ∨
        ∃ d, w'.store = ⟨d, w.store.version + 1⟩ ∧
          w'.queue = w.queue ++ [⟨d, w.store.version + 1⟩]) := by
  subst hrun
  have hbegin : w.step (.begin 0 (.update data)) =
      { w with operation := .update }.setCall 0 (.begun (.update data)) := by
    simp only [Replica.step, hidle]
    rfl
  have hmoves : run Replica.step (Delivery.update data).moves w =
      (((((w.step (.begin 0 (.update data))).update 0).update 0).update 0).step (.put 0)).step
        (.finish 0) := rfl
  obtain ⟨e, put, hupdates, hvalid'⟩ := Replica.updates (w := w.step (.begin 0 (.update data)))
    (by rw [hbegin]; exact hvalid) (by rw [hbegin]; exact Replica.calls_setCall ..)
    (by rw [hbegin]; exact hunlocked)
  rw [hmoves, hupdates, hbegin]
  cases put with
  | none => simpa [Replica.step, Replica.setCall] using hvalid'
  | some d => simpa [Replica.step, Replica.setCall, Replica.write] using hvalid'

section

variable (h : Ordered s)
include h

theorem Ordered.deliver :
    Ordered (s.step .deliver) ∧ s.written ≤ (s.step .deliver).written := by
  have hcases := deliver_cases h.valid h.watch rfl
  have hrun : run Replica.step (Delivery.deliver : Delivery δ).moves s.replica =
      s.replica.receive.check.flag.load.load.load.load := rfl
  simp only [Dated.step, hrun]
  generalize s.replica.receive.check.flag.load.load.load.load = w at *
  obtain rfl | ⟨event, queue, hqueue, hqueue', hwatch, hstore, hcalls, hlocked, hvalid, hchild⟩ :=
    hcases
  · simp only [if_true]
    exact ⟨h, le_rfl⟩
  · obtain ⟨hwritten, hle⟩ := h.events event (by simp [hqueue])
    have hsorted := h.sorted
    rw [hqueue, pairwise_cons] at hsorted
    -- what is in memory now is not newer than the event
    have hbetween : s.written ≤
          (if w.entry.child = s.replica.entry.child then s.written else w.entry.current.version) ∧
        (if w.entry.child = s.replica.entry.child then s.written else w.entry.current.version) ≤
          event.version := by
      split_ifs with hsame
      · exact ⟨le_rfl, hwritten⟩
      · rw [hchild.resolve_left hsame]
        exact ⟨hwritten, le_rfl⟩
    refine ⟨⟨hvalid, hcalls ▸ h.idle, hlocked ▸ h.unlocked, .inl hwatch, ?_, ?_, ?_⟩, hbetween.1⟩
    · rw [hstore]
      exact hbetween.2.trans hle
    · intro ev hev
      rw [hqueue'] at hev
      rw [hstore]
      exact ⟨hbetween.2.trans (hsorted.1 ev hev).le, (h.events ev (by simp [hqueue, hev])).2⟩
    · rw [hqueue']
      exact hsorted.2

theorem Ordered.update (data : δ) (hqueue : s.replica.queue = []) :
    Ordered (s.step (.update data)) ∧ s.written ≤ (s.step (.update data)).written := by
  have hsorted := h.concat
  have hle := h.written_le
  simp only [Dated.step]
  obtain ⟨hvalid, hidle, hlocked, hwatch, hkey⟩ :=
    update_cases h.valid h.idle h.unlocked (rfl : _ = run _ (Delivery.update data).moves _)
  generalize run Replica.step (Delivery.update data).moves s.replica = w at *
  obtain ⟨hstore, hsame⟩ | ⟨d, hstore, hnew⟩ := hkey
  · rw [if_pos (by rw [hstore])]
    refine ⟨⟨hvalid, hidle, hlocked, hwatch ▸ h.watch, ?_, ?_, ?_⟩, le_rfl⟩
    · exact hstore ▸ hle
    · rw [hstore, hsame]
      exact h.events
    · rw [hsame]
      exact h.sorted
  · have hversion : w.store.version = s.replica.store.version + 1 := by rw [hstore]
    rw [if_neg (by omega)]
    refine ⟨⟨hvalid, hidle, hlocked, hwatch ▸ h.watch, le_rfl, ?_, ?_⟩, by omega⟩
    · intro ev hev
      rw [hnew, hqueue, nil_append, mem_singleton] at hev
      simp only [hev, hversion]
      exact ⟨le_rfl, le_rfl⟩
    · rw [hnew]
      exact hsorted d

theorem Ordered.remotePut (data : δ) : Ordered (s.step (.remotePut data)) := by
  refine ⟨h.valid, h.idle, h.unlocked, h.watch, Nat.le_succ_of_le h.written_le, ?_, h.concat data⟩
  intro ev hev
  rcases mem_append.mp hev with hev | hev
  · exact ⟨(h.events ev hev).1, Nat.le_succ_of_le (h.events ev hev).2⟩
  · rw [mem_singleton.mp hev]
    exact ⟨Nat.le_succ_of_le h.written_le, le_rfl⟩

theorem Ordered.look : Ordered (s.step .look) := by
  obtain hwatch | ⟨r, hwatch⟩ := h.watch
  · have hstep : s.step .look =
        ⟨{ s.replica with watch := .waiting s.replica.entry.latest }, s.written⟩ := by
      simp [Dated.step, Delivery.moves, Replica.step, hwatch]
    rw [hstep]
    exact ⟨h.valid, h.idle, h.unlocked, .inr ⟨_, rfl⟩, h.written_le, h.events, h.sorted⟩
  · have hstep : s.step .look = s := by
      simp [Dated.step, Delivery.moves, Replica.step, hwatch]
    rw [hstep]
    exact h

theorem Ordered.step {a : Delivery δ} (ha : CaughtUp s a) :
    Ordered (s.step a) ∧ s.written ≤ (s.step a).written := by
  cases a with
  | update data => exact h.update data ha
  | remotePut data => exact ⟨h.remotePut data, le_rfl⟩
  | look => exact ⟨h.look, le_rfl⟩
  | deliver => exact h.deliver

end

/-- When updates are only made after every event has been delivered, no step replaces the data
in memory by data that was written before. -/
theorem memory_moves_forward (data : δ) (version : ℕ) (hashed : Option Bool) (proxied : Bool)
    (actions : List (Delivery δ)) (a : Delivery δ)
    (h : Runs.Along Dated.step CaughtUp (actions ++ [a]) (.initial data version hashed proxied)) :
    (Runs.run Dated.step actions (.initial data version hashed proxied)).written ≤
      ((Runs.run Dated.step actions (.initial data version hashed proxied)).step a).written := by
  obtain ⟨hbefore, ha, -⟩ := along_append.mp h
  have hordered : Ordered (run Dated.step actions (.initial data version hashed proxied)) :=
    run_invariant (P := Ordered) (fun _ _ ha hs => (hs.step ha).1) hbefore
      (ordered_initial ..)
  exact (hordered.step ha).2

theorem memory_moves_forward_two :
    Runs.Along Dated.step CaughtUp ([.update 1, .look, .deliver, .update 2, .look] ++ [.deliver])
        (.initial 0 1 (some false) false) ∧
      (Runs.run Dated.step [.update 1, .look, .deliver, .update 2, .look]
        (.initial 0 1 (some false) false)).written ≤
      ((Runs.run Dated.step [.update 1, .look, .deliver, .update 2, .look]
        (.initial 0 1 (some false) false)).step .deliver).written := by
  have halong : Runs.Along Dated.step CaughtUp
      ([.update 1, .look, .deliver, .update 2, .look] ++ [.deliver])
      (.initial 0 1 (some false) false) :=
    ⟨rfl, trivial, trivial, rfl, trivial, trivial, trivial⟩
  exact ⟨halong, memory_moves_forward 0 1 (some false) false _ .deliver halong⟩

/-- The event of the first of two updates puts its data back into memory. -/
theorem memory_goes_back :
    (Runs.run Dated.step [.update 1, .update 2, .look]
        (.initial 0 1 (some false) false)).replica.entry.current.data = 2 ∧
      ((Runs.run Dated.step [.update 1, .update 2, .look]
        (.initial 0 1 (some false) false)).step .deliver).replica.entry.current.data = 1 ∧
      ((Runs.run Dated.step [.update 1, .update 2, .look]
        (.initial 0 1 (some false) false)).step .deliver).written <
      (Runs.run Dated.step [.update 1, .update 2, .look]
        (.initial 0 1 (some false) false)).written := by
  refine ⟨rfl, rfl, by decide⟩

end VolthaCore.Proxies
