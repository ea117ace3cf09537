import VolthaCore.Lib.Runs

/-! Two cores receive the same request and agree on which of them serves it
(`rw_core/core/transaction.go`). Each calls `Acquired` for the transaction key of the
request. A core that may serve the request tries to reserve the key; a core that may
not, or that was too late, watches the key until the other core has completed the
request or has given it up.

A run is an interleaving of the steps of both calls with the end of the lease of the
key. The key-value store may fail to answer a call, and a timer may fire whenever the
code waits for it. -/

namespace VolthaCore.Transactions

open Runs

inductive Core where
  | first | second
  deriving DecidableEq

def Core.other : Core → Core
  | .first => .second
  | .second => .first

@[simp] theorem Core.other_other (c : Core) : c.other.other = c := by cases c <;> rfl

theorem Core.other_ne (c : Core) : c.other ≠ c := by cases c <;> decide

theorem Core.forall_of (c : Core) {P : Core → Prop} (hself : P c) (hother : P c.other) :
    ∀ d, P d := by
  cases c <;> rintro (_ | _) <;> assumption

def transactionComplete : String := "TRANSACTION-COMPLETE"

/-- The names of the cores and the transaction key. No core goes by the text that marks a
completed transaction. -/
structure Context where
  owner : Core → String
  txnKey : String
  owner_ne : owner .first ≠ owner .second
  owner_ne_complete : ∀ c, owner c ≠ transactionComplete

theorem Context.owner_other_ne (ctx : Context) (c : Core) : ctx.owner c.other ≠ ctx.owner c := by
  cases c with
  | first => exact ctx.owner_ne.symm
  | second => exact ctx.owner_ne

inductive Event where
  | put (key value : String)
  | delete
  deriving DecidableEq

/-- Where a call of `Acquired` stands. -/
inductive Stage where
  | idle
  | reserving
  | opening
  | reading
  | waiting
  | deleting
  | returned (acquired : Bool)
  deriving DecidableEq

/-- A core: `events` are those of its watch that it has not received, `wasAcquired` is set once
it has seen the key, `monitored` once it has reserved the key and `completed` once it has marked
the transaction as complete. -/
structure CoreState where
  stage : Stage
  events : List Event
  wasAcquired : Bool
  monitored : Bool
  closed : Bool
  completed : Bool

structure World where
  key : Option String
  cores : Core → CoreState

def CoreState.initial : CoreState := ⟨.idle, [], false, false, false, false⟩

/-- A fresh transaction id: nobody has called yet and the key does not exist. -/
def World.initial : World := ⟨none, fun _ => .initial⟩

/-- One step. The flags tell whether the key-value store answers. -/
inductive Action where
  | call (c : Core) (ownedByMe : Option Bool)
  | reserve (c : Core) (ok : Bool)
  | watch (c : Core)
  | read (c : Core) (ok : Bool)
  | receive (c : Core)
  | timeout (c : Core)
  | delete (c : Core) (ok : Bool)
  | close (c : Core) (ok : Bool)
  | expire
  deriving DecidableEq

def Stage.isWatching : Stage → Bool
  | .reading | .waiting | .deleting => true
  | _ => false

def World.setCore (w : World) (c : Core) (s : CoreState) : World :=
  { w with cores := Function.update w.cores c s }

def World.setStage (w : World) (c : Core) (stage : Stage) : World :=
  w.setCore c { w.cores c with stage }

/-- Every watch is told about a change of the key. -/
def World.notify (w : World) (key : Option String) (event : Event) : World where
  key
  cores c :=
    if (w.cores c).stage.isWatching then
      { w.cores c with events := (w.cores c).events ++ [event] }
    else
      w.cores c

variable (ctx : Context)

def World.put (w : World) (value : String) : World :=
  w.notify (some value) (.put ctx.txnKey value)

def World.delete (w : World) : World :=
  if w.key = none then w else w.notify none .delete

/-- `tryToReserveTxn`: take the key when it does not exist. -/
def tryToReserveTxn (w : World) (c : Core) (ok : Bool) : World :=
  if !ok then
    w.setStage c .opening
  else
    match w.key with
    | none =>
      (w.put ctx (ctx.owner c)).setCore c
        { w.cores c with stage := .returned true, monitored := true }
    | some value =>
      if value = ctx.owner c then
        w.setCore c { w.cores c with stage := .returned true, monitored := true }
      else
        w.setStage c .opening

def readKey (w : World) (c : Core) (ok : Bool) : World :=
  match if ok then w.key else none with
  | none => w.setStage c .waiting
  | some value =>
    w.setCore c
      { w.cores c with
        wasAcquired := true
        stage := if value = transactionComplete then .deleting else .waiting }

def afterEvent : Event → Stage
  | .delete => .returned true
  | .put key value =>
    if key = ctx.txnKey then
      if value = transactionComplete then .deleting else .waiting
    else
      .returned false

def receiveEvent (w : World) (c : Core) : World :=
  match (w.cores c).events with
  | [] => w
  | event :: events =>
    w.setCore c { w.cores c with events, wasAcquired := true, stage := afterEvent ctx event }

/-- A core whose watch has shown nothing takes over; it does not reserve the key. -/
def timeOut (w : World) (c : Core) : World :=
  if (w.cores c).wasAcquired then w else w.setStage c (.returned true)

/-- Only a core that has reserved the key marks the transaction as complete. -/
def closeTxn (w : World) (c : Core) (ok : Bool) : World :=
  if (w.cores c).monitored ∧ ok then
    (w.put ctx transactionComplete).setCore c { w.cores c with closed := true, completed := true }
  else
    w.setCore c { w.cores c with closed := true }

/-- A step that is not due leaves the world as it is. -/
def step (w : World) : Action → World
  | .call c ownedByMe =>
    if (w.cores c).stage = .idle then
      w.setStage c (if ownedByMe = some false then .opening else .reserving)
    else w
  | .reserve c ok => if (w.cores c).stage = .reserving then tryToReserveTxn ctx w c ok else w
  | .watch c => if (w.cores c).stage = .opening then w.setStage c .reading else w
  | .read c ok => if (w.cores c).stage = .reading then readKey w c ok else w
  | .receive c => if (w.cores c).stage = .waiting then receiveEvent ctx w c else w
  | .timeout c => if (w.cores c).stage = .waiting then timeOut w c else w
  | .delete c ok =>
    if (w.cores c).stage = .deleting then
      (if ok then w.delete else w).setStage c (.returned false)
    else w
  | .close c ok =>
    if (w.cores c).stage = .returned true ∧ !(w.cores c).closed then closeTxn ctx w c ok else w
  | .expire => w.delete

/-! ### Steps of one core -/

variable {ctx} {w : World} {c d : Core} {key : Option String}

theorem keeps_of_due {P : World → Prop} {due : Prop} [Decidable due] {v : World} (h : P w)
    (hv : due → P v) : P (if due then v else w) :=
  iteInduction hv fun _ => h

@[simp] theorem World.setCore_key (s : CoreState) : (w.setCore c s).key = w.key := rfl

@[simp] theorem World.setCore_self (s : CoreState) : (w.setCore c s).cores c = s :=
  Function.update_self ..

@[simp] theorem World.setCore_other (s : CoreState) :
    (w.setCore c s).cores c.other = w.cores c.other :=
  Function.update_of_ne c.other_ne ..

@[simp] theorem World.notify_stage (key : Option String) (event : Event) :
    ((w.notify key event).cores d).stage = (w.cores d).stage := by
  unfold notify
  dsimp only
  split <;> rfl

@[simp] theorem World.notify_completed (key : Option String) (event : Event) :
    ((w.notify key event).cores d).completed = (w.cores d).completed := by
  unfold notify
  dsimp only
  split <;> rfl

/-- A core that is not watching does not see the change. -/
theorem World.setCore_notify {s : CoreState} (hs : s.stage.isWatching = false) (event : Event) :
    (w.notify key event).setCore c s = (w.setCore c s).notify key event := by
  simp only [notify, setCore, World.mk.injEq, true_and]
  exact funext (c.forall_of (by simp [hs]) (by simp [Function.update_of_ne c.other_ne]))

theorem World.mem_notify_events {event e : Event} (he : e ∈ ((w.notify key event).cores d).events) :
    e ∈ (w.cores d).events ∨ e = event ∧ (w.cores d).stage.isWatching = true := by
  unfold notify at he
  dsimp only at he
  split at he
  · rename_i hwatch
    rcases List.mem_append.mp he with he | he
    · exact .inl he
    · exact .inr ⟨List.mem_singleton.mp he, hwatch⟩
  · exact .inl he

@[simp] theorem World.delete_stage : (w.delete.cores d).stage = (w.cores d).stage := by
  unfold delete
  split_ifs
  · rfl
  · exact notify_stage ..

@[simp] theorem World.delete_key : w.delete.key = none := by
  unfold delete
  split_ifs with hkey
  · exact hkey
  · rfl

@[simp] theorem World.delete_completed :
    (w.delete.cores d).completed = (w.cores d).completed := by
  unfold delete
  split_ifs
  · rfl
  · exact notify_completed ..

/-! ### No request is lost -/

/-- Whatever marks the transaction as complete, in the key or on its way to a watch, was written
by a core that had acquired it, and a core gives up only after the other one did so. -/
structure Told (ctx : Context) (w : World) : Prop where
  acquired : ∀ c, (w.cores c).completed = true → (w.cores c).stage = .returned true
  key : w.key = some transactionComplete → ∃ c, (w.cores c).completed = true
  event : ∀ c key, .put key transactionComplete ∈ (w.cores c).events →
    ∃ d, (w.cores d).completed = true
  txnKey : ∀ c key value, .put key value ∈ (w.cores c).events → key = ctx.txnKey
  verdict : ∀ c, (w.cores c).stage = .deleting ∨ (w.cores c).stage = .returned false →
    (w.cores c.other).completed = true

open World

namespace Told

theorem initial : Told ctx .initial := by
  constructor <;> simp [World.initial, CoreState.initial]

section

variable (h : Told ctx w)
include h

/-- A core that is still in its call did not complete the transaction, so the other one did. -/
theorem other_completed (hc : (w.cores c).stage ≠ .returned true)
    (hd : ∃ d, (w.cores d).completed = true) : (w.cores c.other).completed = true := by
  obtain ⟨d, hd⟩ := hd
  revert d
  exact c.forall_of (fun hd => absurd (h.acquired c hd) hc) id

theorem setCore {s : CoreState} (hcompleted : (w.cores c).completed = true → s.completed = true)
    (hevents : ∀ e ∈ s.events, e ∈ (w.cores c).events)
    (hacquired : s.completed = true → s.stage = .returned true)
    (hverdict : s.stage = .deleting ∨ s.stage = .returned false →
      (w.cores c.other).completed = true) :
    Told ctx (w.setCore c s) := by
  have hmono : ∀ d, (w.cores d).completed = true → ((w.setCore c s).cores d).completed = true :=
    c.forall_of (by simpa using hcompleted) (by simp)
  have hmem : ∀ d, ∀ e ∈ ((w.setCore c s).cores d).events, e ∈ (w.cores d).events :=
    c.forall_of (by simpa using hevents) (by simp)
  constructor
  · exact c.forall_of (by simpa using hacquired) (by simpa using h.acquired c.other)
  · exact fun hk => (h.key hk).imp hmono
  · exact fun d key he => (h.event d key (hmem d _ he)).imp hmono
  · exact fun d key value he => h.txnKey d key value (hmem d _ he)
  · exact c.forall_of (by simpa using hverdict) fun hd => hmono _ (h.verdict _ (by simpa using hd))

theorem setStage (hc : (w.cores c).stage ≠ .returned true) {stage : Stage}
    (hverdict : stage = .deleting ∨ stage = .returned false → (w.cores c.other).completed = true) :
    Told ctx (w.setStage c stage) :=
  h.setCore id (fun _ => id) (fun hcompleted => absurd (h.acquired c hcompleted) hc) hverdict

theorem notify {event : Event}
    (hkey : key = some transactionComplete → ∃ c, (w.cores c).completed = true)
    (hevent : ∀ k v, event = .put k v →
      k = ctx.txnKey ∧ (v = transactionComplete → ∃ c, (w.cores c).completed = true)) :
    Told ctx (w.notify key event) := by
  constructor
  · simpa using h.acquired
  · simp only [notify_completed]
    exact hkey
  · intro c k he
    simp only [notify_completed]
    rcases mem_notify_events he with he | ⟨he, -⟩
    · exact h.event c k he
    · exact (hevent _ _ he.symm).2 rfl
  · intro c k v he
    rcases mem_notify_events he with he | ⟨he, -⟩
    · exact h.txnKey c k v he
    · exact (hevent _ _ he.symm).1
  · simpa using h.verdict

theorem put {value : String}
    (hvalue : value = transactionComplete → ∃ c, (w.cores c).completed = true) :
    Told ctx (w.put ctx value) := by
  refine h.notify (fun hk => hvalue (Option.some.inj hk)) fun k v he => ?_
  cases he
  exact ⟨rfl, hvalue⟩

theorem delete : Told ctx w.delete := by
  unfold World.delete
  split_ifs
  · exact h
  · exact h.notify (by simp) (by simp)

theorem tryToReserveTxn (hc : (w.cores c).stage = .reserving) (ok : Bool) :
    Told ctx (tryToReserveTxn ctx w c ok) := by
  have hstage : (w.cores c).stage ≠ .returned true := by simp [hc]
  have hreserved : Told ctx (w.setCore c
      { w.cores c with stage := .returned true, monitored := true }) :=
    h.setCore id (fun _ => id) (fun _ => rfl) (by simp)
  unfold Transactions.tryToReserveTxn
  split_ifs
  · exact h.setStage hstage (by simp)
  · split
    · rw [World.put, setCore_notify rfl]
      exact hreserved.put fun hv => absurd hv (ctx.owner_ne_complete c)
    · split_ifs
      · exact hreserved
      · exact h.setStage hstage (by simp)

theorem readKey (hc : (w.cores c).stage = .reading) (ok : Bool) :
    Told ctx (readKey w c ok) := by
  have hstage : (w.cores c).stage ≠ .returned true := by simp [hc]
  unfold Transactions.readKey
  split
  · exact h.setStage hstage (by simp)
  · rename_i value hvalue
    have hkey : w.key = some value := by
      split_ifs at hvalue
      exact hvalue
    refine h.setCore id (fun _ => id) (fun hd => absurd (h.acquired c hd) hstage) fun hv => ?_
    refine h.other_completed hstage (h.key ?_)
    split_ifs at hv with hcomplete
    · rw [hkey, hcomplete]
    · simp at hv

theorem receiveEvent (hc : (w.cores c).stage = .waiting) :
    Told ctx (receiveEvent ctx w c) := by
  have hstage : (w.cores c).stage ≠ .returned true := by simp [hc]
  unfold Transactions.receiveEvent
  split
  · exact h
  · rename_i event events hevents
    have hmem : event ∈ (w.cores c).events := by simp [hevents]
    refine h.setCore id (fun e he => ?_) (fun hd => absurd (h.acquired c hd) hstage) fun hv => ?_
    · rw [hevents]
      exact List.mem_cons_of_mem _ he
    · cases event with
      | delete => simp [afterEvent] at hv
      | put key value =>
        simp only [afterEvent, h.txnKey c key value hmem, if_true] at hv
        split_ifs at hv with hcomplete
        · exact h.other_completed hstage (h.event c key (hcomplete ▸ hmem))
        · simp at hv

theorem closeTxn (hc : (w.cores c).stage = .returned true) (ok : Bool) :
    Told ctx (closeTxn ctx w c ok) := by
  have hclosed (completed : Bool) (hdone : (w.cores c).completed = true → completed = true) :
      Told ctx (w.setCore c { w.cores c with closed := true, completed }) :=
    h.setCore hdone (fun _ => id) (fun _ => hc) (by simp [hc])
  unfold Transactions.closeTxn
  split_ifs
  · rw [World.put, setCore_notify (by simp [hc, Stage.isWatching])]
    exact (hclosed true fun _ => rfl).put fun _ => ⟨c, by simp⟩
  · exact hclosed _ id

theorem step (a : Action) : Told ctx (step ctx w a) := by
  cases a with
  | call c ownedByMe =>
    exact keeps_of_due h fun hc => h.setStage (by simp [hc]) (by split_ifs <;> simp)
  | reserve c ok => exact keeps_of_due h fun hc => h.tryToReserveTxn hc ok
  | watch c => exact keeps_of_due h fun hc => h.setStage (by simp [hc]) (by simp)
  | read c ok => exact keeps_of_due h fun hc => h.readKey hc ok
  | receive c => exact keeps_of_due h h.receiveEvent
  | timeout c =>
    refine keeps_of_due h fun hc => ?_
    unfold timeOut
    split_ifs
    · exact h
    · exact h.setStage (by simp [hc]) (by simp)
  | delete c ok =>
    refine keeps_of_due h fun hc => ?_
    split_ifs
    · refine h.delete.setStage (by simp [hc]) fun _ => ?_
      rw [delete_completed]
      exact h.verdict c (.inl hc)
    · exact h.setStage (by simp [hc]) fun _ => h.verdict c (.inl hc)
  | close c ok => exact keeps_of_due h fun hc => h.closeTxn hc.1 ok
  | expire => exact h.delete

end

theorem run (actions : List Action) :
    Told ctx (run (Transactions.step ctx) actions .initial) :=
  run_invariant (C := fun _ _ => True) (fun _ a _ h => h.step a)
    (along_of_forall (fun _ _ => trivial) _) initial

end Told

/-- In every interleaving a call returns false only after the other core had acquired the
transaction and marked it as complete, so the two calls never both return false. -/
theorem returned_false_only_after_completion (ctx : Context) (actions : List Action) :
    (∀ c, ((Runs.run (step ctx) actions .initial).cores c).stage = .returned false →
      ((Runs.run (step ctx) actions .initial).cores c.other).stage = .returned true ∧
      ((Runs.run (step ctx) actions .initial).cores c.other).completed = true) ∧
    ¬ ∀ c, ((Runs.run (step ctx) actions .initial).cores c).stage = .returned false := by
  have h : Told ctx (run (step ctx) actions .initial) := Told.run actions
  have hother : ∀ c, ((run (step ctx) actions .initial).cores c).stage = .returned false →
      ((run (step ctx) actions .initial).cores c.other).stage = .returned true ∧
      ((run (step ctx) actions .initial).cores c.other).completed = true := by
    intro c hc
    have hdone := h.verdict c (.inr hc)
    exact ⟨h.acquired _ hdone, hdone⟩
  refine ⟨hother, fun hboth => ?_⟩
  have hacquired := (hother .first (hboth .first)).1
  rw [hboth] at hacquired
  cases hacquired

/-! ### At most one core serves a request -/

/-- Timers and leases that are long enough: no timer fires before its core has seen the key, and
no lease of the key ends before both calls have returned. -/
def InTime (w : World) : Action → Prop
  | .timeout c => (w.cores c).stage = .waiting → (w.cores c).wasAcquired = true
  | .expire => w.key ≠ none → ∀ c, ∃ acquired, (w.cores c).stage = .returned acquired
  | _ => True

/-- One core at most has acquired the transaction. Its key stays until the other core has given
up, and no core that is still in its call is told of a deletion. -/
structure Exclusive (ctx : Context) (w : World) : Prop where
  told : Told ctx w
  one : ∀ c, (w.cores c).stage = .returned true → (w.cores c.other).stage ≠ .returned true
  held : ∀ c, (w.cores c).stage = .returned true →
    w.key ≠ none ∨ (w.cores c.other).stage = .returned false
  owner : ∀ c, w.key = some (ctx.owner c) → (w.cores c).stage = .returned true
  noDelete : ∀ c, (∀ acquired, (w.cores c).stage ≠ .returned acquired) →
    .delete ∉ (w.cores c).events

namespace Exclusive

theorem initial : Exclusive ctx .initial := by
  refine ⟨.initial, ?_, ?_, ?_, ?_⟩ <;> simp [World.initial, CoreState.initial]

/-- Once both calls have returned, the key is no longer needed. -/
theorem of_returned {v : World} (htold : Told ctx v) (hkey : v.key = none)
    (hreturned : ∀ d, ∃ acquired, (v.cores d).stage = .returned acquired)
    (hone : ∀ d, (v.cores d).stage = .returned true → (v.cores d.other).stage ≠ .returned true) :
    Exclusive ctx v where
  told := htold
  one := hone
  held d hd := by
    obtain ⟨acquired, ho⟩ := hreturned d.other
    cases acquired with
    | false => exact .inr ho
    | true => exact absurd ho (hone d hd)
  owner d hd := by simp [hkey] at hd
  noDelete d hd := by
    obtain ⟨acquired, hr⟩ := hreturned d
    exact absurd hr (hd acquired)

variable (h : Exclusive ctx w)
include h

theorem setCore {s : CoreState} (htold : Told ctx (w.setCore c s))
    (hcall : ∀ acquired, (w.cores c).stage ≠ .returned acquired) (hstage : s.stage ≠ .returned true)
    (hevents : ∀ e ∈ s.events, e ∈ (w.cores c).events) :
    Exclusive ctx (w.setCore c s) where
  told := htold
  one := c.forall_of (by simp [hstage]) (by simp [hstage])
  held := c.forall_of (by simp [hstage]) fun hd =>
    .inl ((h.held c.other (by simpa using hd)).resolve_right (by simpa using hcall false))
  owner := c.forall_of (fun hd => absurd (h.owner c hd) (hcall true))
    (by simpa using h.owner c.other)
  noDelete := c.forall_of (fun _ he => h.noDelete c hcall (hevents _ (by simpa using he)))
    (by simpa using h.noDelete c.other)

theorem setStage {stage : Stage} (htold : Told ctx (w.setStage c stage))
    (hcall : ∀ acquired, (w.cores c).stage ≠ .returned acquired) (hstage : stage ≠ .returned true) :
    Exclusive ctx (w.setStage c stage) :=
  h.setCore htold hcall hstage fun _ => id

theorem tryToReserveTxn (hc : (w.cores c).stage = .reserving) (ok : Bool) :
    Exclusive ctx (tryToReserveTxn ctx w c ok) := by
  have hcall : ∀ acquired, (w.cores c).stage ≠ .returned acquired := by simp [hc]
  have htold := h.told.tryToReserveTxn hc ok
  cases ok with
  | false => exact h.setStage htold hcall (by simp)
  | true =>
    cases hkey : w.key with
    | none =>
      -- the key is free, so the other core has not acquired it
      have hother : (w.cores c.other).stage ≠ .returned true := fun ho => by
        simpa [hkey, hcall] using h.held _ ho
      simp only [Transactions.tryToReserveTxn, hkey, Bool.not_true, Bool.false_eq_true,
        if_false] at htold ⊢
      refine ⟨htold, c.forall_of ?_ ?_, fun d _ => .inl (by simp [World.put, World.notify]),
        c.forall_of ?_ ?_, c.forall_of ?_ ?_⟩
      · simpa [World.put] using hother
      · simp [World.put, hother]
      · simp
      · exact fun hd => absurd (Option.some.inj hd).symm (ctx.owner_other_ne c)
      · simp
      · intro hd he
        rw [setCore_other] at hd he
        rcases mem_notify_events he with he | ⟨he, -⟩
        · exact h.noDelete _ (by simpa [World.put] using hd) he
        · cases he
    | some value =>
      simp only [Transactions.tryToReserveTxn, hkey, Bool.not_true, Bool.false_eq_true,
        if_false] at htold ⊢
      split_ifs at htold ⊢ with howner
      · exact absurd (h.owner c (howner ▸ hkey)) (hcall true)
      · exact h.setStage htold hcall (by simp)

theorem readKey (hc : (w.cores c).stage = .reading) (ok : Bool) :
    Exclusive ctx (readKey w c ok) := by
  have hcall : ∀ acquired, (w.cores c).stage ≠ .returned acquired := by simp [hc]
  have htold := h.told.readKey hc ok
  cases hkey : if ok then w.key else none with
  | none =>
    simp only [Transactions.readKey, hkey] at htold ⊢
    exact h.setStage htold hcall (by simp)
  | some value =>
    simp only [Transactions.readKey, hkey] at htold ⊢
    refine h.setCore htold hcall ?_ fun _ => id
    dsimp only
    split_ifs <;> simp

theorem receiveEvent (hc : (w.cores c).stage = .waiting) :
    Exclusive ctx (receiveEvent ctx w c) := by
  have hcall : ∀ acquired, (w.cores c).stage ≠ .returned acquired := by simp [hc]
  have htold := h.told.receiveEvent hc
  cases hevents : (w.cores c).events with
  | nil =>
    simp only [Transactions.receiveEvent, hevents]
    exact h
  | cons event events =>
    simp only [Transactions.receiveEvent, hevents] at htold ⊢
    refine h.setCore htold hcall ?_ fun e he => ?_
    · cases event with
      | delete => exact absurd (by simp [hevents]) (h.noDelete c hcall)
      | put key value =>
        dsimp only [afterEvent]
        split_ifs <;> simp
    · rw [hevents]
      exact List.mem_cons_of_mem _ he

theorem of_stages {v : World} (htold : Told ctx v)
    (hstage : ∀ d, (v.cores d).stage = (w.cores d).stage)
    (hkey : v.key = w.key ∨ v.key = some transactionComplete)
    (hevents : ∀ d, .delete ∈ (v.cores d).events → .delete ∈ (w.cores d).events) :
    Exclusive ctx v where
  told := htold
  one d hd := by
    rw [hstage] at hd ⊢
    exact h.one d hd
  held d hd := by
    rw [hstage] at hd ⊢
    rcases hkey with hkey | hkey
    · rw [hkey]
      exact h.held d hd
    · exact .inl (by simp [hkey])
  owner d hd := by
    rw [hstage]
    rcases hkey with hkey | hkey
    · exact h.owner d (hkey ▸ hd)
    · rw [hkey] at hd
      exact absurd (Option.some.inj hd).symm (ctx.owner_ne_complete d)
  noDelete d hd he := by
    simp only [hstage] at hd
    exact h.noDelete d hd (hevents d he)

theorem closeTxn (hc : (w.cores c).stage = .returned true) (ok : Bool) :
    Exclusive ctx (closeTxn ctx w c ok) := by
  have htold := h.told.closeTxn hc ok
  unfold Transactions.closeTxn at htold ⊢
  split_ifs at htold ⊢
  · refine h.of_stages htold (c.forall_of (by simp) (by simp [World.put])) (.inr rfl)
      (c.forall_of (by simp) fun he => ?_)
    rw [setCore_other] at he
    rcases mem_notify_events he with he | ⟨he, -⟩
    · exact he
    · cases he
  · exact h.of_stages htold (c.forall_of (by simp) (by simp)) (.inl rfl)
      (c.forall_of (by simp) (by simp))

/-- The core that gives up deletes the key; the other one has returned. -/
theorem delete (hc : (w.cores c).stage = .deleting) :
    Exclusive ctx (w.delete.setStage c (.returned false)) := by
  have hdone := h.told.verdict c (.inl hc)
  have hother : (w.cores c.other).stage = .returned true := h.told.acquired _ hdone
  refine of_returned (h.told.delete.setStage (by simp [hc]) fun _ => ?_) delete_key
    (c.forall_of ⟨false, ?_⟩ ⟨true, ?_⟩) (c.forall_of ?_ ?_)
  · rwa [delete_completed]
  all_goals simp [World.setStage, hother]

theorem expire (hlate : w.key ≠ none → ∀ c, ∃ acquired, (w.cores c).stage = .returned acquired) :
    Exclusive ctx w.delete := by
  by_cases hkey : w.key = none
  · rwa [World.delete, if_pos hkey]
  exact of_returned h.told.delete delete_key (by simpa using hlate hkey) (by simpa using h.one)

theorem step {a : Action} (ha : InTime w a) :
    Exclusive ctx (step ctx w a) := by
  cases a with
  | call c ownedByMe =>
    refine keeps_of_due h fun hc => ?_
    refine h.setStage (h.told.setStage (by simp [hc]) ?_) (by simp [hc]) ?_ <;>
      split_ifs <;> simp
  | reserve c ok => exact keeps_of_due h fun hc => h.tryToReserveTxn hc ok
  | watch c =>
    exact keeps_of_due h fun hc =>
      h.setStage (h.told.setStage (by simp [hc]) (by simp)) (by simp [hc]) (by simp)
  | read c ok => exact keeps_of_due h fun hc => h.readKey hc ok
  | receive c => exact keeps_of_due h h.receiveEvent
  | timeout c =>
    refine keeps_of_due h fun hc => ?_
    rwa [timeOut, if_pos (ha hc)]
  | delete c ok =>
    refine keeps_of_due h fun hc => ?_
    split_ifs
    · exact h.delete hc
    · refine h.setStage (h.told.setStage (by simp [hc]) fun _ => ?_) (by simp [hc]) (by simp)
      exact h.told.verdict c (.inl hc)
  | close c ok => exact keeps_of_due h fun hc => h.closeTxn hc.1 ok
  | expire => exact h.expire ha

end Exclusive

/-- When timers and leases are long enough, at most one of the two calls returns true. -/
theorem acquired_by_at_most_one (ctx : Context) (actions : List Action)
    (hintime : Runs.Along (step ctx) InTime actions .initial) :
    ¬ ∀ c, ((Runs.run (step ctx) actions .initial).cores c).stage = .returned true := by
  intro hboth
  have h : Exclusive ctx (run (step ctx) actions .initial) :=
    run_invariant (fun _ _ ha h => h.step ha) hintime .initial
  exact h.one .first (hboth .first) (hboth .second)

def twoCores : Context where
  owner
    | .first => "rw_core0"
    | .second => "rw_core1"
  txnKey := "service/voltha/transactions/1"
  owner_ne := by decide
  owner_ne_complete c := by cases c <;> decide

/-- The first core serves a generic request and the second one sees that it is done. -/
theorem acquired_by_first_only :
    let s := Runs.run (step twoCores)
      [.expire, .call .first none, .call .second none, .reserve .first true, .reserve .second true,
        .watch .second, .read .second true, .timeout .second, .close .first true, .receive .second,
        .delete .second true] .initial
    (s.cores .first).stage = .returned true ∧ (s.cores .second).stage = .returned false ∧
      ¬ ∀ c, (s.cores c).stage = .returned true :=
  ⟨by decide, by decide, acquired_by_at_most_one twoCores _
    ⟨fun h => absurd rfl h, trivial, trivial, trivial, trivial, trivial, trivial,
      fun _ => by decide, trivial, trivial, trivial, trivial⟩⟩

/-- The core that does not own the resource gives up waiting before the owner has reserved the
key. It takes the request over without a reservation, and the owner then reserves the key. -/
theorem both_cores_acquire :
    let s := Runs.run (step twoCores)
      [.call .first (some true), .call .second (some false), .watch .second, .read .second true,
        .timeout .second, .reserve .first true] .initial
    (s.cores .first).stage = .returned true ∧ (s.cores .second).stage = .returned true := by
  decide

end VolthaCore.Transactions
