import Mathlib.Order.Nat
import VolthaCore.Lib.Runs

/-! An entry of the data model that other cores write, too (`persisted_revision.go`, with the
operations of `node.go` and `proxy.go` on that entry). Every write of the key of the entry in
the key-value store raises its version and sends an event to the watch of the entry. The watch
loads the event into memory, unless its version is not newer than that of the revision that the
watch looked at before it waited, or the proxy of the entry has an operation in progress.

A run is an interleaving of local reads, lists and updates with remote writes and the steps of
the watch. The local operations hold the mutex of the root while they work on the tree, but the
watch does not take it. A reload copies the children of the parent, compares the copied child with
what it loads, writes the list with a new revision and drops the copied child by its hash, and each
of these is a step of its own; so are the copy, the update of the node and the write of the list in
an update. The key-value store is written after the mutex is released. -/

namespace VolthaCore.Proxies

open List Option Function Runs

section Entries

/-- A revision of the entry. `hashed` tells whether the revision had its name when it was
hashed; a cleared hash is missing. -/
structure Revision (δ : Type) where
  data : δ
  version : ℕ
  hashed : Option Bool
  deriving DecidableEq

variable {δ : Type}

/-- Revisions of an entry have the same children, so that a hash tells their data and whether
the name was hashed. -/
def Revision.hash (rev : Revision δ) : Option (Bool × δ) := rev.hashed.map (·, rev.data)

/-- The revisions of the entry by their addresses: `child` is the one in the children of the
parent, `latest` the one of the branch of the entry. The parent was hashed with this child.
The node of the entry has a proxy once the entry was updated. An entry that was dropped from the
children stays so: the new node that a later reload makes of it is left out. -/
structure Entry (δ : Type) where
  revs : ℕ → Revision δ
  next : ℕ
  child : ℕ
  latest : ℕ
  proxied : Bool
  dropped : Bool

def Entry.current (e : Entry δ) : Revision δ := e.revs e.child

/-- The data of the entry in memory. -/
def Entry.memory (e : Entry δ) : Option δ := if e.dropped then none else some e.current.data

def Entry.setRev (e : Entry δ) (r : ℕ) (rev : Revision δ) : Entry δ :=
  { e with revs := Function.update e.revs r rev }

def Entry.addRev (e : Entry δ) (rev : Revision δ) : Entry δ :=
  { e.setRev e.next rev with next := e.next + 1 }

structure Event (δ : Type) where
  data : δ
  version : ℕ
  deriving DecidableEq

/-- How far a reload is, `verifyPersistedEntry` of what it loads: it has copied the children of the
parent, with the child `c`; it has found that `c` has other data and is older; it has written the
list and has yet to drop `c`. -/
inductive Reload (δ : Type) where
  | begun (event : Event δ)
  | copied (event : Event δ) (c : ℕ)
  | compared (event : Event δ) (c : ℕ)
  | written (c : ℕ)
  deriving DecidableEq

/-- What a reload has yet to load. -/
def Reload.pending : Reload δ → Option (Event δ)
  | .begun event | .copied event _ | .compared event _ => some event
  | .written _ => none

variable [DecidableEq δ]

/-- `UpdateChildren` and `makeLatest` of the parent: an existing child with the same data stays,
and the parent only changes when its hash does. -/
def Entry.replaceChild (e : Entry δ) (r : ℕ) : Entry δ :=
  let merged := if e.current.data = (e.revs r).data then e.child else r
  if (e.revs merged).hash = e.current.hash then e else { e with child := merged }

/-- `ChildDrop` of the parent. -/
def Entry.childDrop (e : Entry δ) (hash : Option (Bool × δ)) : Entry δ :=
  if e.current.hash = hash then { e with dropped := true } else e

def Entry.doUpdate (e : Entry δ) (data : δ) : ℕ × Entry δ :=
  let latest := e.revs e.latest
  if latest.data = data then
    (e.latest, e)
  else
    let rev := ⟨data, latest.version, some true⟩
    (e.next,
      { e.addRev rev with latest := if rev.hash = latest.hash then e.latest else e.next })

/-- One step of a reload, with what is left of it. The revision that a reload makes is not seen
before it is listed. -/
def Entry.reload (e : Entry δ) : Reload δ → Entry δ × Option (Reload δ)
  | .begun event => (e, some (.copied event e.child))
  | .copied event c =>
    if (e.revs c).data ≠ event.data ∧ (e.revs c).version < event.version then
      (e, some (.compared event c))
    else if (e.revs c).version < event.version then
      (e.setRev c { e.revs c with version := event.version }, none)
    else
      (e, none)
  | .compared event c =>
    ((e.addRev ⟨event.data, event.version, some true⟩).replaceChild e.next, some (.written c))
  | .written c => (e.childDrop (e.revs c).hash, none)

/-- What a reload does with the child that it has copied, it does to the listed one: the child whose
version it raises is still listed; the child that it replaces has other data and is older; the child
that it drops is not the listed one. -/
def Reload.Keeps (e : Entry δ) : Reload δ → Prop
  | .begun _ => True
  | .copied event c =>
    (e.revs c).data = event.data → (e.revs c).version < event.version → c = e.child
  | .compared event _ => e.current.data ≠ event.data ∧ e.current.version < event.version
  | .written c => e.current.hash ≠ (e.revs c).hash

instance (e : Entry δ) (r : Reload δ) : Decidable (r.Keeps e) :=
  match r with
  | .begun _ => .isTrue trivial
  | .copied _ _ => inferInstanceAs (Decidable (_ → _ → _))
  | .compared _ _ => inferInstanceAs (Decidable (_ ∧ _))
  | .written _ => inferInstanceAs (Decidable (_ ≠ _))

end Entries

section Systems

inductive ProxyOperation where
  | none | get | list | update | watch
  deriving DecidableEq

inductive Call (δ : Type) where
  | get
  | list
  | update (data : δ)
  deriving DecidableEq

def Call.operation {δ : Type} : Call δ → ProxyOperation
  | .get => .get
  | .list => .list
  | .update _ => .update

/-- Where a local operation stands. An update has copied the children of the parent, with the child
`c`, or has the revision `r` of the node; after its work on the tree it has the data that it has yet
to store. -/
inductive Progress (δ : Type) where
  | idle
  | begun (call : Call δ)
  | reloading (reload : Reload δ)
  | updating (data : δ) (c : ℕ)
  | updated (r : ℕ)
  | worked (put : Option δ)
  deriving DecidableEq

/-- Where the watch stands. It looks at the latest revision of the entry and then waits. When the
proxy is free, it sets the operation of the proxy before it reloads. -/
inductive Watch (δ : Type) where
  | looking
  | waiting (latestRev : ℕ)
  | received (event : Event δ)
  | reserved (event : Event δ)
  | reloading (reload : Reload δ)

/-- `store` is what the key-value store has for the key and `locked` the local operation that
holds the mutex of the root. -/
structure Replica (δ : Type) where
  entry : Entry δ
  store : Event δ
  queue : List (Event δ)
  operation : ProxyOperation
  calls : ℕ → Progress δ
  locked : Option ℕ
  watch : Watch δ

inductive Move (δ : Type) where
  | begin (i : ℕ) (call : Call δ)
  | useMemory (i : ℕ)
  | read (i : ℕ)
  | reload (i : ℕ)
  | update (i : ℕ)
  | put (i : ℕ)
  | finish (i : ℕ)
  | remotePut (data : δ)
  | look
  | receive
  | check
  | flag
  | load
  deriving DecidableEq

variable {δ : Type}

def Replica.setCall (w : Replica δ) (i : ℕ) (p : Progress δ) : Replica δ :=
  { w with calls := Function.update w.calls i p }

/-- A write of the key raises its version and is sent to the watch. -/
def Replica.write (w : Replica δ) (data : δ) : Replica δ :=
  { w with
    store := ⟨data, w.store.version + 1⟩
    queue := w.queue ++ [⟨data, w.store.version + 1⟩] }

/-- The watch takes an event that is newer than the revision that it has looked at. -/
def Replica.receive (w : Replica δ) : Replica δ :=
  match w.watch, w.queue with
  | .waiting latestRev, event :: queue =>
    { w with
      queue
      watch :=
        if event.version ≤ (w.entry.revs latestRev).version then .looking else .received event }
  | _, _ => w

/-- An event is skipped while the proxy of the entry has an operation in progress. -/
def Replica.check (w : Replica δ) : Replica δ :=
  match w.watch with
  | .received event =>
    if !w.entry.proxied then { w with watch := .reloading (.begun event) }
    else if w.operation = .none then { w with watch := .reserved event }
    else { w with watch := .looking }
  | _ => w

/-- The proxy is left with the operation of the watch. -/
def Replica.flag (w : Replica δ) : Replica δ :=
  match w.watch with
  | .reserved event => { w with watch := .reloading (.begun event), operation := .watch }
  | _ => w

/-- An entry that was loaded or added: memory has what the key-value store has. -/
def Replica.initial (data : δ) (version : ℕ) (hashed : Option Bool) (proxied : Bool) :
    Replica δ where
  entry := ⟨fun _ => ⟨data, version, hashed⟩, 1, 0, 0, proxied, false⟩
  store := ⟨data, version⟩
  queue := []
  operation := .none
  calls _ := .idle
  locked := none
  watch := .looking

variable [DecidableEq δ]

def Replica.load (w : Replica δ) : Replica δ :=
  match w.watch with
  | .reloading reload =>
    match w.entry.reload reload with
    | (entry, none) => { w with entry, watch := .looking }
    | (entry, some reload) => { w with entry, watch := .reloading reload }
  | _ => w

/-- A local operation that has ended its reload releases the mutex. -/
def Replica.reload (w : Replica δ) (i : ℕ) : Replica δ :=
  match w.calls i with
  | .reloading reload =>
    match w.entry.reload reload with
    | (entry, none) => { w with entry, locked := none }.setCall i (.worked none)
    | (entry, some reload) => { w with entry }.setCall i (.reloading reload)
  | _ => w

/-- One step of the work of an update on the tree. When the hash of the entry does not change, the
revision of the parent is stored and not the entry. `ChildDrop` at the end finds nothing, as the
revision has another hash than the copied child. -/
def Replica.update (w : Replica δ) (i : ℕ) : Replica δ :=
  match w.calls i, w.locked with
  | .begun (.update data), none =>
    { w with entry := { w.entry with proxied := true }, locked := some i }.setCall i
      (.updating data w.entry.child)
  | .updating data c, _ =>
    let (r, entry) := w.entry.doUpdate data
    if (entry.revs r).hash = (entry.revs c).hash then
      { w with
        entry := if r = c then entry else entry.setRev r { entry.revs r with hashed := none }
        locked := none }.setCall i (.worked none)
    else
      { w with entry }.setCall i (.updated r)
  | .updated r, _ =>
    { w with entry := w.entry.replaceChild r, locked := none }.setCall i
      (.worked (some (w.entry.revs r).data))
  | _, _ => w

def Replica.step (w : Replica δ) : Move δ → Replica δ
  | .begin i call =>
    match w.calls i with
    | .idle => { w with operation := call.operation }.setCall i (.begun call)
    | _ => w
  | .useMemory i =>
    -- a read that the cache or the tree answers
    match w.calls i, w.locked with
    | .begun .get, none => w.setCall i (.worked none)
    | _, _ => w
  | .read i =>
    match w.calls i, w.locked with
    | .begun .get, none | .begun .list, none =>
      { w with locked := some i }.setCall i (.reloading (.begun w.store))
    | _, _ => w
  | .reload i => w.reload i
  | .update i => w.update i
  | .put i =>
    match w.calls i with
    | .worked (some data) => (w.write data).setCall i (.worked none)
    | _ => w
  | .finish i =>
    match w.calls i with
    | .worked none => { w with operation := .none }.setCall i .idle
    | _ => w
  | .remotePut data => w.write data
  | .look =>
    match w.watch with
    | .looking => { w with watch := .waiting w.entry.latest }
    | _ => w
  | .receive => w.receive
  | .check => w.check
  | .flag => w.flag
  | .load => w.load

end Systems

section Coherence

variable {δ : Type}

/-- Addresses that are in use. -/
structure Entry.Valid (e : Entry δ) : Prop where
  child_lt : e.child < e.next
  latest_lt : e.latest < e.next
  listed : e.dropped = false

theorem Entry.addRev_revs_of_lt (e : Entry δ) (rev : Revision δ) {r : ℕ} (h : r < e.next) :
    (e.addRev rev).revs r = e.revs r := by
  simp [Entry.addRev, Entry.setRev, h.ne]

theorem Entry.addRev_revs_next (e : Entry δ) (rev : Revision δ) :
    (e.addRev rev).revs e.next = rev := by
  simp [Entry.addRev, Entry.setRev]

/-- Some update has changed the tree and has yet to store its data. -/
def Replica.PutPending (w : Replica δ) : Prop := ∃ i d, w.calls i = .worked (some d)

/-- The events that the watch has not dealt with. -/
def Replica.undelivered (w : Replica δ) : List (Event δ) :=
  match w.watch with
  | .received event | .reserved event => event :: w.queue
  | .reloading reload => reload.pending.toList ++ w.queue
  | _ => w.queue

/-- What was read from the key-value store, or sent by it, at some time. -/
def Event.From (event store : Event δ) : Prop :=
  event.version ≤ store.version ∧ (event.version = store.version → event.data = store.data)

/-- What memory and the key-value store have in common while every event is loaded. -/
structure Coherent (w : Replica δ) : Prop where
  valid : w.entry.Valid
  waiting_lt : ∀ r, w.watch = .waiting r → r < w.entry.next
  copied_lt : ∀ event c, w.watch = .reloading (.copied event c) → c < w.entry.next
  updated_lt : ∀ i r, w.calls i = .updated r → r < w.entry.next
  version_le : ∀ r < w.entry.next, (w.entry.revs r).version ≤ w.store.version
  newest : ∀ r < w.entry.next, (w.entry.revs r).version = w.store.version →
    w.entry.current.version = w.store.version ∨ w.PutPending
  same : w.entry.current.version = w.store.version →
    w.entry.current.data = w.store.data ∨ w.PutPending
  reloading : ∀ i reload, w.calls i = .reloading reload →
    ∀ event ∈ reload.pending, event.From w.store
  events : ∀ event ∈ w.undelivered, event.From w.store
  last : ∀ event ∈ w.undelivered.getLast?, event.version = w.store.version
  delivered : w.undelivered = [] → w.entry.current.version = w.store.version ∨ w.PutPending

variable {w : Replica δ} {i : ℕ} {p : Progress δ} {e e' : Entry δ}

theorem Replica.putPending_setCall (hi : ∀ d, w.calls i ≠ .worked (some d)) (h : w.PutPending) :
    (w.setCall i p).PutPending := by
  obtain ⟨j, d, hj⟩ := h
  have hne : j ≠ i := by
    rintro rfl
    exact hi d hj
  exact ⟨j, d, by simpa [Replica.setCall, hne] using hj⟩

theorem Replica.setCall_cases {j : ℕ} {q : Progress δ} (h : (w.setCall i p).calls j = q) :
    p = q ∨ w.calls j = q := by
  by_cases hj : j = i
  · subst hj
    exact .inl (by simpa [Replica.setCall] using h)
  · exact .inr (by simpa [Replica.setCall, hj] using h)

section

variable (h : Coherent w)
include h

theorem Coherent.setCall (hi : ∀ d, w.calls i ≠ .worked (some d))
    (hreload : ∀ reload, p = .reloading reload → ∀ event ∈ reload.pending, event.From w.store)
    (hupdated : ∀ r, p = .updated r → r < w.entry.next) : Coherent (w.setCall i p) :=
  { h with
    updated_lt j r hj := (Replica.setCall_cases hj).elim (hupdated r) (h.updated_lt j r)
    newest r hr hv := (h.newest r hr hv).imp id (Replica.putPending_setCall hi)
    same hv := (h.same hv).imp id (Replica.putPending_setCall hi)
    reloading j reload hj := (Replica.setCall_cases hj).elim (hreload reload) (h.reloading j reload)
    delivered hnil := (h.delivered hnil).imp id (Replica.putPending_setCall hi) }

/-- The flag of the proxy and the mutex are not part of what is kept. -/
theorem Coherent.congr (operation : ProxyOperation) (locked : Option ℕ) :
    Coherent { w with operation, locked } :=
  { h with }

/-- A step of the watch leaves the last of the undelivered events. -/
theorem Coherent.moveWatch (queue : List (Event δ)) (watch : Watch δ)
    (hwaiting : ∀ r, watch = .waiting r → r < w.entry.next)
    (hcopied : ∀ event c, watch = .reloading (.copied event c) → c < w.entry.next)
    (hsuffix : { w with queue, watch }.undelivered <:+ w.undelivered)
    (hdelivered : { w with queue, watch }.undelivered = [] →
      w.entry.current.version = w.store.version ∨ w.PutPending) :
    Coherent { w with queue, watch } :=
  { h with
    waiting_lt := hwaiting
    copied_lt := hcopied
    events event hevent := h.events event (hsuffix.subset hevent)
    last event hevent := by
      obtain ⟨before, heq⟩ := hsuffix
      refine h.last event ?_
      rw [← heq, getLast?_append, mem_def.mp hevent, some_or]
      rfl
    delivered := hdelivered }

/-- After a write no revision in memory has the version of the store. -/
theorem Coherent.write (data : δ) (calls : ℕ → Progress δ)
    (hcalls : ∀ i q, calls i = q → q = .worked none ∨ w.calls i = q) :
    Coherent { w.write data with calls } := by
  have hundelivered : { w.write data with calls }.undelivered =
      w.undelivered ++ [⟨data, w.store.version + 1⟩] := by
    simp only [Replica.undelivered, Replica.write]
    split <;> simp
  -- whatever there was is older than what is written
  have hold : ∀ {v : ℕ} {p : Prop}, v ≤ w.store.version →
      v ≤ w.store.version + 1 ∧ (v = w.store.version + 1 → p) := fun hv =>
    ⟨Nat.le_succ_of_le hv, fun heq => absurd heq (Nat.lt_succ_of_le hv).ne⟩
  refine ⟨h.valid, h.waiting_lt, h.copied_lt, ?_, ?_, ?_, ?_, ?_, ?_, ?_, ?_⟩
  · exact fun i r hi => h.updated_lt i r ((hcalls i _ hi).resolve_left nofun)
  · exact fun r hr => Nat.le_succ_of_le (h.version_le r hr)
  · exact fun r hr => (hold (h.version_le r hr)).2
  · exact (hold (h.version_le _ h.valid.child_lt)).2
  · intro i reload hi event hevent
    exact hold (h.reloading i reload ((hcalls i _ hi).resolve_left nofun) event hevent).1
  · intro event hevent
    rw [hundelivered, mem_append, mem_singleton] at hevent
    rcases hevent with hevent | rfl
    · exact hold (h.events event hevent).1
    · exact ⟨le_rfl, fun _ => rfl⟩
  · intro event hevent
    rw [hundelivered, getLast?_append] at hevent
    simp only [getLast?_singleton, some_or, mem_some_iff] at hevent
    rw [← hevent]
    rfl
  · intro hnil
    simp [hundelivered] at hnil

/-- An event that is not newer than some revision in memory has been loaded already, if it is the
last one. -/
theorem Coherent.of_last {event : Event δ} {queue : List (Event δ)} {r : ℕ}
    (hpending : w.undelivered = event :: queue) (hr : r < w.entry.next)
    (hold : event.version ≤ (w.entry.revs r).version) (hnil : queue = []) :
    w.entry.current.version = w.store.version ∨ w.PutPending := by
  have hlast := h.last event (by simp [hpending, hnil])
  exact h.newest r hr (le_antisymm (h.version_le r hr) (hlast ▸ hold))

theorem Coherent.receive : Coherent w.receive := by
  rw [Replica.receive]
  split
  · rename_i latestRev event queue hwatch hqueue
    have hpending : w.undelivered = event :: queue := by
      simp [Replica.undelivered, hwatch, hqueue]
    split_ifs with hold
    · exact h.moveWatch queue .looking nofun nofun (hpending ▸ suffix_cons event queue)
        (h.of_last hpending (h.waiting_lt latestRev hwatch) hold)
    · exact h.moveWatch queue (.received event) nofun nofun (hpending ▸ suffix_rfl) nofun
  · exact h

end

theorem coherent_initial (data : δ) (version : ℕ) (hashed : Option Bool) (proxied : Bool) :
    Coherent (Replica.initial data version hashed proxied) where
  valid := ⟨Nat.one_pos, Nat.one_pos, rfl⟩
  waiting_lt := nofun
  copied_lt := nofun
  updated_lt := nofun
  version_le _ _ := le_rfl
  newest _ _ _ := .inl rfl
  same _ := .inl rfl
  reloading := nofun
  events := nofun
  last := nofun
  delivered _ := .inl rfl

/-- The watch finds no operation in progress when it checks the proxy of the entry, and reloads do
to the listed child what they do to the copied one. -/
def Undisturbed [DecidableEq δ] (w : Replica δ) : Move δ → Prop
  | .check =>
    match w.watch with
    | .received _ => w.entry.proxied = true → w.operation = .none
    | _ => True
  | .reload i =>
    match w.calls i with
    | .reloading reload => reload.Keeps w.entry
    | _ => True
  | .load =>
    match w.watch with
    | .reloading reload => reload.Keeps w.entry
    | _ => True
  | _ => True

instance [DecidableEq δ] (w : Replica δ) (move : Move δ) : Decidable (Undisturbed w move) := by
  unfold Undisturbed
  split
  · split <;> infer_instance
  · split <;> infer_instance
  · split <;> infer_instance
  · infer_instance

section

variable (h : Coherent w)
include h

theorem Coherent.check [DecidableEq δ] (hflag : Undisturbed w .check) : Coherent w.check := by
  rw [Replica.check]
  split
  · rename_i event hwatch
    rw [Undisturbed, hwatch] at hflag
    have hpending : w.undelivered = event :: w.queue := by simp [Replica.undelivered, hwatch]
    -- the event stays undelivered until it is loaded
    by_cases hproxied : w.entry.proxied
    · rw [if_neg (by simpa using hproxied), if_pos (hflag hproxied)]
      exact h.moveWatch w.queue _ nofun nofun (hpending ▸ suffix_rfl) nofun
    · rw [if_pos (by simpa using hproxied)]
      exact h.moveWatch w.queue _ nofun nofun (hpending ▸ suffix_rfl) nofun
  · exact h

theorem Coherent.flag : Coherent w.flag := by
  rw [Replica.flag]
  split
  · rename_i event hwatch
    have hpending : w.undelivered = event :: w.queue := by simp [Replica.undelivered, hwatch]
    refine Coherent.congr (w := { w with watch := .reloading (.begun event) }) ?_ .watch w.locked
    exact h.moveWatch w.queue _ nofun nofun (hpending ▸ suffix_rfl) nofun
  · exact h

end

variable [DecidableEq δ]

/-- Something has been loaded. All revisions but the child are as they were, and the child has the
newer one of what it had and what was loaded. -/
structure Verified (e : Entry δ) (event : Event δ) (e' : Entry δ) : Prop where
  valid : e'.Valid
  next_le : e.next ≤ e'.next
  others : ∀ r < e'.next, r ≠ e'.child → r < e.next ∧ e'.revs r = e.revs r
  data_eq : e'.current.data = event.data
  version_eq : e'.current.version = event.version
  version_lt : e.current.version < event.version

section

variable {event : Event δ} (he : e.Valid) (hversion : e.current.version < event.version)
include he hversion

omit [DecidableEq δ] in
/-- A child with the same data gets the version. -/
theorem Entry.Valid.raised (hdata : e.current.data = event.data) :
    Verified e event (e.setRev e.child { e.current with version := event.version }) where
  valid := ⟨he.child_lt, he.latest_lt, he.listed⟩
  next_le := le_rfl
  others r hr hne := ⟨hr, update_of_ne hne _ _⟩
  data_eq := by simpa [Entry.setRev, Entry.current] using hdata
  version_eq := by simp [Entry.setRev, Entry.current]
  version_lt := hversion

omit hversion in
theorem Entry.Valid.replaceChild_next (hdata : e.current.data ≠ event.data) :
    (e.addRev ⟨event.data, event.version, some true⟩).replaceChild e.next =
      { e.addRev ⟨event.data, event.version, some true⟩ with child := e.next } := by
  have hcur : (e.addRev ⟨event.data, event.version, some true⟩).current = e.current :=
    e.addRev_revs_of_lt _ he.child_lt
  have hhash : (⟨event.data, event.version, some true⟩ : Revision δ).hash ≠ e.current.hash := by
    cases hh : e.current.hashed <;> simp [Revision.hash, hh, Ne.symm hdata]
  simp only [Entry.replaceChild, hcur, e.addRev_revs_next, if_neg hdata, if_neg hhash]

/-- A child with other data is replaced. -/
theorem Entry.Valid.replaced (hdata : e.current.data ≠ event.data) :
    Verified e event
      ((e.addRev ⟨event.data, event.version, some true⟩).replaceChild e.next) := by
  have hlast := e.addRev_revs_next ⟨event.data, event.version, some true⟩
  rw [he.replaceChild_next hdata]
  refine ⟨⟨Nat.lt_succ_self _, Nat.lt_succ_of_lt he.latest_lt, he.listed⟩, Nat.le_succ _, ?_, ?_,
    ?_, hversion⟩
  · intro r hr hne
    have hlt : r < e.next := lt_of_le_of_ne (Nat.lt_succ_iff.mp hr) hne
    exact ⟨hlt, e.addRev_revs_of_lt _ hlt⟩
  · exact congrArg Revision.data hlast
  · exact congrArg Revision.version hlast

end

/-- A step of a reload leaves the entry and what is pending, ends with a child that is not older,
or loads what is pending into the listed child. -/
theorem Entry.Valid.reload_cases (he : e.Valid) {reload : Reload δ} (hkeeps : reload.Keeps e) :
    (∃ rest, e.reload reload = (e, some rest) ∧ rest.pending = reload.pending ∧
        ∀ event c, rest = .copied event c → c = e.child) ∨
      (e.reload reload = (e, none) ∧ ∀ event ∈ reload.pending, ∃ c,
        reload = .copied event c ∧ event.version ≤ (e.revs c).version) ∨
      ∃ event ∈ reload.pending, ∃ e' rest, e.reload reload = (e', rest) ∧ Verified e event e' ∧
        (rest = none ∨ ∃ c, rest = some (.written c)) := by
  cases reload with
  | begun event =>
    refine .inl ⟨_, rfl, rfl, fun event' c heq => ?_⟩
    cases heq
    rfl
  | copied event c =>
    simp only [Entry.reload]
    split_ifs with hnew hold
    · exact .inl ⟨_, rfl, rfl, nofun⟩
    · have hdata : (e.revs c).data = event.data := by
        by_contra hne
        exact hnew ⟨hne, hold⟩
      obtain rfl := hkeeps hdata hold
      exact .inr (.inr ⟨event, rfl, _, _, rfl, he.raised hold hdata, .inl rfl⟩)
    · refine .inr (.inl ⟨rfl, ?_⟩)
      rintro event' ⟨⟩
      exact ⟨c, rfl, not_lt.mp hold⟩
  | compared event c =>
    exact .inr (.inr ⟨event, rfl, _, _, rfl, he.replaced hkeeps.2 hkeeps.1, .inr ⟨c, rfl⟩⟩)
  | written c => exact .inr (.inl ⟨congrArg (·, none) (if_neg hkeeps), nofun⟩)

section

variable (h : Coherent w)
include h

omit [DecidableEq δ] in
theorem Coherent.verified {event : Event δ} (hfrom : event.From w.store)
    (hv : Verified w.entry event e') : Coherent { w with entry := e' } := by
  have hcurrent : e'.current.version ≤ w.store.version := hv.version_eq ▸ hfrom.1
  have hold : w.entry.current.version ≠ w.store.version :=
    (hv.version_lt.trans_le hfrom.1).ne
  -- the child that is replaced was not the newest
  have hkept : w.entry.current.version = w.store.version ∨ w.PutPending → w.PutPending := fun h =>
    h.resolve_left hold
  refine ⟨hv.valid, fun r hr => (h.waiting_lt r hr).trans_le hv.next_le,
    fun event c hc => (h.copied_lt event c hc).trans_le hv.next_le,
    fun i r hi => (h.updated_lt i r hi).trans_le hv.next_le, ?_, ?_, ?_, h.reloading, h.events,
    h.last, fun hnil => .inr (hkept (h.delivered hnil))⟩
  · intro r hr
    by_cases hc : r = e'.child
    · subst hc
      exact hcurrent
    · obtain ⟨hlt, hsame⟩ := hv.others r hr hc
      rw [hsame]
      exact h.version_le r hlt
  · intro r hr heq
    by_cases hc : r = e'.child
    · subst hc
      exact .inl heq
    · obtain ⟨hlt, hsame⟩ := hv.others r hr hc
      rw [hsame] at heq
      exact .inr (hkept (h.newest r hlt heq))
  · intro heq
    exact .inl (hv.data_eq.trans (hfrom.2 (hv.version_eq.symm.trans heq)))

theorem Coherent.reload (hkeeps : Undisturbed w (.reload i)) : Coherent (w.reload i) := by
  rw [Replica.reload]
  split
  · rename_i reload hi
    rw [Undisturbed, hi] at hkeeps
    have hwas : ∀ d, w.calls i ≠ .worked (some d) := by simp [hi]
    have hfrom := h.reloading i reload hi
    have hend : ∀ {e'}, Coherent { w with entry := e' } →
        Coherent ({ w with entry := e', locked := none }.setCall i (.worked none)) := fun h' =>
      (h'.congr w.operation none).setCall hwas nofun nofun
    obtain ⟨rest, hreload, hpending, -⟩ | ⟨hreload, -⟩ |
      ⟨event, hevent, e', rest, hreload, hv, hrest⟩ := h.valid.reload_cases hkeeps
    · rw [hreload]
      refine h.setCall hwas (fun reload' heq => ?_) nofun
      cases heq
      rwa [hpending]
    · rw [hreload]
      exact hend h
    · rw [hreload]
      have h' := h.verified (hfrom event hevent) hv
      obtain rfl | ⟨c, rfl⟩ := hrest
      · exact hend h'
      · refine h'.setCall hwas (fun reload' heq => ?_) nofun
        cases heq
        exact nofun
  · exact h

theorem Coherent.load (hkeeps : Undisturbed w .load) : Coherent w.load := by
  rw [Replica.load]
  split
  · rename_i reload hwatch
    rw [Undisturbed, hwatch] at hkeeps
    have hpending : w.undelivered = reload.pending.toList ++ w.queue := by
      simp [Replica.undelivered, hwatch]
    obtain ⟨rest, hreload, hsame, hchild⟩ | ⟨hreload, hold⟩ |
      ⟨event, hevent, e', rest, hreload, hv, hrest⟩ := h.valid.reload_cases hkeeps
    · rw [hreload]
      have hsame : { w with watch := .reloading rest }.undelivered = w.undelivered := by
        rw [hpending, ← hsame]
        rfl
      refine h.moveWatch w.queue (.reloading rest) nofun (fun event c heq => ?_)
        (hsame ▸ suffix_rfl) (hsame ▸ h.delivered)
      cases heq
      rw [hchild event c rfl]
      exact h.valid.child_lt
    · rw [hreload]
      refine h.moveWatch w.queue .looking nofun nofun (hpending ▸ suffix_append _ _) fun hnil => ?_
      cases hevent : reload.pending with
      | none => exact h.delivered (by rw [hpending, hevent]; exact hnil)
      | some event =>
        obtain ⟨c, rfl, hc⟩ := hold event hevent
        exact h.of_last hpending (h.copied_lt event c hwatch) hc hnil
    · rw [hreload]
      have hpending : w.undelivered = event :: w.queue := by rw [hpending, hevent]; rfl
      have hfrom := h.events event (by simp [hpending])
      have hloaded : w.queue = [] → e'.current.version = w.store.version ∨ w.PutPending :=
        fun hnil => .inl (hv.version_eq.trans (h.last event (by simp [hpending, hnil])))
      have hsuffix : w.queue <:+ w.undelivered := hpending ▸ suffix_cons event w.queue
      obtain rfl | ⟨c, rfl⟩ := hrest
      · exact (h.verified hfrom hv).moveWatch w.queue .looking nofun nofun hsuffix hloaded
      · exact (h.verified hfrom hv).moveWatch w.queue (.reloading (.written c)) nofun nofun hsuffix
          hloaded
  · exact h

end

/-- The node of the entry has been updated. New revisions have versions that there were already, and
the child has what it had. -/
structure Refreshed (e e' : Entry δ) : Prop where
  valid : e'.Valid
  next_le : e.next ≤ e'.next
  versions : ∀ r < e'.next, ∃ r₀ < e.next, (e'.revs r).version = (e.revs r₀).version
  data_eq : e'.current.data = e.current.data
  version_eq : e'.current.version = e.current.version

theorem Entry.Valid.doUpdate_refreshed (he : e.Valid) (data : δ) :
    Refreshed e (e.doUpdate data).2 ∧ (e.doUpdate data).1 < (e.doUpdate data).2.next := by
  rw [Entry.doUpdate]
  dsimp only
  split
  · exact ⟨⟨he, le_rfl, fun r hr => ⟨r, hr, rfl⟩, rfl, rfl⟩, he.latest_lt⟩
  · set rev : Revision δ := ⟨data, (e.revs e.latest).version, some true⟩
    have hchild : (e.addRev rev).revs e.child = e.revs e.child :=
      e.addRev_revs_of_lt _ he.child_lt
    refine ⟨⟨⟨Nat.lt_succ_of_lt he.child_lt, ?_, he.listed⟩, Nat.le_succ _, fun r hr => ?_,
      congrArg Revision.data hchild, congrArg Revision.version hchild⟩, Nat.lt_succ_self _⟩
    · dsimp only [Entry.addRev]
      split_ifs
      · exact Nat.lt_succ_of_lt he.latest_lt
      · exact Nat.lt_succ_self _
    · rcases Nat.lt_succ_iff_lt_or_eq.mp hr with hlt | rfl
      · exact ⟨r, hlt, congrArg Revision.version (e.addRev_revs_of_lt _ hlt)⟩
      · exact ⟨e.latest, he.latest_lt,
          (congrArg Revision.version (e.addRev_revs_next rev)).trans rfl⟩

omit [DecidableEq δ] in
theorem Refreshed.clearHash (h : Refreshed e e') (r : ℕ) :
    Refreshed e (e'.setRev r { e'.revs r with hashed := none }) := by
  have hsame : ∀ s, ((e'.setRev r { e'.revs r with hashed := none }).revs s).data =
        (e'.revs s).data ∧
      ((e'.setRev r { e'.revs r with hashed := none }).revs s).version = (e'.revs s).version := by
    intro s
    by_cases hs : s = r
    · simp [Entry.setRev, hs]
    · simp [Entry.setRev, hs]
  refine ⟨⟨h.valid.child_lt, h.valid.latest_lt, h.valid.listed⟩, h.next_le, fun s hs => ?_,
    (hsame _).1.trans h.data_eq, (hsame _).2.trans h.version_eq⟩
  obtain ⟨r₀, h₀, hv⟩ := h.versions s hs
  exact ⟨r₀, h₀, (hsame s).2.trans hv⟩

theorem Entry.replaceChild_cases (e : Entry δ) (r : ℕ) :
    e.replaceChild r = e ∨ e.replaceChild r = { e with child := r } := by
  rw [Entry.replaceChild]
  split_ifs with hdata
  · exact .inl rfl
  · exact .inl rfl
  · exact .inl rfl
  · exact .inr rfl

theorem Entry.Valid.replaceChild (he : e.Valid) {r : ℕ} (hr : r < e.next) :
    (e.replaceChild r).Valid := by
  obtain heq | heq := e.replaceChild_cases r
  · rwa [heq]
  · rw [heq]
    exact ⟨hr, he.latest_lt, he.listed⟩

section

variable (h : Coherent w)
include h

omit [DecidableEq δ] in
theorem Coherent.refreshed (hr : Refreshed w.entry e') : Coherent { w with entry := e' } := by
  refine ⟨hr.valid, fun r hw => (h.waiting_lt r hw).trans_le hr.next_le,
    fun event c hc => (h.copied_lt event c hc).trans_le hr.next_le,
    fun i r hi => (h.updated_lt i r hi).trans_le hr.next_le, fun r hlt => ?_, fun r hlt hv => ?_,
    fun hv => ?_, h.reloading, h.events, h.last, fun hnil => ?_⟩
  · obtain ⟨r₀, h₀, heq⟩ := hr.versions r hlt
    exact heq.trans_le (h.version_le r₀ h₀)
  · obtain ⟨r₀, h₀, heq⟩ := hr.versions r hlt
    exact (h.newest r₀ h₀ (heq.symm.trans hv)).imp_left hr.version_eq.trans
  · exact (h.same (hr.version_eq.symm.trans hv)).imp_left hr.data_eq.trans
  · exact (h.delivered hnil).imp_left hr.version_eq.trans

/-- An update that changes the child is about to store its data. -/
theorem Coherent.replaceChild {r : ℕ} {d : δ} (hr : r < w.entry.next) :
    Coherent ({ w with entry := w.entry.replaceChild r, locked := none }.setCall i
      (.worked (some d))) := by
  have hpending : ({ w with entry := w.entry.replaceChild r, locked := none }.setCall i
      (.worked (some d))).PutPending := ⟨i, d, by simp [Replica.setCall]⟩
  obtain ⟨hrevs, hnext⟩ : (w.entry.replaceChild r).revs = w.entry.revs ∧
      (w.entry.replaceChild r).next = w.entry.next := by
    obtain heq | heq := w.entry.replaceChild_cases r <;> rw [heq] <;> exact ⟨rfl, rfl⟩
  refine ⟨h.valid.replaceChild hr, fun r hw => hnext ▸ h.waiting_lt r hw,
    fun event c hc => hnext ▸ h.copied_lt event c hc, fun j r hj => ?_, fun r hlt => ?_,
    fun _ _ _ => .inr hpending, fun _ => .inr hpending, fun j reload hj => ?_, h.events, h.last,
    fun _ => .inr hpending⟩
  · exact hnext ▸ h.updated_lt j r ((Replica.setCall_cases hj).resolve_left nofun)
  · simpa only [Replica.setCall, hrevs] using h.version_le r (hnext ▸ hlt)
  · exact h.reloading j reload ((Replica.setCall_cases hj).resolve_left nofun)

theorem Coherent.update (i : ℕ) : Coherent (w.update i) := by
  rw [Replica.update]
  split
  · rename_i data hi _
    refine Coherent.setCall (w := { w with
      entry := { w.entry with proxied := true }, locked := some i }) ?_ (by simp [hi]) nofun nofun
    exact { h with valid := ⟨h.valid.child_lt, h.valid.latest_lt, h.valid.listed⟩ }
  · rename_i data c hi
    have hwas : ∀ d, w.calls i ≠ .worked (some d) := by simp [hi]
    obtain ⟨hr, hlt⟩ := h.valid.doUpdate_refreshed data
    generalize w.entry.doUpdate data = result at *
    obtain ⟨r, e'⟩ := result
    dsimp only
    split_ifs
    · exact ((h.refreshed hr).congr w.operation none).setCall hwas nofun nofun
    · exact ((h.refreshed (hr.clearHash r)).congr w.operation none).setCall hwas nofun nofun
    · refine (h.refreshed hr).setCall hwas nofun fun r' heq => ?_
      cases heq
      exact hlt
  · rename_i r hi
    exact h.replaceChild (h.updated_lt i r hi)
  · exact h

theorem Coherent.look : Coherent (w.step .look) := by
  simp only [Replica.step]
  split
  · rename_i hwatch
    have hsame : { w with watch := .waiting w.entry.latest }.undelivered = w.undelivered := by
      simp [Replica.undelivered, hwatch]
    refine h.moveWatch w.queue _ ?_ nofun (hsame ▸ suffix_rfl) (hsame ▸ h.delivered)
    rintro r ⟨⟩
    exact h.valid.latest_lt
  · exact h

theorem Coherent.step {a : Move δ} (ha : Undisturbed w a) : Coherent (w.step a) := by
  cases a with
  | begin i call =>
    simp only [Replica.step]
    split
    · rename_i hi
      exact (h.congr call.operation w.locked).setCall (by simp [hi]) nofun nofun
    · exact h
  | useMemory i =>
    simp only [Replica.step]
    split
    · rename_i hi _
      exact h.setCall (by simp [hi]) nofun nofun
    · exact h
  | read i =>
    simp only [Replica.step]
    have hread : ∀ reload, Progress.reloading (.begun w.store) = .reloading reload →
        ∀ event ∈ reload.pending, event.From w.store := by
      rintro reload ⟨⟩ event ⟨⟩
      exact ⟨le_rfl, fun _ => rfl⟩
    split
    · rename_i hi _
      exact (h.congr w.operation (some i)).setCall (by simp [hi]) hread nofun
    · rename_i hi _
      exact (h.congr w.operation (some i)).setCall (by simp [hi]) hread nofun
    · exact h
  | reload i => exact h.reload ha
  | update i => exact h.update i
  | put i =>
    simp only [Replica.step]
    split
    · refine h.write _ _ fun j q hj => ?_
      exact (Replica.setCall_cases hj).imp_left Eq.symm
    · exact h
  | finish i =>
    simp only [Replica.step]
    split
    · rename_i hi
      exact (h.congr .none w.locked).setCall (by simp [hi]) nofun nofun
    · exact h
  | remotePut data => exact h.write data w.calls fun _ _ hi => .inr hi
  | look => exact h.look
  | receive => exact h.receive
  | check => exact h.check ha
  | flag => exact h.flag
  | load => exact h.load ha

end

/-- No event is undelivered, the watch is not dealing with one and no operation is in progress. -/
structure Replica.Quiet (w : Replica δ) : Prop where
  undelivered : w.undelivered = []
  watch : w.watch = .looking ∨ ∃ r, w.watch = .waiting r
  calls : ∀ i, w.calls i = .idle

end Coherence

section TwoWrites

/-- The watch deals with an event. -/
def loads : List (Move ℕ) := [.look, .receive, .check, .flag, .load, .load, .load, .load]

def updateThenRemotePut : List (Move ℕ) :=
  [.begin 0 (.update 1), .update 0, .update 0, .update 0, .put 0, .finish 0] ++ loads ++
    [.remotePut 2]

/-- The entry is read before a second remote write, and the list is written when the watch has
loaded both writes. -/
def readAcrossRemotePut : List (Move ℕ) :=
  [.remotePut 2, .begin 0 .get, .read 0, .reload 0, .reload 0, .remotePut 3] ++ loads ++ loads ++
    [.reload 0, .reload 0, .finish 0]

end TwoWrites

end VolthaCore.Proxies
