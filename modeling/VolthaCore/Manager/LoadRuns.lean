import VolthaCore.Manager.Loading

/-! Runs of calls that load one id, of a device or of a logical device, with any
interleaving of their sections and any answers of the store. -/

namespace VolthaCore.Manager

open SingleFlight Runs Flight

variable {A R : Type}

/-- The calls that load one id, what is stored, and whether the lock of an agent stays held after
its load. -/
structure Loading (A : Type) where
  flight : Flight A := {}
  stores : Stores := {}
  lockHeld : Bool := false

namespace Loading

/-- One section of a call for an id. A call for the empty id returns at once. -/
def step (put : Option A → A → A) (load : R → Loaded A) (remove : Stores → Stores) (id : String)
    (s : Loading A) (e : Event R) : Loading A :=
  if id = "" then { s with flight := s.flight.refuse e }
  else
    let flight := s.flight.step put (fun r => (load r).ending) e
    match s.flight.workOf e with
    | none => { s with flight }
    | some r =>
      { flight
        stores := if (load r).removes then remove s.stores else s.stores
        lockHeld := s.lockHeld || (load r).lockHeld }

end Loading

/-- `addDeviceAgentToMap` keeps an agent that is there. -/
def deviceStep (deviceID : String) : Loading NewAgent → Event DeviceLoad → Loading NewAgent :=
  Loading.step (fun cached agent => cached.getD agent) (loadDevice deviceID)
    (fun stores => { stores with devices := stores.devices.erase deviceID }) deviceID

def logicalStep (lDeviceID : String) :
    Loading LogicalAgent → Event LogicalLoad → Loading LogicalAgent :=
  Loading.step (fun _ agent => agent) (loadLogicalDevice lDeviceID)
    (fun stores => { stores with logicalDevices := stores.logicalDevices.erase lDeviceID })
    lDeviceID

section Step

variable {put : Option A → A → A} {load : R → Loaded A} {remove : Stores → Stores} {id : String}

theorem flight_step (s : Loading A) (e : Event R) :
    (s.step put load remove id e).flight =
      if id = "" then s.flight.refuse e
      else s.flight.step put (fun r => (load r).ending) e := by
  unfold Loading.step
  split_ifs
  · rfl
  · dsimp only
    split <;> rfl

variable {s : Loading A} {e : Event R}

/-- The stores change only in a load that removes what is stored. -/
theorem stores_step_of_keeps
    (h : ∀ r, s.flight.workOf e = some r → id ≠ "" → (load r).removes = false) :
    (s.step put load remove id e).stores = s.stores := by
  unfold Loading.step
  split_ifs with hid
  · rfl
  · dsimp only
    split
    · rfl
    · next r hr => simp [h r hr hid]

theorem stores_step_of_removes {r : R} (hr : s.flight.workOf e = some r) (hid : id ≠ "")
    (hremoves : (load r).removes = true) :
    (s.step put load remove id e).stores = remove s.stores := by
  unfold Loading.step
  simp [hid, hr, hremoves]

theorem lockHeld_step (h : ∀ r, s.flight.workOf e = some r → id ≠ "" → (load r).lockHeld = false)
    (hs : s.lockHeld = false) : (s.step put load remove id e).lockHeld = false := by
  unfold Loading.step
  split_ifs with hid
  · exact hs
  · dsimp only
    split
    · exact hs
    · next r hr => simp [hs, h r hr hid]

theorem flight_run (events : List (Event R)) (s : Loading A) :
    (run (Loading.step put load remove id) events s).flight =
      if id = "" then run refuse events s.flight
      else run (step put fun r => (load r).ending) events s.flight := by
  induction events generalizing s with
  | nil => simp
  | cons e events ih =>
    rw [run_cons, ih, flight_step]
    split_ifs <;> rfl

/-- While every load is announced, the calls are orderly. -/
theorem orderly_flight_run {S : R → Prop}
    (hS : id = "" ∨ ∀ r, S r → (load r).ending.Announced) {events : List (Event R)}
    (hevents : ∀ e ∈ events, e.From S) (stores : Stores) :
    (run (Loading.step put load remove id) events { stores }).flight.Orderly := by
  rw [flight_run]
  split_ifs with hid
  · exact orderly_refuse events
  · exact orderly_run put (hS.resolve_left hid) hevents

theorem not_waiting_of_empty (hid : id = "") (events : List (Event R)) (stores : Stores) (i : ℕ) :
    (run (Loading.step put load remove id) events { stores }).flight.phase i ≠ .waiting := by
  rw [flight_run, if_pos hid]
  rcases (run_refuse events).2.2 i with h | h
  · exact fun hwaiting => by cases h.symm.trans hwaiting
  · exact fun hwaiting => by cases h.symm.trans hwaiting

end Step

/-! ### What is stored -/

/-- A load that destroys meets no logical device in the store. -/
def Spares (lDeviceID : String) (s : Loading LogicalAgent) (e : Event LogicalLoad) : Prop :=
  ∀ a, s.flight.workOf e = some a → lDeviceID ≠ "" → a.Destroys →
    lDeviceID ∉ s.stores.logicalDevices

variable {lDeviceID : String}

theorem stores_logicalStep_iff {s : Loading LogicalAgent} (e : Event LogicalLoad) :
    (logicalStep lDeviceID s e).stores = s.stores ↔ Spares lDeviceID s e := by
  constructor
  · intro h a ha hid hdestroys hmem
    have hstores : (logicalStep lDeviceID s e).stores = _ :=
      stores_step_of_removes ha hid (loadLogicalDevice_removes_iff.mpr hdestroys)
    rw [hstores] at h
    have herased : s.stores.logicalDevices.erase lDeviceID = s.stores.logicalDevices :=
      congrArg Stores.logicalDevices h
    rw [← herased] at hmem
    simp at hmem
  · intro h
    by_cases hdestroys : ∃ a, s.flight.workOf e = some a ∧ lDeviceID ≠ "" ∧ a.Destroys
    · obtain ⟨a, ha, hid, hdestroys⟩ := hdestroys
      have hstores : (logicalStep lDeviceID s e).stores = _ :=
        stores_step_of_removes ha hid (loadLogicalDevice_removes_iff.mpr hdestroys)
      have herased : s.stores.logicalDevices.erase lDeviceID = s.stores.logicalDevices :=
        GoMap.erase_of_notMem (h a ha hid hdestroys)
      rw [hstores, herased]
    · refine stores_step_of_keeps fun a ha hid => ?_
      rw [← Bool.not_eq_true, loadLogicalDevice_removes_iff]
      exact fun hd => hdestroys ⟨a, ha, hid, hd⟩

/-- Loading devices never changes what is stored. Loading logical devices does not change it
exactly when no load that destroys meets the logical device in the store. -/
theorem loading_keeps_stores_iff (deviceID lDeviceID : String) (stores : Stores) :
    (∀ events : List (Event DeviceLoad),
      (Runs.run (deviceStep deviceID) events { stores }).stores = stores) ∧
    ∀ events : List (Event LogicalLoad),
      (∀ before, before <+: events →
        (Runs.run (logicalStep lDeviceID) before { stores }).stores = stores) ↔
        Runs.Along (logicalStep lDeviceID) (Spares lDeviceID) events { stores } := by
  constructor
  · intro events
    have hstep : ∀ (s : Loading NewAgent) (e : Event DeviceLoad), True → s.stores = stores →
        (deviceStep deviceID s e).stores = stores := by
      rintro s e - hs
      rw [← hs]
      exact stores_step_of_keeps fun a _ _ => loadDevice_removes deviceID a
    exact run_invariant hstep (along_of_forall (fun _ _ => trivial) _) rfl
  · intro events
    have hkeeps : ∀ (s : Loading LogicalAgent) (e : Event LogicalLoad), True → True →
        s.stores = stores →
        ((logicalStep lDeviceID s e).stores = stores ↔ Spares lDeviceID s e) := by
      rintro s e - - hs
      rw [← hs]
      exact stores_logicalStep_iff e
    exact forall_prefix_iff_along (I := fun _ => True) (fun _ _ _ h => h) hkeeps
      (fun _ _ => trivial) trivial rfl

/-- A stored logical device is removed by a load in which a proxy cannot be created. -/
theorem logical_device_removed_by_load :
    let ld : LogicalDevice := { id := "ld", rootDeviceId := "olt" }
    let stores : Stores := { logicalDevices := AList.singleton "ld" ld }
    let a : LogicalLoad :=
      { lookup := .ok (.value ld), read := .ok (.value ld),
        proxies := { flows := .failed (.plain "timeout") } }
    let s := run (logicalStep "ld") [.call 0, .work 0 a, .publish 0, .check 0] { stores }
    stores.logicalDevices.lookup "ld" = some ld ∧ s.flight.phase 0 = .returned none ∧
      s.stores.logicalDevices.lookup "ld" = none := by
  decide

/-! ### Calls that wait -/

/-- When no call is loading, the entry is gone, nobody waits, and no lock is held or waited for. -/
structure Released (s : Loading LogicalAgent) : Prop where
  free : (∀ l, ¬s.flight.Leads l) →
    s.flight.inProgress = none ∧ ∀ i, s.flight.phase i ≠ .waiting
  unblocked : ∀ i, s.flight.phase i ≠ .blocked
  unlocked : s.lockHeld = false

theorem lockHeld_run {stores : Stores} {S : LogicalLoad → Prop}
    (hS : lDeviceID = "" ∨ ∀ a, S a → ¬a.Strands) {events : List (Event LogicalLoad)}
    (hevents : ∀ e ∈ events, e.From S) :
    (run (logicalStep lDeviceID) events { stores }).lockHeld = false := by
  have hstep : ∀ (s : Loading LogicalAgent) (e : Event LogicalLoad), e.From S →
      s.lockHeld = false → (logicalStep lDeviceID s e).lockHeld = false := by
    intro s e he hs
    refine lockHeld_step (fun a ha hid => ?_) hs
    rw [← Bool.not_eq_true]
    intro hlock
    exact hS.resolve_left hid a (from_of_workOf he ha) (strands_of_lockHeld hlock)
  exact run_invariant hstep (along_of_forall hevents _) rfl

/-- Loads of a logical device always release the calls that wait exactly when none of them
strands. -/
theorem load_releases_iff (lDeviceID : String) (stores : Stores) (S : LogicalLoad → Prop) :
    (∀ events : List (Event LogicalLoad), (∀ e ∈ events, e.From S) →
      Released (Runs.run (logicalStep lDeviceID) events { stores })) ↔
      lDeviceID = "" ∨ ∀ a, S a → ¬a.Strands := by
  constructor
  · intro hall
    by_cases hid : lDeviceID = ""
    · exact .inl hid
    · refine .inr fun a ha hstrands => ?_
      have hevents : ∀ e ∈ ([.call 0, .work 0 a] : List (Event LogicalLoad)), e.From S := by
        simp [Event.From, ha]
      have hunannounced : ¬(loadLogicalDevice lDeviceID a).ending.Announced :=
        fun h => loadLogicalDevice_announced_iff.mp h hstrands
      obtain ⟨hentry, hleads⟩ := run_unannounced (fun _ agent => agent)
        (fun a => (loadLogicalDevice lDeviceID a).ending) hunannounced
      have hflight :
          (run (logicalStep lDeviceID) [.call 0, .work 0 a] { stores }).flight = _ :=
        flight_run _ _
      have hfree := (hall _ hevents).free
      rw [hflight, if_neg hid] at hfree
      rw [(hfree hleads).1] at hentry
      cases hentry
  · intro hS events hevents
    have horderly : (run (logicalStep lDeviceID) events { stores }).flight.Orderly :=
      orderly_flight_run (hS.imp_right fun h a ha => loadLogicalDevice_announced_iff.mpr (h a ha))
        hevents stores
    exact ⟨horderly.free, horderly.unblocked, lockHeld_run hS hevents⟩

/-- A second call waits for ever when the first one cannot remove the logical device after a failed
start, and when it cannot read the logical device in `start`. -/
theorem second_load_waits_for_ever :
    let ld : LogicalDevice := { id := "ld", rootDeviceId := "olt" }
    let unremoved : LogicalLoad :=
      { lookup := .ok (.value ld), read := .ok (.value ld),
        proxies := { flows := .failed (.plain "timeout") }, remove := .error (.plain "timeout") }
    let unread : LogicalLoad :=
      { lookup := .ok (.value ld), read := .error (.plain "timeout") }
    let s := run (logicalStep "ld") [.call 0, .call 1, .work 0 unremoved] {}
    let t := run (logicalStep "ld") [.call 0, .call 1, .work 0 unread] {}
    (s.flight.phase 0 = .left ∧ s.flight.phase 1 = .waiting ∧ s.flight.inProgress = some [1]) ∧
      t.flight.phase 0 = .blocked ∧ t.flight.phase 1 = .waiting ∧
        t.flight.inProgress = some [1] ∧ t.lockHeld = true := by
  decide

/-- `loadDevice` is single-flight: at most one call loads and at most one agent is stored; a call
waits only while another loads, and goes on exactly when that one announces the end; and without
active calls there is no entry. -/
structure SingleFlight (deviceID : String) (s : Loading NewAgent) : Prop where
  oneLoads : ∀ i j, s.flight.Leads i → s.flight.Leads j → i = j
  oneStored : s.flight.stored.length ≤ 1
  loadAwaited : ∀ i, s.flight.phase i = .waiting → ∃ l, s.flight.Leads l
  goesOnAfter : ∀ i e, s.flight.phase i = .waiting →
    (deviceStep deviceID s e).flight.phase i = .waiting ∨
      ∃ l, e = .publish l ∧ s.flight.phase l = .publishing ∧
        (deviceStep deviceID s e).flight.phase i = .checking
  released : ∀ l, s.flight.phase l = .publishing → ∀ i, s.flight.phase i = .waiting →
    (deviceStep deviceID s (.publish l)).flight.phase i = .checking
  idle : (∀ i, ¬s.flight.Active i) → s.flight.inProgress = none

theorem SingleFlight.of_orderly {deviceID : String} {s : Loading NewAgent}
    (hs : s.flight.Orderly) (hid : deviceID = "" → ∀ i, s.flight.phase i ≠ .waiting) :
    SingleFlight deviceID s where
  oneLoads i j hi hj := (hs.led j hj).1 i hi
  oneStored := hs.stored
  loadAwaited i hi := by
    by_contra hnone
    exact (hs.free (not_exists.mp hnone)).2 i hi
  goesOnAfter i e hi := by
    have hflight : (deviceStep deviceID s e).flight = _ := flight_step s e
    rw [hflight, if_neg fun h => hid h i hi]
    exact phase_of_waiting hi e
  released l hl i hi := by
    have hflight : (deviceStep deviceID s (.publish l)).flight = _ := flight_step s _
    rw [hflight, if_neg fun h => hid h i hi]
    exact (hs.publish hl).2 i hi
  idle hnone := (hs.free fun l hl => hnone l (.inl hl)).1

/-- Loads of a device are single-flight exactly when no start of an agent fails. -/
theorem loadDevice_single_flight_iff (deviceID : String) (stores : Stores)
    (S : DeviceLoad → Prop) :
    (∀ events : List (Event DeviceLoad), (∀ e ∈ events, e.From S) →
      SingleFlight deviceID (Runs.run (deviceStep deviceID) events { stores })) ↔
      deviceID = "" ∨ ∀ a, S a → ¬a.StartFails := by
  constructor
  · intro hall
    by_cases hid : deviceID = ""
    · exact .inl hid
    · refine .inr fun a ha hfails => ?_
      have hevents : ∀ e ∈ ([.call 0, .work 0 a] : List (Event DeviceLoad)), e.From S := by
        simp [Event.From, ha]
      have hleaves : (loadDevice deviceID a).ending = .leaves := by
        obtain ⟨-, h⟩ | ⟨hstarts, -⟩ := loadDevice_cases deviceID a
        · rw [h]
        · exact absurd hfails hstarts
      obtain ⟨hentry, hactive⟩ := run_leaves (fun cached agent => cached.getD agent)
        (fun a => (loadDevice deviceID a).ending) hleaves
      have hflight : (run (deviceStep deviceID) [.call 0, .work 0 a] { stores }).flight = _ :=
        flight_run _ _
      have hidle := (hall _ hevents).idle
      rw [hflight, if_neg hid] at hidle
      rw [hidle hactive] at hentry
      cases hentry
  · intro hS events hevents
    refine .of_orderly ?_ fun hid => not_waiting_of_empty hid events stores
    exact orderly_flight_run (hS.imp_right fun h a ha => loadDevice_announced_iff.mpr (h a ha))
      hevents stores

/-- The first call cannot read the device in `start`, stops its agent and panics; the entry stays,
and with it the call that waits. -/
theorem entry_left_by_failed_start :
    let olt : ManagedDevice := { id := "olt" }
    let a : DeviceLoad := { lookup := .ok (.value olt), read := .error (.plain "timeout") }
    let s := Runs.run (deviceStep "olt") [.call 0, .work 0 a] {}
    let t := Runs.run (deviceStep "olt") [.call 0, .call 1, .work 0 a] {}
    (s.flight.phase 0 = .left ∧ s.flight.inProgress = some []) ∧
      t.flight.phase 0 = .left ∧ t.flight.phase 1 = .waiting ∧
        t.flight.inProgress = some [1] := by
  decide

end VolthaCore.Manager
