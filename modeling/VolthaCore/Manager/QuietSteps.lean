import VolthaCore.Devices.NoLostUpdates
import VolthaCore.Manager.Handlers

/-! The updates of a deletion, the handlers they trigger, and the handlers that remove no
device. -/

namespace VolthaCore.Manager

open Devices Outcome Runs Option AList GoMap SyncedAgent ManagedDevice
open List hiding after
open DeviceCall (assigns)

/-! ### Updates and the handlers they trigger -/

def childHandlers : List Handler := [.childDeviceLost, .deleteLogicalPorts, .runPostDeviceDelete]

def rootHandlers : List Handler :=
  [.disableAllChildDevices, .deleteAllChildDevices, .deleteLogicalDevice, .runPostDeviceDelete]

def deletionHandlers : (root : Bool) → AdminState → Option (List Handler)
  | _, .preprovisioned => some [.runPostDeviceDelete]
  | true, .disabled => some rootHandlers
  | false, .disabled => some childHandlers
  | false, .enabled => some childHandlers
  | _, _ => none

variable {p c : Device} {call : DeviceCall} {P : Task → Prop} {rest : List Handler} {t : Task}
  {x : String} {ids : List String} {a : ManagedAgent}

theorem getTransitionHandler_deleted (hp : p.adminState ≠ .deleted) (hc : c.adminState = .deleted) :
    getTransitionHandler p c = deletionHandlers p.root p.adminState := by
  have hne : p.adminState ≠ c.adminState := fun h => hp (h.trans hc)
  -- the rows for each kind of device and state, computed from the table
  have hrows : ∀ root state, (∀ t ∈ transitions, t.changes (kindOf root) state .deleted = true →
      t.handlers = (deletionHandlers root state).getD []) ∧
        (transitions.any (fun t => t.changes (kindOf root) state .deleted) =
          (deletionHandlers root state).isSome ∨ state = .deleted) := by
    intro root state
    cases root <;> cases state <;> decide
  obtain ⟨hhandlers, hany⟩ := hrows p.root p.adminState
  rw [← hc] at hhandlers hany
  rw [getTransitionHandler_of_change hne hhandlers, hany.resolve_right (by rw [hc]; exact hp)]
  cases deletionHandlers p.root p.adminState <;> rfl

/-- A child that is disabled triggers at most a notification. -/
theorem getTransitionHandler_disabled (hroot : p.root = false) (hp : p.adminState ≠ .disabled)
    (hc : c.adminState = .disabled) :
    getTransitionHandler p c = none ∨
      getTransitionHandler p c = some [.notifyInvalidTransition] := by
  have hne : p.adminState ≠ c.adminState := fun h => hp (h.trans hc)
  have hrows : ∀ state, ∀ t ∈ transitions, t.changes (kindOf false) state .disabled = true →
      t.handlers = [.notifyInvalidTransition] := by
    intro state
    cases state <;> decide
  rw [getTransitionHandler_of_change hne (by rw [hroot, hc]; exact hrows p.adminState)]
  split_ifs
  · exact .inr rfl
  · exact .inl rfl

/-- What an agent keeps of a device when neither its kind nor its parent is assigned. -/
structure Kin where
  id : String
  root : Bool
  parentId : String
  proxyAddress : Option ProxyAddress
  deriving DecidableEq

def ManagedAgent.kin (a : ManagedAgent) : Kin :=
  ⟨a.device.id, a.device.root, a.device.parentId, a.origin.proxyAddress⟩

def ManagedAgent.ChildOf (a : ManagedAgent) (id : String) : Prop :=
  a.device.root = false ∧ a.device.parentId = id

instance (a : ManagedAgent) (id : String) : Decidable (a.ChildOf id) :=
  inferInstanceAs (Decidable (_ ∧ _))

theorem storedDevice_kin (a : ManagedAgent) :
    (⟨a.storedDevice.id, a.storedDevice.root, a.storedDevice.parentId,
      a.storedDevice.proxyAddress⟩ : Kin) = a.kin := by
  change (⟨a.stored.id, a.stored.root, a.stored.parentId, a.origin.proxyAddress⟩ : Kin) = _
  rw [a.agree]
  rfl

theorem getDeviceStates_stored (a : SyncedAgent) :
    getDeviceStates a.stored = getDeviceStates a.device := by
  rw [a.agree]
  rfl

/-- The device of an agent after an operation is the same or the edited one. -/
theorem device_perform (call : DeviceCall) (a : ManagedAgent) :
    (a.perform call).device = a.device ∨
      (a.perform call).device = (call.plan (willingEnv false) a.device).edited a.device := by
  change (after ((call.plan (willingEnv false) a.device).execute _) a.toSyncedAgent).device = _ ∨
    (after ((call.plan (willingEnv false) a.device).execute _) a.toSyncedAgent).device = _
  obtain h | ⟨_, ⟨edited, storeFailure, answer, hplan, rfl⟩ | ⟨pm, -, rfl⟩, h⟩ :=
    after_execute (willingEnv false) (call.plan (willingEnv false) a.device) a.toSyncedAgent <;>
    rw [h]
  · exact .inl rfl
  · rw [hplan]
    exact .inr rfl
  · exact .inl rfl

theorem same_perform {φ : DeviceField} (hφ : φ ∉ call.assigns) (a : ManagedAgent) :
    a.device.Same (a.perform call).device φ := by
  rcases device_perform call a with h | h <;> rw [h]
  · cases φ <;> rfl
  · exact (plan_sound (willingEnv false) call a.device).edits.same hφ

theorem kin_perform (hroot : .root ∉ call.assigns) (hparent : .parentId ∉ call.assigns)
    (a : ManagedAgent) : (a.perform call).kin = a.kin := by
  have hid : (a.perform call).device.id = a.device.id := by
    rcases device_perform call a with h | h <;> rw [h]
    have hedits : Edits _ _ _ := (plan_sound (willingEnv false) call a.device).edits
    unfold Edits at hedits
    rw [hedits]
    rfl
  unfold ManagedAgent.kin
  rw [hid, ← show a.device.root = _ from same_perform hroot a,
    ← show a.device.parentId = _ from same_perform hparent a]
  rfl

theorem processUpdate_of_none {a b : ManagedAgent}
    (h : getTransitionHandler a.stored b.stored = none) :
    processUpdate a.storedDevice b.storedDevice = [] := by
  unfold processUpdate
  rw [show getTransitionHandler a.storedDevice.toDevice b.storedDevice.toDevice = none from h]

/-- Only a change of the states triggers handlers. -/
theorem getTransitionHandler_perform
    (h : getDeviceStates a.device = getDeviceStates (a.perform call).device) :
    getTransitionHandler a.stored (a.perform call).stored = none := by
  refine getTransitionHandler_of_same ?_
  rw [getDeviceStates_stored, getDeviceStates_stored, h]

theorem processUpdate_of_same
    (h : ∀ φ ∈ [.adminState, .operStatus, .connectStatus], φ ∉ call.assigns) (a : ManagedAgent) :
    ∀ t ∈ processUpdate a.storedDevice (a.perform call).storedDevice, P t := by
  have hstates : getDeviceStates a.device = getDeviceStates (a.perform call).device := by
    unfold getDeviceStates
    rw [← show a.device.adminState = _ from same_perform (h .adminState (by simp)) a,
      ← show a.device.operStatus = _ from same_perform (h .operStatus (by simp)) a,
      ← show a.device.connectStatus = _ from same_perform (h .connectStatus (by simp)) a]
  rw [processUpdate_of_none (getTransitionHandler_perform hstates)]
  simp

theorem perform_of_ok {state : AdminState} (a' : SyncedAgent)
    (hrun : call.run (willingEnv false) a.toSyncedAgent = .ok () a')
    (hstate : a'.device.adminState = state) :
    (a.perform call).device.adminState = state ∧
      call.run (willingEnv false) a.toSyncedAgent = .ok () (a.perform call).toSyncedAgent := by
  have hafter : (a.perform call).toSyncedAgent = a' := after_of_ok hrun
  rw [hafter]
  exact ⟨hstate, hrun⟩

theorem perform_delete (a : ManagedAgent) :
    (a.perform .deleteDevice).device.adminState = .deleted ∧
      DeviceCall.deleteDevice.run (willingEnv false) a.toSyncedAgent =
        .ok () (a.perform .deleteDevice).toSyncedAgent := by
  by_cases hdeleted : a.device.adminState = .deleted
  · refine perform_of_ok _ ?_ hdeleted
    change (deleteDevice a.device).execute _ _ = _
    rw [deleteDevice, if_pos hdeleted]
    rfl
  · refine perform_of_ok (.wrote { a.device with adminState := .deleted }) ?_ rfl
    change (deleteDevice a.device).execute _ _ = _
    rw [deleteDevice, if_neg hdeleted]
    by_cases hpre : a.device.adminState = .preprovisioned
    · rw [if_pos hpre]
      rfl
    · rw [if_neg hpre]
      rfl

/-- The handlers that a deletion triggers. -/
theorem processUpdate_delete (a : ManagedAgent) :
    processUpdate a.storedDevice (a.perform .deleteDevice).storedDevice =
      if a.device.adminState = .deleted then [] else
        match deletionHandlers a.device.root a.device.adminState with
        | none => []
        | some handlers => [⟨(a.perform .deleteDevice).storedDevice, handlers⟩] := by
  have hc : (a.perform .deleteDevice).stored.adminState = .deleted :=
    (stored_adminState _).trans (perform_delete a).1
  split_ifs with hdeleted
  · refine processUpdate_of_none (getTransitionHandler_perform ?_)
    rcases device_perform .deleteDevice a with h | h <;> rw [h]
    simp [DeviceCall.plan, deleteDevice, hdeleted, Plan.edited]
  · have hp : a.stored.adminState ≠ .deleted := by rwa [stored_adminState]
    have hroot : a.stored.root = a.device.root := by rw [a.agree]
    have hhandlers : getTransitionHandler a.storedDevice.toDevice
        (a.perform .deleteDevice).storedDevice.toDevice =
          deletionHandlers a.device.root a.device.adminState := by
      rw [← hroot, ← stored_adminState]
      exact getTransitionHandler_deleted hp hc
    unfold processUpdate
    rewrite [hhandlers]
    rfl

theorem perform_disable_failed
    (h : a.device.adminState = .preprovisioned ∨ a.device.adminState = .deleted) :
    a.perform .disableDevice = a ∧
      ∃ e, DeviceCall.disableDevice.run (willingEnv false) a.toSyncedAgent =
        .error e a.toSyncedAgent := by
  have hrun : ∃ e, DeviceCall.disableDevice.run (willingEnv false) a.toSyncedAgent =
      .error e a.toSyncedAgent := by
    refine ⟨.status .failedPrecondition
      ("deviceId:" ++ a.device.id ++ ", invalid-admin-state:" ++ a.device.adminState.name), ?_⟩
    change (disableDevice a.device).execute _ _ = _
    rw [disableDevice, if_neg (by rcases h with h | h <;> simp [h]), if_pos h]
    rfl
  obtain ⟨e, he⟩ := hrun
  refine ⟨?_, e, he⟩
  rw [ManagedAgent.perform, after_of_error he]

theorem perform_disable
    (h : ¬ (a.device.adminState = .preprovisioned ∨ a.device.adminState = .deleted)) :
    (a.perform .disableDevice).device.adminState = .disabled ∧
      DeviceCall.disableDevice.run (willingEnv false) a.toSyncedAgent =
        .ok () (a.perform .disableDevice).toSyncedAgent := by
  by_cases hdisabled : a.device.adminState = .disabled
  · refine perform_of_ok _ ?_ hdisabled
    change (disableDevice a.device).execute _ _ = _
    rw [disableDevice, if_pos hdisabled]
    rfl
  · refine perform_of_ok
      (.wrote { a.device with adminState := .disabled, operStatus := .unknown }) ?_ rfl
    change (disableDevice a.device).execute _ _ = _
    rw [disableDevice, if_neg hdisabled, if_neg h]
    rfl

/-- A handler that leaves the devices and logical devices as they are or only their ports. -/
def Harmless (t : Task) : Prop :=
  ∀ h ∈ t.handlers, h = .notifyInvalidTransition ∨ h = .deletePeerPorts

/-- A handler that reports a transition which should not have happened. -/
def Notifies (t : Task) : Prop := ∀ h ∈ t.handlers, h = .notifyInvalidTransition

theorem processUpdate_disable (hroot : a.device.root = false) :
    ∀ t ∈ processUpdate a.storedDevice (a.perform .disableDevice).storedDevice, Notifies t := by
  have hstored : a.stored.root = false := by rw [a.agree]; exact hroot
  have hcases : getTransitionHandler a.stored (a.perform .disableDevice).stored = none ∨
      getTransitionHandler a.stored (a.perform .disableDevice).stored =
        some [.notifyInvalidTransition] := by
    by_cases hfail : a.device.adminState = .preprovisioned ∨ a.device.adminState = .deleted
    · rw [(perform_disable_failed hfail).1]
      exact .inl (getTransitionHandler_of_same rfl)
    · by_cases hdisabled : a.device.adminState = .disabled
      · refine .inl (getTransitionHandler_perform ?_)
        rcases device_perform .disableDevice a with h | h <;> rw [h]
        simp [DeviceCall.plan, disableDevice, hdisabled, Plan.edited]
      · refine getTransitionHandler_disabled hstored ?_ ?_
        · rwa [stored_adminState]
        · rw [stored_adminState]
          exact (perform_disable hfail).1
  intro t ht
  rcases hcases with h | h
  · rw [processUpdate_of_none h] at ht
    cases ht
  · unfold processUpdate at ht
    rw [show getTransitionHandler a.storedDevice.toDevice
      (a.perform .disableDevice).storedDevice.toDevice = _ from h, mem_singleton] at ht
    rw [ht]
    exact fun handler hhandler => mem_singleton.mp hhandler

/-! ### Steps that remove nothing -/

variable {setup : Setup} {R : String} {core core' : Core} {device : ManagedDevice}

section

variable (core : Core) (deviceID : String) (call : DeviceCall)

theorem after_onDevice :
    after (onDevice deviceID call) core = (core.devices.lookup deviceID).elim core fun a =>
      { core with
        devices := core.devices.insert deviceID (a.perform call)
        tasks := core.tasks ++ processUpdate a.storedDevice (a.perform call).storedDevice } := by
  unfold after onDevice
  cases core.devices.lookup deviceID with
  | none => rfl
  | some a => cases hr : call.run (willingEnv false) a.toSyncedAgent <;> simp [hr]

theorem lookup_onDevice (id : String) :
    (after (onDevice deviceID call) core).devices.lookup id =
      if id = deviceID then (core.devices.lookup id).map (ManagedAgent.perform call)
      else core.devices.lookup id := by
  rw [after_onDevice]
  by_cases hid : id = deviceID
  · subst hid
    rw [if_pos rfl]
    cases ha : core.devices.lookup id <;> simp [ha]
  · rw [if_neg hid]
    cases core.devices.lookup deviceID <;> simp [lookup_insert_ne hid]

theorem mem_onDevice (id : String) :
    id ∈ (after (onDevice deviceID call) core).devices ↔ id ∈ core.devices := by
  rw [mem_iff_exists_lookup, mem_iff_exists_lookup, lookup_onDevice]
  split_ifs <;> simp

theorem onDevice_frame :
    (after (onDevice deviceID call) core).rootDevices = core.rootDevices ∧
      (after (onDevice deviceID call) core).logicalDevices = core.logicalDevices := by
  rw [after_onDevice]
  cases core.devices.lookup deviceID <;> exact ⟨rfl, rfl⟩

theorem tasks_onDevice :
    (after (onDevice deviceID call) core).tasks = core.tasks ++
      match core.devices.lookup deviceID with
      | none => []
      | some a => processUpdate a.storedDevice (a.perform call).storedDevice := by
  rw [after_onDevice]
  cases core.devices.lookup deviceID <;> simp

end

/-- The same devices are stored, each with its kind and its parent but for `R`, no logical device
has a root device that none had before, and the new goroutines are as described. -/
structure Quiet (R : String) (P : Task → Prop) (core core' : Core) : Prop where
  stored : ∀ id, id ∈ core'.devices ↔ id ∈ core.devices
  kin : ∀ id, id ≠ R → (core'.devices.lookup id).map ManagedAgent.kin =
    (core.devices.lookup id).map ManagedAgent.kin
  rootDevices : core'.rootDevices = core.rootDevices
  logical : ∀ l ld, core'.logicalDevices.lookup l = some ld → ∃ l' ld',
    core.logicalDevices.lookup l' = some ld' ∧ ld'.rootDeviceID = ld.rootDeviceID
  tasks : ∃ new, core'.tasks = core.tasks ++ new ∧ ∀ t ∈ new, P t

theorem Quiet.refl (R : String) (P : Task → Prop) (core : Core) : Quiet R P core core where
  stored _ := Iff.rfl
  kin _ _ := rfl
  rootDevices := rfl
  logical l ld h := ⟨l, ld, h, rfl⟩
  tasks := ⟨[], by simp, by simp⟩

/-- An operation that keeps the kind of its device, and its parent unless it is `R`. -/
theorem Quiet.onDevice {deviceID : String} (hroot : .root ∉ call.assigns)
    (hparent : deviceID ≠ R → .parentId ∉ call.assigns)
    (htasks : ∀ a, core.devices.lookup deviceID = some a →
      ∀ t ∈ processUpdate a.storedDevice (a.perform call).storedDevice, P t) :
    Quiet R P core (after (onDevice deviceID call) core) where
  stored := mem_onDevice core deviceID call
  kin id hid := by
    rw [lookup_onDevice]
    split_ifs with h
    · rw [Option.map_map]
      congr 1
      funext a
      exact kin_perform hroot (hparent (h ▸ hid)) a
    · rfl
  rootDevices := (onDevice_frame core deviceID call).1
  logical l ld h := ⟨l, ld, (onDevice_frame core deviceID call).2 ▸ h, rfl⟩
  tasks := by
    refine ⟨_, tasks_onDevice core deviceID call, fun t ht => ?_⟩
    cases ha : core.devices.lookup deviceID with
    | none => simp [ha] at ht
    | some a =>
      rw [ha] at ht
      exact htasks a ha t ht

theorem Quiet.exists_kin (h : Quiet R P core core') (hx : x ≠ R)
    (ha : core'.devices.lookup x = some a) :
    ∃ b, core.devices.lookup x = some b ∧ b.kin = a.kin := by
  have hkin := h.kin x hx
  rw [ha, map_some] at hkin
  exact map_eq_some_iff.mp hkin.symm

theorem Quiet.trans {core'' : Core} (h : Quiet R P core core') (h' : Quiet R P core' core'') :
    Quiet R P core core'' where
  stored id := (h'.stored id).trans (h.stored id)
  kin id hid := (h'.kin id hid).trans (h.kin id hid)
  rootDevices := h'.rootDevices.trans h.rootDevices
  logical l ld hl := by
    obtain ⟨l', ld', hl', hroot'⟩ := h'.logical l ld hl
    obtain ⟨l'', ld'', hl'', hroot''⟩ := h.logical l' ld' hl'
    exact ⟨l'', ld'', hl'', hroot''.trans hroot'⟩
  tasks := by
    obtain ⟨new, hnew, hharmless⟩ := h.tasks
    obtain ⟨new', hnew', hharmless'⟩ := h'.tasks
    refine ⟨new ++ new', by rw [hnew', hnew, append_assoc], fun t ht => ?_⟩
    rcases mem_append.mp ht with ht | ht
    · exact hharmless t ht
    · exact hharmless' t ht

theorem Quiet.deletePeerPorts (device : ManagedDevice) :
    Quiet R Harmless core
      (after (Manager.onDevice device.parentId (.deletePeerPorts device.id)) core) :=
  .onDevice (by simp [assigns]) (by simp [assigns]) fun a _ =>
    processUpdate_of_same (by simp [assigns]) a

/-- The logical device of `R` is deleted, and its id is taken out of `R`. -/
theorem deleteLogicalDevice_quiet (hroot : device.root = true) (hid : device.id = R) :
    ∃ core', deleteLogicalDevice device core = .ok () core' ∧ Quiet R Harmless core core' := by
  rw [deleteLogicalDevice, if_pos hroot]
  have herased : Quiet R Harmless core (if (getLogicalDeviceAgent core device.parentId).isSome then
      { core with logicalDevices := core.logicalDevices.erase device.parentId } else core) := by
    split_ifs
    · refine { Quiet.refl R Harmless core with logical := fun l ld h => ⟨l, ld, ?_, rfl⟩ }
      by_cases hl : l = device.parentId
      · rw [hl, lookup_erase] at h
        cases h
      · rwa [lookup_erase_ne hl] at h
    · exact .refl R _ core
  exact ⟨_, rfl, herased.trans (.onDevice (by simp [assigns]) (fun h => absurd hid h)
    fun a _ => processUpdate_of_same (by simp [assigns]) a)⟩

theorem childDeviceLost_quiet (hparent : device.parentId ∈ core.devices)
    (hproxy : device.proxyAddress ≠ none) :
    ∃ core', childDeviceLost device core = .ok () core' ∧ Quiet R Harmless core core' := by
  obtain ⟨proxyAddress, hproxy⟩ := ne_none_iff_exists'.mp hproxy
  unfold childDeviceLost
  rw [if_pos hparent, hproxy]
  refine ⟨_, rfl, { Quiet.refl R Harmless core with tasks := ⟨_, rfl, fun t ht => ?_⟩ }⟩
  rw [mem_singleton.mp ht]
  exact fun h hh => .inr (mem_singleton.mp hh)

/-- The logical ports of a stored child are deleted; nothing happens when it is not stored. -/
theorem deleteLogicalPorts_quiet (hparent : R ∈ core.devices)
    (hkin : ∀ a, core.devices.lookup device.id = some a → a.ChildOf R) :
    (∃ core', deleteLogicalPorts device core = .ok () core' ∧ Quiet R Harmless core core') ∨
      device.id ∉ core.devices ∧ ∃ e, deleteLogicalPorts device core = .error e core := by
  unfold deleteLogicalPorts
  cases ha : core.devices.lookup device.id with
  | none => exact .inr ⟨lookup_eq_none.mp ha, _, rfl⟩
  | some a =>
    left
    obtain ⟨hroot, hid⟩ := hkin a ha
    obtain ⟨parent, hlookup⟩ := mem_iff_exists_lookup.mp hparent
    have hld : getLogicalDeviceID core a.device = .ok parent.device.parentId := by
      rw [getLogicalDeviceID, if_neg (by simp [hroot]), hid, hlookup]
    simp only [hld]
    cases hagent : getLogicalDeviceAgent core parent.device.parentId with
    | none => exact ⟨core, rfl, .refl R _ core⟩
    | some ld =>
      refine ⟨_, rfl, { Quiet.refl R Harmless core with logical := fun l ld' h => ?_ }⟩
      dsimp only at h
      rw [lookup_insert_eq] at h
      split_ifs at h with hl
      · cases h
        exact ⟨_, ld, (filter_eq_some_iff.mp hagent).1, rfl⟩
      · exact ⟨l, ld', h, rfl⟩

end VolthaCore.Manager
