import VolthaCore.Manager.DeviceManager

/-! The state transitions of a device and the handlers that they trigger, after
`device_state_transitions.go`. The lookup goes through a table in three orders of preference, over
handlers of any type. When the admin state changes, the rows of the table with this change
decide, whatever the other states are. -/

namespace VolthaCore.Manager

open Devices List Option

inductive DeviceKind where
  | parent | child | any
  deriving DecidableEq

structure DeviceState where
  admin : AdminState
  connection : ConnectStatus := .unknown
  operational : OperStatus := .unknown
  deriving DecidableEq

/-- The handlers of the table; `deletePeerPorts` is what `ChildDeviceLost` leaves to a goroutine. -/
inductive Handler where
  | createLogicalDevice
  | setupUNILogicalPorts
  | disableAllChildDevices
  | deleteAllChildDevices
  | deleteLogicalDevice
  | runPostDeviceDelete
  | childDeviceLost
  | deleteLogicalPorts
  | notifyInvalidTransition
  | deletePeerPorts
  deriving DecidableEq

structure TransitionOf (η : Type) where
  deviceType : DeviceKind
  previousState : DeviceState
  currentState : DeviceState
  handlers : List η
  deriving DecidableEq

abbrev Transition := TransitionOf Handler

/-- A row whose states differ in the operational state only. -/
def operRow (deviceType : DeviceKind) (admin : AdminState) (previous current : OperStatus)
    (handlers : List Handler) : Transition where
  deviceType := deviceType
  previousState := { admin := admin, operational := previous }
  currentState := { admin := admin, operational := current }
  handlers := handlers

/-- A row whose states differ in the admin state only. -/
def adminRow (deviceType : DeviceKind) (previous current : AdminState) (handlers : List Handler) :
    Transition where
  deviceType := deviceType
  previousState := { admin := previous }
  currentState := { admin := current }
  handlers := handlers

def transitions : List Transition :=
  [operRow .parent .enabled .activating .active [.createLogicalDevice],
    operRow .child .enabled .discovered .active [.setupUNILogicalPorts],
    operRow .child .enabled .activating .active [.setupUNILogicalPorts],
    adminRow .any .preprovisioned .deleted [.runPostDeviceDelete],
    adminRow .parent .disabled .deleted
      [.disableAllChildDevices, .deleteAllChildDevices, .deleteLogicalDevice, .runPostDeviceDelete],
    adminRow .child .disabled .deleted
      [.childDeviceLost, .deleteLogicalPorts, .runPostDeviceDelete],
    adminRow .child .enabled .deleted [.childDeviceLost, .deleteLogicalPorts, .runPostDeviceDelete],
    operRow .any .enabled .active .activating [.notifyInvalidTransition],
    operRow .any .enabled .activating .unknown [.notifyInvalidTransition],
    adminRow .any .preprovisioned .unknown [.notifyInvalidTransition],
    adminRow .any .enabled .downloadingImage [.notifyInvalidTransition],
    adminRow .any .enabled .unknown [.notifyInvalidTransition],
    operRow .parent .enabled .active .activating [.notifyInvalidTransition],
    operRow .any .enabled .activating .unknown [.notifyInvalidTransition],
    adminRow .any .enabled .preprovisioned [.notifyInvalidTransition],
    adminRow .child .disabled .unknown [.notifyInvalidTransition],
    adminRow .any .disabled .preprovisioned [.notifyInvalidTransition],
    adminRow .any .downloadingImage .disabled [.notifyInvalidTransition]]

def getDeviceStates (device : Device) : DeviceState where
  admin := device.adminState
  connection := device.connectStatus
  operational := device.operStatus

section Lookup
variable {η : Type}

/-- The handlers of a row that matches and whether it matches exactly. -/
def getHandler (previous current : DeviceState) (transition : TransitionOf η) :
    Option (List η) × Bool :=
  if previous = transition.previousState ∧ current = transition.currentState then
    (some transition.handlers, true)
  else if previous.admin ≠ transition.previousState.admin ∨
      current.admin ≠ transition.currentState.admin then
    (none, false)
  else if previous.admin ≠ current.admin then
    (some transition.handlers, false)
  else if previous.operational ≠ current.operational ∧
      previous.operational = transition.previousState.operational ∧
      current.operational = transition.currentState.operational then
    (some transition.handlers, false)
  else if previous.connection ≠ current.connection ∧
      previous.connection = transition.previousState.connection ∧
      current.connection = transition.currentState.connection then
    (some transition.handlers, false)
  else
    (none, false)

def TransitionOf.applies (transition : TransitionOf η) (deviceType : DeviceKind) : Bool :=
  transition.deviceType = deviceType || transition.deviceType = .any

/-- The loop of `GetTransitionHandler` over the rows. -/
def findHandlers (deviceType : DeviceKind) (pState cState : DeviceState) :
    List (TransitionOf η) → Option (List η) → Bool → Option (List η)
  | [], currentMatch, _ => currentMatch
  | aTransition :: rows, currentMatch, stateMatchFound =>
    if aTransition.applies deviceType then
      match getHandler pState cState aTransition with
      | (none, _) => findHandlers deviceType pState cState rows currentMatch stateMatchFound
      | (some tempHandler, true) =>
        if aTransition.deviceType = deviceType then some tempHandler
        else findHandlers deviceType pState cState rows (some tempHandler) true
      | (some tempHandler, false) =>
        if currentMatch = none ∧ stateMatchFound = false then
          findHandlers deviceType pState cState rows (some tempHandler) stateMatchFound
        else findHandlers deviceType pState cState rows currentMatch stateMatchFound
    else findHandlers deviceType pState cState rows currentMatch stateMatchFound

def kindOf (root : Bool) : DeviceKind := if root then .parent else .child

def getTransitionHandlerOf (tMap : List (TransitionOf η)) (pDevice cDevice : Device) :
    Option (List η) :=
  findHandlers (kindOf pDevice.root) (getDeviceStates pDevice) (getDeviceStates cDevice)
    tMap none false

end Lookup

def getTransitionHandler (pDevice cDevice : Device) : Option (List Handler) :=
  getTransitionHandlerOf transitions pDevice cDevice

/-! ### The order of preference -/

section Preference
variable {η : Type} {deviceType : DeviceKind} {p c : DeviceState}

def TransitionOf.isExact (t : TransitionOf η) (p c : DeviceState) : Bool :=
  p = t.previousState ∧ c = t.currentState

/-- The admin states match, and a component that changed agrees. -/
def TransitionOf.agrees (t : TransitionOf η) (p c : DeviceState) : Bool :=
  p.admin = t.previousState.admin ∧ c.admin = t.currentState.admin ∧
    (p.admin ≠ c.admin ∨
      (p.operational ≠ c.operational ∧ p.operational = t.previousState.operational ∧
        c.operational = t.currentState.operational) ∨
      (p.connection ≠ c.connection ∧ p.connection = t.previousState.connection ∧
        c.connection = t.currentState.connection))

theorem getHandler_eq (t : TransitionOf η) : getHandler p c t =
    if t.isExact p c then (some t.handlers, true)
    else if t.agrees p c then (some t.handlers, false) else (none, false) := by
  unfold getHandler
  by_cases hexact : p = t.previousState ∧ c = t.currentState
  · have hrow : t.isExact p c = true := by simpa [TransitionOf.isExact] using hexact
    rw [if_pos hexact, hrow]
    rfl
  · have hrow : t.isExact p c = false := by simpa [TransitionOf.isExact] using hexact
    rw [if_neg hexact, hrow]
    simp only [TransitionOf.agrees, decide_eq_true_eq, Bool.false_eq_true, if_false]
    split_ifs <;> grind

/-- The rows of the three orders of preference. -/
def exactRow (kind : DeviceKind) (p c : DeviceState) (t : TransitionOf η) : Bool :=
  t.deviceType = kind && t.isExact p c

def agreeingRow (kind : DeviceKind) (p c : DeviceState) (t : TransitionOf η) : Bool :=
  t.applies kind && t.agrees p c

/-- The loop, from any candidate: one that was found by an exact match is there. -/
theorem findHandlers_eq (rows : List (TransitionOf η)) {currentMatch : Option (List η)}
    {stateMatchFound : Bool} (hfound : stateMatchFound = true → currentMatch.isSome = true) :
    findHandlers deviceType p c rows currentMatch stateMatchFound =
      (((rows.find? (exactRow deviceType p c)).or
        (rows.reverse.find? (exactRow .any p c))).map (·.handlers)).or
      (currentMatch.or ((rows.find? (agreeingRow deviceType p c)).map (·.handlers))) := by
  induction rows generalizing currentMatch stateMatchFound with
  | nil => simp [findHandlers]
  | cons t rows ih =>
    rw [findHandlers, getHandler_eq, find?_cons, find?_cons, reverse_cons,
      find?_append, find?_singleton]
    by_cases happ : t.applies deviceType = true
    · rw [if_pos happ]
      by_cases hexact : t.isExact p c = true
      · rw [if_pos hexact]
        by_cases hkind : t.deviceType = deviceType
        · simp [hkind, exactRow, hexact]
        · -- the row is for any device and takes the place of the candidate
          have hany : t.deviceType = .any := by
            simpa [TransitionOf.applies, hkind] using happ
          have hfirst : exactRow deviceType p c t = false := by simp [exactRow, hkind]
          have hlast : exactRow .any p c t = true := by simp [exactRow, hany, hexact]
          simp only [if_neg hkind, hfirst, hlast, if_true]
          rw [ih fun _ => rfl]
          cases rows.find? (exactRow deviceType p c) <;>
            cases rows.reverse.find? (exactRow .any p c) <;> rfl
      · have hrow : ∀ kind, exactRow kind p c t = false := by simp [exactRow, hexact]
        simp only [if_neg hexact, hrow, Bool.false_eq_true, if_false, or_none]
        by_cases hagrees : t.agrees p c = true
        · have hpartial : agreeingRow deviceType p c t = true := by
            simp [agreeingRow, happ, hagrees]
          simp only [if_pos hagrees, hpartial]
          cases currentMatch with
          | none =>
            have hnot : stateMatchFound = false := by simpa using hfound
            rw [if_pos ⟨rfl, hnot⟩, ih (by simp [hnot])]
            rfl
          | some handlers =>
            rw [if_neg (by simp), ih hfound]
            rfl
        · have hpartial : agreeingRow deviceType p c t = false := by
            simp [agreeingRow, hagrees]
          simp only [if_neg hagrees, hpartial]
          exact ih hfound
    · have hkind : t.deviceType ≠ deviceType ∧ t.deviceType ≠ .any := by
        simpa [TransitionOf.applies] using happ
      have hrows : exactRow deviceType p c t = false ∧ exactRow .any p c t = false ∧
          agreeingRow deviceType p c t = false := by
        simp [exactRow, agreeingRow, hkind, happ]
      simp only [if_neg happ, hrows, Bool.false_eq_true, if_false, or_none]
      exact ih hfound

theorem getTransitionHandlerOf_eq (tMap : List (TransitionOf η)) (pDevice cDevice : Device) :
    let kind := kindOf pDevice.root
    let p := getDeviceStates pDevice
    let c := getDeviceStates cDevice
    getTransitionHandlerOf tMap pDevice cDevice =
      (((tMap.find? (exactRow kind p c)).or (tMap.reverse.find? (exactRow .any p c))).or
        (tMap.find? (agreeingRow kind p c))).map (·.handlers) := by
  intro kind p c
  unfold getTransitionHandlerOf
  rw [findHandlers_eq tMap (by simp)]
  simp only [none_or]
  cases (tMap.find? (exactRow kind p c)).or (tMap.reverse.find? (exactRow .any p c)) <;> rfl

variable {tMap : List (TransitionOf η)} {pDevice cDevice : Device}

theorem exists_row_of_handlers {handlers : List η}
    (h : getTransitionHandlerOf tMap pDevice cDevice = some handlers) :
    ∃ t ∈ tMap, t.applies (kindOf pDevice.root) = true ∧ t.handlers = handlers ∧
      (t.isExact (getDeviceStates pDevice) (getDeviceStates cDevice) = true ∨
        t.agrees (getDeviceStates pDevice) (getDeviceStates cDevice) = true) := by
  rw [getTransitionHandlerOf_eq, map_eq_some_iff] at h
  obtain ⟨t, ht, rfl⟩ := h
  rw [or_eq_some_iff, or_eq_some_iff] at ht
  rcases ht with (ht | ⟨-, ht⟩) | ⟨-, ht⟩
  all_goals
    have hrow := find?_some ht
    have hmem := mem_of_find?_eq_some ht
    simp only [exactRow, agreeingRow, Bool.and_eq_true, decide_eq_true_eq] at hrow
  · exact ⟨t, hmem, by simp [TransitionOf.applies, hrow.1], rfl, .inl hrow.2⟩
  · exact ⟨t, mem_reverse.mp hmem, by simp [TransitionOf.applies, hrow.1], rfl, .inl hrow.2⟩
  · exact ⟨t, hmem, hrow.1, rfl, .inr hrow.2⟩

theorem getTransitionHandlerOf_eq_none_iff :
    getTransitionHandlerOf tMap pDevice cDevice = none ↔
      ∀ t ∈ tMap, t.applies (kindOf pDevice.root) = true →
        t.isExact (getDeviceStates pDevice) (getDeviceStates cDevice) = false ∧
          t.agrees (getDeviceStates pDevice) (getDeviceStates cDevice) = false := by
  rw [getTransitionHandlerOf_eq]
  simp only [map_eq_none_iff, or_eq_none_iff, find?_eq_none,
    mem_reverse, exactRow, agreeingRow, TransitionOf.applies, Bool.and_eq_true,
    Bool.or_eq_true, decide_eq_true_eq, not_and, Bool.not_eq_true]
  constructor
  · rintro ⟨⟨hkind, hany⟩, hagrees⟩ t ht happ
    exact ⟨happ.elim (hkind t ht) (hany t ht), hagrees t ht happ⟩
  · intro h
    exact ⟨⟨fun t ht hkind => (h t ht (.inl hkind)).1, fun t ht hany => (h t ht (.inr hany)).1⟩,
      fun t ht happ => (h t ht happ).2⟩

/-- The first exact match for the kind of device, the last one for any device, the first row
that agrees on a component that changed; nothing only where there is none of these. -/
theorem getTransitionHandlerOf_priority (tMap : List (TransitionOf η)) (pDevice cDevice : Device) :
    let kind := kindOf pDevice.root
    let p := getDeviceStates pDevice
    let c := getDeviceStates cDevice
    getTransitionHandlerOf tMap pDevice cDevice =
        (((tMap.find? fun t => t.deviceType = kind && t.isExact p c).or
          (tMap.reverse.find? fun t => t.deviceType = .any && t.isExact p c)).or
          (tMap.find? fun t => t.applies kind && t.agrees p c)).map (·.handlers) ∧
      (getTransitionHandlerOf tMap pDevice cDevice = none ↔
        ∀ t ∈ tMap, t.applies kind = true → t.isExact p c = false ∧ t.agrees p c = false) :=
  ⟨getTransitionHandlerOf_eq tMap pDevice cDevice, getTransitionHandlerOf_eq_none_iff⟩

end Preference

/-! ### What decides -/

/-- The row is for the kind of device and for the change of the admin state. -/
def Transition.changes (t : Transition) (deviceType : DeviceKind) (previous current : AdminState) :
    Bool :=
  t.applies deviceType && t.previousState.admin = previous && t.currentState.admin = current

variable {pDevice cDevice : Device}

/-- When the admin state changes, a row matches exactly when it is for this change. -/
theorem matches_iff_of_change (hne : pDevice.adminState ≠ cDevice.adminState) (t : Transition) :
    t.isExact (getDeviceStates pDevice) (getDeviceStates cDevice) = true ∨
        t.agrees (getDeviceStates pDevice) (getDeviceStates cDevice) = true ↔
      t.previousState.admin = pDevice.adminState ∧ t.currentState.admin = cDevice.adminState := by
  simp only [TransitionOf.isExact, TransitionOf.agrees, decide_eq_true_eq]
  constructor
  · rintro (⟨hp, hc⟩ | ⟨hp, hc, -⟩)
    · exact ⟨by rw [← hp]; rfl, by rw [← hc]; rfl⟩
    · exact ⟨hp.symm, hc.symm⟩
  · exact fun h => .inr ⟨h.1.symm, h.2.symm, .inl hne⟩

/-- When all rows for a change have the same handlers, these are the handlers. -/
theorem getTransitionHandler_of_change {handlers : List Handler}
    (hne : pDevice.adminState ≠ cDevice.adminState)
    (hrows : ∀ t ∈ transitions, t.changes (kindOf pDevice.root) pDevice.adminState
      cDevice.adminState = true → t.handlers = handlers) :
    getTransitionHandler pDevice cDevice =
      if transitions.any (fun t => t.changes (kindOf pDevice.root) pDevice.adminState
        cDevice.adminState) then some handlers else none := by
  cases hfound : getTransitionHandler pDevice cDevice with
  | none =>
    refine (if_neg ?_).symm
    rw [List.any_eq_true]
    rintro ⟨t, ht, hchanges⟩
    simp only [Transition.changes, Bool.and_eq_true, decide_eq_true_eq] at hchanges
    have hmatch := (matches_iff_of_change hne t).mpr ⟨hchanges.1.2, hchanges.2⟩
    simp [getTransitionHandlerOf_eq_none_iff.mp hfound t ht hchanges.1.1] at hmatch
  | some found =>
    obtain ⟨t, ht, happ, rfl, hmatch⟩ := exists_row_of_handlers hfound
    have hchanges : Transition.changes t (kindOf pDevice.root) pDevice.adminState
        cDevice.adminState = true := by
      simp [Transition.changes, happ, (matches_iff_of_change hne t).mp hmatch]
    rw [if_pos (List.any_eq_true.mpr ⟨t, ht, hchanges⟩), hrows t ht hchanges]

/-- No row is for a device whose states stay the same. -/
theorem getTransitionHandler_of_same (h : getDeviceStates pDevice = getDeviceStates cDevice) :
    getTransitionHandler pDevice cDevice = none := by
  have hne : ∀ t ∈ transitions, t.previousState ≠ t.currentState := by decide
  refine getTransitionHandlerOf_eq_none_iff.mpr fun t ht _ => ?_
  rw [h]
  refine ⟨?_, by simp [TransitionOf.agrees]⟩
  simp only [TransitionOf.isExact, decide_eq_false_iff_not]
  exact fun hexact => hne t ht (hexact.1.symm.trans hexact.2)

end VolthaCore.Manager
