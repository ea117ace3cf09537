import VolthaCore.Manager.DeviceManager

/-! The operations that the device manager hands to the agent of a device. Each reports what the
agent reports, with three exceptions. -/

namespace VolthaCore.Manager

open Devices OpenFlow Outcome

/-- The agents, and how the operations performed so far ended. -/
structure Session where
  devices : DeviceManager
  ended : List (Option Err) := []

abbrev SessionM := EStateM Err Session

def performed {α : Type} (x : EStateM Err DeviceManager α) : SessionM Unit := fun s =>
  match x s.devices with
  | .ok _ m => .ok () ⟨m, s.ended ++ [none]⟩
  | .error e m => .error e ⟨m, s.ended ++ [some e]⟩

/-- `getDeviceAgent`, and the error for a device without an agent. -/
def withAgent (deviceID reported : String) (x : SessionM Unit) : SessionM Unit := fun s =>
  if deviceID ∈ s.devices then x s else .error (.status .notFound reported) s

def answered {σ : Type} : Option Err → EStateM Err σ Unit
  | none => pure ()
  | some e => throw e

inductive ManagerCall where
  | addPort (deviceID : String) (port : Port)
  | deletePeerPorts (fromDeviceID deviceID : String)
  | addFlowsAndGroups (deviceID : String) (flows : List OfpFlowStats) (groups : List OfpGroupEntry)
      (flowMetadata : Option FlowMetadata)
  | deleteFlowsAndGroups (deviceID : String) (flows : List OfpFlowStats)
      (groups : List OfpGroupEntry) (flowMetadata : Option FlowMetadata)
  | updateFlowsAndGroups (deviceID : String) (flows : List OfpFlowStats)
      (groups : List OfpGroupEntry) (flowMetadata : Option FlowMetadata)
  | initPmConfigs (deviceID : String) (pmConfigs : PmConfigs)
  | updateDeviceStatus (deviceID : String) (operStatus : WireEnum OperStatus)
      (connStatus : WireEnum ConnectStatus)
  | updatePortState (deviceID : String) (portType : WireEnum PortType) (portNo : UInt32)
      (operStatus : OperStatus)
  | deleteAllPorts (deviceID : String)
  | updatePortsState (deviceID : String) (state : OperStatus)
  | setParentID (device : Device) (parentID : String)
  | packetOut (deviceID : String)

namespace ManagerCall

def deviceID : ManagerCall → String
  | addPort id _ | deletePeerPorts id _ | addFlowsAndGroups id .. | deleteFlowsAndGroups id ..
  | updateFlowsAndGroups id .. | initPmConfigs id _ | updateDeviceStatus id ..
  | updatePortState id ..
  | deleteAllPorts id | updatePortsState id _ | packetOut id => id
  | setParentID device _ => device.id

variable (env : ℕ → DeviceEnv) (logical : Option Err)

def onAgentOf (deviceID : String) (call : DeviceCall) : SessionM Unit :=
  performed (onAgent deviceID (call.run (env 0)))

def delegate (deviceID : String) (call : DeviceCall) : SessionM Unit :=
  withAgent deviceID deviceID (onAgentOf env deviceID call)

def addPeers (meAsPeer : PeerPort) : ℕ → List PeerPort → SessionM Unit
  | _, [] => pure ()
  | i, peerPort :: peers => do
    if peerPort.deviceId ∈ (← get).devices then
      performed (onAgent peerPort.deviceId ((DeviceCall.addPeerPort meAsPeer).run (env i)))
    else pure ()
    addPeers meAsPeer (i + 1) peers

/-- What the logical device manager is asked in a goroutine of its own is not awaited; `logical` is
its answer to the one request that is. -/
def exec : ManagerCall → SessionM Unit
  | addPort deviceID port => withAgent deviceID deviceID do
    onAgentOf env deviceID (.addPort port)
    addPeers env ⟨deviceID, port.portNo⟩ 1 port.peers
    performed (getDevice deviceID)
  | deletePeerPorts fromDeviceID deviceID =>
    withAgent fromDeviceID deviceID (onAgentOf env fromDeviceID (.deletePeerPorts deviceID))
  | addFlowsAndGroups deviceID flows groups flowMetadata =>
    delegate env deviceID (.addFlowsAndGroups flows groups flowMetadata)
  | deleteFlowsAndGroups deviceID flows groups flowMetadata =>
    delegate env deviceID (.deleteFlowsAndGroups flows groups flowMetadata)
  | updateFlowsAndGroups deviceID flows groups flowMetadata =>
    delegate env deviceID (.updateFlowsAndGroups flows groups flowMetadata)
  | initPmConfigs deviceID pmConfigs =>
    if pmConfigs.id = "" then throw (.status .failedPrecondition "invalid-device-Id")
    else delegate env deviceID (.initPmConfigs pmConfigs)
  | updateDeviceStatus deviceID operStatus connStatus =>
    delegate env deviceID (.updateDeviceStatus operStatus connStatus)
  -- the error for a missing agent is returned also after the agent has succeeded
  | updatePortState deviceID portType portNo operStatus => do
    withAgent deviceID deviceID
      (onAgentOf env deviceID (.updatePortState portType portNo operStatus))
    throw (.status .notFound deviceID)
  | deleteAllPorts deviceID => withAgent deviceID deviceID do
    onAgentOf env deviceID .deleteAllPorts
    performed (getDevice deviceID)
  | updatePortsState deviceID state => withAgent deviceID deviceID (
    if state = .active ∨ state = .unknown then do
      onAgentOf env deviceID (.updatePortsOperState state)
      performed (getDevice deviceID)
      performed (answered logical)
    else throw (.status .unimplemented "state-change-not-implemented"))
  | setParentID device parentID => delegate env device.id (.setParentID parentID)
  | packetOut deviceID =>
    withAgent deviceID deviceID (performed (onAgent deviceID (answered (env 0).adapter)))

/-- Where a call says what its operations said: the state of a port is not stored, a performance
configuration names a device, and the ports get a state that is implemented. -/
def Reports (m : DeviceManager) : ManagerCall → Prop
  | updatePortState deviceID portType _ _ =>
    deviceID ∈ m → (∃ number, portType = .unknown number) ∨ (env 0).store ≠ .written
  | initPmConfigs deviceID pmConfigs => deviceID ∈ m → pmConfigs.id ≠ ""
  | updatePortsState deviceID state => deviceID ∈ m → state = .active ∨ state = .unknown
  | _ => True

end ManagerCall

def Session.Clean (s : Session) : Prop := ∀ o ∈ s.ended, o = none

/-- A computation that fails exactly when one of its operations does. -/
def Honest (x : SessionM Unit) : Prop := Triple Session.Clean x (fun _ => Session.Clean)
  fun _ s => ¬ s.Clean

section Honesty

theorem honest_performed {α : Type} (x : EStateM Err DeviceManager α) : Honest (performed x) := by
  intro s hs
  unfold performed
  cases x s.devices with
  | ok v m => simpa [Session.Clean, or_imp, forall_and] using hs
  | error e m => simp [Session.Clean]

theorem Honest.bind {x y : SessionM Unit} (hx : Honest x) (hy : Honest y) :
    Honest (x >>= fun _ => y) := Triple.bind hx fun _ => hy

theorem honest_addPeers (env : ℕ → DeviceEnv) (meAsPeer : PeerPort) (i : ℕ)
    (peers : List PeerPort) : Honest (ManagerCall.addPeers env meAsPeer i peers) := by
  induction peers generalizing i with
  | nil => exact .pure fun _ => id
  | cons peerPort peers ih =>
    refine .get fun s => ?_
    by_cases hpeer : peerPort.deviceId ∈ s.devices
    · rw [if_pos hpeer]
      exact ((honest_performed _).bind (ih (i + 1))).pre fun _ h => h.1
    · rw [if_neg hpeer]
      exact Triple.pre (ih (i + 1)) fun _ h => h.1

theorem withAgent_reports {deviceID reported : String} {x : SessionM Unit} {m : DeviceManager}
    (hx : Honest x) : returns (withAgent deviceID reported x) ⟨m, []⟩ = true ↔
      deviceID ∈ m ∧ (after (withAgent deviceID reported x) ⟨m, []⟩).Clean := by
  have hclean := hx ⟨m, []⟩ (by simp [Session.Clean])
  unfold returns after withAgent
  by_cases hid : deviceID ∈ m
  · simp only [hid, if_true]
    cases hres : x ⟨m, []⟩ <;> simpa [hres] using hclean
  · simp [hid]

theorem delegate_reports (env : ℕ → DeviceEnv) (deviceID : String) (call : DeviceCall)
    (m : DeviceManager) : returns (ManagerCall.delegate env deviceID call) ⟨m, []⟩ = true ↔
      deviceID ∈ m ∧ (after (ManagerCall.delegate env deviceID call) ⟨m, []⟩).Clean :=
  withAgent_reports (honest_performed _)

end Honesty

theorem updatePortState_fails_iff {portType : WireEnum PortType} (portNo : UInt32)
    (operStatus : OperStatus) {env : DeviceEnv} {deviceID : String} {m : DeviceManager} :
    returns (onAgent deviceID
      ((DeviceCall.updatePortState portType portNo operStatus).run env)) m = false ↔
      (deviceID ∈ m → (∃ number, portType = .unknown number) ∨ env.store ≠ .written) := by
  unfold returns onAgent
  cases ha : m.lookup deviceID with
  | none => simp [AList.lookup_eq_none.mp ha]
  | some a =>
    have hid : deviceID ∈ m := GoMap.mem_iff_exists_lookup.mpr ⟨a, ha⟩
    dsimp only
    cases portType with
    | unknown number => exact iff_of_true rfl fun _ => .inl ⟨number, rfl⟩
    | known type =>
      have hrun : (DeviceCall.updatePortState (.known type) portNo operStatus).run env
          a.toSyncedAgent = (writeDevice _ none).execute env a.toSyncedAgent := rfl
      rw [hrun, execute_write]
      by_cases hstore : env.store = .written <;> simp [hid, hstore]

/-! ### The ports of the manager -/

def forgetEnded : EStateM.Result Err Session Unit → EStateM.Result Err DeviceManager Unit
  | .ok () s => .ok () s.devices
  | .error e s => .error e s.devices

/-- The session answers as the manager does, and its agents are those of the manager. -/
def Records (x : SessionM Unit) (y : EStateM Err DeviceManager Unit) : Prop :=
  ∀ s, forgetEnded (x s) = y s.devices

theorem records_performed (x : EStateM Err DeviceManager Unit) : Records (performed x) x := by
  intro s
  rw [performed]
  cases x s.devices <;> rfl

theorem Records.bind {x x' : SessionM Unit} {y y' : EStateM Err DeviceManager Unit}
    (h : Records x y) (h' : Records x' y') : Records (x >>= fun _ => x') (y >>= fun _ => y') := by
  intro s
  rw [bind_apply, bind_apply, ← h s]
  cases x s with
  | ok u s' => exact h' s'
  | error e s' => rfl

theorem records_addPeers (env : ℕ → DeviceEnv) (meAsPeer : PeerPort) (i : ℕ)
    (peers : List PeerPort) :
    Records (ManagerCall.addPeers env meAsPeer i peers) (addPeers env meAsPeer i peers) := by
  induction peers generalizing i with
  | nil => exact fun _ => rfl
  | cons peerPort peers ih =>
    intro s
    have hround : addPeers env meAsPeer i (peerPort :: peers) s.devices =
        (if peerPort.deviceId ∈ s.devices then do
          onAgent peerPort.deviceId ((DeviceCall.addPeerPort meAsPeer).run (env i))
          addPeers env meAsPeer (i + 1) peers
        else addPeers env meAsPeer (i + 1) peers) s.devices := rfl
    have hround' : ManagerCall.addPeers env meAsPeer i (peerPort :: peers) s =
        (if peerPort.deviceId ∈ s.devices then do
          performed (onAgent peerPort.deviceId ((DeviceCall.addPeerPort meAsPeer).run (env i)))
          ManagerCall.addPeers env meAsPeer (i + 1) peers
        else ManagerCall.addPeers env meAsPeer (i + 1) peers) s := rfl
    rw [hround, hround']
    split_ifs
    · exact (records_performed _).bind (ih (i + 1)) s
    · exact ih (i + 1) s

/-- Adding a port in a session is adding it in the manager, for a device that has an agent. -/
theorem records_addPort (env : ℕ → DeviceEnv) (logical : Option Err) {deviceID : String}
    (port : Port) {s : Session} (h : deviceID ∈ s.devices) :
    forgetEnded ((ManagerCall.addPort deviceID port).exec env logical s) =
      addPort env deviceID port s.devices := by
  have hget : Records (performed (getDevice deviceID))
      (getDevice deviceID >>= fun _ => pure ()) := by
    intro s
    rw [performed, bind_apply]
    cases getDevice deviceID s.devices <;> rfl
  rw [ManagerCall.exec, withAgent, if_pos h]
  exact (records_performed _).bind ((records_addPeers env _ 1 port.peers).bind hget) s

/-- A call succeeds exactly when there is an agent and all operations succeed, with the exceptions
above. -/
theorem manager_reports_iff (env : ℕ → DeviceEnv) (logical : Option Err) (c : ManagerCall)
    (m : DeviceManager) :
    (returns (c.exec env logical) ⟨m, []⟩ = true ↔
        c.deviceID ∈ m ∧ (after (c.exec env logical) ⟨m, []⟩).Clean) ↔ c.Reports env m := by
  cases c with
  | addPort id port => exact iff_of_true (withAgent_reports ((honest_performed _).bind
      ((honest_addPeers _ _ _ _).bind (honest_performed _)))) trivial
  | deletePeerPorts id id' | packetOut id =>
    exact iff_of_true (withAgent_reports (honest_performed _)) trivial
  | addFlowsAndGroups id flows groups md | deleteFlowsAndGroups id flows groups md
  | updateFlowsAndGroups id flows groups md | updateDeviceStatus id operStatus connStatus
  | setParentID device parentID =>
    exact iff_of_true (delegate_reports ..) trivial
  | initPmConfigs id pmConfigs =>
    rw [ManagerCall.exec]
    by_cases hid : pmConfigs.id = ""
    · rw [if_pos hid]
      simp [returns, after, Session.Clean, ManagerCall.Reports, ManagerCall.deviceID, hid]
    · rw [if_neg hid]
      exact iff_of_true (delegate_reports ..) fun _ => hid
  | updatePortState id portType portNo operStatus =>
    rw [ManagerCall.exec, ManagerCall.onAgentOf, ManagerCall.Reports, ManagerCall.deviceID,
      ← updatePortState_fails_iff portNo operStatus]
    generalize ((DeviceCall.updatePortState portType portNo operStatus).run (env 0) :
      EStateM Err SyncedAgent Unit) = op
    by_cases hid : id ∈ m
    · cases hop : onAgent id op m <;>
        simp [returns, after, bind_apply, withAgent, performed, Session.Clean, hid, hop]
    · simp [returns, bind_apply, withAgent, onAgent, hid, AList.lookup_eq_none.mpr hid]
  | deleteAllPorts id =>
    exact iff_of_true (withAgent_reports ((honest_performed _).bind (honest_performed _))) trivial
  | updatePortsState id state =>
    rw [ManagerCall.exec]
    by_cases hstate : state = .active ∨ state = .unknown
    · rw [if_pos hstate]
      exact iff_of_true (withAgent_reports ((honest_performed _).bind
        ((honest_performed _).bind (honest_performed _)))) fun _ => hstate
    · rw [if_neg hstate]
      by_cases hid : id ∈ m <;> simp [returns, after, withAgent, Session.Clean,
        ManagerCall.Reports, ManagerCall.deviceID, hid, hstate]

/-- The state of a port is updated, and the error for a missing device is returned. -/
theorem updatePortState_reports_missing_device :
    let m := (∅ : DeviceManager).insert "olt" { SyncedAgent.wrote { id := "olt", ports :=
      [{ portNo := 1, type := .ponOlt }] } with origin := {} }
    let call := ManagerCall.updatePortState "olt" (.known .ponOlt) 1 .active
    let r := call.exec (fun _ => willingEnv false) none ⟨m, []⟩
    (match r with
      | .ok _ _ => none
      | .error e s => some (e, s.ended)) = some (.status .notFound "olt", [none]) := by
  decide

end VolthaCore.Manager
