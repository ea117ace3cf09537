import VolthaCore.Lib.Runs
import VolthaCore.Manager.Transitions
import VolthaCore.Routes.DeviceRoutes

/-! The handlers that a deletion triggers. Every update of a stored device triggers the handlers of
its transition, which run one after the other in a goroutine of their own until one fails, while
the handlers of other devices run in between. Store and adapters answer all requests. -/

namespace VolthaCore.Manager

open Devices Outcome Routes

/-- A logical device agent, which is not ready until the adapter has described the device. -/
structure ManagedLogicalDevice where
  rootDeviceID : String
  ready : Bool := true
  ports : List LogicalPort := []
  deriving DecidableEq

/-- The handlers of one transition that are still to run, with the device after it. -/
structure Task where
  device : ManagedDevice
  handlers : List Handler
  deriving DecidableEq

structure Core where
  devices : DeviceManager
  rootDevices : GoMap String Bool
  logicalDevices : GoMap String ManagedLogicalDevice
  tasks : List Task

/-- The handlers that set a device up, which no deletion triggers; what they do is left open. -/
structure Setup where
  createLogicalDevice : ManagedDevice → EStateM Err Core Unit
  setupUNILogicalPorts : ManagedDevice → EStateM Err Core Unit

def ManagedAgent.storedDevice (a : ManagedAgent) : ManagedDevice :=
  { toDevice := a.stored, toOrigin := a.origin }

/-- `processUpdate`: the goroutine of a transition that has handlers. -/
def processUpdate (previous current : ManagedDevice) : List Task :=
  match getTransitionHandler previous.toDevice current.toDevice with
  | none => []
  | some handlers => [⟨current, handlers⟩]

def ManagedAgent.perform (call : DeviceCall) (a : ManagedAgent) : ManagedAgent :=
  { a with toSyncedAgent := after (call.run (willingEnv false)) a.toSyncedAgent }

/-- An operation of an agent, with the handlers that its update triggers. -/
def onDevice (deviceID : String) (call : DeviceCall) : EStateM Err Core Unit := fun core =>
  match core.devices.lookup deviceID with
  | none => .error (.status .notFound deviceID) core
  | some a =>
    let core' := { core with
      devices := core.devices.insert deviceID (a.perform call)
      tasks := core.tasks ++ processUpdate a.storedDevice (a.perform call).storedDevice }
    match call.run (willingEnv false) a.toSyncedAgent with
    | .ok () _ => .ok () core'
    | .error e _ => .error e core'

/-! ### Children -/

/-- The loop over the children. The operation is not performed on a child without an agent, and
`err` is that of the last child, whatever happened to the ones before. -/
def forEachChild {σ : Type} (op : String → σ → Option (Option Err) × σ) :
    List String → Option Err → Bool → σ → Option Err × Bool × σ
  | [], err, allDone, s => (err, allDone, s)
  | childDeviceID :: ids, err, allDone, s =>
    match op childDeviceID s with
    | (none, s') => forEachChild op ids err allDone s'
    | (some none, s') => forEachChild op ids none allDone s'
    | (some (some e), s') => forEachChild op ids (some e) false s'

def eachChild (call : DeviceCall) :
    List String → Option Err → Bool → Core → Option Err × Bool × Core :=
  forEachChild fun childDeviceID core =>
    if childDeviceID ∈ core.devices then
      match onDevice childDeviceID call core with
      | .ok () core' => (some none, core')
      | .error e core' => (some (some e), core')
    else (none, core)

def allChildDevices (call : DeviceCall) (parentDevice : ManagedDevice) : EStateM Err Core Unit :=
  fun core =>
    match eachChild call (getAllChildDeviceIds parentDevice.toDevice) none true core with
    | (some e, false, core') => .error e core'
    | (_, _, core') => .ok () core'

def disableAllChildDevices : ManagedDevice → EStateM Err Core Unit := allChildDevices .disableDevice

def deleteAllChildDevices : ManagedDevice → EStateM Err Core Unit := allChildDevices .deleteDevice

def childDeviceLost (cDevice : ManagedDevice) : EStateM Err Core Unit := fun core =>
  if cDevice.parentId ∈ core.devices then
    match cDevice.proxyAddress with
    | none => .error nilPointer core
    | some _ => .ok () { core with tasks := core.tasks ++ [⟨cDevice, [.deletePeerPorts]⟩] }
  else .error (.status .notFound cDevice.id) core

/-! ### Logical devices -/

def getLogicalDeviceAgent (core : Core) (id : String) : Option ManagedLogicalDevice :=
  (core.logicalDevices.lookup id).filter ManagedLogicalDevice.ready

/-- The update of the parent id is not awaited. -/
def deleteLogicalDevice (cDevice : ManagedDevice) : EStateM Err Core Unit := fun core =>
  if cDevice.root then
    let core' :=
      if (getLogicalDeviceAgent core cDevice.parentId).isSome then
        { core with logicalDevices := core.logicalDevices.erase cDevice.parentId }
      else core
    .ok () (after (onDevice cDevice.id (.setParentID "")) core')
  else .error (.plain "device-not-root") core

def getLogicalDeviceID (core : Core) (device : Device) : Except Err String :=
  if device.root then .ok device.parentId
  else match core.devices.lookup device.parentId with
    | none => .error (.status .notFound device.id)
    | some parentDevice => .ok parentDevice.device.parentId

def deleteLogicalPorts (device : ManagedDevice) : EStateM Err Core Unit := fun core =>
  match core.devices.lookup device.id with
  | none => .error (.status .notFound device.id) core
  | some a =>
    match getLogicalDeviceID core a.device with
    | .error e => .error e core
    | .ok ldID =>
      match getLogicalDeviceAgent core ldID with
      | none => .ok () core
      | some ld =>
        .ok () { core with
          logicalDevices := core.logicalDevices.insert ldID
            { ld with ports := ld.ports.filter fun port => port.deviceId ≠ device.id } }

/-! ### Runs of handlers -/

/-- A root device goes with its logical devices; the agent takes its device out of the store. -/
def stopManagingDevice (id : String) (core : Core) : Core :=
  if id ∈ core.devices then
    { core with
      devices := core.devices.erase id
      rootDevices := core.rootDevices.erase id
      logicalDevices :=
        if core.rootDevices.lookup id = some true then
          core.logicalDevices.filter fun _ ld => ld.rootDeviceID ≠ id
        else core.logicalDevices }
  else core

def runPostDeviceDelete (cDevice : ManagedDevice) : EStateM Err Core Unit :=
  modify (stopManagingDevice cDevice.id)

def runHandler (setup : Setup) : Handler → ManagedDevice → EStateM Err Core Unit
  | .createLogicalDevice => setup.createLogicalDevice
  | .setupUNILogicalPorts => setup.setupUNILogicalPorts
  | .disableAllChildDevices => disableAllChildDevices
  | .deleteAllChildDevices => deleteAllChildDevices
  | .deleteLogicalDevice => deleteLogicalDevice
  | .runPostDeviceDelete => runPostDeviceDelete
  | .childDeviceLost => childDeviceLost
  | .deleteLogicalPorts => deleteLogicalPorts
  | .notifyInvalidTransition => fun _ => pure ()
  | .deletePeerPorts => fun device => onDevice device.parentId (.deletePeerPorts device.id)

def Core.setTask (core : Core) (i : ℕ) (t : Task) : Core :=
  { core with tasks := core.tasks.set i t }

/-- The scheduler lets one goroutine run its next handler; a handler that fails is the last one. -/
def Core.step (setup : Setup) (core : Core) (i : ℕ) : Core :=
  match core.tasks[i]? with
  | some ⟨device, handler :: handlers⟩ =>
    match runHandler setup handler device core with
    | .ok () core' => core'.setTask i ⟨device, handlers⟩
    | .error _ core' => core'.setTask i ⟨device, []⟩
  | _ => core

def Core.Done (core : Core) : Prop := ∀ t ∈ core.tasks, t.handlers = []

instance (core : Core) : Decidable core.Done :=
  inferInstanceAs (Decidable (∀ t ∈ core.tasks, t.handlers = []))

end VolthaCore.Manager
