import VolthaCore.Devices.Operations
import VolthaCore.Lib.GoMap
import VolthaCore.Lib.Triple

/-! The device manager: the agents of all devices, the ports that link two of them, and the ways
in which a device comes into being. A device that is stored and not in memory stands with the
agent that loading it would make. -/

namespace VolthaCore.Manager

open Devices Outcome

structure ProxyAddress where
  deviceId : String
  deviceType : String
  channelId : UInt32
  onuId : UInt32
  deriving DecidableEq

/-- The fields that a device has from its creation and that no operation of its agent assigns. -/
structure Origin where
  hostAndPort : String := ""
  vendorId : String := ""
  parentPortNo : UInt32 := 0
  proxyAddress : Option ProxyAddress := none
  deriving DecidableEq

structure ManagedDevice extends Device, Origin
  deriving DecidableEq

structure ManagedAgent extends SyncedAgent where
  origin : Origin

def ManagedAgent.getDevice (a : ManagedAgent) : ManagedDevice :=
  { toDevice := a.device, toOrigin := a.origin }

abbrev DeviceManager := GoMap String ManagedAgent

/-- `getDeviceAgent`, followed by an operation of the agent. -/
def onAgent (deviceID : String) (operation : EStateM Err SyncedAgent Unit) :
    EStateM Err DeviceManager Unit := fun m =>
  match m.lookup deviceID with
  | none => .error (.status .notFound deviceID) m
  | some a =>
    match operation a.toSyncedAgent with
    | .ok () a' => .ok () (m.insert deviceID { a with toSyncedAgent := a' })
    | .error e a' => .error e (m.insert deviceID { a with toSyncedAgent := a' })

def getDevice (deviceID : String) : EStateM Err DeviceManager ManagedDevice := fun m =>
  match m.lookup deviceID with
  | none => .error (.status .notFound deviceID) m
  | some a => .ok a.getDevice m

/-! ### Peer ports -/

/-- The loop over the peers of a port; the store answers the writes one by one. -/
def addPeers (env : ℕ → DeviceEnv) (meAsPeer : PeerPort) :
    ℕ → List PeerPort → EStateM Err DeviceManager Unit
  | _, [] => pure ()
  | i, peerPort :: peers => do
    if peerPort.deviceId ∈ (← get) then
      onAgent peerPort.deviceId ((DeviceCall.addPeerPort meAsPeer).run (env i))
    addPeers env meAsPeer (i + 1) peers

/-- The port of the peer is looked up under the number of the port that is added. -/
def addPort (env : ℕ → DeviceEnv) (deviceID : String) (port : Port) :
    EStateM Err DeviceManager Unit := do
  onAgent deviceID ((DeviceCall.addPort port).run (env 0))
  addPeers env ⟨deviceID, port.portNo⟩ 1 port.peers
  let _ ← getDevice deviceID

/-! ### Children -/

def getAllChildDeviceIds (parentDevice : Device) : List String :=
  parentDevice.ports.flatMap fun port => port.peers.map PeerPort.deviceId

/-- The comparison in `GetChildDevice`; a device without a proxy address makes it panic. -/
def isChild (serialNumber : String) (onuID parentPortNo : Int64) (searchDevice : ManagedDevice) :
    Except Err Bool :=
  match searchDevice.proxyAddress with
  | none => .error nilPointer
  | some proxyAddress =>
    let foundOnuID := proxyAddress.onuId = onuID.toUInt64.toUInt32 &&
      searchDevice.parentPortNo = parentPortNo.toUInt64.toUInt32
    let foundSerialNumber := searchDevice.serialNumber = serialNumber
    .ok (if 0 < onuID ∧ serialNumber ≠ "" then foundOnuID && foundSerialNumber
      else foundOnuID || foundSerialNumber)

def findChild (m : DeviceManager) (serialNumber : String) (onuID parentPortNo : Int64) :
    List String → Except Err (Option ManagedDevice)
  | [] => .ok none
  | childDeviceID :: ids =>
    match m.lookup childDeviceID with
    | none => findChild m serialNumber onuID parentPortNo ids
    | some a => do
      if ← isChild serialNumber onuID parentPortNo a.getDevice then return some a.getDevice
      else findChild m serialNumber onuID parentPortNo ids

def getChildDevice (m : DeviceManager) (parentDeviceID serialNumber : String)
    (onuID parentPortNo : Int64) : Except Err ManagedDevice :=
  match m.lookup parentDeviceID with
  | none => .error (.status .aborted (Err.status .notFound parentDeviceID).text)
  | some parent => do
    let childDeviceIds := getAllChildDeviceIds parent.device
    if childDeviceIds.isEmpty then .error (.status .notFound parentDeviceID)
    else match ← findChild m serialNumber onuID parentPortNo childDeviceIds with
      | none => .error (.status .notFound parentDeviceID)
      | some device => .ok device

/-- `start` of an agent for a new device, which has an id of its own or gets a new one. -/
def startDevice (createDeviceID : String) (deviceToCreate : ManagedDevice) : ManagedDevice :=
  { deviceToCreate with
    id := if deviceToCreate.id = "" then createDeviceID else deviceToCreate.id
    adminState := .preprovisioned
    flowGroups := []
    flows := []
    vlan :=
      if deviceToCreate.root then deviceToCreate.vlan
      else deviceToCreate.proxyAddress.elim deviceToCreate.vlan ProxyAddress.channelId }

/-- `addDeviceAgentToMap` and `AddWithID`: an id that is taken keeps its agent and its device. -/
def addDevice (device : ManagedDevice) (m : DeviceManager) : DeviceManager :=
  if device.id ∈ m then m
  else m.insert device.id { SyncedAgent.wrote device.toDevice with origin := device.toOrigin }

/-- The part of a registered device type that a detection reads. -/
structure RegisteredType where
  adapter : String
  vendorIds : List String

def adapterOfVendor (deviceTypes : List RegisteredType) (vendorID : String) : String :=
  ((deviceTypes.find? fun dType => dType.vendorIds.contains vendorID).map
    RegisteredType.adapter).getD ""

/-- What an adapter reports about a child that it detected. -/
structure Detection where
  parentDeviceID : String
  parentPortNo : Int64
  deviceType : String := ""
  channelID : Int64 := 0
  vendorID : String := ""
  serialNumber : String
  onuID : Int64

/-- The device that a detection creates for a parent of the given type. -/
def Detection.childDevice (d : Detection) (deviceType parentType : String) : ManagedDevice where
  id := ""
  type := deviceType
  parentId := d.parentDeviceID
  parentPortNo := d.parentPortNo.toUInt64.toUInt32
  vendorId := d.vendorID
  serialNumber := d.serialNumber
  root := false
  proxyAddress := some {
    deviceId := d.parentDeviceID
    deviceType := parentType
    channelId := d.channelID.toUInt64.toUInt32
    onuId := d.onuID.toUInt64.toUInt32 }

/-- The part of `childDeviceDetected` with a device type. A child that exists is returned together
with an error. -/
def detectChild (deviceType createDeviceID : String) (d : Detection) :
    EStateM Err DeviceManager (ManagedDevice × Option Err) := fun m =>
  match m.lookup d.parentDeviceID with
  | none => .error (.status .notFound d.parentDeviceID) m
  | some parent =>
    match getChildDevice m d.parentDeviceID d.serialNumber d.onuID d.parentPortNo with
    | .ok device => .ok (device, some (.status .alreadyExists d.serialNumber)) m
    | .error (.crash reason) => .error (.crash reason) m
    | .error _ =>
      let childDevice := startDevice createDeviceID (d.childDevice deviceType parent.device.type)
      .ok (childDevice, none) (addDevice childDevice m)

def childDeviceDetected (deviceTypes : List RegisteredType) (createDeviceID : String)
    (d : Detection) : EStateM Err DeviceManager (ManagedDevice × Option Err) :=
  let deviceType :=
    if d.deviceType = "" ∧ d.vendorID ≠ "" then adapterOfVendor deviceTypes d.vendorID
    else d.deviceType
  if deviceType = "" then throw (.status .notFound d.vendorID)
  else detectChild deviceType createDeviceID d

/-! ### Root devices -/

/-- A stored root device has an address of the new device. -/
def isParentDeviceExist (m : DeviceManager) (newDevice : ManagedDevice) : Bool :=
  m.entries.any fun e => e.2.stored.root &&
    (newDevice.hostAndPort ≠ "" && newDevice.hostAndPort = e.2.origin.hostAndPort ||
      newDevice.macAddress ≠ "" && newDevice.macAddress = e.2.stored.macAddress)

/-- The part of `createDevice` after its check. -/
def createRootDevice (createDeviceID : String) (device : ManagedDevice) (m : DeviceManager) :
    DeviceManager :=
  addDevice (startDevice createDeviceID { device with root := true }) m

def createDevice (createDeviceID : String) (device : ManagedDevice) :
    EStateM Err DeviceManager ManagedDevice := do
  if isParentDeviceExist (← get) device then throw (.plain "Device is already pre-provisioned")
  modify (createRootDevice createDeviceID device)
  return startDevice createDeviceID { device with root := true }

theorem createDevice_eq (createDeviceID : String) (device : ManagedDevice) (m : DeviceManager) :
    createDevice createDeviceID device m =
      if isParentDeviceExist m device then .error (.plain "Device is already pre-provisioned") m
      else .ok (startDevice createDeviceID { device with root := true })
        (createRootDevice createDeviceID device m) := by
  unfold createDevice
  change (if isParentDeviceExist m device then _ else _ : EStateM Err DeviceManager _) m = _
  split_ifs <;> rfl

/-! ### What the operations leave behind -/

theorem lookup_onAgent (m : DeviceManager) (deviceID : String)
    (operation : EStateM Err SyncedAgent Unit) (id : String) :
    (after (onAgent deviceID operation) m).lookup id = if id = deviceID then
      (m.lookup id).map fun a => { a with toSyncedAgent := after operation a.toSyncedAgent }
    else m.lookup id := by
  by_cases hid : id = deviceID
  · subst hid
    rw [if_pos rfl]
    unfold after onAgent
    cases ha : m.lookup id with
    | none => simp [ha]
    | some a => cases ho : operation a.toSyncedAgent <;> simp [ho]
  · rw [if_neg hid]
    unfold after onAgent
    cases ha : m.lookup deviceID with
    | none => rfl
    | some a => cases ho : operation a.toSyncedAgent <;> simp [ho, AList.lookup_insert_ne hid]

theorem lookup_addDevice (device : ManagedDevice) (m : DeviceManager) (id : String) :
    (addDevice device m).lookup id = if id = device.id ∧ id ∉ m then
      some { SyncedAgent.wrote device.toDevice with origin := device.toOrigin }
    else m.lookup id := by
  unfold addDevice
  by_cases hid : id = device.id
  · subst hid
    by_cases hm : device.id ∈ m <;> simp [hm]
  · split_ifs with hm hnot hnot
    · exact absurd hnot.1 hid
    · rfl
    · exact absurd hnot.1 hid
    · exact AList.lookup_insert_ne hid

end VolthaCore.Manager
