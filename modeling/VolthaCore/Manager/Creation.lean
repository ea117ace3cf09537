import VolthaCore.Manager.AgentLifecycle

/-! The requests that create devices and logical devices, with every answer of the
store, after `createDevice`, `childDeviceDetected` and `createLogicalDevice`. A
request first checks what it was given, then enters the new agent into the maps
of its manager, and only then starts the agent. When a step after the entry
fails, nothing is taken back: the agent stays in the maps, a device that was
stored before its proxy failed stays stored, and a root device keeps the logical
device that was to be created as its parent. -/

namespace VolthaCore.Manager.Creation

open Devices Outcome

/-- The maps of the two managers, and the stores. -/
structure Managers where
  deviceAgents : GoMap String NewAgent := ∅
  rootDevices : GoMap String Bool := ∅
  logicalDeviceAgents : GoMap String LogicalAgent := ∅
  stores : Stores := {}

/-- The answer to `AddWithID`, which may give `nil` without an error. -/
inductive AddAnswer where
  | failed (e : Err)
  | absent
  | added
  deriving DecidableEq

def addIfAbsent {α : Type} (m : GoMap String α) (id : String) (a : α) : GoMap String α :=
  if id ∈ m then m else m.insert id a

/-! ### The maps -/

def addDeviceAgentToMap (agent : NewAgent) (m : Managers) : Managers :=
  { m with
    deviceAgents := addIfAbsent m.deviceAgents agent.deviceID agent
    rootDevices := m.rootDevices.insert agent.deviceID agent.isRootdevice }

def addLogicalDeviceAgentToMap (agent : LogicalAgent) (m : Managers) : Managers :=
  { m with logicalDeviceAgents := addIfAbsent m.logicalDeviceAgents agent.logicalDeviceID agent }

/-- A step of loading a device that is not in memory, with its parent and its children: the agent of
a device or of a logical device has been started, or a logical device has been removed because its
agent could not be started. -/
inductive LoadStep where
  | device (agent : NewAgent)
  | logicalDevice (agent : LogicalAgent)
  | removed (id : String)

/-- Devices that are in memory are not loaded. -/
def LoadStep.step (m : Managers) : LoadStep → Managers
  | .device agent => if agent.deviceID ∈ m.deviceAgents then m else addDeviceAgentToMap agent m
  | .logicalDevice agent => addLogicalDeviceAgentToMap agent m
  | .removed id =>
    { m with stores := { m.stores with logicalDevices := m.stores.logicalDevices.erase id } }

/-- What a load comes to. -/
structure Load where
  steps : List LoadStep := []
  error : Option Err := none

def Load.run (load : Load) (m : Managers) : Managers := Runs.run LoadStep.step load.steps m

def getDeviceAgent (deviceID : String) (load : Load) (m : Managers) : Option NewAgent × Managers :=
  match m.deviceAgents.lookup deviceID with
  | some agent => (some agent, m)
  | none =>
    match load.error with
    | some _ => (none, load.run m)
    | none => ((load.run m).deviceAgents.lookup deviceID, load.run m)

/-! ### Devices -/

/-- The answers that the start of an agent for a new device meets. -/
structure StartAnswers where
  add : AddAnswer := .added
  proxy : ProxyAnswer := .created
  deriving DecidableEq

/-- Enter an agent for a new device into the maps and start it. -/
def addNewDevice (createDeviceID : String) (deviceToCreate : ManagedDevice) (a : StartAnswers) :
    EStateM Err Managers ManagedDevice := fun m =>
  let agent := newDeviceAgent createDeviceID deviceToCreate
  let device := startDevice createDeviceID deviceToCreate
  let stores :=
    { m.stores with devices := addIfAbsent m.stores.devices agent.deviceID device }
  match a.add with
  | .failed e => .error e (addDeviceAgentToMap agent m)
  | .absent =>
    .error (.status .aborted ("failed-adding-device-" ++ agent.deviceID))
      (addDeviceAgentToMap agent m)
  | .added =>
    match NewAgent.createProxy a.proxy { agent with device } with
    | .error e agent' => .error e (addDeviceAgentToMap agent' { m with stores })
    | .ok () agent' => .ok device (addDeviceAgentToMap agent' { m with stores })

/-- The checks of `createDevice`, on the devices that the store lists. -/
def prepareDevice (view : DeviceManager) (listed : Option Err) (device : ManagedDevice) :
    Except Err ManagedDevice :=
  match listed with
  | some e => .error e
  | none =>
    if isParentDeviceExist view device then .error (.plain "Device is already pre-provisioned")
    else .ok { device with root := true }

/-- The checks of `childDeviceDetected` with a device type. -/
def prepareChildOf (view : DeviceManager) (d : Detection) (deviceType : String) :
    Except Err ManagedDevice :=
  match view.lookup d.parentDeviceID with
  | none => .error (.status .notFound d.parentDeviceID)
  | some parent =>
    match getChildDevice view d.parentDeviceID d.serialNumber d.onuID d.parentPortNo with
    | .ok _ => .error (.status .alreadyExists d.serialNumber)
    | .error (.crash reason) => .error (.crash reason)
    | .error _ => .ok (d.childDevice deviceType parent.device.type)

/-- The checks of `childDeviceDetected`. -/
def prepareChild (view : DeviceManager) (deviceTypes : Except Err (List RegisteredType))
    (d : Detection) : Except Err ManagedDevice := do
  let deviceType ←
    if d.deviceType = "" ∧ d.vendorID ≠ "" then
      deviceTypes.map fun types => adapterOfVendor types d.vendorID
    else pure d.deviceType
  if deviceType = "" then throw (.status .notFound d.vendorID)
  else prepareChildOf view d deviceType

def createDevice (view : DeviceManager) (listed : Option Err) (createDeviceID : String)
    (device : ManagedDevice) (a : StartAnswers) : EStateM Err Managers ManagedDevice := fun m =>
  match prepareDevice view listed device with
  | .error e => .error e m
  | .ok device => addNewDevice createDeviceID device a m

/-- The checks load the parent and its children. What follows when the child has been created, its
activation, is left out. -/
def childDeviceDetected (view : DeviceManager) (load : Load)
    (deviceTypes : Except Err (List RegisteredType)) (createDeviceID : String) (d : Detection)
    (a : StartAnswers) : EStateM Err Managers ManagedDevice := fun m =>
  match prepareChild view deviceTypes d with
  | .error e => .error e (load.run m)
  | .ok childDevice => addNewDevice createDeviceID childDevice a (load.run m)

/-! ### Logical devices -/

/-- The answers that the creation of a logical device meets: the load of the root device, the update
of it and, in the start of the agent, the request for the capability of the switch, the datapath id,
and the answers of the store. -/
structure LogicalAnswers where
  load : Load := {}
  setParentID : StoreResult := .written
  capability : Option Err := none
  datapathID : Except Err UInt64 := .ok 0
  add : AddAnswer := .added
  proxies : LogicalProxies := {}

/-- The device of the agent under `deviceID` with another parent, in memory and, if it is stored, in
the store. -/
def link (deviceID parentID : String) (agent : NewAgent) (m : Managers) : Managers :=
  let device := { agent.device with parentId := parentID }
  { m with
    deviceAgents := m.deviceAgents.insert deviceID { agent with device }
    stores := { m.stores with devices :=
      if agent.deviceID ∈ m.stores.devices then m.stores.devices.insert agent.deviceID device
      else m.stores.devices } }

/-- The update of a device that is not stored is answered as well, and stores nothing. -/
def setParentID (deviceID parentID : String) (load : Load) (update : StoreResult) :
    EStateM Err Managers Unit := fun m =>
  match getDeviceAgent deviceID load m with
  | (none, m') => .error (.status .notFound deviceID) m'
  | (some agent, m') =>
    if update = .written then .ok () (link deviceID parentID agent m')
    else .error (.status .internal ("failed-update-device:" ++ agent.deviceID)) m'

/-- `start` of an agent for a new logical device. It runs beside the request, as does the set-up of
the ports, which is left out. An `AddWithID` that gives `nil` is only logged. -/
def startLogical (a : LogicalAnswers) : EStateM Err (LogicalAgent × Stores) Unit :=
  fun (agent, stores) =>
    match a.capability, a.datapathID, a.add with
    | some e, _, _ => .error e (agent, stores)
    | none, .error e, _ => .error e (agent, stores)
    | none, .ok _, .failed e => .error e (agent, stores)
    | none, .ok datapathId, add =>
      let ld : LogicalDevice :=
        { id := agent.logicalDeviceID, rootDeviceId := agent.rootDeviceID, datapathId }
      let stores' :=
        if add = .added then
          { stores with
            logicalDevices := addIfAbsent stores.logicalDevices agent.logicalDeviceID ld }
        else stores
      match LogicalAgent.createProxies a.proxies { agent with logicalDevice := some ld } with
      | .error e agent' => .error e (agent', stores')
      | .ok () agent' => .ok () (agent', stores')

/-- The id of a logical device: the address of the root device without its colons. -/
def logicalDeviceID (device : ManagedDevice) : String :=
  String.ofList (device.macAddress.toList.filter (· ≠ ':'))

/-- The managers when the agent of a logical device has ended its start. It is not the one in the
map if the map had one `before` the request. -/
def started (before : Managers) (id : String) (agent : LogicalAgent) (m : Managers) : Managers :=
  if id ∈ before.logicalDeviceAgents then m
  else { m with logicalDeviceAgents := m.logicalDeviceAgents.insert id agent }

/-- The request with the start of the agent, which runs beside it; the error of the start is only
logged. -/
def createLogicalDevice (device : ManagedDevice) (a : LogicalAnswers) :
    EStateM Err Managers (String × Option Err) := fun m =>
  let id := logicalDeviceID device
  if device.root = false then .error (.plain "device-not-root") m
  else if id = "" then .error (.plain "mac-address-not-set") m
  else
    let agent := newLogicalDeviceAgent id device.id
    match setParentID device.id id a.load a.setParentID (addLogicalDeviceAgentToMap agent m) with
    | .error e m' => .error e m'
    | .ok () m' =>
      match startLogical a (agent, m'.stores) with
      | .error e (agent', stores) => .ok (id, some e) (started m id agent' { m' with stores })
      | .ok () (agent', stores) => .ok (id, none) (started m id agent' { m' with stores })

/-! ### Requests -/

/-- A request with the answers that it meets. -/
inductive Request where
  | createDevice (device : ManagedDevice) (listed : Option Err) (createDeviceID : String)
      (a : StartAnswers)
  | childDeviceDetected (d : Detection) (load : Load)
      (deviceTypes : Except Err (List RegisteredType)) (createDeviceID : String) (a : StartAnswers)
  | createLogicalDevice (device : ManagedDevice) (a : LogicalAnswers)

namespace Request

def run (view : DeviceManager) (m : Managers) : Request → Managers
  | .createDevice device listed createDeviceID a =>
    after (Creation.createDevice view listed createDeviceID device a) m
  | .childDeviceDetected d load deviceTypes createDeviceID a =>
    after (Creation.childDeviceDetected view load deviceTypes createDeviceID d a) m
  | .createLogicalDevice device a => after (Creation.createLogicalDevice device a) m

/-- The request passes its checks and then fails. -/
def Fails (view : DeviceManager) (m : Managers) : Request → Prop
  | .createDevice device listed createDeviceID a =>
    (∃ d, prepareDevice view listed device = .ok d) ∧
      returns (Creation.createDevice view listed createDeviceID device a) m = false
  | .childDeviceDetected d load deviceTypes createDeviceID a =>
    (∃ child, prepareChild view deviceTypes d = .ok child) ∧
      returns (Creation.childDeviceDetected view load deviceTypes createDeviceID d a) m = false
  | .createLogicalDevice device a =>
    (device.root = true ∧ logicalDeviceID device ≠ "") ∧
      ∀ id m', Creation.createLogicalDevice device a m ≠ .ok (id, none) m'

end Request

/-! ### The devices of the device manager -/

/-- The device manager that the checks see has the devices that are stored. -/
def Views (view : DeviceManager) (m : Managers) : Prop :=
  ∀ id, (view.lookup id).map ManagedAgent.getDevice = m.stores.devices.lookup id

theorem Views.mem_iff {view : DeviceManager} {m : Managers} (h : Views view m) (id : String) :
    id ∈ view ↔ id ∈ m.stores.devices := by
  rw [← AList.lookup_isSome, ← AList.lookup_isSome, ← h id, Option.isSome_map]

/-- A new device whose agent starts is stored as the device manager adds it. -/
theorem Views.addNewDevice {view : DeviceManager} {m : Managers} (h : Views view m)
    (createDeviceID : String) (d : ManagedDevice) :
    ∃ m', Creation.addNewDevice createDeviceID d {} m = .ok (startDevice createDeviceID d) m' ∧
      Views (addDevice (startDevice createDeviceID d) view) m' := by
  refine ⟨_, rfl, fun id => ?_⟩
  change _ = (addIfAbsent m.stores.devices (startDevice createDeviceID d).id _).lookup id
  unfold addDevice addIfAbsent
  by_cases hmem : (startDevice createDeviceID d).id ∈ view
  · rw [if_pos hmem, if_pos ((h.mem_iff _).mp hmem)]
    exact h id
  · rw [if_neg hmem, if_neg fun hstored => hmem ((h.mem_iff _).mpr hstored)]
    by_cases hid : id = (startDevice createDeviceID d).id
    · subst hid
      rw [AList.lookup_insert, AList.lookup_insert]
      rfl
    · rw [AList.lookup_insert_ne hid, AList.lookup_insert_ne hid]
      exact h id

/-- With the answers of a store that works, a root device is created as the device manager creates
it. -/
theorem createDevice_views {view : DeviceManager} {m : Managers} (h : Views view m)
    (createDeviceID : String) (device : ManagedDevice) :
    match Manager.createDevice createDeviceID device view with
    | .ok d view' =>
      ∃ m', createDevice view none createDeviceID device {} m = .ok d m' ∧ Views view' m'
    | .error e _ => createDevice view none createDeviceID device {} m = .error e m := by
  rw [Manager.createDevice_eq]
  unfold createDevice prepareDevice
  by_cases hexists : isParentDeviceExist view device = true
  · rw [if_pos hexists]
    simp only [hexists, if_true]
  · rw [if_neg hexists]
    simp only [if_neg hexists]
    exact h.addNewDevice createDeviceID { device with root := true }

/-- So is a child. The error of one that is there comes without the child. -/
theorem childDeviceDetected_views {view : DeviceManager} {m : Managers} (h : Views view m)
    (deviceTypes : List RegisteredType) (createDeviceID : String) (d : Detection) :
    match Manager.childDeviceDetected deviceTypes createDeviceID d view with
    | .ok (child, none) view' =>
      ∃ m', childDeviceDetected view {} (.ok deviceTypes) createDeviceID d {} m = .ok child m' ∧
        Views view' m'
    | .ok (_, some e) _ | .error e _ =>
      childDeviceDetected view {} (.ok deviceTypes) createDeviceID d {} m = .error e m := by
  generalize htype : (if d.deviceType = "" ∧ d.vendorID ≠ "" then
    adapterOfVendor deviceTypes d.vendorID else d.deviceType) = deviceType
  have hprepare : prepareChild view (.ok deviceTypes) d =
      if deviceType = "" then .error (.status .notFound d.vendorID)
      else prepareChildOf view d deviceType := by
    rw [← htype]
    unfold prepareChild
    by_cases hvendor : d.deviceType = "" ∧ d.vendorID ≠ ""
    · simp only [if_pos hvendor]
      rfl
    · simp only [if_neg hvendor]
      rfl
  unfold childDeviceDetected Manager.childDeviceDetected
  rw [hprepare, htype]
  by_cases hnone : deviceType = ""
  · simp only [if_pos hnone]
    rfl
  · simp only [if_neg hnone]
    unfold detectChild prepareChildOf
    cases view.lookup d.parentDeviceID with
    | none => rfl
    | some parent =>
      dsimp only
      cases hchild : getChildDevice view d.parentDeviceID d.serialNumber d.onuID d.parentPortNo with
      | ok child => rfl
      | error e => cases e with
        | crash reason => rfl
        | _ => exact h.addNewDevice createDeviceID (d.childDevice deviceType parent.device.type)

/-- The maps are what they were, nothing more is stored, and every stored device has the parent that
it had. -/
structure Restored (m m' : Managers) : Prop where
  deviceAgents : GoMap.Same m'.deviceAgents m.deviceAgents
  rootDevices : GoMap.Same m'.rootDevices m.rootDevices
  logicalDeviceAgents : GoMap.Same m'.logicalDeviceAgents m.logicalDeviceAgents
  devices : ∀ id, (m'.stores.devices.lookup id).map (·.parentId) =
    (m.stores.devices.lookup id).map (·.parentId)
  logicalDevices : ∀ id, id ∈ m'.stores.logicalDevices → id ∈ m.stores.logicalDevices

end VolthaCore.Manager.Creation
