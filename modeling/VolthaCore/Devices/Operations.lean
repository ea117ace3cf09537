import VolthaCore.Devices.FlowUpdates

/-! The operations of the device agent besides the flow operations, each a plan
computed from the clone of the cached device: admin state, parent, performance
configuration, images, ports and the data that the adapter reports. The request
that an operation sends to the adapter is a part of its plan. -/

namespace VolthaCore.Devices

open OpenFlow

/-! ### Admin state -/

def enableDevice (env : DeviceEnv) (cloned : Device) : Plan :=
  match env.deviceTypeToAdapter cloned.type with
  | none => .fail (.plain ("Adapter-not-registered-for-device-type " ++ cloned.type))
  | some adapterName =>
    let cloned := { cloned with adapter := adapterName }
    if cloned.adminState = .enabled then .acknowledge cloned
    else if cloned.adminState = .deleted then
      .fail (.status .failedPrecondition ("cannot-enable-a-deleted-device: " ++ cloned.id ++ " "))
    else
      let device := { cloned with adminState := .enabled, operStatus := .activating }
      -- the adapter adopts a preprovisioned device and reenables any other
      writeDevice device (some ⟨if cloned.adminState = .preprovisioned then .adoptDevice
        else .reEnableDevice, device, .after⟩)

def disableDevice (cloned : Device) : Plan :=
  if cloned.adminState = .disabled then .acknowledge cloned
  else if cloned.adminState = .preprovisioned ∨ cloned.adminState = .deleted then
    .fail (.status .failedPrecondition
      ("deviceId:" ++ cloned.id ++ ", invalid-admin-state:" ++ cloned.adminState.name))
  else
    let cloned := { cloned with adminState := .disabled, operStatus := .unknown }
    writeDevice cloned (some ⟨.disableDevice, cloned, .after⟩)

def updateAdminState (adminState : AdminState) (cloned : Device) : Plan :=
  if cloned.adminState = adminState then .acknowledge cloned
  else writeDevice { cloned with adminState := adminState } none

/-- The adapter is asked first, unless the device was never handed to it. -/
def deleteDevice (cloned : Device) : Plan :=
  if cloned.adminState = .deleted then .acknowledge cloned
  else writeDevice { cloned with adminState := .deleted }
    (if cloned.adminState = .preprovisioned then none else some ⟨.deleteDevice, cloned, .before⟩)

def setParentID (parentID : String) (cloned : Device) : Plan :=
  writeDevice { cloned with parentId := parentID } none

/-! ### Performance configuration -/

def updatePmConfigs (pmConfigs : PmConfigs) (cloned : Device) : Plan :=
  let cloned := { cloned with pmConfigs := some pmConfigs }
  writeDevice cloned (some ⟨.updatePmConfigs pmConfigs, cloned, .after⟩)

/-- The store is updated directly and the cache is left as it is. -/
def initPmConfigs (pmConfigs : PmConfigs) (_cloned : Device) : Plan := .writeStoreOnly pmConfigs

/-! ### Images -/

def nilPointer : Err := .crash "invalid memory address or nil pointer dereference"

def sameImage (image img : ImageDownload) : Bool := image.id = img.id && image.name = img.name

def isImageRegistered (img : ImageDownload) : List (Option ImageDownload) → Except Err Bool
  | [] => .ok false
  | none :: _ => .error nilPointer
  | some image :: rest => if sameImage image img then .ok true else isImageRegistered img rest

def editImages (img : ImageDownload) (edit : ImageDownload → ImageDownload)
    (images : List (Option ImageDownload)) : Except Err (List (Option ImageDownload)) :=
  images.mapM fun
    | none => .error nilPointer
    | some image => .ok (some (if sameImage image img then edit image else image))

/-- Check that an image is registered, make the checks of the operation, and edit
the image in the clone. -/
def withRegisteredImage (img : ImageDownload) (cloned : Device) (check : Except Err Unit)
    (edit : ImageDownload → ImageDownload) : Except Err Device := do
  let images := cloned.imageDownloads.getD []
  if ← isImageRegistered img images then
    check
    let edited ← editImages img edit images
    return { cloned with imageDownloads := some edited }
  else .error (.status .failedPrecondition
    ("deviceId:" ++ cloned.id ++ ", image-not-registered:" ++ img.name))

/-- An `Except` computation that ends in a plan. -/
def planOf : Except Err Plan → Plan
  | .ok plan => plan
  | .error e => .fail e

theorem planOf_rec {P : Plan → Prop} {x : Except Err Plan} (hfail : ∀ e, P (.fail e))
    (h : ∀ plan, x = .ok plan → P plan) : P (planOf x) := by
  cases x with
  | error e => exact hfail e
  | ok plan => exact h plan rfl

/-- A device without a list of images acknowledges and stores nothing. -/
def downloadImage (img : ImageDownload) (cloned : Device) : Plan :=
  if cloned.adminState ≠ .enabled then
    .fail (.status .failedPrecondition
      ("deviceId:" ++ cloned.id ++ ", expected-admin-state:" ++ AdminState.enabled.name))
  else
    let clonedImg := { img with downloadState := .requested }
    match cloned.imageDownloads with
    | none => .acknowledge { cloned with imageDownloads := some [some clonedImg] }
    | some images =>
      let cloned := { cloned with
        imageDownloads := some (images ++ [some clonedImg])
        adminState := .downloadingImage }
      writeDevice cloned (some ⟨.downloadImage clonedImg, cloned, .after⟩)

/-- The adapter gets the device as it was. -/
def cancelImageDownload (img : ImageDownload) (cloned : Device) : Plan :=
  planOf do
    let edited ← withRegisteredImage img cloned (.ok ()) fun i =>
      { i with downloadState := .cancelled }
    if cloned.adminState = .downloadingImage then
      return writeDevice { edited with adminState := .enabled }
        (some ⟨.cancelImageDownload img, cloned, .after⟩)
    else return .acknowledge edited

def activateImage (img : ImageDownload) (cloned : Device) : Plan :=
  planOf do
    let check : Except Err Unit :=
      if cloned.adminState = .downloadingImage then .error (.status .failedPrecondition
        ("deviceId:" ++ cloned.id ++ ", device-in-downloading-state:" ++ img.name))
      else .ok ()
    let edited ← withRegisteredImage img cloned check fun i => { i with imageState := .activating }
    let edited := { edited with adminState := .downloadingImage }
    return writeDevice edited (some ⟨.activateImageUpdate img, edited, .after⟩)

def revertImage (img : ImageDownload) (cloned : Device) : Plan :=
  planOf do
    let check : Except Err Unit :=
      if cloned.adminState ≠ .enabled then .error (.status .failedPrecondition
        ("deviceId:" ++ cloned.id ++ ", device-not-enabled-state:" ++ img.name))
      else .ok ()
    let edited ← withRegisteredImage img cloned check fun i => { i with imageState := .reverting }
    return writeDevice edited (some ⟨.revertImageUpdate img, edited, .after⟩)

/-- The new list starts with as many missing images as there were images. -/
def updatedImages (img : ImageDownload) (images : List (Option ImageDownload)) :
    Except Err (List (Option ImageDownload)) := do
  let kept ← images.mapM fun
    | none => .error nilPointer
    | some image =>
      .ok (if sameImage image img && image.downloadState ≠ .cancelled then [some img] else [])
  return List.replicate images.length none ++ kept.flatten

def updateImageDownload (img : ImageDownload) (cloned : Device) : Plan :=
  planOf do
    let images ← updatedImages img (cloned.imageDownloads.getD [])
    let edited := { cloned with imageDownloads := some images }
    if (img.downloadState ≠ .requested ∧ img.downloadState ≠ .started) ∨
        img.imageState ≠ .activating then
      return writeDevice { edited with adminState := .enabled } none
    else return writeDevice edited none

/-! ### Status and data reported by the adapter -/

def updateDeviceUsingAdapterData (device cloned : Device) : Plan :=
  writeDevice { cloned with
    root := device.root
    vendor := device.vendor
    model := device.model
    serialNumber := device.serialNumber
    macAddress := device.macAddress
    vlan := device.vlan
    reason := device.reason } none

/-- A number that is no status leaves the status as it is. -/
def WireEnum.getD {α : Type} (e : WireEnum α) (default : α) : α :=
  match e with
  | .known value => value
  | .unknown _ => default

def updateDeviceStatus (operStatus : WireEnum OperStatus) (connStatus : WireEnum ConnectStatus)
    (cloned : Device) : Plan :=
  writeDevice { cloned with
    connectStatus := connStatus.getD cloned.connectStatus
    operStatus := operStatus.getD cloned.operStatus } none

def updateDeviceReason (reason : String) (cloned : Device) : Plan :=
  writeDevice { cloned with reason := reason } none

/-! ### Ports -/

def updatePortsOperState (operStatus : OperStatus) (cloned : Device) : Plan :=
  writeDevice { cloned with
    ports := cloned.ports.map fun port => { port with operStatus := operStatus } } none

def updatePortState (portType : WireEnum PortType) (portNo : UInt32) (operStatus : OperStatus)
    (cloned : Device) : Plan :=
  match portType with
  | .unknown number => .fail (.status .invalidArgument (toString number))
  | .known type =>
    writeDevice { cloned with
      ports := cloned.ports.map fun port =>
        if port.type = type ∧ port.portNo = portNo then { port with operStatus := operStatus }
        else port } none

def deleteAllPorts (cloned : Device) : Plan :=
  if cloned.adminState ≠ .disabled ∧ cloned.adminState ≠ .deleted then
    .fail (.status .failedPrecondition ("invalid-state-" ++ cloned.adminState.name))
  else if cloned.ports.isEmpty then .acknowledge cloned
  else writeDevice { cloned with ports := [] } none

def addPort (port : Port) (cloned : Device) : Plan :=
  if cloned.ports.any fun p => p.type = port.type && p.portNo = port.portNo then
    .acknowledge cloned
  else writeDevice { cloned with ports := cloned.ports ++ [{ port with adminState := .enabled }] }
    none

def addPeerPort (port : PeerPort) (cloned : Device) : Plan :=
  writeDevice { cloned with
    ports := Table.editFirst (fun p => p.portNo = port.portNo)
      (fun p => { p with peers := p.peers ++ [port] }) cloned.ports } none

def deletePeerPorts (deviceID : String) (cloned : Device) : Plan :=
  writeDevice { cloned with
    ports := cloned.ports.map fun p =>
      { p with peers := p.peers.filter fun peer => peer.deviceId ≠ deviceID } } none

/-- `disablePort` and `enablePort`: only the ports of an OLT towards its PON can be
switched. The adapter gets the port and not the device. -/
def switchPort (word : String) (adminState : AdminState) (call : Port → AdapterCall)
    (portNo : UInt32) (cloned : Device) : Plan :=
  match cloned.ports.find? fun p => p.portNo = portNo with
  | none => .fail (.status .invalidArgument (toString portNo))
  | some port =>
    if port.type ≠ .ponOlt then
      .fail (.status .invalidArgument
        (word ++ " of Port Type " ++ port.type.name ++ " unimplemented"))
    else writeDevice { cloned with
      ports := Table.editFirst (fun p => p.portNo = portNo)
        (fun p => { p with adminState := adminState }) cloned.ports }
      (some ⟨call { port with adminState := adminState }, none, .after⟩)

def disablePort : UInt32 → Device → Plan := switchPort "Disabling" .disabled .disablePort

def enablePort : UInt32 → Device → Plan := switchPort "Enabling" .enabled .enablePort

/-! ### Calls -/

inductive DeviceCall where
  | enableDevice
  | disableDevice
  | updateAdminState (adminState : AdminState)
  | deleteDevice
  | setParentID (parentID : String)
  | updatePmConfigs (pmConfigs : PmConfigs)
  | initPmConfigs (pmConfigs : PmConfigs)
  | downloadImage (img : ImageDownload)
  | cancelImageDownload (img : ImageDownload)
  | activateImage (img : ImageDownload)
  | revertImage (img : ImageDownload)
  | updateImageDownload (img : ImageDownload)
  | updateDeviceUsingAdapterData (device : Device)
  | updateDeviceStatus (operStatus : WireEnum OperStatus) (connStatus : WireEnum ConnectStatus)
  | updateDeviceReason (reason : String)
  | updatePortsOperState (operStatus : OperStatus)
  | updatePortState (portType : WireEnum PortType) (portNo : UInt32) (operStatus : OperStatus)
  | deleteAllPorts
  | addPort (port : Port)
  | addPeerPort (port : PeerPort)
  | deletePeerPorts (deviceID : String)
  | disablePort (portNo : UInt32)
  | enablePort (portNo : UInt32)
  | addFlowsAndGroups (flows : List OfpFlowStats) (groups : List OfpGroupEntry)
      (metadata : Option FlowMetadata)
  | deleteFlowsAndGroups (flows : List OfpFlowStats) (groups : List OfpGroupEntry)
      (metadata : Option FlowMetadata)
  | updateFlowsAndGroups (flows : List OfpFlowStats) (groups : List OfpGroupEntry)
      (metadata : Option FlowMetadata)

def DeviceCall.plan (env : DeviceEnv) : DeviceCall → Device → Plan
  | .enableDevice => Devices.enableDevice env
  | .disableDevice => Devices.disableDevice
  | .updateAdminState adminState => Devices.updateAdminState adminState
  | .deleteDevice => Devices.deleteDevice
  | .setParentID parentID => Devices.setParentID parentID
  | .updatePmConfigs pmConfigs => Devices.updatePmConfigs pmConfigs
  | .initPmConfigs pmConfigs => Devices.initPmConfigs pmConfigs
  | .downloadImage img => Devices.downloadImage img
  | .cancelImageDownload img => Devices.cancelImageDownload img
  | .activateImage img => Devices.activateImage img
  | .revertImage img => Devices.revertImage img
  | .updateImageDownload img => Devices.updateImageDownload img
  | .updateDeviceUsingAdapterData device => Devices.updateDeviceUsingAdapterData device
  | .updateDeviceStatus operStatus connStatus => Devices.updateDeviceStatus operStatus connStatus
  | .updateDeviceReason reason => Devices.updateDeviceReason reason
  | .updatePortsOperState operStatus => Devices.updatePortsOperState operStatus
  | .updatePortState portType portNo operStatus =>
    Devices.updatePortState portType portNo operStatus
  | .deleteAllPorts => Devices.deleteAllPorts
  | .addPort port => Devices.addPort port
  | .addPeerPort port => Devices.addPeerPort port
  | .deletePeerPorts deviceID => Devices.deletePeerPorts deviceID
  | .disablePort portNo => Devices.disablePort portNo
  | .enablePort portNo => Devices.enablePort portNo
  | .addFlowsAndGroups flows groups metadata => fun device =>
    (addFlowsAndGroupsToAdapter env device flows groups metadata).plan device
  | .deleteFlowsAndGroups flows groups metadata => fun device =>
    (deleteFlowsAndGroupsFromAdapter env device flows groups metadata).plan device
  | .updateFlowsAndGroups flows groups metadata => fun device =>
    (updateFlowsAndGroupsToAdapter env device flows groups metadata).plan device

def DeviceCall.run {α : Type} [AgentModel α] (env : DeviceEnv) (call : DeviceCall) :
    EStateM Err α Unit := perform env (call.plan env)

end VolthaCore.Devices
