import VolthaCore.OpenFlow.Messages

/-! The device messages of the core: a device with its ports, performance
configuration, images, flows and groups, and the requests for its adapter. The
fields are those that the device agent reads or writes. -/

namespace VolthaCore.Devices

open OpenFlow

inductive AdminState where
  | unknown | preprovisioned | enabled | disabled | downloadingImage | deleted
  deriving DecidableEq

def AdminState.name : AdminState → String
  | .unknown => "UNKNOWN"
  | .preprovisioned => "PREPROVISIONED"
  | .enabled => "ENABLED"
  | .disabled => "DISABLED"
  | .downloadingImage => "DOWNLOADING_IMAGE"
  | .deleted => "DELETED"

inductive OperStatus where
  | unknown | discovered | activating | testing | active | failed
  deriving DecidableEq

inductive ConnectStatus where
  | unknown | unreachable | reachable
  deriving DecidableEq

inductive PortType where
  | unknown | ethernetNni | ethernetUni | ponOlt | ponOnu | venetOlt | venetOnu
  deriving DecidableEq

def PortType.name : PortType → String
  | .unknown => "UNKNOWN"
  | .ethernetNni => "ETHERNET_NNI"
  | .ethernetUni => "ETHERNET_UNI"
  | .ponOlt => "PON_OLT"
  | .ponOnu => "PON_ONU"
  | .venetOlt => "VENET_OLT"
  | .venetOnu => "VENET_ONU"

/-- An enumeration value as it comes over the wire, where any number may stand. -/
inductive WireEnum (α : Type) where
  | known (value : α)
  | unknown (number : Int)
  deriving DecidableEq

structure PeerPort where
  deviceId : String
  portNo : UInt32
  deriving DecidableEq

structure Port where
  portNo : UInt32
  label : String := ""
  type : PortType := .unknown
  adminState : AdminState := .unknown
  operStatus : OperStatus := .unknown
  deviceId : String := ""
  peers : List PeerPort := []
  rxPackets : UInt64 := 0
  rxBytes : UInt64 := 0
  rxErrors : UInt64 := 0
  txPackets : UInt64 := 0
  txBytes : UInt64 := 0
  txErrors : UInt64 := 0
  deriving DecidableEq

inductive PmType where
  | counter | gauge | state | context
  deriving DecidableEq

structure PmConfig where
  name : String
  type : PmType := .counter
  enabled : Bool := false
  sampleFreq : UInt32 := 0
  deriving DecidableEq

structure PmGroupConfig where
  groupName : String
  groupFreq : UInt32 := 0
  enabled : Bool := false
  metrics : List PmConfig := []
  deriving DecidableEq

structure PmConfigs where
  id : String
  defaultFreq : UInt32 := 0
  grouped : Bool := false
  freqOverride : Bool := false
  groups : List PmGroupConfig := []
  metrics : List PmConfig := []
  deriving DecidableEq

inductive ImageDownloadState where
  | unknown | succeeded | requested | started | failed | unsupported | cancelled
  deriving DecidableEq

inductive ImageDownloadFailureReason where
  | noError | invalidUrl | deviceBusy | insufficientSpace | unknownError | cancelled
  deriving DecidableEq

inductive ImageActivateState where
  | unknown | inactive | activating | active | reverting | reverted
  deriving DecidableEq

structure ImageDownload where
  id : String
  name : String
  url : String := ""
  crc : UInt32 := 0
  downloadState : ImageDownloadState := .unknown
  imageVersion : String := ""
  downloadedBytes : UInt32 := 0
  reason : ImageDownloadFailureReason := .noError
  additionalInfo : String := ""
  saveConfig : Bool := false
  localDir : String := ""
  imageState : ImageActivateState := .unknown
  fileSize : UInt32 := 0
  deriving DecidableEq

/-- A device. A missing list of images differs from an empty one, and the list
may hold missing images; the other repeated fields are plain lists. -/
structure Device where
  id : String
  type : String := ""
  root : Bool := false
  parentId : String := ""
  vendor : String := ""
  model : String := ""
  serialNumber : String := ""
  adapter : String := ""
  vlan : UInt32 := 0
  macAddress : String := ""
  adminState : AdminState := .unknown
  operStatus : OperStatus := .unknown
  reason : String := ""
  connectStatus : ConnectStatus := .unknown
  ports : List Port := []
  flows : List OfpFlowStats := []
  flowGroups : List OfpGroupEntry := []
  pmConfigs : Option PmConfigs := none
  imageDownloads : Option (List (Option ImageDownload)) := none
  deriving DecidableEq

/-- A device whose list of images has a missing one cannot be encoded. -/
def Device.marshals (d : Device) : Bool := (d.imageDownloads.getD []).all Option.isSome

/-- What the adapter registered for a type of device. -/
structure DeviceType where
  id : String
  acceptsAddRemoveFlowUpdates : Bool := false
  deriving DecidableEq

/-- The meters that accompany the flows sent to an adapter. -/
structure FlowMetadata where
  meters : List OfpMeterConfig := []
  deriving DecidableEq

structure FlowChanges where
  toAdd : List OfpFlowStats
  toRemove : List OfpFlowStats
  deriving DecidableEq

structure FlowGroupChanges where
  toAdd : List OfpGroupEntry
  toRemove : List OfpGroupEntry
  toUpdate : List OfpGroupEntry
  deriving DecidableEq

inductive AdapterRequest where
  | bulk (flows : List OfpFlowStats) (groups : List OfpGroupEntry) (metadata : Option FlowMetadata)
  | incremental (flows : FlowChanges) (groups : FlowGroupChanges) (metadata : Option FlowMetadata)
  deriving DecidableEq

/-- The methods of an adapter that the operations call, with the arguments besides the device. -/
inductive AdapterCall where
  | adoptDevice
  | reEnableDevice
  | disableDevice
  | deleteDevice
  | updatePmConfigs (pmConfigs : PmConfigs)
  | downloadImage (img : ImageDownload)
  | cancelImageDownload (img : ImageDownload)
  | activateImageUpdate (img : ImageDownload)
  | revertImageUpdate (img : ImageDownload)
  | disablePort (port : Port)
  | enablePort (port : Port)
  | updateFlows (request : AdapterRequest)
  deriving DecidableEq

end VolthaCore.Devices
