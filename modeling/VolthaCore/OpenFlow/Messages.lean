import Mathlib.Data.Nat.Notation

/-! The OpenFlow 1.3 messages of the core: flow, group and meter entries of a
table and the requests that change them. A protobuf `oneof` is an optional
constructor, a repeated field is a list and a nested message that the code
checks for `nil` is an option. Fields are kept as the messages have them, also
where the code only copies and compares them. -/

namespace VolthaCore.OpenFlow

abbrev Bytes := List UInt8

/-- `OFPXMT_OFB_*`: what a basic match field is about. -/
inductive OxmOfbFieldTypes where
  | inPort | inPhyPort | metadata | ethDst | ethSrc | ethType | vlanVid | vlanPcp | ipDscp
  | ipEcn | ipProto | ipv4Src | ipv4Dst | tcpSrc | tcpDst | udpSrc | udpDst | sctpSrc | sctpDst
  | icmpv4Type | icmpv4Code | arpOp | arpSpa | arpTpa | arpSha | arpTha | ipv6Src | ipv6Dst
  | ipv6Flabel | icmpv6Type | icmpv6Code | ipv6NdTarget | ipv6NdSll | ipv6NdTll | mplsLabel
  | mplsTc | mplsBos | pbbIsid | tunnelId | ipv6Exthdr
  deriving DecidableEq

/-- The value of a basic match field. -/
inductive OfbValue where
  | port (value : UInt32)
  | physicalPort (value : UInt32)
  | tableMetadata (value : UInt64)
  | ethDst (value : Bytes)
  | ethSrc (value : Bytes)
  | ethType (value : UInt32)
  | vlanVid (value : UInt32)
  | vlanPcp (value : UInt32)
  | ipDscp (value : UInt32)
  | ipEcn (value : UInt32)
  | ipProto (value : UInt32)
  | ipv4Src (value : UInt32)
  | ipv4Dst (value : UInt32)
  | tcpSrc (value : UInt32)
  | tcpDst (value : UInt32)
  | udpSrc (value : UInt32)
  | udpDst (value : UInt32)
  | sctpSrc (value : UInt32)
  | sctpDst (value : UInt32)
  | icmpv4Type (value : UInt32)
  | icmpv4Code (value : UInt32)
  | arpOp (value : UInt32)
  | arpSpa (value : UInt32)
  | arpTpa (value : UInt32)
  | arpSha (value : Bytes)
  | arpTha (value : Bytes)
  | ipv6Src (value : Bytes)
  | ipv6Dst (value : Bytes)
  | ipv6Flabel (value : UInt32)
  | icmpv6Type (value : UInt32)
  | icmpv6Code (value : UInt32)
  | ipv6NdTarget (value : Bytes)
  | ipv6NdSsl (value : Bytes)
  | ipv6NdTll (value : Bytes)
  | mplsLabel (value : UInt32)
  | mplsTc (value : UInt32)
  | mplsBos (value : UInt32)
  | pbbIsid (value : UInt32)
  | tunnelId (value : UInt64)
  | ipv6Exthdr (value : UInt32)
  deriving DecidableEq

inductive OfbMask where
  | tableMetadataMask (value : UInt64)
  | ethDstMask (value : Bytes)
  | ethSrcMask (value : Bytes)
  | vlanVidMask (value : UInt32)
  | ipv4SrcMask (value : UInt32)
  | ipv4DstMask (value : UInt32)
  | arpSpaMask (value : UInt32)
  | arpTpaMask (value : UInt32)
  | ipv6SrcMask (value : Bytes)
  | ipv6DstMask (value : Bytes)
  | ipv6FlabelMask (value : UInt32)
  | pbbIsidMask (value : UInt32)
  | tunnelIdMask (value : UInt64)
  | ipv6ExthdrMask (value : UInt32)
  deriving DecidableEq

structure OfpOxmOfbField where
  type : OxmOfbFieldTypes
  hasMask : Bool := false
  value : Option OfbValue
  mask : Option OfbMask := none
  deriving DecidableEq

inductive OxmFieldData where
  | ofbField (field : OfpOxmOfbField)
  | experimenterField (oxmHeader experimenter : UInt32)
  deriving DecidableEq

/-- The classes of match fields other than `OFPXMC_OPENFLOW_BASIC`. -/
inductive OtherOxmClass where
  | nxm0 | nxm1 | experimenter
  deriving DecidableEq

/-- A match field. The code reads the basic fields through their payload without
a `nil` check, so a basic field carries it; the payload of any other class may
be missing. -/
inductive OfpOxmField where
  | openflowBasic (field : OfpOxmOfbField)
  | other (oxmClass : OtherOxmClass) (field : Option OxmFieldData)
  deriving DecidableEq

inductive OfpMatchType where
  | standard | oxm
  deriving DecidableEq

structure OfpMatch where
  type : OfpMatchType
  oxmFields : List OfpOxmField
  deriving DecidableEq

inductive OfpActionType where
  | output | copyTtlOut | copyTtlIn | setMplsTtl | decMplsTtl | pushVlan | popVlan | pushMpls
  | popMpls | setQueue | group | setNwTtl | decNwTtl | setField | pushPbb | popPbb | experimenter
  deriving DecidableEq

inductive ActionData where
  | output (port maxLen : UInt32)
  | mplsTtl (mplsTtl : UInt32)
  | push (ethertype : UInt32)
  | popMpls (ethertype : UInt32)
  | group (groupId : UInt32)
  | nwTtl (nwTtl : UInt32)
  | setField (field : Option OfpOxmField)
  | experimenter (experimenter : UInt32) (data : Bytes)
  deriving DecidableEq

structure OfpAction where
  type : OfpActionType
  action : Option ActionData := none
  deriving DecidableEq

inductive InstructionData where
  | gotoTable (tableId : UInt32)
  | writeMetadata (metadata metadataMask : UInt64)
  | actions (actions : List OfpAction)
  | meter (meterId : UInt32)
  | experimenter (experimenter : UInt32) (data : Bytes)
  deriving DecidableEq

/-- An instruction. Its type is a plain number on the wire and need not agree
with its payload. -/
structure OfpInstruction where
  type : UInt32
  data : Option InstructionData
  deriving DecidableEq

structure OfpFlowStats where
  id : UInt64 := 0
  tableId : UInt32 := 0
  durationSec : UInt32 := 0
  durationNsec : UInt32 := 0
  priority : UInt32 := 0
  idleTimeout : UInt32 := 0
  hardTimeout : UInt32 := 0
  flags : UInt32 := 0
  cookie : UInt64 := 0
  packetCount : UInt64 := 0
  byteCount : UInt64 := 0
  ofpMatch : Option OfpMatch := none
  instructions : List OfpInstruction := []
  deriving DecidableEq

inductive OfpFlowModCommand where
  | add | modify | modifyStrict | delete | deleteStrict
  deriving DecidableEq

structure OfpFlowMod where
  cookie : UInt64 := 0
  cookieMask : UInt64 := 0
  tableId : UInt32 := 0
  command : OfpFlowModCommand := .add
  idleTimeout : UInt32 := 0
  hardTimeout : UInt32 := 0
  priority : UInt32 := 0
  bufferId : UInt32 := 0
  outPort : UInt32 := 0
  outGroup : UInt32 := 0
  flags : UInt32 := 0
  ofpMatch : Option OfpMatch := none
  instructions : List OfpInstruction := []
  deriving DecidableEq

structure OfpBucket where
  weight : UInt32 := 0
  watchPort : UInt32 := 0
  watchGroup : UInt32 := 0
  actions : List OfpAction := []
  deriving DecidableEq

inductive OfpGroupType where
  | all | select | indirect | ff
  deriving DecidableEq

structure OfpGroupDesc where
  type : OfpGroupType := .all
  groupId : UInt32 := 0
  buckets : List OfpBucket := []
  deriving DecidableEq

structure OfpBucketCounter where
  packetCount : UInt64 := 0
  byteCount : UInt64 := 0
  deriving DecidableEq

structure OfpGroupStats where
  groupId : UInt32 := 0
  refCount : UInt32 := 0
  packetCount : UInt64 := 0
  byteCount : UInt64 := 0
  durationSec : UInt32 := 0
  durationNsec : UInt32 := 0
  bucketStats : List OfpBucketCounter := []
  deriving DecidableEq

structure OfpGroupEntry where
  desc : OfpGroupDesc
  stats : OfpGroupStats
  deriving DecidableEq

inductive OfpGroupModCommand where
  | add | modify | delete
  deriving DecidableEq

structure OfpGroupMod where
  command : OfpGroupModCommand := .add
  type : OfpGroupType := .all
  groupId : UInt32 := 0
  buckets : List OfpBucket := []
  deriving DecidableEq

inductive OfpMeterBandType where
  | invalid | drop | dscpRemark | experimenter
  deriving DecidableEq

inductive MeterBandData where
  | drop
  | dscpRemark (precLevel : UInt32)
  | experimenter (experimenter : UInt32)
  deriving DecidableEq

structure OfpMeterBandHeader where
  type : OfpMeterBandType := .invalid
  rate : UInt32 := 0
  burstSize : UInt32 := 0
  data : Option MeterBandData := none
  deriving DecidableEq

structure OfpMeterConfig where
  flags : UInt32 := 0
  meterId : UInt32 := 0
  bands : List OfpMeterBandHeader := []
  deriving DecidableEq

structure OfpMeterBandStats where
  packetBandCount : UInt64 := 0
  byteBandCount : UInt64 := 0
  deriving DecidableEq

structure OfpMeterStats where
  meterId : UInt32 := 0
  flowCount : UInt32 := 0
  packetInCount : UInt64 := 0
  byteInCount : UInt64 := 0
  durationSec : UInt32 := 0
  durationNsec : UInt32 := 0
  bandStats : List OfpMeterBandStats := []
  deriving DecidableEq

structure OfpMeterEntry where
  config : OfpMeterConfig
  stats : OfpMeterStats
  deriving DecidableEq

inductive OfpMeterModCommand where
  | add | modify | delete
  deriving DecidableEq

structure OfpMeterMod where
  command : OfpMeterModCommand := .add
  flags : UInt32 := 0
  meterId : UInt32 := 0
  bands : List OfpMeterBandHeader := []
  deriving DecidableEq

/-! ### Reserved numbers -/

def OFPP_CONTROLLER : UInt32 := 0x7ffffffd
def OFPP_ANY : UInt32 := 0x7fffffff
def OFPG_ALL : UInt32 := 0x7ffffffc
def OFPG_ANY : UInt32 := 0x7fffffff
def OFPTT_ALL : UInt32 := 255
def OFPVID_PRESENT : UInt32 := 4096
def OFPCML_MAX : UInt32 := 65509

def OFPIT_GOTO_TABLE : UInt32 := 1
def OFPIT_WRITE_METADATA : UInt32 := 2
def OFPIT_APPLY_ACTIONS : UInt32 := 4
def OFPIT_METER : UInt32 := 6

def OFPFF_CHECK_OVERLAP : UInt32 := 2
def OFPFF_RESET_COUNTS : UInt32 := 4

end VolthaCore.OpenFlow
