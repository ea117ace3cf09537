import VolthaCore.Lib.Table
import VolthaCore.OpenFlow.Messages

/-! The flow helpers of the vendored `flow_utils.go`: builders for match fields
and actions, extractors, the hash that serves as the identifier of a flow, the
entries made from requests, and the comparisons of flows. Two flows match when
they agree on table, priority, flags, cookie and match, which is recorded here
as their `FlowKey`. -/

namespace VolthaCore.OpenFlow

/-! ### Builders -/

def output (port : UInt32) (maxLen : UInt32 := OFPCML_MAX) : OfpAction :=
  ⟨.output, some (.output port maxLen)⟩

def pushVlan (ethType : UInt32) : OfpAction := ⟨.pushVlan, some (.push ethType)⟩

def setField (field : OfpOxmOfbField) : OfpAction :=
  ⟨.setField, some (.setField (some (.openflowBasic field)))⟩

def inPort (port : UInt32) : OfpOxmOfbField := { type := .inPort, value := some (.port port) }

def metadataOfp (tableMetadata : UInt64) : OfpOxmOfbField :=
  { type := .metadata, value := some (.tableMetadata tableMetadata) }

def ethType (value : UInt32) : OfpOxmOfbField :=
  { type := .ethType, value := some (.ethType value) }

def vlanVid (value : UInt32) : OfpOxmOfbField :=
  { type := .vlanVid, value := some (.vlanVid value) }

def ipProto (value : UInt32) : OfpOxmOfbField :=
  { type := .ipProto, value := some (.ipProto value) }

def tunnelId (value : UInt64) : OfpOxmOfbField :=
  { type := .tunnelId, value := some (.tunnelId value) }

/-! ### Extractors -/

def OfpInstruction.getActions (i : OfpInstruction) : Option (List OfpAction) :=
  match i.data with
  | some (.actions as) => some as
  | _ => none

/-- The first `APPLY_ACTIONS` instruction decides; without a payload it has no
actions. -/
def getActions (flow : OfpFlowStats) (exclude : List OfpActionType := []) : List OfpAction :=
  match flow.instructions.find? fun i => i.type = OFPIT_APPLY_ACTIONS with
  | none => []
  | some i => (i.getActions.getD []).filter fun a => a.type ∉ exclude

/-- The basic match fields, without the excluded types. -/
def getOfbFields (flow : OfpFlowStats) (exclude : List OxmOfbFieldTypes := []) :
    List OfpOxmOfbField :=
  match flow.ofpMatch with
  | none => []
  | some m =>
    if m.type = .oxm then
      (m.oxmFields.filterMap fun
        | .openflowBasic f => some f
        | .other _ _ => none).filter fun f => f.type ∉ exclude
    else []

def getOutPort (flow : OfpFlowStats) : UInt32 :=
  match (getActions flow).find? fun a => a.type = .output with
  | some ⟨_, some (.output port _)⟩ => port
  | _ => 0

def getInPort (flow : OfpFlowStats) : UInt32 :=
  match (getOfbFields flow).find? fun f => f.type = .inPort with
  | some { value := some (.port port), .. } => port
  | _ => 0

def getGotoTableId (flow : OfpFlowStats) : UInt32 :=
  match flow.instructions.find? fun i => i.type = OFPIT_GOTO_TABLE with
  | some ⟨_, some (.gotoTable tableId)⟩ => tableId
  | _ => 0

def hasNextTable (flow : OfpFlowStats) : Bool := getGotoTableId flow ≠ 0

/-- A match on VLAN 0 differs from no match on the VLAN. -/
def getVlanVid (flow : OfpFlowStats) : Option UInt32 :=
  ((getOfbFields flow).find? fun f => f.type = .vlanVid).map fun f =>
    match f.value with
    | some (.vlanVid vid) => vid
    | _ => 0

def getGroup (flow : OfpFlowStats) : UInt32 :=
  match (getActions flow).find? fun a => a.type = .group with
  | some ⟨_, some (.group groupId)⟩ => groupId
  | _ => 0

def hasGroup (flow : OfpFlowStats) : Bool := getGroup flow ≠ 0

/-- The first `METER` instruction that has a meter payload; 0 stands for none. -/
def getMeterIdFromFlow (flow : OfpFlowStats) : UInt32 :=
  (flow.instructions.findSome? fun i =>
    if i.type = OFPIT_METER then
      match i.data with
      | some (.meter meterId) => some meterId
      | _ => none
    else none).getD 0

def getMetadataFromWriteMetadataAction (flow : OfpFlowStats) : UInt64 :=
  (flow.instructions.findSome? fun i =>
    if i.type = OFPIT_WRITE_METADATA then
      match i.data with
      | some (.writeMetadata metadata _) => some metadata
      | _ => none
    else none).getD 0

/-- The lower 32 bits of the write-metadata value. -/
def getEgressPortNumberFromWriteMetadata (flow : OfpFlowStats) : UInt32 :=
  (getMetadataFromWriteMetadataAction flow &&& 0xffffffff).toUInt32

/-- The upper 16 bits of the write-metadata value. -/
def getInnerTagFromMetaData (flow : OfpFlowStats) : UInt16 :=
  ((getMetadataFromWriteMetadataAction flow >>> 48) &&& 0xffff).toUInt16

/-- Scan the `APPLY_ACTIONS` instructions for an action. One without a payload
ends the scan. -/
def hasApplyAction (p : OfpAction → Bool) : List OfpInstruction → Bool
  | [] => false
  | i :: rest =>
    if i.type = OFPIT_APPLY_ACTIONS then
      match i.getActions with
      | none => false
      | some as => as.any p || hasApplyAction p rest
    else hasApplyAction p rest

def flowHasOutPort (flow : OfpFlowStats) (outPort : UInt32) : Bool :=
  hasApplyAction (fun a => a.type = .output && match a.action with
    | some (.output port _) => port = outPort
    | _ => false) flow.instructions

def outputsToGroup (groupID : UInt32) (a : OfpAction) : Bool :=
  a.type = .group && match a.action with
    | some (.group groupId) => groupId = groupID
    | _ => false

def flowHasOutGroup (flow : OfpFlowStats) (groupID : UInt32) : Bool :=
  hasApplyAction (outputsToGroup groupID) flow.instructions

/-! ### Entries made from requests -/

/-- What the code takes from the protobuf text format, from Go's formatting and
from MD5: the rendering of a match, of an instruction and of a flow as a message
and as a value, and the digest of a text as the low 64 bits of its big-endian
value. -/
structure HashEnv where
  matchString : Option OfpMatch → String
  instructionString : OfpInstruction → String
  flowText : OfpFlowStats → String
  flowValueText : OfpFlowStats → String
  md5Uint64 : String → UInt64

/-- A digest that only sees the size of the text. -/
def sizeHash : HashEnv where
  matchString := fun _ => "match"
  instructionString := fun _ => "instruction"
  flowText := fun _ => "flow"
  flowValueText := fun _ => "flow"
  md5Uint64 := fun text => text.utf8ByteSize.toUInt64

variable (H : HashEnv)

/-- The numbers are printed next to each other without a separator. -/
def flowString (flow : OfpFlowStats) : String :=
  toString flow.tableId ++ toString flow.priority ++ toString flow.flags ++
    toString flow.cookie ++ H.matchString flow.ofpMatch ++
    String.join (flow.instructions.map H.instructionString)

def hashFlowStats (flow : OfpFlowStats) : UInt64 := H.md5Uint64 (flowString H flow)

def flowStatsEntryFromFlowModMessage (mod : OfpFlowMod) : OfpFlowStats :=
  let flow : OfpFlowStats :=
    { tableId := mod.tableId, priority := mod.priority, idleTimeout := mod.idleTimeout
      hardTimeout := mod.hardTimeout, flags := mod.flags, cookie := mod.cookie
      ofpMatch := mod.ofpMatch, instructions := mod.instructions }
  { flow with id := hashFlowStats H flow }

def groupEntryFromGroupMod (mod : OfpGroupMod) : OfpGroupEntry :=
  { desc := { type := mod.type, groupId := mod.groupId, buckets := mod.buckets }
    stats := { groupId := mod.groupId } }

def meterEntryFromMeterMod (mod : OfpMeterMod) : OfpMeterEntry :=
  { config := { meterId := mod.meterId, flags := mod.flags, bands := mod.bands }
    stats := { meterId := mod.meterId, bandStats := mod.bands.map fun _ => {} } }

/-- The keyword arguments of a flow request that `MkSimpleFlowMod` reads. -/
structure OfpFlowModArgs where
  cookie : Option UInt64 := none
  cookieMask : Option UInt64 := none
  tableId : Option UInt64 := none
  idleTimeout : Option UInt64 := none
  hardTimeout : Option UInt64 := none
  priority : Option UInt64 := none
  bufferId : Option UInt64 := none
  outPort : Option UInt64 := none
  outGroup : Option UInt64 := none
  flags : Option UInt64 := none
  meterId : Option UInt64 := none
  writeMetadata : Option UInt64 := none

/-- Arguments that are present overwrite the field, cut to its width. -/
def setVariadicModAttributes (mod : OfpFlowMod) (args : OfpFlowModArgs) : OfpFlowMod :=
  { mod with
    cookie := args.cookie.getD mod.cookie
    cookieMask := args.cookieMask.getD mod.cookieMask
    tableId := (args.tableId.map UInt64.toUInt32).getD mod.tableId
    idleTimeout := (args.idleTimeout.map UInt64.toUInt32).getD mod.idleTimeout
    hardTimeout := (args.hardTimeout.map UInt64.toUInt32).getD mod.hardTimeout
    priority := (args.priority.map UInt64.toUInt32).getD mod.priority
    bufferId := (args.bufferId.map UInt64.toUInt32).getD mod.bufferId
    outPort := (args.outPort.map UInt64.toUInt32).getD mod.outPort
    outGroup := (args.outGroup.map UInt64.toUInt32).getD mod.outGroup
    flags := (args.flags.map UInt64.toUInt32).getD mod.flags }

/-- The instructions of a built flow: the actions, then the next table, the
meter and the metadata where the arguments name them. -/
def mkInstructions (actions : List OfpAction) (kw : OfpFlowModArgs) : List OfpInstruction :=
  let meterId := (kw.meterId.map UInt64.toUInt32).getD 0
  let metadata := kw.writeMetadata.getD 0
  [⟨OFPIT_APPLY_ACTIONS, some (.actions actions)⟩] ++
    (kw.tableId.map fun t =>
      ⟨OFPIT_GOTO_TABLE, some (.gotoTable t.toUInt32)⟩ : Option OfpInstruction).toList ++
    (if meterId ≠ 0 then [⟨OFPIT_METER, some (.meter meterId)⟩] else []) ++
    (if metadata ≠ 0 then [⟨OFPIT_WRITE_METADATA, some (.writeMetadata metadata 0)⟩] else [])

def mkSimpleFlowMod (matchFields : List OfpOxmOfbField) (actions : List OfpAction)
    (kw : OfpFlowModArgs) : OfpFlowMod :=
  setVariadicModAttributes
    { instructions := mkInstructions actions kw
      ofpMatch := some ⟨.oxm, matchFields.map .openflowBasic⟩ } kw

structure FlowArgs where
  kv : OfpFlowModArgs
  matchFields : List OfpOxmOfbField
  actions : List OfpAction

def mkFlowStat (fa : FlowArgs) : OfpFlowStats :=
  flowStatsEntryFromFlowModMessage H (mkSimpleFlowMod fa.matchFields fa.actions fa.kv)

/-- Replace the port of every output action under the instructions of a type.
Such an instruction without actions yields no flow at all. -/
def updateOutputPortByActionType (flow : OfpFlowStats) (actionType toPort : UInt32) :
    Option OfpFlowStats := do
  let instructions ← flow.instructions.mapM fun i =>
    if i.type = actionType then do
      let as ← i.getActions
      some (⟨OFPIT_APPLY_ACTIONS, some (.actions (as.map fun a =>
        match a.action with
        | some (.output _ _) => output toPort
        | _ => a))⟩ : OfpInstruction)
    else some i
  some { flow with instructions }

/-! ### Comparing flows and groups -/

/-- The attributes that identify a flow in a table. -/
structure FlowKey where
  tableId : UInt32
  priority : UInt32
  flags : UInt32
  cookie : UInt64
  ofpMatch : Option OfpMatch
  deriving DecidableEq

def flowKey (f : OfpFlowStats) : FlowKey :=
  ⟨f.tableId, f.priority, f.flags, f.cookie, f.ofpMatch⟩

/-- Flows match when they agree on table, priority, flags, cookie and match. -/
def flowMatch (f₁ f₂ : OfpFlowStats) : Bool :=
  f₁.tableId = f₂.tableId && f₁.priority = f₂.priority && f₁.flags = f₂.flags &&
    f₁.cookie = f₂.cookie && f₁.ofpMatch = f₂.ofpMatch

theorem flowMatch_iff (f1 f2 : OfpFlowStats) :
    flowMatch f1 f2 = true ↔ flowKey f1 = flowKey f2 := by
  simp [flowMatch, flowKey, and_assoc]

def findFlows (flows : List OfpFlowStats) (flow : OfpFlowStats) : Option ℕ :=
  flows.findIdx? fun f => flowMatch f flow

theorem findFlows_eq (flows : List OfpFlowStats) (flow : OfpFlowStats) :
    findFlows flows flow = Table.indexOf flowKey flows (flowKey flow) := by
  unfold findFlows Table.indexOf
  congr 1
  funext f
  rw [Bool.eq_iff_iff, flowMatch_iff]
  simp

theorem findFlows_eq_none_iff (flows : List OfpFlowStats) (flow : OfpFlowStats) :
    findFlows flows flow = none ↔ flowKey flow ∉ flows.map flowKey := by
  rw [findFlows_eq, Table.indexOf_eq_none_iff]

/-- Not implemented in the source: no flow is ever reported. -/
def findOverlappingFlows (_flows : List OfpFlowStats) (_mod : OfpFlowMod) : List OfpFlowStats := []

/-- Whether a wildcard request covers a flow. Priorities are ignored, and a
request with match fields covers nothing. -/
def flowMatchesMod (flow : OfpFlowStats) (mod : OfpFlowMod) : Bool :=
  (flow.cookie &&& mod.cookieMask) = (mod.cookie &&& mod.cookieMask) &&
  (mod.tableId = OFPTT_ALL || flow.tableId = mod.tableId) &&
  ((mod.outPort &&& 0x7fffffff) = OFPP_ANY || flowHasOutPort flow mod.outPort) &&
  ((mod.outGroup &&& 0x7fffffff) = OFPG_ANY || flowHasOutGroup flow mod.outGroup) &&
  match mod.ofpMatch with
  | none => true
  | some m => m.oxmFields.isEmpty

def groupId (g : OfpGroupEntry) : UInt32 := g.desc.groupId

def findGroup (groups : List OfpGroupEntry) (id : UInt32) : Option ℕ :=
  Table.indexOf groupId groups id

theorem findGroup_eq_none_iff (groups : List OfpGroupEntry) (id : UInt32) :
    findGroup groups id = none ↔ id ∉ groups.map groupId :=
  Table.indexOf_eq_none_iff groupId groups id

/-- The flows that do not output to the group, and whether any did. -/
def flowsDeleteByGroupId (flows : List OfpFlowStats) (id : UInt32) : Bool × List OfpFlowStats :=
  let toKeep := flows.filter fun f => !flowHasOutGroup f id
  (toKeep.length < flows.length, toKeep)

@[simp] theorem groupId_groupEntryFromGroupMod (mod : OfpGroupMod) :
    groupId (groupEntryFromGroupMod mod) = mod.groupId := rfl

end VolthaCore.OpenFlow
