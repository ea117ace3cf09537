import VolthaCore.Decomposition.Topology
import VolthaCore.OpenFlow.Rules

/-! `flow_decomposer.go`: a flow of the logical device becomes rules for the two
devices on its route. Controller-bound flows trap on the root device and, from a
user port, on the leaf device too; upstream flows go to the leaf device in table
0 and to the root device in table 1; downstream flows the other way round; a
multicast flow goes to the root device as it is. Every other rule is built anew,
with table 0 and without the flags of the flow. The decomposer asks an agent for
routes, so the lookup is a parameter; it is the one of the logical device agent
where nothing else is said. -/

namespace VolthaCore.Decomposition

open OpenFlow

/-- What an agent answers to `GetRoute`. -/
abbrev RouteLookup := UInt32 → UInt32 → Except Err (List Hop)

variable (H : HashEnv) (T : Topology)

/-- The keyword arguments that most rules copy from the flow. -/
def ruleArgs (flow : OfpFlowStats) : OfpFlowModArgs :=
  { priority := some flow.priority.toUInt64
    cookie := some flow.cookie
    meterId := some (getMeterIdFromFlow flow).toUInt64
    writeMetadata := some (getMetadataFromWriteMetadataAction flow) }

def oneRule (deviceID : String) (fa : FlowArgs) : DeviceRules :=
  (∅ : DeviceRules).addFlowsAndGroup deviceID (.ofFlow (mkFlowStat H fa))

/-! ### Controller-bound flows -/

/-- The trap on the root device for packets from an NNI port. -/
def nniTrapArgs (port : UInt32) (flow : OfpFlowStats) : FlowArgs where
  kv := { priority := some flow.priority.toUInt64, cookie := some flow.cookie }
  matchFields := [inPort port] ++ getOfbFields flow [.inPort]
  actions := getActions flow

/-- The trap on the root device for packets from one user port. -/
def parentTrapArgs (egressHop : Hop) (inputPort : UInt32) (flow : OfpFlowStats) : FlowArgs where
  kv := ruleArgs flow
  matchFields := [inPort egressHop.ingress, tunnelId inputPort.toUInt64] ++
    getOfbFields flow [.inPort]
  actions := [pushVlan 0x8100, setField (vlanVid (OFPVID_PRESENT ||| 4000)),
    output egressHop.egress]

/-- The upstream rule on the leaf device. When the flow matches on a VLAN the
leaf pushes that VLAN and does not match on it. -/
def childTrapArgs (ingressHop : Hop) (inputPort : UInt32) (flow : OfpFlowStats) : FlowArgs where
  kv := ruleArgs flow
  matchFields := [inPort ingressHop.ingress, tunnelId inputPort.toUInt64] ++
    match getVlanVid flow with
    | some _ => getOfbFields flow [.inPort, .vlanVid]
    | none => getOfbFields flow [.inPort]
  actions := match getVlanVid flow with
    | some vid => [pushVlan 0x8100, setField (vlanVid vid), output ingressHop.egress]
    | none => [output ingressHop.egress]

def processControllerBoundFlow (ingressHop egressHop : Hop) (inPortNo : UInt32)
    (flow : OfpFlowStats) : DeviceRules :=
  if isRootPort T inPortNo then
    oneRule H egressHop.deviceID (nniTrapArgs egressHop.egress flow)
  else
    let inPorts := if inPortNo = 0 then getWildcardInputPorts T egressHop.egress else [inPortNo]
    -- every port overwrites the rules that the ports before it left
    inPorts.foldl (fun deviceRules inputPort =>
      (deviceRules.addFlowsAndGroup egressHop.deviceID
        (.ofFlow (mkFlowStat H (parentTrapArgs egressHop inputPort flow)))).addFlowsAndGroup
        ingressHop.deviceID
        (.ofFlow (mkFlowStat H (childTrapArgs ingressHop inputPort flow)))) ∅

/-! ### Unicast and multicast flows -/

def processUpstreamNonControllerBoundFlow (ingressHop egressHop : Hop)
    (inPortNo outPortNo : UInt32) (flow : OfpFlowStats) : DeviceRules :=
  if flow.tableId = 0 && hasNextTable flow then
    if outPortNo ≠ 0 then ∅
    else oneRule H ingressHop.deviceID
      { kv := ruleArgs flow
        matchFields := [inPort ingressHop.ingress, tunnelId inPortNo.toUInt64] ++
          getOfbFields flow [.inPort]
        actions := getActions flow ++ [output ingressHop.egress] }
  else if flow.tableId = 1 && outPortNo ≠ 0 then
    oneRule H egressHop.deviceID
      { kv := ruleArgs flow
        matchFields := [inPort egressHop.ingress, tunnelId inPortNo.toUInt64] ++
          getOfbFields flow [.inPort]
        actions := getActions flow [.output] ++ [output egressHop.egress] }
  else ∅

/-- The ingress hop of a flow with write-metadata: the one towards the port that
the metadata names, if there is a route to it. -/
def metadataIngressHop (ingressHop : Hop) (inPortNo portNumber : UInt32)
    (route : RouteLookup := getRoute T) : Except Err (Option Hop) :=
  if portNumber ≠ 0 then
    match route inPortNo portNumber with
    | .error (.crash reason) => .error (.crash reason)
    | .error _ => .ok none
    | .ok [hop, _] => .ok (some hop)
    | .ok _ => .ok none
  else .ok (some ingressHop)

def processDownstreamFlowWithNextTable (ingressHop : Hop) (inPortNo outPortNo : UInt32)
    (flow : OfpFlowStats) (route : RouteLookup := getRoute T) : Except Err DeviceRules :=
  if outPortNo ≠ 0 then .ok ∅
  else if flow.tableId ≠ 0 then .ok ∅
  else if getMetadataFromWriteMetadataAction flow ≠ 0 then do
    let portNumber := getEgressPortNumberFromWriteMetadata flow
    let innerTag := getInnerTagFromMetaData flow
    match ← metadataIngressHop T ingressHop inPortNo portNumber route with
    | none => .ok ∅
    | some hop =>
      if innerTag = 0 then .ok ∅
      else .ok (oneRule H hop.deviceID
        { kv := ruleArgs flow
          matchFields := [inPort hop.ingress, metadataOfp innerTag.toUInt64,
            tunnelId portNumber.toUInt64] ++ getOfbFields flow [.inPort, .metadata]
          actions := getActions flow ++ [output hop.egress] })
  else .ok (oneRule H ingressHop.deviceID
    { kv := ruleArgs flow
      matchFields := [inPort ingressHop.ingress, tunnelId inPortNo.toUInt64] ++
        getOfbFields flow [.inPort]
      actions := getActions flow ++ [output ingressHop.egress] })

def processUnicastFlow (egressHop : Hop) (flow : OfpFlowStats) : DeviceRules :=
  oneRule H egressHop.deviceID
    { kv := ruleArgs flow
      matchFields := [inPort egressHop.ingress] ++ getOfbFields flow [.inPort]
      actions := getActions flow [.output] ++ [output egressHop.egress] }

/-- Having no group yet is the same as having a group without buckets. -/
def processMulticastFlow (ingressHop : Hop) (flow : OfpFlowStats) (grpID : UInt32)
    (groups : List OfpGroupEntry) : DeviceRules :=
  if grpID ∈ groups.map groupId then
    (∅ : DeviceRules).addFlowsAndGroup ingressHop.deviceID (.ofFlow flow)
  else ∅

/-! ### Root devices -/

/-- EAPOL, IGMP and UDP flows are sent to the controller by a root device. -/
def isTrapField (field : OfpOxmOfbField) : Bool :=
  field = ethType 0x888e || field = ipProto 2 || field = ipProto 17

def isControllerTrap (flow : OfpFlowStats) : Bool := (getOfbFields flow).any isTrapField

/-- Instructions may have changed, so the identifier is computed again. -/
def rehash (flow : OfpFlowStats) : OfpFlowStats := { flow with id := hashFlowStats H flow }

def parentFlow (flow : OfpFlowStats) : Except Err OfpFlowStats :=
  if isControllerTrap flow then
    match updateOutputPortByActionType flow OFPIT_APPLY_ACTIONS OFPP_CONTROLLER with
    | some f => .ok (rehash H f)
    | none => .error (.crash "invalid memory address or nil pointer dereference")
  else .ok (rehash H flow)

def passEntry (newDeviceRules : DeviceRules) (entry : Σ _ : String, FlowsAndGroups) :
    Except Err DeviceRules :=
  if T.isRootDevice entry.1 then do
    let flows ← entry.2.listFlows.mapM (parentFlow H)
    return flows.foldl (·.addFlow entry.1 ·) (newDeviceRules.clearFlows entry.1)
  else .ok newDeviceRules

def updateOutputPortForControllerBoundFlowForParentDevide (dr : DeviceRules) :
    Except Err DeviceRules := dr.entries.foldlM (passEntry H T) dr

/-! ### Decomposition -/

/-- The rules chosen for a flow, and the device, if any, that is given the flow
itself and not one built for it. -/
structure Chosen where
  rules : DeviceRules
  shared : Option String

/-- The rules of a flow, and the flow itself afterwards: a flow shared with a root
device gets the identifier that is computed for that device. -/
structure Decomposed where
  rules : DeviceRules
  flow : OfpFlowStats

def chooseRules (flow : OfpFlowStats) (groups : List OfpGroupEntry) (inPortNo : UInt32)
    (ingressHop egressHop : Hop) (route : RouteLookup := getRoute T) : Except Err Chosen :=
  let outPortNo := getOutPort flow
  if isControllerPort outPortNo then
    .ok ⟨processControllerBoundFlow H T ingressHop egressHop inPortNo flow, none⟩
  else
    match T.getDevice ingressHop.deviceID with
    | none => .error (.status .notFound ingressHop.deviceID)
    | some false =>
      .ok ⟨processUpstreamNonControllerBoundFlow H ingressHop egressHop inPortNo outPortNo flow,
        none⟩
    | some true =>
      if hasNextTable flow && flow.tableId = 0 then do
        let rules ← processDownstreamFlowWithNextTable H T ingressHop inPortNo outPortNo flow route
        return ⟨rules, none⟩
      else if flow.tableId = 1 && outPortNo ≠ 0 then
        .ok ⟨processUnicastFlow H egressHop flow, none⟩
      else if getGroup flow ≠ 0 && flow.tableId = 0 then
        .ok ⟨processMulticastFlow ingressHop flow (getGroup flow) groups,
          if getGroup flow ∈ groups.map groupId then some ingressHop.deviceID else none⟩
      else .error (.status .aborted ("unknown downstream flow " ++ H.flowValueText flow))

/-- A multicast flow without an input port enters at an NNI port. -/
def decompositionInPort (flow : OfpFlowStats) : UInt32 :=
  if hasGroup flow && getInPort flow = 0 then (getNNIPorts T).headD 0 else getInPort flow

def decomposeFlow (flow : OfpFlowStats) (groups : List OfpGroupEntry)
    (route : RouteLookup := getRoute T) : Except Err Decomposed := do
  let inPortNo := decompositionInPort T flow
  let outPortNo := getOutPort flow
  match ← route inPortNo outPortNo with
  | [] => .error (noRoute "" inPortNo outPortNo)
  | [ingressHop, egressHop] =>
    let chosen ← chooseRules H T flow groups inPortNo ingressHop egressHop route
    let rules ← updateOutputPortForControllerBoundFlowForParentDevide H T chosen.rules
    let rehashed := chosen.shared.any T.isRootDevice && !isControllerTrap flow
    return ⟨rules, if rehashed then rehash H flow else flow⟩
  | path => .error (.status .aborted ("invalid route length " ++ toString path.length))

structure DecomposedFlows where
  rules : DeviceRules
  flows : List OfpFlowStats

/-- Every device with an entry is one to update, so no entry is filtered out. -/
def decomposeRules (flows : List OfpFlowStats) (groups : List OfpGroupEntry)
    (route : RouteLookup := getRoute T) : Except Err DecomposedFlows := do
  let parts ← flows.mapM (decomposeFlow H T · groups route)
  return ⟨parts.foldl (fun acc part => acc.collect part.rules) ∅, parts.map Decomposed.flow⟩

end VolthaCore.Decomposition
