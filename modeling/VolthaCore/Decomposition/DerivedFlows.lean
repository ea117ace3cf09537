import VolthaCore.Decomposition.ControllerOutputs

/-! What the rules of a flow keep of it. Outside the traps of NNI ports and the multicast
flows every rule is built from the flow with its priority, cookie, meter and metadata; it
matches on the port by which the flow enters its device and on the basic match fields of
the flow. The exceptions are the VLAN that the leaf device of a trap pushes itself, and the
metadata field of a double-tagged flow. The pass over the root devices changes actions
only. -/

namespace VolthaCore.Decomposition

open OpenFlow Outcome List Option

variable {H : HashEnv} {T : Topology} {groups : List OfpGroupEntry} {flow f g : OfpFlowStats}
  {hop : Hop} {added : List OfpOxmOfbField} {excluded : List OxmOfbFieldTypes}

def isKeptField (excluded : List OxmOfbFieldTypes) : OfpOxmField → Bool
  | .openflowBasic f => f.type ∉ excluded
  | .other _ _ => false

/-- The match fields of a flow, without its input port, that its rules take over. -/
def keptFields (flow : OfpFlowStats) (excluded : List OxmOfbFieldTypes) : List OfpOxmField :=
  (otherFields flow).filter (isKeptField excluded)

/-- A rule of a flow on the device of a hop, with the fields that it adds and the types that it
does not match on. -/
structure Keeps (flow : OfpFlowStats) (hop : Hop) (added : List OfpOxmOfbField)
    (excluded : List OxmOfbFieldTypes) (f : OfpFlowStats) : Prop where
  priority : f.priority = flow.priority
  cookie : f.cookie = flow.cookie
  meter : getMeterIdFromFlow f = getMeterIdFromFlow flow
  metadata : getMetadataFromWriteMetadataAction f = getMetadataFromWriteMetadataAction flow
  fields : f.ofpMatch = some ⟨.oxm,
    (inPort hop.ingress :: added).map .openflowBasic ++ keptFields flow excluded⟩

/-! ### Built flows -/

theorem instructions_mkFlowStat (fa : FlowArgs) :
    (mkFlowStat H fa).instructions = mkInstructions fa.actions fa.kv := rfl

/-- The instructions after the actions of a rule: its meter and its metadata, where the flow
has them. -/
theorem mkInstructions_ruleArgs (actions : List OfpAction) :
    mkInstructions actions (ruleArgs flow) =
      [⟨OFPIT_APPLY_ACTIONS, some (.actions actions)⟩] ++
        (if getMeterIdFromFlow flow ≠ 0 then
          [⟨OFPIT_METER, some (.meter (getMeterIdFromFlow flow))⟩] else []) ++
        (if getMetadataFromWriteMetadataAction flow ≠ 0 then
          [⟨OFPIT_WRITE_METADATA,
            some (.writeMetadata (getMetadataFromWriteMetadataAction flow) 0)⟩] else []) := by
  simp only [mkInstructions, ruleArgs, map_some, getD_some, map_none,
    toList_none, append_nil, UInt32.toUInt32_toUInt64]
  rfl

variable {fa : FlowArgs} {n m : UInt32}

theorem getMeterIdFromFlow_mkFlowStat (h : fa.kv = ruleArgs flow) :
    getMeterIdFromFlow (mkFlowStat H fa) = getMeterIdFromFlow flow := by
  conv_lhs => rw [getMeterIdFromFlow, instructions_mkFlowStat, h, mkInstructions_ruleArgs]
  by_cases hid : getMeterIdFromFlow flow = 0 <;>
    by_cases hmeta : getMetadataFromWriteMetadataAction flow = 0 <;>
    simp [hid, hmeta, OFPIT_APPLY_ACTIONS, OFPIT_METER, OFPIT_WRITE_METADATA]

theorem getMetadata_mkFlowStat (h : fa.kv = ruleArgs flow) :
    getMetadataFromWriteMetadataAction (mkFlowStat H fa) =
      getMetadataFromWriteMetadataAction flow := by
  conv_lhs =>
    rw [getMetadataFromWriteMetadataAction, instructions_mkFlowStat, h, mkInstructions_ruleArgs]
  by_cases hid : getMeterIdFromFlow flow = 0 <;>
    by_cases hmeta : getMetadataFromWriteMetadataAction flow = 0 <;>
    simp [hid, hmeta, OFPIT_APPLY_ACTIONS, OFPIT_METER, OFPIT_WRITE_METADATA]

theorem map_getOfbFields (hin : getInPort flow ≠ 0) (excluded : List OxmOfbFieldTypes) :
    (getOfbFields flow (.inPort :: excluded)).map .openflowBasic = keptFields flow excluded := by
  obtain ⟨fields, hm⟩ := exists_match_of_inPort hin
  unfold keptFields otherFields getOfbFields
  rw [hm]
  simp only [if_true]
  clear hm
  induction fields with
  | nil => rfl
  | cons field fields ih =>
    cases field with
    | openflowBasic f =>
      by_cases hf : f.type = .inPort
      · simpa [isInPortField, hf] using ih
      · by_cases hex : f.type ∈ excluded
        · simpa [isInPortField, isKeptField, hf, hex] using ih
        · simpa [isInPortField, isKeptField, hf, hex] using ih
    | other c data => simpa [isInPortField, isKeptField] using ih

theorem keeps_mkFlowStat (hin : getInPort flow ≠ 0) (hkv : fa.kv = ruleArgs flow)
    (hfields : fa.matchFields = inPort hop.ingress :: added ++
      getOfbFields flow (.inPort :: excluded)) :
    Keeps flow hop added excluded (mkFlowStat H fa) where
  priority := by
    change ((fa.kv.priority.map UInt64.toUInt32).getD _) = _
    rw [hkv]
    exact UInt32.toUInt32_toUInt64 _
  cookie := by
    change fa.kv.cookie.getD _ = _
    rw [hkv]
    rfl
  meter := getMeterIdFromFlow_mkFlowStat hkv
  metadata := getMetadata_mkFlowStat hkv
  fields := by rw [mkFlowStat_ofpMatch, hfields, map_append, map_getOfbFields hin]

/-! ### The pass over the root devices -/

/-- What does not look at the instructions with actions is the same after the pass. -/
theorem findSome_sendToController {β : Type} {p : OfpInstruction → Option β}
    (hp : ∀ i, i.type = OFPIT_APPLY_ACTIONS → p i = none) {is js : List OfpInstruction}
    (h : is.mapM sendToController = some js) : js.findSome? p = is.findSome? p := by
  induction is generalizing js with
  | nil =>
    cases h
    rfl
  | cons i is ih =>
    rw [mapM_cons] at h
    obtain ⟨j, hj, h⟩ := bind_eq_some_iff.mp h
    obtain ⟨rest, hrest, h⟩ := bind_eq_some_iff.mp h
    cases h
    unfold sendToController at hj
    split_ifs at hj with htype
    · obtain ⟨as, -, rfl⟩ := map_eq_some_iff.mp hj
      rw [findSome?_cons, findSome?_cons, hp i htype, hp _ rfl]
      exact ih hrest
    · cases hj
      rw [findSome?_cons, findSome?_cons, ih hrest]

theorem Keeps.parentFlow (hk : Keeps flow hop added excluded g) (h : parentFlow H g = .ok f) :
    Keeps flow hop added excluded f := by
  obtain ⟨hpriority, hcookie, hmatch, hinstructions⟩ := parentFlow_instructions h
  refine ⟨hpriority.trans hk.priority, hcookie.trans hk.cookie, ?_, ?_, hmatch.trans hk.fields⟩
  · rw [← hk.meter]
    unfold getMeterIdFromFlow
    rcases hinstructions with heq | hsend
    · rw [heq]
    · rw [findSome_sendToController _ hsend]
      intro i hi
      rw [if_neg (by rw [hi]; decide)]
  · rw [← hk.metadata]
    unfold getMetadataFromWriteMetadataAction
    rcases hinstructions with heq | hsend
    · rw [heq]
    · rw [findSome_sendToController _ hsend]
      intro i hi
      rw [if_neg (by rw [hi]; decide)]

theorem Keeps.passedOn {d : String} (hk : Keeps flow hop added excluded g)
    (h : PassedOn H T d g f) : Keeps flow hop added excluded f := by
  by_cases hd : T.isRootDevice d = true
  · exact hk.parentFlow ((passedOn_root hd).mp h)
  · exact (passedOn_other hd).mp h ▸ hk

theorem setField_passedOn {d : String} {field : OfpOxmOfbField} (h : PassedOn H T d g f)
    (hmem : setField field ∈ getActions g) : setField field ∈ getActions f := by
  by_cases hd : T.isRootDevice d = true
  · rw [(parentFlow_ok ((passedOn_root hd).mp h)).2]
    split_ifs
    · exact List.mem_map.mpr ⟨_, hmem, rfl⟩
    · exact hmem
  · exact (passedOn_other hd).mp h ▸ hmem

/-! ### The rules of a flow -/

/-- The first hop towards the port that the metadata of a flow names, or of the route of the
flow when it names none. -/
def LeadsToTarget (T : Topology) (flow : OfpFlowStats) (first hop : Hop) : Prop :=
  let portNumber := getEgressPortNumberFromWriteMetadata flow
  if portNumber = 0 then hop = first
  else ∃ last, getRoute T (getInPort flow) portNumber = .ok [hop, last]

/-- The ways in which a rule of a flow with this route differs from the flow: a tunnel may be
added; the leaf of a trap does not match on the VLAN that it sets; and a double-tagged flow
matches on the inner tag in place of the metadata. -/
inductive Differs (T : Topology) (flow : OfpFlowStats) (first second : Hop) :
    Hop → List OfpOxmOfbField → List OxmOfbFieldTypes → OfpFlowStats → Prop
  | nothing {hop : Hop} {f : OfpFlowStats} (h : hop ∈ [first, second]) :
      Differs T flow first second hop [] [] f
  | tunnel {hop : Hop} {f : OfpFlowStats} (h : hop ∈ [first, second]) (id : UInt64) :
      Differs T flow first second hop [tunnelId id] [] f
  | pushedVlan {f : OfpFlowStats} (id : UInt64) {vid : UInt32}
      (hout : isControllerPort (getOutPort flow) = true) (hvid : getVlanVid flow = some vid)
      (hset : setField (vlanVid vid) ∈ getActions f) :
      Differs T flow first second first [tunnelId id] [.vlanVid] f
  | innerTag {hop : Hop} {f : OfpFlowStats}
      (hmeta : getMetadataFromWriteMetadataAction flow ≠ 0)
      (hhop : LeadsToTarget T flow first hop) :
      Differs T flow first second hop
        [metadataOfp (getInnerTagFromMetaData flow).toUInt64,
          tunnelId (getEgressPortNumberFromWriteMetadata flow).toUInt64] [.metadata] f

/-- A rule on the device of one of the hops, which differs from the flow as it may. -/
def Derived (T : Topology) (flow : OfpFlowStats) (first second : Hop) (d : String)
    (f : OfpFlowStats) : Prop :=
  ∃ hop added excluded, hop.deviceID = d ∧ Keeps flow hop added excluded f ∧
    Differs T flow first second hop added excluded f

variable {first second : Hop} {d : String}

theorem Derived.passedOn (h : Derived T flow first second d g) (hpass : PassedOn H T d g f) :
    Derived T flow first second d f := by
  obtain ⟨hop, added, excluded, hd, hkeeps, hdiffers⟩ := h
  refine ⟨hop, added, excluded, hd, hkeeps.passedOn hpass, ?_⟩
  cases hdiffers with
  | nothing hhop => exact .nothing hhop
  | tunnel hhop id => exact .tunnel hhop id
  | pushedVlan id hout hvid hset => exact .pushedVlan id hout hvid (setField_passedOn hpass hset)
  | innerTag hmeta hhop => exact .innerTag hmeta hhop

theorem leadsToTarget_of_metadata (h : metadataIngressHop T first (getInPort flow)
    (getEgressPortNumberFromWriteMetadata flow) = .ok (some hop)) :
    LeadsToTarget T flow first hop := by
  unfold metadataIngressHop at h
  unfold LeadsToTarget
  dsimp only
  by_cases hport : getEgressPortNumberFromWriteMetadata flow = 0
  · rw [if_neg (not_not.mpr hport)] at h
    cases h
    rw [if_pos hport]
  · rw [if_pos hport] at h
    rw [if_neg hport]
    split at h <;> cases h
    next last hroute => exact ⟨last, hroute⟩

theorem derived_builtRule (hin : getInPort flow ≠ 0)
    (htrap : isControllerPort (getOutPort flow) = true → getInPort flow ∉ T.rootPorts)
    (hfa : BuiltRule T flow (getInPort flow) first second (getRoute T) hop fa) :
    Derived T flow first second hop.deviceID (mkFlowStat H fa) := by
  cases hfa with
  | nniTrap hout hn => exact absurd hn (htrap hout)
  | parentTrap port =>
    exact ⟨hop, _, [], rfl, keeps_mkFlowStat hin rfl rfl, .tunnel (by simp) port.toUInt64⟩
  | childTrap hout port =>
    cases hvid : getVlanVid flow with
    | none =>
      refine ⟨hop, [tunnelId port.toUInt64], [], rfl, keeps_mkFlowStat hin rfl ?_,
        .tunnel (by simp) _⟩
      simp [childTrapArgs, hvid]
    | some vid =>
      refine ⟨hop, [tunnelId port.toUInt64], [.vlanVid], rfl, keeps_mkFlowStat hin rfl ?_,
        .pushedVlan _ hout hvid ?_⟩
      · simp [childTrapArgs, hvid]
      · rw [getActions_mkFlowStat]
        simp [childTrapArgs, hvid]
  | tunnel hhop id _ => exact ⟨hop, _, [], rfl, keeps_mkFlowStat hin rfl rfl, .tunnel hhop id⟩
  | unicast => exact ⟨hop, [], [], rfl, keeps_mkFlowStat hin rfl rfl, .nothing (by simp)⟩
  | innerTag _ hmeta hhop =>
    exact ⟨hop, _, [.metadata], rfl, keeps_mkFlowStat hin rfl rfl,
      .innerTag hmeta (leadsToTarget_of_metadata hhop)⟩

theorem derived_chooseRules {chosen : Chosen} (hin : getInPort flow ≠ 0)
    (hgroup : getGroup flow = 0)
    (htrap : isControllerPort (getOutPort flow) = true → getInPort flow ∉ T.rootPorts)
    (hchosen : chooseRules H T flow groups (getInPort flow) first second = .ok chosen)
    (h : f ∈ chosen.rules.flowsOf d) : Derived T flow first second d f := by
  refine chooseRules_induction (P := fun dr => f ∈ dr.flowsOf d → _) nofun
    (fun dr hop fa hdr hfa hf => ?_) (fun hne => absurd hgroup hne) hchosen h
  rw [flowsOf_addFlowsAndGroup] at hf
  split_ifs at hf with hd
  · rw [hd, mem_singleton.mp hf]
    exact derived_builtRule hin htrap hfa
  · exact hdr hf

/-- Every flow installed for a flow without a group that has an input port, and is not the trap
of a root port, has its priority, cookie, meter and metadata. It matches on the port by which
the flow enters the device and on the basic match fields of the flow, up to the differences
that its class allows. -/
theorem derived_flows_keep {part : Decomposed} (hin : getInPort flow ≠ 0)
    (hgroup : getGroup flow = 0)
    (htrap : ¬(isControllerPort (getOutPort flow) = true ∧ isRootPort T (getInPort flow) = true))
    (h : decomposeFlow H T flow groups = .ok part) :
    ∃ first second, getRoute T (getInPort flow) (getOutPort flow) = .ok [first, second] ∧
      ∀ d, ∀ f ∈ part.rules.flowsOf d, ∃ hop added excluded, hop.deviceID = d ∧
        Keeps flow hop added excluded f ∧ Differs T flow first second hop added excluded f := by
  obtain ⟨first, second, chosen, hroute, hchosen, hrules, -⟩ := decomposeFlow_inv h
  rw [decompositionInPort_of_ne_zero hin] at hroute hchosen
  refine ⟨first, second, hroute, fun d f hf => ?_⟩
  have hflows := updateOutputPort_flows (chooseRules_singleFlows hchosen) hrules d
  obtain ⟨g, hg, hpass⟩ := exists_mem_left_of_forall₂ hflows hf
  have hroot : isControllerPort (getOutPort flow) = true → getInPort flow ∉ T.rootPorts := by
    intro hout hmem
    exact htrap ⟨hout, by simpa [isRootPort] using hmem⟩
  exact (derived_chooseRules hin hgroup hroot hchosen hg).passedOn hpass

/-- The rule of a flow to the uplink. -/
theorem derived_flows_keep_upstream :
    ∃ part, decomposeFlow sizeHash oneLeaf (upstreamFlow 1) [] = .ok part ∧
      part.rules.flowsOf "olt" ≠ [] ∧
      ∃ first second, getRoute oneLeaf 1 2 = .ok [first, second] ∧
        ∀ d, ∀ f ∈ part.rules.flowsOf d, ∃ hop added excluded, hop.deviceID = d ∧
          Keeps (upstreamFlow 1) hop added excluded f ∧
          Differs oneLeaf (upstreamFlow 1) first second hop added excluded f := by
  have hrules : ruleFlows sizeHash oneLeaf [] (upstreamFlow 1) "olt" ≠ [] := by decide +kernel
  unfold ruleFlows at hrules
  split at hrules
  · next part hpart =>
    exact ⟨part, hpart, hrules, derived_flows_keep (by decide) (by decide) (by decide) hpart⟩
  · exact absurd rfl hrules

/-- A flow to the uplink that also matches on a field of another class. -/
def experimenterFlow : OfpFlowStats :=
  { upstreamFlow 1 with
    ofpMatch := some ⟨.oxm, [.openflowBasic (inPort 1),
      .other .experimenter (some (.experimenterField 0 7))]⟩ }

/-- The rule of the root device does not match on that field. -/
theorem experimenter_field_lost :
    getInPort experimenterFlow = 1 ∧ getGroup experimenterFlow = 0 ∧
    isControllerPort (getOutPort experimenterFlow) = false ∧
    getMetadataFromWriteMetadataAction experimenterFlow = 0 ∧
    otherFields experimenterFlow = [.other .experimenter (some (.experimenterField 0 7))] ∧
    (ruleFlows sizeHash oneLeaf [] experimenterFlow "olt").map (·.ofpMatch) =
      [some ⟨.oxm, [.openflowBasic (inPort 1), .openflowBasic (tunnelId 1)]⟩] := by
  decide +kernel

end VolthaCore.Decomposition
