import VolthaCore.Decomposition.Decomposer
import VolthaCore.Lib.Outcome

/-! What the rules of a list of flows are made of. Decomposing a list succeeds
when every flow decomposes, a rule of the list is a rule of one of its flows, and
a rule of a flow is in the rules of the list unless another one with the same
identifier took its place. The identifier is a hash, so the rules of a list have
the keys of the rules of its flows only as long as the hash separates them. -/

namespace VolthaCore.Decomposition

open OpenFlow Outcome List
open DeviceRules (singleFlows_empty)

variable {H : HashEnv} {T : Topology} {groups : List OfpGroupEntry} {route : RouteLookup}

/-! ### One flow -/

variable {flow x f : OfpFlowStats} {rules acc : DeviceRules} {part : Decomposed} {d : String}
  {flows : List OfpFlowStats} {dec : DecomposedFlows} {parts : List Decomposed} {n : UInt32}
  {first second : Hop} {P : DeviceRules → Prop}

/-- What the rules are built of that a flow may get, on the device of a hop. -/
inductive BuiltRule (T : Topology) (flow : OfpFlowStats) (n : UInt32) (first second : Hop)
    (route : RouteLookup) : Hop → FlowArgs → Prop
  | nniTrap (hout : isControllerPort (getOutPort flow) = true) (hn : n ∈ T.rootPorts) :
      BuiltRule T flow n first second route second (nniTrapArgs second.egress flow)
  | parentTrap (port : UInt32) :
      BuiltRule T flow n first second route second (parentTrapArgs second port flow)
  | childTrap (hout : isControllerPort (getOutPort flow) = true) (port : UInt32) :
      BuiltRule T flow n first second route first (childTrapArgs first port flow)
  | tunnel {hop : Hop} (hhop : hop ∈ [first, second]) (id : UInt64)
      (exclude : List OfpActionType) : BuiltRule T flow n first second route hop
        { kv := ruleArgs flow
          matchFields := [inPort hop.ingress, tunnelId id] ++ getOfbFields flow [.inPort]
          actions := getActions flow exclude ++ [output hop.egress] }
  | unicast : BuiltRule T flow n first second route second
      { kv := ruleArgs flow
        matchFields := [inPort second.ingress] ++ getOfbFields flow [.inPort]
        actions := getActions flow [.output] ++ [output second.egress] }
  | innerTag {hop : Hop} (hout : ¬isControllerPort (getOutPort flow) = true)
      (hmeta : getMetadataFromWriteMetadataAction flow ≠ 0)
      (hhop : metadataIngressHop T first n (getEgressPortNumberFromWriteMetadata flow) route =
        .ok (some hop)) : BuiltRule T flow n first second route hop
        { kv := ruleArgs flow
          matchFields := [inPort hop.ingress,
            metadataOfp (getInnerTagFromMetaData flow).toUInt64,
            tunnelId (getEgressPortNumberFromWriteMetadata flow).toUInt64] ++
              getOfbFields flow [.inPort, .metadata]
          actions := getActions flow ++ [output hop.egress] }

section Induction

variable (hempty : P ∅) (hbuilt : ∀ dr hop fa, P dr → BuiltRule T flow n first second route hop fa →
  P (dr.addFlowsAndGroup hop.deviceID (.ofFlow (mkFlowStat H fa))))
include hempty hbuilt

theorem processControllerBoundFlow_induction
    (hout : isControllerPort (getOutPort flow) = true) :
    P (processControllerBoundFlow H T first second n flow) := by
  unfold processControllerBoundFlow
  split_ifs with hroot
  · exact hbuilt ∅ _ _ hempty (.nniTrap hout (by simpa [isRootPort] using hroot))
  all_goals
    exact List.foldlRecOn _ _ hempty fun dr hdr port _ =>
      hbuilt _ _ _ (hbuilt dr _ _ hdr (.parentTrap port)) (.childTrap hout port)

theorem processDownstream_induction {m : UInt32}
    (hout : ¬isControllerPort (getOutPort flow) = true)
    (h : processDownstreamFlowWithNextTable H T first n m flow route = .ok rules) : P rules := by
  unfold processDownstreamFlowWithNextTable at h
  split_ifs at h with _ _ hmeta
  · cases h
    exact hempty
  · cases h
    exact hempty
  · obtain ⟨hop, hhop, h⟩ := except_bind_ok_iff.mp h
    cases hop with
    | none =>
      cases h
      exact hempty
    | some hop =>
      dsimp only at h
      split_ifs at h <;> cases h
      · exact hempty
      · exact hbuilt ∅ _ _ hempty (.innerTag hout hmeta hhop)
  · cases h
    exact hbuilt ∅ _ _ hempty (.tunnel (by simp) _ [])

/-- What holds without rules, with the flow itself as the only one and with every built rule in
addition holds for the rules that are chosen. -/
theorem chooseRules_induction (hshared : getGroup flow ≠ 0 →
      P ((∅ : DeviceRules).addFlowsAndGroup first.deviceID (.ofFlow flow))) {chosen : Chosen}
    (h : chooseRules H T flow groups n first second route = .ok chosen) : P chosen.rules := by
  unfold chooseRules at h
  dsimp only at h
  by_cases hout : isControllerPort (getOutPort flow) = true
  · rw [if_pos hout] at h
    cases h
    exact processControllerBoundFlow_induction hempty hbuilt hout
  rw [if_neg hout] at h
  split at h
  · cases h
  · cases h
    unfold processUpstreamNonControllerBoundFlow
    dsimp only
    split_ifs
    · exact hempty
    · exact hbuilt ∅ _ _ hempty (.tunnel (by simp) _ [])
    · exact hbuilt ∅ _ _ hempty (.tunnel (by simp) _ [.output])
    · exact hempty
  · split_ifs at h with _ _ hgroup hmem
    · obtain ⟨rules, hrules, h⟩ := except_bind_ok_iff.mp h
      cases h
      exact processDownstream_induction hempty hbuilt hout hrules
    · cases h
      exact hbuilt ∅ _ _ hempty .unicast
    · cases h
      rw [processMulticastFlow, if_pos hmem]
      exact hshared (by simp_all)
    · cases h
      rw [processMulticastFlow, if_neg hmem]
      exact hempty

end Induction

theorem oneRule_singleFlows (d : String) (fa : FlowArgs) : (oneRule H d fa).SingleFlows :=
  singleFlows_empty.addFlowsAndGroup d _

theorem processControllerBoundFlow_singleFlows (hout : isControllerPort (getOutPort flow) = true) :
    (processControllerBoundFlow H T first second n flow).SingleFlows :=
  processControllerBoundFlow_induction singleFlows_empty
    (fun _ _ _ hdr (_ : BuiltRule _ _ _ _ _ (getRoute T) _ _) => hdr.addFlowsAndGroup _ _) hout

theorem chooseRules_singleFlows {chosen : Chosen}
    (h : chooseRules H T flow groups n first second route = .ok chosen) :
    chosen.rules.SingleFlows :=
  chooseRules_induction singleFlows_empty (fun _ _ _ hdr _ => hdr.addFlowsAndGroup _ _)
    (fun _ => singleFlows_empty.addFlowsAndGroup _ _) h

theorem updateOutputPort_singleFlows {dr : DeviceRules} (hdr : dr.SingleFlows)
    (h : updateOutputPortForControllerBoundFlowForParentDevide H T dr = .ok rules) :
    rules.SingleFlows := by
  refine except_foldlM_induction hdr (fun entry hentry acc acc' hacc hstep => ?_) h
  unfold passEntry at hstep
  split_ifs at hstep
  · obtain ⟨flows, hflows, hstep⟩ := except_bind_ok_iff.mp hstep
    cases hstep
    obtain ⟨⟨flow, hflow⟩, -⟩ := hdr entry.1 entry.2 (AList.mem_lookup_iff.mpr hentry)
    rw [hflow, except_mapM_ok_iff] at hflows
    obtain ⟨new, _, -, hnil, rfl⟩ := forall₂_cons_left_iff.mp hflows
    rw [forall₂_nil_left_iff.mp hnil]
    exact hacc.replaceFlow entry.1 new
  · cases hstep
    exact hacc

theorem decomposeFlow_inv (h : decomposeFlow H T flow groups route = .ok part) :
    ∃ first second chosen,
      route (decompositionInPort T flow) (getOutPort flow) = .ok [first, second] ∧
      chooseRules H T flow groups (decompositionInPort T flow) first second route = .ok chosen ∧
      updateOutputPortForControllerBoundFlowForParentDevide H T chosen.rules = .ok part.rules ∧
      (part.flow = flow ∨ part.flow = rehash H flow) := by
  obtain ⟨path, hpath, h⟩ := except_bind_ok_iff.mp h
  split at h
  · cases h
  · obtain ⟨chosen, hchosen, h⟩ := except_bind_ok_iff.mp h
    obtain ⟨rules, hrules, h⟩ := except_bind_ok_iff.mp h
    cases h
    refine ⟨_, _, chosen, hpath, hchosen, hrules, ?_⟩
    dsimp only
    split_ifs
    · exact .inr rfl
    · exact .inl rfl
  · cases h

theorem decomposeFlow_singleFlows (h : decomposeFlow H T flow groups route = .ok part) :
    part.rules.SingleFlows := by
  obtain ⟨_, _, chosen, -, hchosen, hrules, -⟩ := decomposeFlow_inv h
  exact updateOutputPort_singleFlows (chooseRules_singleFlows hchosen) hrules

theorem decomposeFlow_flow (h : decomposeFlow H T flow groups route = .ok part) :
    part.flow = flow ∨ part.flow = rehash H flow := by
  obtain ⟨_, _, _, -, -, -, hflow⟩ := decomposeFlow_inv h
  exact hflow

/-! ### Lists of flows -/

def ruleFlows (H : HashEnv) (T : Topology) (groups : List OfpGroupEntry) (flow : OfpFlowStats)
    (d : String) (route : RouteLookup := getRoute T) : List OfpFlowStats :=
  match decomposeFlow H T flow groups route with
  | .ok part => part.rules.flowsOf d
  | .error _ => []

theorem ruleFlows_eq_of_mem {y : OfpFlowStats} (hx : x ∈ ruleFlows H T groups flow d route)
    (hy : y ∈ ruleFlows H T groups flow d route) : x = y := by
  unfold ruleFlows at hx hy
  cases hpart : decomposeFlow H T flow groups route with
  | error e => simp [hpart] at hx
  | ok part =>
    rw [hpart] at hx hy
    exact (decomposeFlow_singleFlows hpart).eq_of_mem hx hy

theorem decomposeRules_ok_iff :
    decomposeRules H T flows groups route = .ok dec ↔
      ∃ parts,
        List.Forall₂ (fun f part => decomposeFlow H T f groups route = .ok part) flows parts ∧
        dec = ⟨parts.foldl (fun acc part => acc.collect part.rules) ∅,
          parts.map Decomposed.flow⟩ := by
  unfold decomposeRules
  rw [except_bind_ok_iff]
  refine exists_congr fun parts => and_congr except_mapM_ok_iff ?_
  simp only [pure, Except.pure, Except.ok.injEq]
  exact eq_comm

theorem exists_decomposeRules
    (h : ∀ f ∈ flows, ∃ part, decomposeFlow H T f groups route = .ok part) :
    ∃ dec, decomposeRules H T flows groups route = .ok dec := by
  have hparts : ∃ parts, List.Forall₂ (fun f part => decomposeFlow H T f groups route = .ok part)
      flows parts := by
    induction flows with
    | nil => exact ⟨[], .nil⟩
    | cons f fs ih =>
      obtain ⟨part, hpart⟩ := h f (by simp)
      obtain ⟨parts, hparts⟩ := ih fun g hg => h g (mem_cons_of_mem _ hg)
      exact ⟨part :: parts, .cons hpart hparts⟩
  obtain ⟨parts, hparts⟩ := hparts
  exact ⟨_, decomposeRules_ok_iff.mpr ⟨parts, hparts, rfl⟩⟩

theorem decomposeFlow_of_mem (h : decomposeRules H T flows groups route = .ok dec)
    (hf : f ∈ flows) :
    ∃ part, decomposeFlow H T f groups route = .ok part := by
  obtain ⟨parts, hparts, -⟩ := decomposeRules_ok_iff.mp h
  obtain ⟨part, -, hpart⟩ := exists_mem_right_of_forall₂ hparts hf
  exact ⟨part, hpart⟩

private theorem mem_collectAll
    (hx : x ∈ (parts.foldl (fun acc part => acc.collect part.rules) acc).flowsOf d) :
    x ∈ acc.flowsOf d ∨ ∃ part ∈ parts, x ∈ part.rules.flowsOf d := by
  induction parts generalizing acc with
  | nil => exact .inl hx
  | cons part parts ih =>
    rcases ih hx with h | ⟨p, hp, h⟩
    · rcases DeviceRules.mem_flowsOf_collect h with h | h
      · exact .inl h
      · exact .inr ⟨part, by simp, h⟩
    · exact .inr ⟨p, mem_cons_of_mem _ hp, h⟩

private theorem subset_collectAll (hx : x ∈ acc.flowsOf d) :
    x ∈ (parts.foldl (fun acc part => acc.collect part.rules) acc).flowsOf d := by
  induction parts generalizing acc with
  | nil => exact hx
  | cons part parts ih => exact ih (DeviceRules.subset_flowsOf_collect _ hx)

private theorem exists_id_collectAll (hp : part ∈ parts) (hx : x ∈ part.rules.flowsOf d) :
    ∃ y ∈ (parts.foldl (fun acc part => acc.collect part.rules) acc).flowsOf d, y.id = x.id := by
  induction parts generalizing acc with
  | nil => simp at hp
  | cons p parts ih =>
    rcases mem_cons.mp hp with rfl | hp
    · obtain ⟨y, hy, hid⟩ := DeviceRules.exists_id_flowsOf_collect acc hx
      refine ⟨y, ?_, hid⟩
      rw [foldl_cons]
      exact subset_collectAll hy
    · exact ih hp

theorem mem_decomposeRules (h : decomposeRules H T flows groups route = .ok dec)
    (hx : x ∈ dec.rules.flowsOf d) : ∃ f ∈ flows, x ∈ ruleFlows H T groups f d route := by
  obtain ⟨parts, hparts, rfl⟩ := decomposeRules_ok_iff.mp h
  rcases mem_collectAll hx with hx | ⟨part, hp, hx⟩
  · simp [DeviceRules.flowsOf] at hx
  · obtain ⟨f, hf, hpart⟩ := exists_mem_left_of_forall₂ hparts hp
    exact ⟨f, hf, by simpa [ruleFlows, hpart] using hx⟩

/-- Every rule of a flow is in the rules of the list, or one with its identifier is. -/
theorem exists_id_decomposeRules (h : decomposeRules H T flows groups route = .ok dec)
    (hf : f ∈ flows) (hx : x ∈ ruleFlows H T groups f d route) :
    ∃ y ∈ dec.rules.flowsOf d, y.id = x.id := by
  obtain ⟨parts, hparts, rfl⟩ := decomposeRules_ok_iff.mp h
  obtain ⟨part, hp, hpart⟩ := exists_mem_right_of_forall₂ hparts hf
  rw [ruleFlows, hpart] at hx
  exact exists_id_collectAll hp hx

def ruleKeys (H : HashEnv) (T : Topology) (groups : List OfpGroupEntry) (flow : OfpFlowStats)
    (d : String) : List FlowKey := (ruleFlows H T groups flow d).map flowKey

/-- The hash separates the rules of the flows: rules for one device with the same
identifier have the same key. -/
def Separated (H : HashEnv) (T : Topology) (groups : List OfpGroupEntry)
    (flows : List OfpFlowStats) : Prop :=
  ∀ d, ∀ f ∈ flows, ∀ g ∈ flows, ∀ x ∈ ruleFlows H T groups f d, ∀ y ∈ ruleFlows H T groups g d,
    x.id = y.id → flowKey x = flowKey y

theorem Separated.mono {flows' : List OfpFlowStats} (h : Separated H T groups flows)
    (hsub : ∀ f ∈ flows', f ∈ flows) : Separated H T groups flows' :=
  fun d f hf g hg => h d f (hsub f hf) g (hsub g hg)

theorem separated_singleton (flow : OfpFlowStats) : Separated H T groups [flow] := by
  intro d f hf g hg x hx y hy _
  rw [mem_singleton] at hf hg
  subst hf hg
  rw [ruleFlows_eq_of_mem hx hy]

variable (h : decomposeRules H T flows groups = .ok dec)
include h

/-- Where the hash separates them, the rules of a list have the keys of the rules
of its flows. -/
theorem mem_keys_decomposeRules (hs : Separated H T groups flows) (d : String) (k : FlowKey) :
    k ∈ (dec.rules.flowsOf d).map flowKey ↔ ∃ f ∈ flows, k ∈ ruleKeys H T groups f d := by
  constructor
  · intro hk
    obtain ⟨x, hx, rfl⟩ := mem_map.mp hk
    obtain ⟨f, hf, hxf⟩ := mem_decomposeRules h hx
    exact ⟨f, hf, mem_map_of_mem hxf⟩
  · rintro ⟨f, hf, hk⟩
    obtain ⟨x, hx, rfl⟩ := mem_map.mp hk
    obtain ⟨y, hy, hid⟩ := exists_id_decomposeRules h hf hx
    obtain ⟨g, hg, hyg⟩ := mem_decomposeRules h hy
    rw [← hs d g hg f hf y hyg x hx hid]
    exact mem_map_of_mem hy

/-- What does not depend on the identifiers is the same before and after. -/
theorem map_decomposeRules_flows {γ : Type} {g : OfpFlowStats → γ}
    (hg : ∀ f, g (rehash H f) = g f) :
    dec.flows.map g = flows.map g := by
  obtain ⟨parts, hparts, rfl⟩ := decomposeRules_ok_iff.mp h
  clear h
  dsimp only
  induction hparts with
  | nil => rfl
  | @cons f part fs parts hpart _ ih =>
    have hf : g part.flow = g f := by
      rcases decomposeFlow_flow hpart with hf | hf
      · rw [hf]
      · rw [hf, hg]
    rw [map_cons, map_cons, map_cons, hf, ih]

end VolthaCore.Decomposition
