import VolthaCore.Decomposition.Union

/-! What the pass over the root devices makes of the chosen rules. Every device
keeps its number of flows. A flow of a root device that matches on EAPOL, IGMP or
UDP gets all its output actions turned into outputs to the controller, whatever
they were; the other flows of a root device only get a new identifier. -/

namespace VolthaCore.Decomposition

open OpenFlow Outcome List Option AList DeviceRules

variable {H : HashEnv} {T : Topology}

/-! ### One flow of a root device -/

def toController (a : OfpAction) : OfpAction :=
  match a.action with
  | some (.output _ _) => output OFPP_CONTROLLER
  | _ => a

def applyActions : List OfpInstruction → List OfpAction
  | [] => []
  | i :: is => if i.type = OFPIT_APPLY_ACTIONS then i.getActions.getD [] else applyActions is

theorem getActions_eq (flow : OfpFlowStats) : getActions flow = applyActions flow.instructions := by
  unfold getActions
  induction flow.instructions with
  | nil => rfl
  | cons i is ih =>
    by_cases htype : i.type = OFPIT_APPLY_ACTIONS
    · simp [applyActions, htype]
    · simpa [applyActions, htype] using ih

/-- An instruction of a flow that is sent to the controller; one without a payload is refused. -/
def sendToController (i : OfpInstruction) : Option OfpInstruction :=
  if i.type = OFPIT_APPLY_ACTIONS then
    i.getActions.map fun as => ⟨OFPIT_APPLY_ACTIONS, some (.actions (as.map toController))⟩
  else some i

theorem updateOutputPort_toController (flow : OfpFlowStats) :
    updateOutputPortByActionType flow OFPIT_APPLY_ACTIONS OFPP_CONTROLLER =
      (flow.instructions.mapM sendToController).map fun is => { flow with instructions := is } := by
  have hsend : sendToController = fun i =>
      if i.type = OFPIT_APPLY_ACTIONS then do
        let as ← i.getActions
        some (⟨OFPIT_APPLY_ACTIONS, some (.actions (as.map toController))⟩ : OfpInstruction)
      else some i := by
    funext i
    unfold sendToController
    cases i.getActions <;> rfl
  rw [hsend, map_eq_bind]
  rfl

variable {is : List OfpInstruction} {flow f : OfpFlowStats} {d d' : String}
  {dr acc rules : DeviceRules}

theorem applyActions_mapM {js : List OfpInstruction} (h : is.mapM sendToController = some js) :
    applyActions js = (applyActions is).map toController := by
  induction is generalizing js with
  | nil =>
    cases h
    rfl
  | cons i is ih =>
    rw [mapM_cons] at h
    obtain ⟨j, hj, h⟩ := bind_eq_some_iff.mp h
    obtain ⟨rest, hrest, h⟩ := bind_eq_some_iff.mp h
    cases h
    unfold sendToController at hj
    split_ifs at hj with htype
    · obtain ⟨as, has, rfl⟩ := map_eq_some_iff.mp hj
      simp only [applyActions, if_pos htype, if_true, has]
      rfl
    · cases hj
      simp only [applyActions, if_neg htype]
      exact ih hrest

theorem exists_mapM_sendToController
    (h : ∀ i ∈ is, i.type = OFPIT_APPLY_ACTIONS → i.getActions.isSome) :
    ∃ js, is.mapM sendToController = some js := by
  induction is with
  | nil => exact ⟨[], rfl⟩
  | cons i is ih =>
    obtain ⟨js, hjs⟩ := ih fun j hj => h j (mem_cons_of_mem _ hj)
    have hi : ∃ j, sendToController i = some j := by
      unfold sendToController
      split_ifs with htype
      · obtain ⟨as, has⟩ := isSome_iff_exists.mp (h i (by simp) htype)
        rw [has]
        exact ⟨_, rfl⟩
      · exact ⟨i, rfl⟩
    obtain ⟨j, hj⟩ := hi
    exact ⟨j :: js, by rw [mapM_cons, hj, hjs]; rfl⟩

theorem parentFlow_ok (h : parentFlow H flow = .ok f) :
    f.ofpMatch = flow.ofpMatch ∧ getActions f =
      if isControllerTrap flow then (getActions flow).map toController else getActions flow := by
  unfold parentFlow at h
  rw [updateOutputPort_toController] at h
  split_ifs at h ⊢
  · cases hsend : flow.instructions.mapM sendToController with
    | none =>
      rw [hsend] at h
      cases h
    | some is =>
      rw [hsend] at h
      cases h
      refine ⟨rfl, ?_⟩
      rw [getActions_eq, getActions_eq]
      exact applyActions_mapM hsend
  · cases h
    exact ⟨rfl, rfl⟩

theorem parentFlow_instructions (h : parentFlow H flow = .ok f) :
    f.priority = flow.priority ∧ f.cookie = flow.cookie ∧ f.ofpMatch = flow.ofpMatch ∧
      (f.instructions = flow.instructions ∨
        flow.instructions.mapM sendToController = some f.instructions) := by
  unfold parentFlow at h
  rw [updateOutputPort_toController] at h
  split_ifs at h
  · cases hsend : flow.instructions.mapM sendToController with
    | none =>
      rw [hsend] at h
      cases h
    | some is =>
      rw [hsend] at h
      cases h
      exact ⟨rfl, rfl, rfl, .inr rfl⟩
  · cases h
    exact ⟨rfl, rfl, rfl, .inl rfl⟩

theorem exists_parentFlow
    (h : ∀ i ∈ flow.instructions, i.type = OFPIT_APPLY_ACTIONS → i.getActions.isSome) :
    ∃ f, parentFlow H flow = .ok f := by
  obtain ⟨is, his⟩ := exists_mapM_sendToController h
  unfold parentFlow
  rw [updateOutputPort_toController, his]
  split_ifs
  · exact ⟨_, rfl⟩
  · exact ⟨_, rfl⟩

/-! ### Built flows -/

theorem mkFlowStat_ofpMatch (fa : FlowArgs) :
    (mkFlowStat H fa).ofpMatch = some ⟨.oxm, fa.matchFields.map .openflowBasic⟩ := rfl

theorem getOfbFields_mkFlowStat (fa : FlowArgs) :
    getOfbFields (mkFlowStat H fa) = fa.matchFields := by
  simp [getOfbFields, mkFlowStat_ofpMatch, filterMap_map]

theorem getActions_mkFlowStat (fa : FlowArgs) : getActions (mkFlowStat H fa) = fa.actions := by
  rw [getActions_eq]
  rfl

theorem exists_parentFlow_mkFlowStat (fa : FlowArgs) :
    ∃ f, parentFlow H (mkFlowStat H fa) = .ok f := by
  refine exists_parentFlow fun i hi htype => ?_
  change i ∈ mkInstructions fa.actions fa.kv at hi
  simp only [mkInstructions, mem_append, mem_singleton, mem_toList, map_eq_some_iff] at hi
  rcases hi with ((rfl | ⟨t, -, rfl⟩) | hi) | hi
  · rfl
  · simp [OFPIT_GOTO_TABLE, OFPIT_APPLY_ACTIONS] at htype
  · split_ifs at hi
    · rw [mem_singleton.mp hi] at htype
      simp [OFPIT_METER, OFPIT_APPLY_ACTIONS] at htype
    · simp at hi
  · split_ifs at hi
    · rw [mem_singleton.mp hi] at htype
      simp [OFPIT_WRITE_METADATA, OFPIT_APPLY_ACTIONS] at htype
    · simp at hi

/-! ### All devices -/

/-- What becomes of a flow of a device. -/
def PassedOn (H : HashEnv) (T : Topology) (d : String) (flow f : OfpFlowStats) : Prop :=
  if T.isRootDevice d then parentFlow H flow = .ok f else flow = f

theorem passedOn_root (hd : T.isRootDevice d = true) :
    PassedOn H T d flow f ↔ parentFlow H flow = .ok f := by
  rw [PassedOn, if_pos hd]

theorem passedOn_other (hd : ¬T.isRootDevice d = true) : PassedOn H T d flow f ↔ flow = f := by
  rw [PassedOn, if_neg hd]

theorem flowsOf_replaceFlow (dr : DeviceRules) (d : String) (flow : OfpFlowStats) :
    ((dr.clearFlows d).addFlow d flow).flowsOf d = [flow] := by
  unfold flowsOf addFlow clearFlows
  rw [lookup_insert]
  cases hd : dr.lookup d with
  | none =>
    simp only [hd, getD_none]
    exact OrderedMap.addIfAbsent_empty flow
  | some fg =>
    simp only [lookup_insert, getD_some]
    exact OrderedMap.addIfAbsent_empty flow

theorem lookup_replaceFlow_ne (dr : DeviceRules) (hne : d' ≠ d) (flow : OfpFlowStats) :
    ((dr.clearFlows d).addFlow d flow).lookup d' = dr.lookup d' := by
  unfold addFlow
  rw [lookup_insert_ne hne, lookup_clearFlows_ne dr hne]

theorem flowsOf_of_lookup {fg : FlowsAndGroups} (h : dr.lookup d = some fg) :
    dr.flowsOf d = fg.listFlows := by
  simp only [flowsOf, h]

theorem flowsOf_congr {dr' : DeviceRules} (h : dr.lookup d = dr'.lookup d) :
    dr.flowsOf d = dr'.flowsOf d := by
  simp only [flowsOf, h]

/-- An entry with one flow gets the flow that this one becomes, and no other entry changes. -/
theorem passEntry_ok {acc' : DeviceRules} {entry : Σ _ : String, FlowsAndGroups}
    (hone : ∃ flow, entry.2.listFlows = [flow]) (hacc : acc.lookup entry.1 = some entry.2)
    (h : passEntry H T acc entry = .ok acc') :
    List.Forall₂ (PassedOn H T entry.1) entry.2.listFlows (acc'.flowsOf entry.1) ∧
      ∀ d, d ≠ entry.1 → acc'.lookup d = acc.lookup d := by
  obtain ⟨flow, hflow⟩ := hone
  unfold passEntry at h
  split_ifs at h with hroot
  · obtain ⟨flows, hflows, h⟩ := except_bind_ok_iff.mp h
    cases h
    rw [hflow, except_mapM_ok_iff] at hflows
    obtain ⟨new, _, hnew, hnil, rfl⟩ := forall₂_cons_left_iff.mp hflows
    rw [forall₂_nil_left_iff.mp hnil, hflow]
    refine ⟨?_, fun d hd => lookup_replaceFlow_ne acc hd new⟩
    rw [foldl_cons, foldl_nil, flowsOf_replaceFlow]
    exact .cons ((passedOn_root hroot).mpr hnew) .nil
  · cases h
    refine ⟨?_, fun _ _ => rfl⟩
    rw [flowsOf_of_lookup hacc, hflow]
    exact .cons ((passedOn_other hroot).mpr rfl) .nil

private theorem foldlM_passEntry {es : List (Σ _ : String, FlowsAndGroups)} (hes : es.NodupKeys)
    (hone : ∀ e ∈ es, ∃ flow, e.2.listFlows = [flow]) (hacc : ∀ e ∈ es, acc.lookup e.1 = some e.2)
    (h : es.foldlM (passEntry H T) acc = .ok rules) :
    (∀ e ∈ es, List.Forall₂ (PassedOn H T e.1) e.2.listFlows (rules.flowsOf e.1)) ∧
      ∀ d, d ∉ es.keys → rules.lookup d = acc.lookup d := by
  induction es generalizing acc with
  | nil =>
    cases h
    exact ⟨by simp, fun _ _ => rfl⟩
  | cons e es ih =>
    rw [foldlM_cons] at h
    obtain ⟨acc', hstep, h⟩ := except_bind_ok_iff.mp h
    have hkeys := nodupKeys_cons.mp hes
    obtain ⟨hhead, hrest⟩ := passEntry_ok (hone e (by simp)) (hacc e (by simp)) hstep
    have hne : ∀ e' ∈ es, e'.1 ≠ e.1 := fun e' he' heq =>
      hkeys.1 (heq ▸ List.mem_map_of_mem he')
    obtain ⟨htail, hother⟩ := ih hkeys.2 (fun e' he' => hone e' (mem_cons_of_mem _ he'))
      (fun e' he' => (hrest e'.1 (hne e' he')).trans (hacc e' (mem_cons_of_mem _ he'))) h
    refine ⟨?_, fun d hd => ?_⟩
    · rintro e' (_ | ⟨_, he'⟩)
      · rw [flowsOf_congr (hother e.1 hkeys.1)]
        exact hhead
      · exact htail e' he'
    · rw [keys_cons, mem_cons, not_or] at hd
      exact (hother d hd.2).trans (hrest d hd.1)

/-- Every device has as many flows after the pass as before, each made of the one before. -/
theorem updateOutputPort_flows (hdr : dr.SingleFlows)
    (h : updateOutputPortForControllerBoundFlowForParentDevide H T dr = .ok rules) (d : String) :
    List.Forall₂ (PassedOn H T d) (dr.flowsOf d) (rules.flowsOf d) := by
  unfold updateOutputPortForControllerBoundFlowForParentDevide at h
  have hentries : ∀ e ∈ dr.entries, dr.lookup e.1 = some e.2 := fun e he =>
    mem_lookup_iff.mpr he
  obtain ⟨hflows, hother⟩ := foldlM_passEntry dr.nodupKeys
    (fun e he => (hdr e.1 e.2 (hentries e he)).1) hentries h
  cases hd : dr.lookup d with
  | none =>
    have hkey : d ∉ dr.entries.keys := fun hmem =>
      lookup_eq_none.mp hd (AList.mem_keys.mpr hmem)
    rw [flowsOf_eq_nil hkey, flowsOf_congr (hother d hkey),
      flowsOf_eq_nil hkey]
    exact .nil
  | some fg =>
    rw [flowsOf_of_lookup hd]
    exact hflows ⟨d, fg⟩ (mem_lookup_iff.mp hd)

/-- The pass succeeds when every flow of a root device passes. -/
theorem exists_updateOutputPort (dr : DeviceRules)
    (h : ∀ d, T.isRootDevice d = true → ∀ flow ∈ dr.flowsOf d, ∃ f, parentFlow H flow = .ok f) :
    ∃ rules, updateOutputPortForControllerBoundFlowForParentDevide H T dr = .ok rules := by
  unfold updateOutputPortForControllerBoundFlowForParentDevide
  have hflows : ∀ e ∈ dr.entries, T.isRootDevice e.1 = true →
      ∀ flow ∈ e.2.listFlows, ∃ f, parentFlow H flow = .ok f := fun e he hroot flow hflow =>
    h e.1 hroot flow (flowsOf_of_lookup (mem_lookup_iff.mpr he) ▸ hflow)
  generalize dr.entries = es at hflows
  generalize dr = acc
  induction es generalizing acc with
  | nil => exact ⟨acc, rfl⟩
  | cons e es ih =>
    have hstep : ∃ acc', passEntry H T acc e = .ok acc' := by
      unfold passEntry
      split_ifs with hroot
      · have hmap : ∃ flows, e.2.listFlows.mapM (parentFlow H) = .ok flows := by
          have hall := hflows e (by simp) hroot
          generalize e.2.listFlows = fs at hall
          induction fs with
          | nil => exact ⟨[], rfl⟩
          | cons f fs ihf =>
            obtain ⟨g, hg⟩ := hall f (by simp)
            obtain ⟨gs, hgs⟩ := ihf fun x hx => hall x (mem_cons_of_mem _ hx)
            exact ⟨g :: gs, by rw [mapM_cons, hg, hgs]; rfl⟩
        obtain ⟨flows, hmap⟩ := hmap
        rw [hmap]
        exact ⟨_, rfl⟩
      · exact ⟨_, rfl⟩
    obtain ⟨acc', hstep⟩ := hstep
    obtain ⟨rules, hrules⟩ := ih (fun e' he' => hflows e' (mem_cons_of_mem _ he')) acc'
    refine ⟨rules, ?_⟩
    rw [foldlM_cons, hstep]
    exact hrules

theorem mem_iff_flowsOf_ne_nil (hdr : dr.SingleFlows) : d ∈ dr ↔ dr.flowsOf d ≠ [] := by
  rw [Ne, ← hdr.flowsOnly.lookup_eq_none_iff, lookup_eq_none, not_not]

theorem mem_updateOutputPort (hdr : dr.SingleFlows)
    (h : updateOutputPortForControllerBoundFlowForParentDevide H T dr = .ok rules) :
    d ∈ rules ↔ d ∈ dr := by
  rw [mem_iff_flowsOf_ne_nil (updateOutputPort_singleFlows hdr h), mem_iff_flowsOf_ne_nil hdr]
  have hlen := (updateOutputPort_flows hdr h d).length_eq
  rw [Ne, Ne, ← length_eq_zero_iff, ← length_eq_zero_iff, hlen]

theorem flowsOf_addFlowsAndGroup (dr : DeviceRules) (d d' : String) (flow : OfpFlowStats) :
    (dr.addFlowsAndGroup d (.ofFlow flow)).flowsOf d' =
      if d' = d then [flow] else dr.flowsOf d' := by
  unfold addFlowsAndGroup flowsOf
  by_cases hd : d' = d
  · subst hd
    rw [lookup_insert, if_pos rfl]
    exact FlowsAndGroups.listFlows_ofFlow flow
  · rw [lookup_insert_ne hd, if_neg hd]

theorem flowsOf_oneRule (d d' : String) (fa : FlowArgs) :
    (oneRule H d fa).flowsOf d' = if d' = d then [mkFlowStat H fa] else [] :=
  flowsOf_addFlowsAndGroup ∅ d d' _

theorem mem_oneRule {fa : FlowArgs} : d' ∈ oneRule H d fa ↔ d' = d := by
  unfold oneRule addFlowsAndGroup
  rw [mem_insert]
  simp

theorem updateOutputPort_oneRule (hd : T.isRootDevice d = true) (fa : FlowArgs) :
    ∃ rules f, updateOutputPortForControllerBoundFlowForParentDevide H T (oneRule H d fa) =
        .ok rules ∧ (∀ d', d' ∈ rules ↔ d' = d) ∧ rules.flowsOf d = [f] ∧
      parentFlow H (mkFlowStat H fa) = .ok f := by
  have hsingle := oneRule_singleFlows (H := H) d fa
  obtain ⟨rules, hrules⟩ := exists_updateOutputPort (H := H) (T := T) (oneRule H d fa)
    fun d' _ flow hflow => by
      rw [flowsOf_oneRule] at hflow
      split_ifs at hflow
      · rw [mem_singleton.mp hflow]
        exact exists_parentFlow_mkFlowStat fa
      · simp at hflow
  have hflows := updateOutputPort_flows hsingle hrules d
  rw [flowsOf_oneRule, if_pos rfl] at hflows
  obtain ⟨f, fs, hf, hnil, heq⟩ := forall₂_cons_left_iff.mp hflows
  rw [forall₂_nil_left_iff.mp hnil] at heq
  exact ⟨rules, f, hrules, fun d' => (mem_updateOutputPort hsingle hrules).trans mem_oneRule, heq,
    (passedOn_root hd).mp hf⟩

end VolthaCore.Decomposition
