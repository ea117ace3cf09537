import VolthaCore.Decomposition.Traps

/-! Which flows of the root device output to the controller. The pass over the
root devices looks at the match fields only: it sends every flow that matches on
EAPOL, IGMP or UDP to the controller, also where the flow of the logical device
goes elsewhere, and leaves the trap of a user port alone where it matches on
something else. Other output actions of a flow are copied as they are. -/

namespace VolthaCore.Decomposition

open OpenFlow Outcome List
open Bool (and_eq_true false_eq_true)

variable {H : HashEnv} {T : Topology} {groups : List OfpGroupEntry} {flow : OfpFlowStats}

/-! ### Output actions -/

def isOutput (a : OfpAction) : Bool :=
  match a.action with
  | some (.output _ _) => true
  | _ => false

def outputsToController (a : OfpAction) : Bool :=
  a.type = .output && match a.action with
    | some (.output port _) => isControllerPort port
    | _ => false

def sendsToController (flow : OfpFlowStats) : Bool := (getActions flow).any outputsToController

def sentByRoot (flow : OfpFlowStats) : Bool :=
  if isControllerTrap flow then (getActions flow).any isOutput else sendsToController flow

theorem outputsToController_toController (a : OfpAction) :
    outputsToController (toController a) = isOutput a := by
  obtain ⟨type, action⟩ := a
  cases action with
  | none => simp [toController, outputsToController, isOutput]
  | some data =>
    cases data with
    | output port maxLen => exact show outputsToController (output OFPP_CONTROLLER) = true by decide
    | _ => simp [toController, outputsToController, isOutput]

theorem sendsToController_parentFlow {f : OfpFlowStats} (h : parentFlow H flow = .ok f) :
    sendsToController f = sentByRoot flow := by
  unfold sendsToController sentByRoot
  rw [(parentFlow_ok h).2]
  split_ifs
  · rw [any_map]
    congr 1
    funext a
    exact outputsToController_toController a
  · rfl

/-- The output port of a flow to the controller is the one of an action. -/
theorem sendsToController_of_outPort (h : isControllerPort (getOutPort flow) = true) :
    sendsToController flow = true := by
  unfold getOutPort at h
  split at h
  · next type port maxLen hfind =>
    have htype := find?_some hfind
    refine any_eq_true.mpr ⟨_, mem_of_find?_eq_some hfind, ?_⟩
    simp only [decide_eq_true_eq] at htype
    simp [outputsToController, htype, h]
  · exact absurd h (by decide)

theorem any_isOutput_of_sends (h : sendsToController flow = true) :
    (getActions flow).any isOutput = true := by
  obtain ⟨a, ha, hsends⟩ := any_eq_true.mp h
  refine any_eq_true.mpr ⟨a, ha, ?_⟩
  simp only [outputsToController, and_eq_true] at hsends
  unfold isOutput
  split
  · rfl
  · next hne =>
    have hsends := hsends.2
    split at hsends
    · next port maxLen haction => exact absurd haction (hne port maxLen)
    · exact hsends

variable {fa : FlowArgs} {port n m : UInt32} {rules : DeviceRules} {path : List Hop}
  {hop first second : Hop}

theorem sentByRoot_mkFlowStat {as : List OfpAction}
    (htrap : isControllerTrap (mkFlowStat H fa) = isControllerTrap flow)
    (hactions : fa.actions = as ++ [output port]) (hport : isControllerPort port = false) :
    sentByRoot (mkFlowStat H fa) = (isControllerTrap flow || as.any outputsToController) := by
  unfold sentByRoot sendsToController
  rw [htrap, getActions_mkFlowStat, hactions]
  cases isControllerTrap flow with
  | true => simp [isOutput, output]
  | false => simp [outputsToController, output, hport]

theorem any_getActions_no_output : (getActions flow [.output]).any outputsToController = false := by
  rw [Bool.eq_false_iff]
  intro h
  obtain ⟨a, ha, hsends⟩ := any_eq_true.mp h
  have htype : a.type ≠ .output := by
    unfold getActions at ha
    split at ha
    · cases ha
    · simpa using (mem_filter.mp ha).2
  simp [outputsToController, htype] at hsends

/-! ### Rules that do as the logical flow -/

/-- The flows of the root devices output to the controller as the logical flow does, or not. -/
def RootsSend (T : Topology) (rules : DeviceRules) (sends : Bool) : Prop :=
  ∀ d, T.isRootDevice d = true → ∀ f ∈ rules.flowsOf d, sendsToController f = sends

def RootsWillSend (T : Topology) (rules : DeviceRules) (sends : Bool) : Prop :=
  ∀ d, T.isRootDevice d = true → ∀ f ∈ rules.flowsOf d, sentByRoot f = sends

theorem rootsSend_iff {dr : DeviceRules} (hdr : dr.SingleFlows)
    (h : updateOutputPortForControllerBoundFlowForParentDevide H T dr = .ok rules) (b : Bool) :
    RootsSend T rules b ↔ RootsWillSend T dr b := by
  refine forall_congr' fun d => imp_congr_right fun hd => ?_
  have hflows := updateOutputPort_flows hdr h d
  constructor
  · intro hall f hf
    obtain ⟨g, hg, hpass⟩ := exists_mem_right_of_forall₂ hflows hf
    rw [← sendsToController_parentFlow ((passedOn_root hd).mp hpass)]
    exact hall g hg
  · intro hall g hg
    obtain ⟨f, hf, hpass⟩ := exists_mem_left_of_forall₂ hflows hg
    rw [sendsToController_parentFlow ((passedOn_root hd).mp hpass)]
    exact hall f hf

theorem rootsWillSend_empty (b : Bool) : RootsWillSend T ∅ b := by
  intro d _ f hf
  simp [DeviceRules.flowsOf] at hf

theorem rootsWillSend_oneRule (d : String) (fa : FlowArgs) (b : Bool) :
    RootsWillSend T (oneRule H d fa) b ↔
      (T.isRootDevice d = true → sentByRoot (mkFlowStat H fa) = b) := by
  unfold RootsWillSend
  simp only [flowsOf_oneRule]
  constructor
  · intro h hd
    exact h d hd _ (by simp)
  · intro h d' hd' f hf
    split_ifs at hf with heq
    · rw [mem_singleton.mp hf]
      exact h (heq ▸ hd')
    · cases hf

/-! ### Routes between the root device and the others -/

/-- A hop does not leave through the port number that stands for the controller. -/
def Physical (hop : Hop) : Prop := isControllerPort hop.egress = false

/-- Every route leads from an NNI port, on a root device, to a port that is not on one, or
back. -/
structure Rooted (T : Topology) : Prop where
  devices : ∀ d root, T.getDevice d = some root → T.isRootDevice d = root
  unnamed : T.isRootDevice "" = false
  rootDevice : T.isRootDevice T.rootDeviceID = true
  numbered : isNNIPort T 0 = false
  uplinks : ∀ n, isNNIPort T n = true → isControllerPort n = false
  cached : ∀ n ∈ getNNIPorts T, isNNIPort T n = true
  routes : ∀ r ∈ T.routes, ∃ first second, r.2 = [first, second] ∧
    T.isRootDevice first.deviceID = isNNIPort T r.1.ingress ∧
    T.isRootDevice second.deviceID = isNNIPort T r.1.egress ∧
    isNNIPort T r.1.egress = !isNNIPort T r.1.ingress ∧ Physical first ∧ Physical second

open Routes in
/-- The tables of the route computation are of this kind, for ports that are known under their
own numbers and leaf devices below the root device. -/
theorem Offers.rooted {N : Numbering} {ports : List LogicalPort} {dr : DeviceRoutes}
    {tail : UInt32 → UInt32 × Hop} (ho : Offers N ports dr T) (hw : Wired N ports)
    (hs : SoundWith N tail dr) (hports : dr.logicalPorts = ports)
    (hdevices : ∀ d root, T.getDevice d = some root → T.isRootDevice d = root)
    (hleaf : ∀ u, (tail u).2.deviceID ≠ N.root)
    (huplinks : ∀ n ∈ portNumbers (nniPorts ports), isControllerPort n = false)
    (hphysical : ∀ r ∈ T.routes, ∀ hop ∈ r.2, Physical hop) : Rooted T where
  devices := hdevices
  unnamed := by
    rw [Bool.eq_false_iff, Ne, ho.isRoot]
    exact hw.root_named.symm
  rootDevice := (ho.isRoot _).mpr ho.rootDevice
  numbered := by
    rw [Bool.eq_false_iff, Ne, ho.isNNIPort_iff, mem_portNumbers_nniPorts]
    rintro ⟨lp, hlp, -, hzero⟩
    exact hw.numbered lp hlp hzero
  uplinks n hn := huplinks n (ho.isNNIPort_iff.mp hn)
  cached n hn := (mem_getNNIPorts ho.cached).mpr hn
  routes r hr := by
    obtain ⟨p, path⟩ := r
    have hlookup := ho.mem_routes.mp hr
    have hmem : p ∈ dr.routes := AList.lookup_isSome.mp (by simp [hlookup])
    have hends : ∀ n ∈ portNumbers dr.logicalPorts,
        isNNIPort T n = (N.port n).rootPort := fun n hn => by
      rw [Bool.eq_iff_iff, ho.isNNIPort_iff, ← hs.mem_rootPorts_iff hn, hs.roots, hports]
      exact mem_toFinset.symm
    have hroot : T.isRootDevice N.root = true := (ho.isRoot _).mpr rfl
    have hbelow : ∀ u, T.isRootDevice (tail u).2.deviceID = false := fun u => by
      rw [Bool.eq_false_iff, Ne, ho.isRoot]
      exact hleaf u
    rw [hends _ (hs.recorded p hmem), hends _ (hs.egress_recorded hmem)]
    have hhops := hphysical _ hr
    cases hs.shaped p path hlookup with
    | down n u hn hu =>
      exact ⟨_, _, rfl, by rw [N.nni_on_root n hn, hroot, hn], by rw [hbelow, hu],
        by rw [hn, hu]; rfl, hhops _ (by simp [downRoute]), hhops _ (by simp [downRoute])⟩
    | up n u hn hu =>
      rw [getReverseRoute_downRoute] at hhops ⊢
      exact ⟨_, _, rfl, by rw [hbelow, hu], by rw [N.nni_on_root n hn, hroot, hn],
        by rw [hn, hu]; rfl, hhops _ (by simp), hhops _ (by simp)⟩

theorem physical_empty : Physical {} := by
  unfold Physical
  decide

theorem getPreCalculatedRoute_ok (h : getPreCalculatedRoute T n m = .ok path) :
    (⟨n, m⟩, path) ∈ T.routes := by
  unfold getPreCalculatedRoute at h
  split at h
  · next r hr =>
    cases h
    have hends := find?_some hr
    simp only [and_eq_true, decide_eq_true_eq] at hends
    obtain ⟨⟨a, b⟩, path⟩ := r
    obtain ⟨rfl, rfl⟩ := hends
    exact mem_of_find?_eq_some hr
  · cases h

/-- The route of a flow to the controller ends on a root device. -/
theorem Rooted.controller_route (hT : Rooted T) (hn : n ≠ 0) (hm : isControllerPort m = true)
    (h : getRoute T n m = .ok path) :
    ∃ first second, path = [first, second] ∧ T.isRootDevice second.deviceID = true ∧
      Physical first ∧ Physical second := by
  unfold getRoute at h
  rw [if_pos hm] at h
  split_ifs at h with hnni hempty
  · cases h
    exact ⟨_, _, rfl, hT.rootDevice, hT.uplinks n hnni, hT.uplinks n hnni⟩
  · unfold upstreamHalfRoute at h
    split at h
    · next r hr =>
      obtain ⟨first, second, hpath, -, hroot, -, -, hphys⟩ :=
        hT.routes r (mem_of_find?_eq_some hr)
      have hend := find?_some (p := fun r : PathID × List Hop => isNNIPort T r.1.egress) hr
      rw [hpath] at h
      cases h
      exact ⟨_, _, rfl, hroot.trans hend, physical_empty, hphys⟩
    · cases h
  · obtain ⟨nni, hfirst, h⟩ := except_bind_ok_iff.mp h
    have hend : isNNIPort T nni = true := hT.cached nni (getFirstNNIPort_ok hfirst)
    have hne : nni ≠ 0 := by
      rintro rfl
      rw [hT.numbered] at hend
      cases hend
    unfold getPortRoute at h
    rw [if_neg (by simp [hn]), if_neg hne] at h
    obtain ⟨first, second, hpath, -, hroot, -, hphys, hphys'⟩ :=
      hT.routes _ (getPreCalculatedRoute_ok h)
    exact ⟨first, second, hpath, hroot.trans hend, hphys, hphys'⟩

/-- The route of another flow starts on a root device exactly when the flow enters at an NNI
port, and ends on one exactly when it leaves through an NNI port. -/
theorem Rooted.port_route (hT : Rooted T) (hn : n ≠ 0) (hm : isControllerPort m = false)
    (h : getRoute T n m = .ok path) :
    T.routes ≠ [] ∧ ∃ first second, path = [first, second] ∧
      T.isRootDevice first.deviceID = isNNIPort T n ∧
      (m ≠ 0 → T.isRootDevice second.deviceID = !isNNIPort T n) ∧
      Physical first ∧ Physical second := by
  unfold getRoute getPortRoute at h
  rw [if_neg (by simp [hm]), if_neg (by simp [hn])] at h
  split_ifs at h with hm0
  · unfold downstreamHalfRoute at h
    split at h
    · next r hr =>
      have hmem := mem_of_find?_eq_some hr
      have hstart := find?_some hr
      simp only [decide_eq_true_eq] at hstart
      obtain ⟨first, second, hpath, hroot, -, -, hphys, -⟩ := hT.routes r hmem
      rw [hpath] at h
      cases h
      exact ⟨ne_nil_of_mem hmem, _, _, rfl, hstart ▸ hroot, fun hne => absurd hm0 hne, hphys,
        physical_empty⟩
    · cases h
  · have hmem := getPreCalculatedRoute_ok h
    obtain ⟨first, second, hpath, hroot, hroot', hopposite, hphys, hphys'⟩ := hT.routes _ hmem
    exact ⟨ne_nil_of_mem hmem, first, second, hpath, hroot,
      fun _ => hroot'.trans hopposite, hphys, hphys'⟩

/-! ### The classes of flows -/

theorem sentByRoot_nniTrapArgs (hout : isControllerPort (getOutPort flow) = true) (port : UInt32) :
    sentByRoot (mkFlowStat H (nniTrapArgs port flow)) = true := by
  have hsends := sendsToController_of_outPort hout
  have hactions : getActions (mkFlowStat H (nniTrapArgs port flow)) = getActions flow :=
    getActions_mkFlowStat _
  unfold sentByRoot sendsToController
  rw [hactions]
  split_ifs
  · exact any_isOutput_of_sends hsends
  · exact hsends

theorem sentByRoot_parentTrapArgs (hhop : Physical hop) (n : UInt32) :
    sentByRoot (mkFlowStat H (parentTrapArgs hop n flow)) = isControllerTrap flow := by
  have htrap : isControllerTrap (mkFlowStat H (parentTrapArgs hop n flow)) =
      isControllerTrap flow := isControllerTrap_mkFlowStat flow rfl (by rfl) (by decide)
  have hactions : (parentTrapArgs hop n flow).actions =
      [pushVlan 0x8100, setField (vlanVid (OFPVID_PRESENT ||| 4000))] ++ [output hop.egress] := rfl
  rw [sentByRoot_mkFlowStat htrap hactions hhop]
  simp [outputsToController, pushVlan, setField]

theorem sentByRoot_childTrapArgs (hhop : Physical hop) (n : UInt32) :
    sentByRoot (mkFlowStat H (childTrapArgs hop n flow)) = isControllerTrap flow := by
  cases hvid : getVlanVid flow with
  | none =>
    have hfields : (childTrapArgs hop n flow).matchFields =
        [inPort hop.ingress, tunnelId n.toUInt64] ++ getOfbFields flow [.inPort] := by
      simp [childTrapArgs, hvid]
    have hactions : (childTrapArgs hop n flow).actions = [] ++ [output hop.egress] := by
      simp [childTrapArgs, hvid]
    rw [sentByRoot_mkFlowStat (isControllerTrap_mkFlowStat flow hfields (by rfl) (by decide))
      hactions hhop]
    simp
  | some vid =>
    have hfields : (childTrapArgs hop n flow).matchFields =
        [inPort hop.ingress, tunnelId n.toUInt64] ++ getOfbFields flow [.inPort, .vlanVid] := by
      simp [childTrapArgs, hvid]
    have hactions : (childTrapArgs hop n flow).actions =
        [pushVlan 0x8100, setField (vlanVid vid)] ++ [output hop.egress] := by
      simp [childTrapArgs, hvid]
    rw [sentByRoot_mkFlowStat (isControllerTrap_mkFlowStat flow hfields (by rfl) (by decide))
      hactions hhop]
    simp [outputsToController, pushVlan, setField]

theorem controllerBound_iff (hout : isControllerPort (getOutPort flow) = true) (hn : n ≠ 0)
    (hroot : T.isRootDevice second.deviceID = true) (hfirst : Physical first)
    (hsecond : Physical second) :
    RootsWillSend T (processControllerBoundFlow H T first second n flow) true ↔
      n ∈ T.rootPorts ∨ isControllerTrap flow = true := by
  by_cases hmem : n ∈ T.rootPorts
  · rw [processControllerBoundFlow_root hmem, rootsWillSend_oneRule]
    simp [sentByRoot_nniTrapArgs hout, hmem]
  · rw [processControllerBoundFlow_user hmem hn]
    unfold RootsWillSend
    simp only [flowsOf_addFlowsAndGroup, hmem, false_or]
    constructor
    · intro hall
      have hflows := hall second.deviceID hroot
      rw [if_pos rfl] at hflows
      split_ifs at hflows
      · rw [← sentByRoot_childTrapArgs (H := H) hfirst n]
        exact hflows _ (by simp)
      · rw [← sentByRoot_parentTrapArgs (H := H) hsecond n]
        exact hflows _ (by simp)
    · intro htrap d _ f hf
      split_ifs at hf
      · rw [mem_singleton.mp hf, sentByRoot_childTrapArgs hfirst, htrap]
      · rw [mem_singleton.mp hf, sentByRoot_parentTrapArgs hsecond, htrap]
      · cases hf

theorem upstream_iff (hfirst : T.isRootDevice first.deviceID = false)
    (hroot : m ≠ 0 → T.isRootDevice second.deviceID = true) (hsecond : Physical second) :
    RootsWillSend T (processUpstreamNonControllerBoundFlow H first second n m flow) false ↔
      (flow.tableId = 1 → m ≠ 0 → isControllerTrap flow = false) := by
  unfold processUpstreamNonControllerBoundFlow
  split_ifs with htable hm htable'
  · simp only [and_eq_true, decide_eq_true_eq] at htable
    simp [htable.1, rootsWillSend_empty]
  · simp only [and_eq_true, decide_eq_true_eq] at htable
    simp [rootsWillSend_oneRule, hfirst, htable.1]
  · simp only [and_eq_true, decide_eq_true_eq] at htable'
    rw [rootsWillSend_oneRule, sentByRoot_mkFlowStat (isControllerTrap_mkFlowStat flow rfl
      (by rfl) (by decide)) rfl hsecond, any_getActions_no_output]
    simp [htable', hroot]
  · simp only [and_eq_true, decide_eq_true_eq, not_and] at htable'
    simp only [rootsWillSend_empty, true_iff]
    intro h1 hm
    exact absurd hm (htable' h1)

/-- A downstream flow can name this port in its metadata: it is no port, or one with a route. -/
def reaches (T : Topology) (n port : UInt32) : Bool :=
  port = 0 || !isControllerPort port && T.routes.any (·.1 = ⟨n, port⟩)

/-- The metadata of a downstream flow leads to a rule: there is none, or it has an inner tag and
names a port that can be reached. -/
def namesTarget (T : Topology) (n : UInt32) (flow : OfpFlowStats) : Bool :=
  getMetadataFromWriteMetadataAction flow = 0 ||
    getInnerTagFromMetaData flow ≠ 0 && reaches T n (getEgressPortNumberFromWriteMetadata flow)

theorem getPreCalculatedRoute_none (h : T.routes.any (·.1 = ⟨n, m⟩) = false) :
    getPreCalculatedRoute T n m = .error (noRoute "" n m) := by
  unfold getPreCalculatedRoute
  have hnone : T.routes.find? (fun r => n = r.1.ingress && m = r.1.egress) = none := by
    refine find?_eq_none.mpr fun r hr hends => ?_
    simp only [and_eq_true, decide_eq_true_eq] at hends
    have hpath : r.1 ≠ ⟨n, m⟩ := by simpa using any_eq_false.mp h r hr
    obtain ⟨⟨a, b⟩, path⟩ := r
    obtain ⟨rfl, rfl⟩ := hends
    exact hpath rfl
  rw [hnone]

theorem exists_getPreCalculatedRoute (h : T.routes.any (·.1 = ⟨n, m⟩) = true) :
    ∃ path, getPreCalculatedRoute T n m = .ok path := by
  unfold getPreCalculatedRoute
  obtain ⟨r, hr, hpath⟩ := any_eq_true.mp h
  have hpath : r.1 = ⟨n, m⟩ := of_decide_eq_true hpath
  cases hfind : T.routes.find? fun r => n = r.1.ingress && m = r.1.egress with
  | none => exact absurd (find?_eq_none.mp hfind r hr) (by simp [hpath])
  | some r' => exact ⟨r'.2, rfl⟩

/-- A rule for a port that can be reached is on the root device. -/
theorem Rooted.metadata_reached (hT : Rooted T) (hn : n ≠ 0) (hnni : isNNIPort T n = true)
    (hroot : T.isRootDevice first.deviceID = true) (hfirst : Physical first)
    (hreach : reaches T n port = true) :
    ∃ hop, metadataIngressHop T first n port = .ok (some hop) ∧
      T.isRootDevice hop.deviceID = true ∧ Physical hop := by
  unfold metadataIngressHop
  by_cases hport : port = 0
  · rw [if_neg (by simp [hport])]
    exact ⟨first, rfl, hroot, hfirst⟩
  · simp only [reaches, hport, decide_false, Bool.false_or, and_eq_true,
      Bool.not_eq_true'] at hreach
    obtain ⟨path, hpath⟩ := exists_getPreCalculatedRoute hreach.2
    obtain ⟨hop, second, rfl, hhop, -, -, hphys, -⟩ :=
      hT.routes _ (getPreCalculatedRoute_ok hpath)
    rw [if_pos hport, getRoute_of_ports hn hport hreach.1, hpath]
    exact ⟨hop, rfl, hhop.trans hnni, hphys⟩

/-- For any other port there is no rule on the root device. -/
theorem Rooted.metadata_not_reached (hT : Rooted T) (first : Hop) (hn : n ≠ 0)
    (hnni : isNNIPort T n = true) (hne : T.routes ≠ []) (hreach : reaches T n port = false) :
    ∃ o, metadataIngressHop T first n port = .ok o ∧
      ∀ hop ∈ o, T.isRootDevice hop.deviceID = false := by
  simp only [reaches, Bool.or_eq_false_iff, decide_eq_false_iff_not, Bool.and_eq_false_iff,
    Bool.not_eq_false'] at hreach
  obtain ⟨hport, hreach⟩ := hreach
  unfold metadataIngressHop
  rw [if_pos hport]
  cases hctrl : isControllerPort port with
  | true =>
    -- the half route of a trap, with an empty first hop
    rw [getRoute_nni hctrl hnni hne]
    cases hroute : upstreamRoute T with
    | none =>
      rw [upstreamHalfRoute_none hroute]
      exact ⟨none, rfl, by simp⟩
    | some r =>
      obtain ⟨hmem, -⟩ := mem_of_upstreamRoute hroute
      obtain ⟨_, second, hpath, -⟩ := hT.routes r hmem
      unfold upstreamRoute at hroute
      unfold upstreamHalfRoute
      rw [hroute]
      simp only [hpath]
      exact ⟨some {}, rfl, by simp [hT.unnamed]⟩
  | false =>
    have hnone := hreach.resolve_left (by simp [hctrl])
    rw [getRoute_of_ports hn hport hctrl, getPreCalculatedRoute_none hnone]
    exact ⟨none, rfl, by simp⟩

theorem downstreamRule_iff (hhop : Physical hop) (hroot : T.isRootDevice hop.deviceID = true)
    (htrap : isControllerTrap (mkFlowStat H fa) = isControllerTrap flow)
    (hactions : fa.actions = getActions flow ++ [output hop.egress]) :
    RootsWillSend T (oneRule H hop.deviceID fa) false ↔
      isControllerTrap flow = false ∧ sendsToController flow = false := by
  rw [rootsWillSend_oneRule, sentByRoot_mkFlowStat htrap hactions hhop]
  simp [hroot, sendsToController]

theorem downstream_iff (hT : Rooted T) (hn : n ≠ 0) (hnni : isNNIPort T n = true)
    (hne : T.routes ≠ []) (hroot : T.isRootDevice first.deviceID = true) (hfirst : Physical first)
    (htable : flow.tableId = 0)
    (h : processDownstreamFlowWithNextTable H T first n m flow = .ok rules) :
    RootsWillSend T rules false ↔ (m = 0 → namesTarget T n flow = true →
      isControllerTrap flow = false ∧ sendsToController flow = false) := by
  unfold processDownstreamFlowWithNextTable at h
  rw [if_neg (not_not.mpr htable)] at h
  by_cases hm : m = 0
  · rw [if_neg (not_not.mpr hm)] at h
    split_ifs at h with hmeta
    · obtain ⟨o, ho, h⟩ := except_bind_ok_iff.mp h
      cases hreach : reaches T n (getEgressPortNumberFromWriteMetadata flow) with
      | true =>
        obtain ⟨hop, hhop, hhoproot, hphys⟩ := hT.metadata_reached hn hnni hroot hfirst hreach
        cases hhop.symm.trans ho
        dsimp only at h
        split_ifs at h with htag <;> cases h
        · simp [namesTarget, hmeta, htag, rootsWillSend_empty]
        · rw [downstreamRule_iff hphys hhoproot (isControllerTrap_mkFlowStat flow rfl (by rfl)
            (by decide)) rfl]
          simp [hm, namesTarget, htag, hreach]
      | false =>
        obtain ⟨o', ho', hother⟩ := hT.metadata_not_reached first hn hnni hne hreach
        cases ho'.symm.trans ho
        have hnone : namesTarget T n flow = false := by simp [namesTarget, hmeta, hreach]
        simp only [hnone, false_eq_true, false_imp_iff, imp_true_iff, iff_true]
        cases o with
        | none =>
          cases h
          exact rootsWillSend_empty false
        | some hop =>
          dsimp only at h
          split_ifs at h <;> cases h
          · exact rootsWillSend_empty false
          · simp [rootsWillSend_oneRule, hother hop rfl]
    · cases h
      rw [downstreamRule_iff hfirst hroot (isControllerTrap_mkFlowStat flow rfl (by rfl)
        (by decide)) rfl]
      simp only [ne_eq, not_not] at hmeta
      simp [hm, namesTarget, hmeta]
  · rw [if_pos hm] at h
    cases h
    simp [hm, rootsWillSend_empty]

theorem multicast_iff (hroot : T.isRootDevice first.deviceID = true) (grpID : UInt32) :
    RootsWillSend T (processMulticastFlow first flow grpID groups) false ↔
      (grpID ∈ groups.map groupId → sentByRoot flow = false) := by
  unfold processMulticastFlow
  split_ifs with hgroup
  · unfold RootsWillSend
    simp only [flowsOf_addFlowsAndGroup, hgroup, true_imp_iff]
    constructor
    · intro hall
      exact hall first.deviceID hroot flow (by simp)
    · intro hflow d _ f hf
      split_ifs at hf
      · rw [mem_singleton.mp hf]
        exact hflow
      · simp [DeviceRules.flowsOf] at hf
  · simp [hgroup, rootsWillSend_empty]

/-! ### All flows -/

/-- The flow outputs to the controller on the root device as it does on the logical device. -/
def OutputsAgree (T : Topology) (flow : OfpFlowStats) (groups : List OfpGroupEntry) : Prop :=
  if isControllerPort (getOutPort flow) then
    isRootPort T (getInPort flow) = true ∨ isControllerTrap flow = true
  else if isNNIPort T (getInPort flow) = false then
    flow.tableId = 1 → getOutPort flow ≠ 0 → isControllerTrap flow = false
  else if hasNextTable flow && flow.tableId = 0 then
    getOutPort flow = 0 → namesTarget T (getInPort flow) flow = true →
      isControllerTrap flow = false ∧ sendsToController flow = false
  else if flow.tableId = 1 && getOutPort flow ≠ 0 then True
  else getGroup flow ∈ groups.map groupId →
    if isControllerTrap flow then (getActions flow).any isOutput = false
    else sendsToController flow = false

/-- A flow that enters at the root device, by the class that its tables and its group give it. -/
theorem fromRoot_iff (hT : Rooted T) {chosen : Chosen} (hin : getInPort flow ≠ 0)
    (hctrl : isControllerPort (getOutPort flow) = false)
    (hnni : isNNIPort T (getInPort flow) = true) (hne : T.routes ≠ [])
    (hdevice : T.getDevice first.deviceID = some true)
    (hfirstroot : T.isRootDevice first.deviceID = true)
    (hsecondroot : getOutPort flow ≠ 0 → T.isRootDevice second.deviceID = false)
    (hfirst : Physical first)
    (h : chooseRules H T flow groups (getInPort flow) first second = .ok chosen) :
    RootsWillSend T chosen.rules false ↔ OutputsAgree T flow groups := by
  unfold chooseRules at h
  unfold OutputsAgree
  simp only [hctrl, hdevice, hnni, false_eq_true, Bool.true_eq_false, if_false] at h ⊢
  by_cases hnext : (hasNextTable flow && flow.tableId = 0) = true
  · rw [if_pos hnext] at h ⊢
    obtain ⟨rules, hok, h⟩ := except_bind_ok_iff.mp h
    cases h
    simp only [and_eq_true, decide_eq_true_eq] at hnext
    exact downstream_iff hT hin hnni hne hfirstroot hfirst hnext.2 hok
  rw [if_neg hnext] at h ⊢
  by_cases htable : (flow.tableId = 1 && getOutPort flow ≠ 0) = true
  · rw [if_pos htable] at h ⊢
    cases h
    simp only [and_eq_true, decide_eq_true_eq] at htable
    simp [processUnicastFlow, rootsWillSend_oneRule, hsecondroot htable.2]
  rw [if_neg htable] at h ⊢
  by_cases hgroup : (getGroup flow ≠ 0 && flow.tableId = 0) = true
  · rw [if_pos hgroup] at h
    cases h
    rw [multicast_iff hfirstroot]
    refine imp_congr_right fun _ => ?_
    unfold sentByRoot
    split_ifs <;> rfl
  · rw [if_neg hgroup] at h
    cases h

/-- The flows that a flow with an input port leaves on root devices output to the controller as
the flow itself does, exactly under the condition for its class. -/
theorem controller_output_iff (hT : Rooted T) {part : Decomposed} (hin : getInPort flow ≠ 0)
    (h : decomposeFlow H T flow groups = .ok part) :
    (∀ d, T.isRootDevice d = true → ∀ f ∈ part.rules.flowsOf d,
      (sendsToController f = true ↔ isControllerPort (getOutPort flow) = true)) ↔
      OutputsAgree T flow groups := by
  obtain ⟨first, second, chosen, hroute, hchosen, hrules, -⟩ := decomposeFlow_inv h
  rw [decompositionInPort_of_ne_zero hin] at hroute hchosen
  simp only [← Bool.eq_iff_iff]
  change RootsSend T part.rules _ ↔ _
  rw [rootsSend_iff (chooseRules_singleFlows hchosen) hrules]
  cases hctrl : isControllerPort (getOutPort flow) with
  | true =>
    unfold chooseRules at hchosen
    dsimp only at hchosen
    rw [hctrl] at hchosen
    cases hchosen
    obtain ⟨_, _, hpath, hroot, hfirst, hsecond⟩ := hT.controller_route hin hctrl hroute
    cases hpath
    unfold OutputsAgree
    rw [hctrl, if_pos rfl, controllerBound_iff hctrl hin hroot hfirst hsecond]
    simp [isRootPort]
  | false =>
    obtain ⟨hne, _, _, hpath, hfirstroot, hsecondroot, hfirst, hsecond⟩ :=
      hT.port_route hin hctrl hroute
    cases hpath
    cases hdevice : T.getDevice first.deviceID with
    | none => simp [chooseRules, hctrl, hdevice] at hchosen
    | some root =>
      have hnni : isNNIPort T (getInPort flow) = root :=
        hfirstroot.symm.trans (hT.devices _ _ hdevice)
      rw [hnni] at hfirstroot hsecondroot
      cases root with
      | false =>
        simp only [chooseRules, hctrl, hdevice, false_eq_true, if_false] at hchosen
        cases hchosen
        unfold OutputsAgree
        rw [if_neg (by simp [hctrl]), if_pos hnni]
        exact upstream_iff hfirstroot hsecondroot hsecond
      | true =>
        exact fromRoot_iff hT hin hctrl hnni hne hdevice hfirstroot hsecondroot hfirst hchosen

/-! ### A root device with one leaf -/

def upstreamFlow (protocol : UInt32) : OfpFlowStats where
  tableId := 1
  ofpMatch := some ⟨.oxm, [.openflowBasic (inPort 1), .openflowBasic (ipProto protocol)]⟩
  instructions := [⟨OFPIT_APPLY_ACTIONS, some (.actions [output 2])⟩]

theorem rooted_oneLeaf : Rooted oneLeaf where
  devices d root h := by
    unfold oneLeaf at h ⊢
    dsimp only at h ⊢
    split_ifs at h with holt honu
    · cases h
      simp [holt]
    · cases h
      simp [holt]
  unnamed := by decide
  rootDevice := by decide
  numbered := by decide
  uplinks n h := by
    have hn : n ∈ [2] := (mem_getNNIPorts (T := oneLeaf) (by decide)).mp h
    rw [mem_singleton.mp hn]
    decide
  cached n h := (mem_getNNIPorts (T := oneLeaf) (by decide)).mpr h
  routes := by
    rintro r (_ | ⟨_, _ | ⟨_, hr⟩⟩)
    · exact ⟨_, _, rfl, by decide, by decide, by decide, rfl, rfl⟩
    · exact ⟨_, _, rfl, by decide, by decide, by decide, rfl, rfl⟩
    · cases hr

/-- The trap of the leaf leaves the root device through the uplink, while a flow to the uplink
goes to the controller because it is UDP. -/
theorem outputs_differ_on_leaf :
    Rooted oneLeaf ∧ getInPort (trapFlow 1 0x800) = 1 ∧ getInPort (upstreamFlow 17) = 1 ∧
    isControllerPort (getOutPort (trapFlow 1 0x800)) = true ∧
    (ruleFlows sizeHash oneLeaf [] (trapFlow 1 0x800) "olt").map sendsToController = [false] ∧
    isControllerPort (getOutPort (upstreamFlow 17)) = false ∧
    (ruleFlows sizeHash oneLeaf [] (upstreamFlow 17) "olt").map sendsToController = [true] :=
  ⟨rooted_oneLeaf, by decide +kernel⟩

/-- A flow of another protocol stays off the controller. -/
theorem controller_output_icmp :
    ∃ part, decomposeFlow sizeHash oneLeaf (upstreamFlow 1) [] = .ok part ∧
      part.rules.flowsOf "olt" ≠ [] ∧
      ∀ d, oneLeaf.isRootDevice d = true → ∀ f ∈ part.rules.flowsOf d,
        (sendsToController f = true ↔ isControllerPort (getOutPort (upstreamFlow 1)) = true) := by
  have hrules : ruleFlows sizeHash oneLeaf [] (upstreamFlow 1) "olt" ≠ [] := by decide +kernel
  have hagree : OutputsAgree oneLeaf (upstreamFlow 1) [] := fun _ _ => by decide
  unfold ruleFlows at hrules
  split at hrules
  · next part hpart =>
    exact ⟨part, hpart, hrules,
      (controller_output_iff rooted_oneLeaf (by decide) hpart).mpr hagree⟩
  · exact absurd rfl hrules

end VolthaCore.Decomposition
