import VolthaCore.Decomposition.Traps

/-! Flows to the controller without an input port. The lookup gives them a route
with an empty first hop, and the rules for the input ports overwrite each other,
so that one rule is left on the root device and one on the device without an
identifier. The devices of the UNI ports get none. -/

namespace VolthaCore.Decomposition

open OpenFlow Routes List DeviceRules

variable {H : HashEnv} {T : Topology} {groups : List OfpGroupEntry} {N : Numbering}
  {ports : List LogicalPort} {dr : DeviceRoutes} {tail : UInt32 → UInt32 × Hop}
  {flow : OfpFlowStats}

/-! ### A trap on all user ports -/

def yieldedRules (H : HashEnv) (T : Topology) (flow : OfpFlowStats)
    (groups : List OfpGroupEntry) : DeviceRules :=
  match decomposeFlow H T flow groups with
  | .ok part => part.rules
  | .error _ => ∅

theorem yieldedRules_singleFlows : (yieldedRules H T flow groups).SingleFlows := by
  unfold yieldedRules
  split
  · next part hpart => exact decomposeFlow_singleFlows hpart
  · exact singleFlows_empty

def getTunnelId (flow : OfpFlowStats) : Option UInt64 :=
  ((getOfbFields flow).find? fun f => f.type = .tunnelId).bind fun f =>
    match f.value with
    | some (.tunnelId id) => some id
    | _ => none

/-- One flow on the root device for every UNI port, one on its own device, and no rules for
other devices. -/
structure CoversUnis (N : Numbering) (ports : List LogicalPort) (rules : DeviceRules) : Prop where
  root : ((rules.flowsOf N.root).map getTunnelId).Perm
    ((uniPorts ports).map fun u => some u.portNo.toUInt64)
  leaves : ∀ u ∈ uniPorts ports,
    ((rules.flowsOf u.deviceId).filter (getInPort · = u.devicePortNo)).length = 1
  devices : ∀ d ∈ rules, d = N.root ∨ ∃ lp ∈ ports, lp.deviceId = d

/-- Where a flow to the controller without an input port enters. -/
theorem decompositionInPort_wildcard (hin : getInPort flow = 0) :
    decompositionInPort T flow = 0 ∧ (hasGroup flow = false ∨ getNNIPorts T = []) ∨
      hasGroup flow = true ∧ decompositionInPort T flow ∈ getNNIPorts T := by
  unfold decompositionInPort
  cases hgroup : hasGroup flow with
  | false => simp [hin]
  | true =>
    simp only [hin, decide_true, Bool.and_true, if_true]
    cases hnnis : getNNIPorts T <;> simp

variable {m n : UInt32} {d : String}

section

variable (hw : Wired N ports) (ho : Offers N ports dr T)
include hw ho

theorem getRoute_zero (hm : isControllerPort m = true) :
    (∃ e, getRoute T 0 m = .error e) ∨
      ∃ nni, getRoute T 0 m = upstreamHalfRoute T 0 nni := by
  have hzero : isNNIPort T 0 = false := by
    rw [Bool.eq_false_iff]
    intro h
    obtain ⟨lp, hlp, -, h0⟩ := mem_portNumbers_nniPorts.mp (ho.isNNIPort_iff.mp h)
    exact hw.numbered lp hlp h0
  unfold getRoute
  rw [if_pos hm, if_neg (by simp [hzero])]
  cases hfirst : getFirstNNIPort T with
  | error e => exact .inl ⟨e, rfl⟩
  | ok nni =>
    refine .inr ⟨nni, ?_⟩
    have hnni := (mem_getNNIPorts ho.cached).mpr (getFirstNNIPort_ok hfirst)
    simp [getPortRoute, hnni, bind, Except.bind]

theorem hops_of_controller_route (hs : SoundWith N tail dr) (hn : n = 0 ∨ n ∈ getNNIPorts T)
    (hm : isControllerPort m = true) {path : List Hop} (h : getRoute T n m = .ok path) :
    ∃ first second, path = [first, second] ∧ (first.deviceID = "" ∨ first.deviceID = N.root) ∧
      second.deviceID = N.root := by
  have hhalf : ∀ k l, upstreamHalfRoute T k l = .ok path → ∃ first second,
      path = [first, second] ∧ (first.deviceID = "" ∨ first.deviceID = N.root) ∧
        second.deviceID = N.root := by
    intro k l hok
    cases hroute : upstreamRoute T with
    | none =>
      rw [upstreamHalfRoute_none hroute] at hok
      cases hok
    | some r =>
      obtain ⟨pon, hsome⟩ := upstreamHalfRoute_some ho hs hw.lists hroute k l
      cases hsome.symm.trans hok
      exact ⟨_, _, rfl, .inl rfl, rfl⟩
  rcases hn with rfl | hn
  · rcases getRoute_zero hw ho hm with ⟨e, herror⟩ | ⟨nni, hok⟩
    · cases herror.symm.trans h
    · exact hhalf 0 nni (hok.symm.trans h)
  · have hnni := (mem_getNNIPorts ho.cached).mpr hn
    by_cases hne : T.routes = []
    · unfold getRoute at h
      rw [if_pos hm, if_pos hnni, if_pos (by simp [hne])] at h
      cases h
      exact ⟨_, _, rfl, .inr ho.rootDevice, ho.rootDevice⟩
    · exact hhalf n m ((getRoute_nni hm hnni hne).symm.trans h)

/-- A flow to the controller without an input port has rules for the root device and for the
device without an identifier only. -/
theorem mem_yieldedRules (hs : SoundWith N tail dr) (hin : getInPort flow = 0)
    (hout : isControllerPort (getOutPort flow) = true) (hd : d ∈ yieldedRules H T flow groups) :
    d = N.root ∨ d = "" := by
  have hport : decompositionInPort T flow = 0 ∨ decompositionInPort T flow ∈ getNNIPorts T :=
    (decompositionInPort_wildcard hin).imp And.left And.right
  unfold yieldedRules at hd
  split at hd
  · next part hpart =>
    cases hroute : getRoute T (decompositionInPort T flow) (getOutPort flow) with
    | error e => cases (decomposeFlow_error groups rfl hroute).symm.trans hpart
    | ok path =>
      obtain ⟨first, second, rfl, hfirst, hsecond⟩ :=
        hops_of_controller_route hw ho hs hport hout hroute
      obtain ⟨rules, hrules, rfl⟩ :=
        (decomposeFlow_controller groups rfl hout hroute part).mp hpart
      rw [mem_updateOutputPort (processControllerBoundFlow_singleFlows hout) hrules] at hd
      rcases mem_processControllerBoundFlow hout hd with rfl | rfl
      · exact hfirst.symm
      · exact .inl hsecond
  · simp at hd

/-- A complete table of a device without UNI ports is empty. -/
theorem routes_eq_nil (hs : SoundWith N tail dr) (hfits : Fits ports dr)
    (hunis : uniPorts ports = []) : T.routes = [] := by
  refine eq_nil_iff_forall_not_mem.mpr fun r hr => ?_
  obtain ⟨q, path⟩ := r
  have hlookup := ho.mem_routes.mp hr
  obtain ⟨hingress, hegress⟩ := hfits.current q (GoMap.mem_iff_exists_lookup.mpr ⟨path, hlookup⟩)
  have huni : ∀ u ∈ portNumbers ports, (N.port u).rootPort = true := by
    intro u hu
    obtain ⟨lp, hlp, rfl⟩ := mem_map.mp hu
    rw [hw.lists lp hlp]
    by_contra hroot
    have hmem : lp ∈ uniPorts ports := mem_uniPorts.mpr ⟨hlp, by simpa using hroot⟩
    rw [hunis] at hmem
    cases hmem
  cases hs.shaped q path hlookup with
  | down n u hn hu => exact absurd (huni u hegress) (by simp [hu])
  | up n u hn hu => exact absurd (huni u hingress) (by simp [hu])

theorem getRoute_zero_error (hroutes : T.routes = []) (hm : isControllerPort m = true) :
    ∃ e, getRoute T 0 m = .error e := by
  rcases getRoute_zero hw ho hm with herror | ⟨nni, hhalf⟩
  · exact herror
  · have hnone : upstreamRoute T = none := by simp [upstreamRoute, hroutes]
    exact ⟨_, hhalf.trans (upstreamHalfRoute_none hnone 0 nni)⟩

end

theorem processControllerBoundFlow_built (hout : isControllerPort (getOutPort flow) = true)
    {ingressHop egressHop : Hop} {f : OfpFlowStats}
    (hf : f ∈ (processControllerBoundFlow H T ingressHop egressHop n flow).flowsOf d) :
    ∃ fa, f = mkFlowStat H fa := by
  refine processControllerBoundFlow_induction (P := fun dr => f ∈ dr.flowsOf d → _)
    (by simp [flowsOf]) (fun dr hop fa hdr (_ : BuiltRule _ _ _ _ _ (getRoute T) _ _) hf => ?_)
    hout hf
  rw [flowsOf_addFlowsAndGroup] at hf
  split_ifs at hf
  · exact ⟨_, mem_singleton.mp hf⟩
  · exact hdr hf

/-- Without routes a flow that is sent to an NNI port has a rule on the root device. -/
theorem root_mem_yieldedRules (groups : List OfpGroupEntry) (hw : Wired N ports)
    (ho : Offers N ports dr T)
    (hout : isControllerPort (getOutPort flow) = true)
    (hport : decompositionInPort T flow ∈ getNNIPorts T) (hroutes : T.routes = []) :
    N.root ∈ yieldedRules H T flow groups := by
  have hroute : getRoute T (decompositionInPort T flow) (getOutPort flow) =
      .ok [⟨T.rootDeviceID, decompositionInPort T flow, decompositionInPort T flow⟩,
        ⟨T.rootDeviceID, decompositionInPort T flow, decompositionInPort T flow⟩] := by
    unfold getRoute
    rw [if_pos hout, if_pos ((mem_getNNIPorts ho.cached).mpr hport), if_pos (by simp [hroutes])]
  obtain ⟨rules, hrules⟩ := exists_updateOutputPort (H := H) (T := T)
    (processControllerBoundFlow H T _ _ (decompositionInPort T flow) flow) fun d _ f hf => by
      obtain ⟨fa, rfl⟩ := processControllerBoundFlow_built hout hf
      exact exists_parentFlow_mkFlowStat fa
  have hpart := (decomposeFlow_controller groups rfl hout hroute _).mpr ⟨rules, hrules, rfl⟩
  rw [yieldedRules, hpart]
  dsimp only
  rw [mem_updateOutputPort (processControllerBoundFlow_singleFlows hout) hrules, ← ho.rootDevice]
  by_cases hmem : decompositionInPort T flow ∈ T.rootPorts
  · rw [processControllerBoundFlow_root hmem]
    exact mem_oneRule.mpr rfl
  · obtain ⟨lp, hlp, -, hno⟩ := mem_portNumbers_nniPorts.mp ((ho.nnis _).mp hport)
    rw [processControllerBoundFlow_user hmem (hno ▸ hw.numbered lp hlp),
      addFlowsAndGroup, AList.mem_insert]
    exact .inl rfl

/-- A flow to the controller without an input port covers the UNI ports of a device with a
complete table exactly when there is none, and the flow is not sent to an NNI port instead. -/
theorem wildcard_trap_iff (hw : Wired N ports) (ho : Offers N ports dr T) (hs : Sound N dr)
    (hfits : Fits ports dr) (hin : getInPort flow = 0)
    (hout : isControllerPort (getOutPort flow) = true) :
    CoversUnis N ports (yieldedRules H T flow groups) ↔
      uniPorts ports = [] ∧ (hasGroup flow = false ∨ nniPorts ports = []) := by
  obtain ⟨tail, hs⟩ := hs
  have hnnis : getNNIPorts T = [] ↔ nniPorts ports = [] := by
    simp only [eq_nil_iff_forall_not_mem, ho.nnis, portNumbers, mem_map, not_exists,
      not_and, forall_apply_eq_imp_iff₂]
  constructor
  · intro hcovers
    have hunis : uniPorts ports = [] := by
      refine eq_nil_iff_forall_not_mem.mpr fun u hu => ?_
      have hone := hcovers.leaves u hu
      have hdevice : u.deviceId ∈ yieldedRules H T flow groups := by
        by_contra hnot
        rw [flowsOf_eq_nil fun hkey => hnot (AList.mem_keys.mpr hkey)] at hone
        simp at hone
      rcases mem_yieldedRules hw ho hs hin hout hdevice with hroot | hempty
      · exact hw.below u hu hroot
      · exact hw.named u (mem_uniPorts.mp hu).1 hempty
    refine ⟨hunis, ?_⟩
    rcases decompositionInPort_wildcard (T := T) hin with ⟨-, h⟩ | ⟨hgroup, hport⟩
    · rwa [hnnis] at h
    · -- the flow enters at an NNI port and leaves a rule on the root device
      have hroot := root_mem_yieldedRules (H := H) groups hw ho hout hport
        (routes_eq_nil hw ho hs hfits hunis)
      have hflows := hcovers.root
      rw [hunis, map_nil, perm_nil, map_eq_nil_iff] at hflows
      exact absurd hflows ((mem_iff_flowsOf_ne_nil yieldedRules_singleFlows).mp hroot)
  · rintro ⟨hunis, hgroup⟩
    have hempty : yieldedRules H T flow groups = ∅ := by
      rcases decompositionInPort_wildcard (T := T) hin with ⟨hport, -⟩ | ⟨htrue, hport⟩
      · obtain ⟨e, herror⟩ := getRoute_zero_error hw ho (routes_eq_nil hw ho hs hfits hunis) hout
        rw [yieldedRules, decomposeFlow_error groups hport herror]
      · rcases hgroup with hfalse | hnil
        · rw [htrue] at hfalse
          cases hfalse
        · rw [hnnis.mpr hnil] at hport
          cases hport
    rw [hempty]
    refine ⟨?_, ?_, ?_⟩
    · rw [hunis]
      exact .refl _
    · simp [hunis]
    · simp

/-! ### An OLT with one ONU -/

/-- A flow to the controller for the packets of one Ethernet type from any port. -/
def wildcardFlow (etherType : UInt32) : OfpFlowStats where
  ofpMatch := some ⟨.oxm, [.openflowBasic (ethType etherType)]⟩
  instructions := [⟨OFPIT_APPLY_ACTIONS, some (.actions [output OFPP_CONTROLLER])⟩]

/-- Of the rules for two UNI ports one is left on the root device, none is on the ONU, and one
is for the device without an identifier. -/
theorem wildcard_leaves_one_rule :
    Offers oneOnuNumbering (oltPorts [10] [2, 3])
      (Runs.run Call.step [.computeRoutes oneOnu (oltPorts [10] [2, 3])] newDeviceRoutes)
      (oltTopology [10] [2, 3] (uplinkRoutes 10 2 ++ uplinkRoutes 10 3)) ∧
    (ruleFlows sizeHash (oltTopology [10] [2, 3] (uplinkRoutes 10 2 ++ uplinkRoutes 10 3)) []
      (wildcardFlow 0x800) "olt").map getTunnelId = [some 3] ∧
    ruleFlows sizeHash (oltTopology [10] [2, 3] (uplinkRoutes 10 2 ++ uplinkRoutes 10 3)) []
      (wildcardFlow 0x800) "onu" = [] ∧
    "" ∈ yieldedRules sizeHash (oltTopology [10] [2, 3] (uplinkRoutes 10 2 ++ uplinkRoutes 10 3))
      (wildcardFlow 0x800) [] ∧
    ¬CoversUnis oneOnuNumbering (oltPorts [10] [2, 3])
      (yieldedRules sizeHash (oltTopology [10] [2, 3] (uplinkRoutes 10 2 ++ uplinkRoutes 10 3))
        (wildcardFlow 0x800) []) := by
  have hempty : "" ∈ yieldedRules sizeHash
      (oltTopology [10] [2, 3] (uplinkRoutes 10 2 ++ uplinkRoutes 10 3))
      (wildcardFlow 0x800) [] := by
    decide +kernel
  refine ⟨oltTopology_offers (by decide) (by decide +kernel) (by decide +kernel),
    by decide +kernel, by decide +kernel, hempty, fun hcovers => ?_⟩
  rcases hcovers.devices "" hempty with h | ⟨lp, hlp, h⟩
  · exact absurd h (by decide)
  · exact absurd h (by decide +revert)

/-- Without UNI ports there is nothing to cover. -/
theorem wildcard_trap_no_uni :
    Offers oneOnuNumbering (oltPorts [10, 11] [])
      (Runs.run Call.step [.computeRoutes oneOnu (oltPorts [10, 11] [])] newDeviceRoutes)
      (oltTopology [10, 11] [] []) ∧
    CoversUnis oneOnuNumbering (oltPorts [10, 11] [])
      (yieldedRules sizeHash (oltTopology [10, 11] [] []) (wildcardFlow 0x800) []) := by
  have hfits : (Call.computeRoutes oneOnu (oltPorts [10, 11] [])).Fits oneOnuNumbering :=
    ⟨oneOnu_honest, by decide⟩
  have hroutes : (Runs.run Call.step [.computeRoutes oneOnu (oltPorts [10, 11] [])]
      newDeviceRoutes).routes = ∅ := by decide +kernel
  have hcomplete : Fits (oltPorts [10, 11] [])
      (Runs.run Call.step [.computeRoutes oneOnu (oltPorts [10, 11] [])] newDeviceRoutes) := by
    refine ⟨fun _ _ u hu => absurd hu (by simp [oltPorts, uniPorts, nniPort]), fun p hp => ?_⟩
    rw [hroutes] at hp
    cases hp
  have ho : Offers oneOnuNumbering (oltPorts [10, 11] [])
      (Runs.run Call.step [.computeRoutes oneOnu (oltPorts [10, 11] [])] newDeviceRoutes)
      (oltTopology [10, 11] [] []) :=
    oltTopology_offers (by decide) (by decide +kernel) (by decide +kernel)
  exact ⟨ho, (wildcard_trap_iff (wired_oneOnu (by decide) (by decide) (by decide) (by decide)) ho
    (sound_newDeviceRoutes.run (by simpa using hfits)) hcomplete (by decide)
    (by decide)).mpr ⟨by decide, .inl (by decide)⟩⟩

end VolthaCore.Decomposition
