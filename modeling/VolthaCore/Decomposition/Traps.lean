import VolthaCore.Decomposition.RootFlows
import VolthaCore.Routes.UpToDate

/-! Flows to the controller, decomposed over the ports and the route table of a
logical device. For a flow that enters at an NNI port the route lookup picks any
route that ends at an NNI port, and the rule matches on the port of that route,
so it is the right one only while all such routes end at the same port. A flow
that matches on EAPOL, IGMP or UDP has all its outputs replaced on the way. -/

namespace VolthaCore.Decomposition

open OpenFlow Outcome Routes List Function

/-! ### What an agent offers the decomposer -/

/-- The ports of a logical device: numbers and devices are there, and the ports that are not
on the root device are below it. -/
structure Wired (N : Numbering) (ports : List LogicalPort) : Prop where
  lists : N.Lists ports
  root_named : N.root ≠ ""
  numbered : ∀ lp ∈ ports, lp.portNo ≠ 0
  named : ∀ lp ∈ ports, lp.deviceId ≠ ""
  below : ∀ lp ∈ uniPorts ports, lp.deviceId ≠ N.root

/-- What an agent with these ports and this table offers; its maps are visited in any order. -/
structure Offers (N : Numbering) (ports : List LogicalPort) (dr : DeviceRoutes) (T : Topology) :
    Prop where
  rootDevice : T.rootDeviceID = N.root
  routes : T.routes.Perm (dr.routes.entries.map fun e => (e.1, e.2))
  rootPorts : ∀ n, n ∈ T.rootPorts ↔ n ∈ dr.rootPorts
  cached : (T.logicalPortsNo.map Prod.fst).Nodup
  nnis : ∀ n, n ∈ getNNIPorts T ↔ n ∈ portNumbers (nniPorts ports)
  ports : T.ports = portNumbers ports
  isRoot : ∀ d, T.isRootDevice d = true ↔ d = N.root

variable {H : HashEnv} {T : Topology} {groups : List OfpGroupEntry} {N : Numbering}
  {ports : List LogicalPort} {dr : DeviceRoutes} {tail : UInt32 → UInt32 × Hop}
  {flow : OfpFlowStats} {n : UInt32} {r : PathID × List Hop} {ingressHop egressHop : Hop}
  {routes : List (PathID × List Hop)}

theorem mem_getNNIPorts (hnodup : (T.logicalPortsNo.map Prod.fst).Nodup) :
    isNNIPort T n = true ↔ n ∈ getNNIPorts T := by
  unfold isNNIPort getNNIPorts
  generalize T.logicalPortsNo = l at hnodup
  induction l with
  | nil => simp
  | cons x l ih =>
    obtain ⟨m, nni⟩ := x
    obtain ⟨hm, hl⟩ := nodup_cons.mp hnodup
    by_cases hnm : n = m
    · subst hnm
      have hnot : n ∉ (l.filter Prod.snd).map Prod.fst := fun hn =>
        hm (filter_sublist.map Prod.fst |>.subset hn)
      cases nni <;> simp_all
    · have hbeq : (n == m) = false := by simpa using hnm
      rw [lookup_cons, hbeq, ih hl]
      cases nni <;> simp [hnm]

theorem getFirstNNIPort_ok (h : getFirstNNIPort T = .ok n) : n ∈ getNNIPorts T := by
  unfold getFirstNNIPort at h
  split at h
  · next m hm =>
    cases h
    exact mem_of_mem_head? hm
  · cases h

theorem Offers.isNNIPort_iff (ho : Offers N ports dr T) :
    isNNIPort T n = true ↔ n ∈ portNumbers (nniPorts ports) :=
  (mem_getNNIPorts ho.cached).trans (ho.nnis n)

theorem Offers.mem_routes (ho : Offers N ports dr T) {q : PathID} {path : List Hop} :
    (q, path) ∈ T.routes ↔ dr.routes.lookup q = some path := by
  rw [ho.routes.mem_iff, ← GoMap.mem_entries_iff]
  simp

theorem Wired.rootPort_of_nni (hw : N.Lists ports) (hn : n ∈ portNumbers (nniPorts ports)) :
    (N.port n).rootPort = true := by
  obtain ⟨lp, hlp, hroot, rfl⟩ := mem_portNumbers_nniPorts.mp hn
  rw [hw lp hlp, hroot]

/-- A route that ends at an NNI port leaves the root device through it. -/
theorem Offers.upstream (ho : Offers N ports dr T) (hs : SoundWith N tail dr) (hl : N.Lists ports)
    (hr : r ∈ T.routes) (hnni : isNNIPort T r.1.egress = true) :
    ∃ first pon, r.2 = [first, ⟨N.root, pon, (N.port r.1.egress).devicePortNo⟩] := by
  obtain ⟨q, path⟩ := r
  have hroot := Wired.rootPort_of_nni hl (ho.isNNIPort_iff.mp hnni)
  cases hs.shaped q path (ho.mem_routes.mp hr) with
  | down n u hn hu =>
    rw [hroot] at hu
    cases hu
  | up n u hn hu =>
    rw [getReverseRoute_downRoute, ← N.nni_on_root n hn]
    exact ⟨_, _, rfl⟩

def upstreamRoute (T : Topology) : Option (PathID × List Hop) :=
  T.routes.find? fun r => isNNIPort T r.1.egress

theorem mem_of_upstreamRoute (h : upstreamRoute T = some r) :
    r ∈ T.routes ∧ isNNIPort T r.1.egress = true := by
  unfold upstreamRoute at h
  exact ⟨mem_of_find?_eq_some h,
    find?_some (p := fun r : PathID × List Hop => isNNIPort T r.1.egress) h⟩

theorem upstreamRoute_of_head {rest : List (PathID × List Hop)} (h : T.routes = r :: rest)
    (hr : isNNIPort T r.1.egress = true) : upstreamRoute T = some r := by
  simp [upstreamRoute, h, hr]

theorem upstreamHalfRoute_none (h : upstreamRoute T = none) (n m : UInt32) :
    upstreamHalfRoute T n m = .error (noRoute "upstream " n m) := by
  unfold upstreamHalfRoute
  unfold upstreamRoute at h
  rw [h]

theorem upstreamHalfRoute_some (ho : Offers N ports dr T) (hs : SoundWith N tail dr)
    (hl : N.Lists ports) (h : upstreamRoute T = some r) (n m : UInt32) :
    ∃ pon, upstreamHalfRoute T n m =
      .ok [{}, ⟨N.root, pon, (N.port r.1.egress).devicePortNo⟩] := by
  obtain ⟨hmem, hnni⟩ := mem_of_upstreamRoute h
  obtain ⟨first, pon, hpath⟩ := ho.upstream hs hl hmem hnni
  refine ⟨pon, ?_⟩
  unfold upstreamHalfRoute
  unfold upstreamRoute at h
  rw [h]
  simp only [hpath]
  rfl

/-! ### Controller-bound flows -/

theorem decomposeFlow_controller (groups : List OfpGroupEntry)
    (hin : decompositionInPort T flow = n) (hout : isControllerPort (getOutPort flow) = true)
    (hroute : getRoute T n (getOutPort flow) = .ok [ingressHop, egressHop]) (part : Decomposed) :
    decomposeFlow H T flow groups = .ok part ↔
      ∃ rules, updateOutputPortForControllerBoundFlowForParentDevide H T
        (processControllerBoundFlow H T ingressHop egressHop n flow) = .ok rules ∧
        part = ⟨rules, flow⟩ := by
  unfold decomposeFlow
  dsimp only
  rw [hin, hroute, except_bind_ok_iff]
  simp only [Except.ok.injEq, exists_eq_left']
  unfold chooseRules
  simp only [hout, if_true]
  rw [except_bind_ok_iff]
  simp only [Except.ok.injEq, exists_eq_left', except_bind_ok_iff]
  refine exists_congr fun rules => and_congr_right fun _ => ?_
  simp only [pure, Except.pure, Except.ok.injEq]
  exact eq_comm

theorem decomposeFlow_error (groups : List OfpGroupEntry) {e : Err}
    (hin : decompositionInPort T flow = n) (hroute : getRoute T n (getOutPort flow) = .error e) :
    decomposeFlow H T flow groups = .error e := by
  unfold decomposeFlow
  dsimp only
  rw [hin, hroute]
  rfl

theorem getRoute_nni {m : UInt32} (hm : isControllerPort m = true) (hn : isNNIPort T n = true)
    (hne : T.routes ≠ []) : getRoute T n m = upstreamHalfRoute T n m := by
  unfold getRoute
  rw [if_pos hm, if_pos hn, if_neg (by simpa using hne)]

theorem getRoute_of_ports {m : UInt32} (hn : n ≠ 0) (hm : m ≠ 0)
    (hctrl : isControllerPort m = false) : getRoute T n m = getPreCalculatedRoute T n m := by
  unfold getRoute getPortRoute
  rw [if_neg (by simp [hctrl]), if_neg (by simp [hn]), if_neg hm]

theorem decompositionInPort_of_ne_zero (h : getInPort flow ≠ 0) :
    decompositionInPort T flow = getInPort flow := by
  unfold decompositionInPort
  rw [if_neg (by simp [h])]

theorem mem_processControllerBoundFlow (hout : isControllerPort (getOutPort flow) = true)
    {d : String} (hd : d ∈ processControllerBoundFlow H T ingressHop egressHop n flow) :
    d = ingressHop.deviceID ∨ d = egressHop.deviceID := by
  refine processControllerBoundFlow_induction (P := fun dr => d ∈ dr → _) (by simp)
    (fun dr hop fa hdr (hfa : BuiltRule _ _ _ _ _ (getRoute T) _ _) hd => ?_) hout hd
  rw [DeviceRules.addFlowsAndGroup, AList.mem_insert] at hd
  obtain rfl | hd := hd
  · cases hfa with
    | childTrap => exact .inl rfl
    | tunnel hhop => rcases hhop with _ | ⟨_, _ | ⟨_, ⟨⟩⟩⟩ <;> simp
    | innerTag hne => exact absurd hout hne
    | _ => exact .inr rfl
  · exact hdr hd

theorem processControllerBoundFlow_root (hn : n ∈ T.rootPorts) :
    processControllerBoundFlow H T ingressHop egressHop n flow =
      oneRule H egressHop.deviceID (nniTrapArgs egressHop.egress flow) := by
  unfold processControllerBoundFlow
  rw [if_pos (by simpa [isRootPort] using hn)]

theorem processControllerBoundFlow_user (hn : n ∉ T.rootPorts) (hn0 : n ≠ 0) :
    processControllerBoundFlow H T ingressHop egressHop n flow =
      ((∅ : DeviceRules).addFlowsAndGroup egressHop.deviceID
        (.ofFlow (mkFlowStat H (parentTrapArgs egressHop n flow)))).addFlowsAndGroup
        ingressHop.deviceID (.ofFlow (mkFlowStat H (childTrapArgs ingressHop n flow))) := by
  unfold processControllerBoundFlow
  rw [if_neg (by simpa [isRootPort] using hn)]
  simp only [if_neg hn0]
  rfl

/-! ### Match fields and actions -/

theorem getOfbFields_exclude (flow : OfpFlowStats) (exclude : List OxmOfbFieldTypes) :
    getOfbFields flow exclude = (getOfbFields flow).filter fun f => f.type ∉ exclude := by
  unfold getOfbFields
  split
  · rfl
  · split_ifs <;> simp

theorem isControllerTrap_mkFlowStat (flow : OfpFlowStats) {fa : FlowArgs}
    {added : List OfpOxmOfbField} {exclude : List OxmOfbFieldTypes}
    (hfields : fa.matchFields = added ++ getOfbFields flow exclude)
    (hadded : added.any isTrapField = false)
    (hexclude : .ethType ∉ exclude ∧ .ipProto ∉ exclude) :
    isControllerTrap (mkFlowStat H fa) = isControllerTrap flow := by
  rw [isControllerTrap, isControllerTrap, getOfbFields_mkFlowStat, hfields,
    any_append, hadded, Bool.false_or, getOfbFields_exclude, any_filter]
  congr 1
  funext field
  by_cases htrap : isTrapField field = true
  · have htype : field.type = .ethType ∨ field.type = .ipProto := by
      simp only [isTrapField, Bool.or_eq_true, decide_eq_true_eq] at htrap
      rcases htrap with (rfl | rfl) | rfl
      · exact .inl rfl
      · exact .inr rfl
      · exact .inr rfl
    rcases htype with h | h
    · simp [h, hexclude.1]
    · simp [h, hexclude.2]
  · simp [htrap]

def isInPortField : OfpOxmField → Bool
  | .openflowBasic f => f.type = .inPort
  | .other _ _ => false

def otherFields (flow : OfpFlowStats) : List OfpOxmField :=
  match flow.ofpMatch with
  | none => []
  | some m => m.oxmFields.filter fun field => !isInPortField field

/-- Besides its input port the flow only matches on basic fields. -/
def BasicFields (flow : OfpFlowStats) : Prop :=
  ∀ field ∈ otherFields flow, ∃ f, field = .openflowBasic f

/-- A flow that matches on EAPOL, IGMP or UDP has no output action but the one that a root
device gives it. -/
def OutputsStay (flow : OfpFlowStats) : Prop :=
  isControllerTrap flow = true → ∀ a ∈ getActions flow, ∀ port maxLen,
    a.action = some (.output port maxLen) → a = output OFPP_CONTROLLER

theorem exists_match_of_inPort (h : getInPort flow ≠ 0) :
    ∃ fields, flow.ofpMatch = some ⟨.oxm, fields⟩ := by
  unfold getInPort getOfbFields at h
  cases hm : flow.ofpMatch with
  | none => simp [hm] at h
  | some m =>
    obtain ⟨type, fields⟩ := m
    cases type with
    | standard => simp [hm] at h
    | oxm => exact ⟨fields, rfl⟩

theorem copied_fields_iff (h : getInPort flow ≠ 0) :
    (getOfbFields flow [.inPort]).map .openflowBasic = otherFields flow ↔ BasicFields flow := by
  obtain ⟨fields, hm⟩ := exists_match_of_inPort h
  unfold BasicFields
  constructor
  · intro heq field hfield
    rw [← heq] at hfield
    obtain ⟨f, -, rfl⟩ := mem_map.mp hfield
    exact ⟨f, rfl⟩
  · unfold otherFields getOfbFields
    rw [hm]
    simp only [if_true]
    clear hm
    intro hbasic
    induction fields with
    | nil => rfl
    | cons field fields ih =>
      have htail := ih fun x hx => hbasic x ((sublist_cons_self _ _).filter _ |>.subset hx)
      cases field with
      | openflowBasic f =>
        by_cases hf : f.type = .inPort
        · simpa [isInPortField, hf] using htail
        · simpa [isInPortField, hf] using htail
      | other c data =>
        obtain ⟨f, hf⟩ := hbasic (.other c data) (by simp [isInPortField])
        cases hf

theorem toController_eq_self_iff {a : OfpAction} : toController a = a ↔
    ∀ port maxLen, a.action = some (.output port maxLen) → a = output OFPP_CONTROLLER := by
  unfold toController
  split
  · next port maxLen h => simp [h, eq_comm]
  · next h =>
    simp only [true_iff]
    intro port maxLen ha
    exact absurd ha (h port maxLen)

theorem outputsStay_iff : OutputsStay flow ↔
    (if isControllerTrap flow then (getActions flow).map toController else getActions flow) =
      getActions flow := by
  unfold OutputsStay
  split_ifs with htrap
  · simp only [htrap, true_imp_iff, ← toController_eq_self_iff]
    rw [← map_inj_left, map_id']
  · simp [htrap]

/-! ### A trap on an NNI port -/

/-- The flow is on the root device only, at one port, as it is on the logical device. -/
def TrapsAt (H : HashEnv) (T : Topology) (root : String) (port : UInt32) (flow : OfpFlowStats)
    (groups : List OfpGroupEntry) : Prop :=
  ∃ part f, decomposeFlow H T flow groups = .ok part ∧ (∀ d, d ∈ part.rules ↔ d = root) ∧
    part.rules.flowsOf root = [f] ∧
    f.ofpMatch = some ⟨.oxm, .openflowBasic (inPort port) :: otherFields flow⟩ ∧
    getActions f = getActions flow

theorem trapsAt_iff_of_route {e pon port : UInt32} (hw : Wired N ports) (ho : Offers N ports dr T)
    (hin : getInPort flow = n) (hn : n ≠ 0) (hout : isControllerPort (getOutPort flow) = true)
    (hroute : getRoute T n (getOutPort flow) = .ok [{}, ⟨N.root, pon, e⟩]) :
    TrapsAt H T N.root port flow groups ↔
      n ∈ dr.rootPorts ∧ e = port ∧ BasicFields flow ∧ OutputsStay flow := by
  have hin0 : getInPort flow ≠ 0 := hin ▸ hn
  have hpart := decomposeFlow_controller (H := H) groups
    ((decompositionInPort_of_ne_zero (T := T) hin0).trans hin) hout hroute
  unfold TrapsAt
  simp only [hpart]
  rw [← ho.rootPorts]
  by_cases hmem : n ∈ T.rootPorts
  · obtain ⟨rules, f, hrules, hdevices, hflows, hf⟩ := updateOutputPort_oneRule (H := H)
      ((ho.isRoot N.root).mpr rfl) (nniTrapArgs e flow)
    obtain ⟨hmatch, hactions⟩ := parentFlow_ok hf
    have hmatch' : f.ofpMatch = some ⟨.oxm, .openflowBasic (inPort port) :: otherFields flow⟩ ↔
        e = port ∧ BasicFields flow := by
      rw [hmatch, mkFlowStat_ofpMatch, ← copied_fields_iff hin0]
      simp [nniTrapArgs, inPort]
    have hactions' : getActions f = getActions flow ↔ OutputsStay flow := by
      rw [hactions, getActions_mkFlowStat, isControllerTrap_mkFlowStat flow rfl (by rfl)
        (by decide), outputsStay_iff]
      rfl
    rw [processControllerBoundFlow_root hmem]
    constructor
    · rintro ⟨_, g, ⟨rules', hrules', rfl⟩, -, hg, hgmatch, hgactions⟩
      cases hrules.symm.trans hrules'
      cases hflows.symm.trans hg
      exact ⟨hmem, (hmatch'.mp hgmatch).1, (hmatch'.mp hgmatch).2, hactions'.mp hgactions⟩
    · rintro ⟨-, he, hbasic, hstay⟩
      exact ⟨_, f, ⟨rules, hrules, rfl⟩, hdevices, hflows, hmatch'.mpr ⟨he, hbasic⟩,
        hactions'.mpr hstay⟩
  · -- the rules name the empty first hop
    simp only [hmem, false_and, iff_false]
    rintro ⟨_, f, ⟨rules, hrules, rfl⟩, hdevices, -⟩
    refine hw.root_named ((hdevices "").mp ?_).symm
    rw [mem_updateOutputPort (processControllerBoundFlow_singleFlows hout) hrules,
      processControllerBoundFlow_user hmem hn, DeviceRules.addFlowsAndGroup, AList.mem_insert]
    exact .inl rfl

/-- The route that is visited first among those that end at an NNI port decides. -/
theorem trapsAt_iff (groups : List OfpGroupEntry) {p : LogicalPort} (hw : Wired N ports)
    (ho : Offers N ports dr T) (hs : SoundWith N tail dr) (hp : p ∈ nniPorts ports)
    (hin : getInPort flow = p.portNo) (hout : isControllerPort (getOutPort flow) = true)
    (hne : T.routes ≠ []) :
    TrapsAt H T N.root p.devicePortNo flow groups ↔ p.portNo ∈ dr.rootPorts ∧
      (∃ r, upstreamRoute T = some r ∧ (N.port r.1.egress).devicePortNo = p.devicePortNo) ∧
      BasicFields flow ∧ OutputsStay flow := by
  obtain ⟨hpmem, hproot⟩ := mem_nniPorts.mp hp
  have hp0 := hw.numbered p hpmem
  have hnni : isNNIPort T p.portNo = true :=
    ho.isNNIPort_iff.mpr (mem_portNumbers_nniPorts.mpr ⟨p, hpmem, hproot, rfl⟩)
  have hhalf := getRoute_nni hout hnni hne
  cases hroute : upstreamRoute T with
  | none =>
    have herror := decomposeFlow_error (H := H) groups
      ((decompositionInPort_of_ne_zero (T := T) (hin ▸ hp0)).trans hin)
      (hhalf.trans (upstreamHalfRoute_none hroute _ _))
    simp [TrapsAt, herror]
  | some r =>
    obtain ⟨pon, hok⟩ := upstreamHalfRoute_some ho hs hw.lists hroute p.portNo (getOutPort flow)
    rw [trapsAt_iff_of_route hw ho hin hp0 hout (hhalf.trans hok)]
    simp

noncomputable def offered (N : Numbering) (ports : List LogicalPort) (dr : DeviceRoutes)
    (routes : List (PathID × List Hop)) : Topology where
  rootDeviceID := N.root
  routes := routes
  rootPorts := dr.rootPorts.toList
  logicalPortsNo := (portNumbers (nniPorts ports)).dedup.map (·, true)
  ports := portNumbers ports
  getDevice d := if d = N.root then some true
    else if d ∈ ports.map (·.deviceId) then some false else none
  isRootDevice d := d = N.root

theorem offers_offered (N : Numbering) (ports : List LogicalPort) (dr : DeviceRoutes)
    (h : routes.Perm (dr.routes.entries.map fun e => (e.1, e.2))) :
    Offers N ports dr (offered N ports dr routes) where
  rootDevice := rfl
  routes := h
  rootPorts n := by simp [offered]
  cached := by simpa [offered, comp_def] using nodup_dedup _
  nnis n := by simp [offered, getNNIPorts, filter_map, comp_def]
  ports := rfl
  isRoot d := by simp [offered]

/-- A flow to the controller that enters at an NNI port is installed at that port, in every
order of visits, exactly when the port is recorded as a root port, all routes to NNI ports of
the device end at its device port and there is one, and the flow survives the copy. -/
theorem nni_trap_iff {calls : List Call} {p : LogicalPort} (hcalls : ∀ c ∈ calls, c.Fits N)
    (hdr : dr = Runs.run Call.step calls newDeviceRoutes) (hne : dr.routes ≠ ∅)
    (hw : Wired N ports) (hp : p ∈ nniPorts ports) (hin : getInPort flow = p.portNo)
    (hout : isControllerPort (getOutPort flow) = true) :
    (∀ T, Offers N ports dr T → TrapsAt H T N.root p.devicePortNo flow groups) ↔
      p.portNo ∈ dr.rootPorts ∧
      (∃ q ∈ dr.routes, q.egress ∈ portNumbers (nniPorts ports)) ∧
      (∀ q ∈ dr.routes, q.egress ∈ portNumbers (nniPorts ports) →
        (N.port q.egress).devicePortNo = p.devicePortNo) ∧
      BasicFields flow ∧ OutputsStay flow := by
  obtain ⟨tail, hs⟩ : Sound N dr := hdr ▸ sound_newDeviceRoutes.run hcalls
  have hnonempty : ∀ {T : Topology}, Offers N ports dr T → T.routes ≠ [] := fun {T} ho hnil => by
    have hlen := ho.routes.length_eq
    rw [hnil, length_map] at hlen
    exact hne (GoMap.eq_empty_of_length ((length_map _).trans hlen.symm))
  have hiff := fun {T : Topology} (ho : Offers N ports dr T) =>
    trapsAt_iff (H := H) groups hw ho hs hp hin hout (hnonempty ho)
  constructor
  · intro hall
    have hlisted := offers_offered N ports dr (.refl _)
    obtain ⟨hroot, ⟨r, hr, -⟩, hflow⟩ := (hiff hlisted).mp (hall _ hlisted)
    obtain ⟨hmem, hnni⟩ := mem_of_upstreamRoute hr
    refine ⟨hroot, ⟨r.1, ?_, hlisted.isNNIPort_iff.mp hnni⟩, fun q hq hqnni => ?_, hflow⟩
    · exact GoMap.mem_iff_exists_lookup.mpr ⟨r.2, hlisted.mem_routes.mp hmem⟩
    · -- visit the route in question first
      obtain ⟨path, hpath⟩ := GoMap.mem_iff_exists_lookup.mp hq
      have hentry := hlisted.mem_routes.mpr hpath
      have hfirst := offers_offered N ports dr
        (perm_cons_erase hentry).symm
      obtain ⟨-, ⟨r', hr', hport⟩, -⟩ := (hiff hfirst).mp (hall _ hfirst)
      have hqfirst := upstreamRoute_of_head rfl (hfirst.isNNIPort_iff.mpr hqnni)
      rw [← hport, Option.some.inj (hr'.symm.trans hqfirst)]
  · rintro ⟨hroot, ⟨q, hq, hqnni⟩, hall, hflow⟩ T ho
    obtain ⟨path, hpath⟩ := GoMap.mem_iff_exists_lookup.mp hq
    cases hroute : upstreamRoute T with
    | none =>
      have hnone := find?_eq_none.mp hroute (q, path) (ho.mem_routes.mpr hpath)
      exact absurd (ho.isNNIPort_iff.mpr hqnni) hnone
    | some r =>
      obtain ⟨hmem, hnni⟩ := mem_of_upstreamRoute hroute
      refine (hiff ho).mpr ⟨hroot, ⟨r, hroute, hall r.1 ?_ (ho.isNNIPort_iff.mp hnni)⟩, hflow⟩
      exact GoMap.mem_iff_exists_lookup.mpr ⟨r.2, ho.mem_routes.mp hmem⟩

/-! ### An OLT with one ONU -/

def trapFlow (port etherType : UInt32) : OfpFlowStats where
  ofpMatch := some ⟨.oxm, [.openflowBasic (inPort port), .openflowBasic (ethType etherType)]⟩
  instructions := [⟨OFPIT_APPLY_ACTIONS, some (.actions [output OFPP_CONTROLLER])⟩]

def uplinkRoutes (nni uni : UInt32) : List (PathID × List Hop) :=
  [(⟨uni, nni⟩, [⟨"onu", uni, 1⟩, ⟨"olt", 1, nni⟩]),
    (⟨nni, uni⟩, [⟨"olt", nni, 1⟩, ⟨"onu", 1, uni⟩])]

def oltPorts (nnis unis : List UInt32) : List LogicalPort := nnis.map nniPort ++ unis.map uniPort

/-- What the agent of an OLT with one ONU offers. -/
def oltTopology (nnis unis : List UInt32) (routes : List (PathID × List Hop)) : Topology where
  rootDeviceID := "olt"
  routes := routes
  rootPorts := nnis
  logicalPortsNo := nnis.map (·, true) ++ unis.map (·, false)
  ports := nnis ++ unis
  getDevice d := if d = "olt" then some true else if d = "onu" then some false else none
  isRootDevice d := d = "olt"

theorem nniPorts_oltPorts (nnis unis : List UInt32) :
    nniPorts (oltPorts nnis unis) = nnis.map nniPort := by
  simp [nniPorts, oltPorts, nniPort, uniPort, filter_map, comp_def]

theorem oltTopology_offers {nnis unis : List UInt32} (hnodup : (nnis ++ unis).Nodup)
    (hroots : dr.rootPorts = nnis.toFinset)
    (hroutes : routes.Perm (dr.routes.entries.map fun e => (e.1, e.2))) :
    Offers oneOnuNumbering (oltPorts nnis unis) dr (oltTopology nnis unis routes) where
  rootDevice := rfl
  routes := hroutes
  rootPorts n := by simp [oltTopology, hroots]
  cached := by simpa [oltTopology, comp_def] using hnodup
  nnis n := by
    rw [nniPorts_oltPorts]
    simp [oltTopology, getNNIPorts, portNumbers, nniPort, filter_map, comp_def]
  ports := by simp [oltTopology, portNumbers, oltPorts, nniPort, uniPort, comp_def]
  isRoot d := by simp [oltTopology, oneOnuNumbering]

theorem wired_oneOnu {lps : List LogicalPort} (hlists : oneOnuNumbering.Lists lps)
    (h0 : ∀ lp ∈ lps, lp.portNo ≠ 0) (hdevice : ∀ lp ∈ lps, lp.deviceId ≠ "")
    (hbelow : ∀ lp ∈ uniPorts lps, lp.deviceId ≠ "olt") : Wired oneOnuNumbering lps :=
  ⟨hlists, by decide, h0, hdevice, hbelow⟩

/-- With two uplinks a flow for the second one is installed at the first one, whose routes are
visited first. -/
theorem second_uplink_trapped_at_first :
    Offers oneOnuNumbering (oltPorts [10, 11] [2])
      (Runs.run Call.step [.computeRoutes oneOnu (oltPorts [10, 11] [2])] newDeviceRoutes)
      (oltTopology [10, 11] [2] (uplinkRoutes 10 2 ++ uplinkRoutes 11 2)) ∧
    getInPort (trapFlow 11 0x800) = (nniPort 11).portNo ∧
    isControllerPort (getOutPort (trapFlow 11 0x800)) = true ∧
    (ruleFlows sizeHash (oltTopology [10, 11] [2] (uplinkRoutes 10 2 ++ uplinkRoutes 11 2)) []
      (trapFlow 11 0x800) "olt").map getInPort = [10] ∧
    ¬TrapsAt sizeHash (oltTopology [10, 11] [2] (uplinkRoutes 10 2 ++ uplinkRoutes 11 2)) "olt"
      (nniPort 11).devicePortNo (trapFlow 11 0x800) [] := by
  have hflows : (ruleFlows sizeHash
      (oltTopology [10, 11] [2] (uplinkRoutes 10 2 ++ uplinkRoutes 11 2)) []
      (trapFlow 11 0x800) "olt").map getInPort = [10] := by decide +kernel
  refine ⟨oltTopology_offers (by decide) (by decide +kernel) (by decide +kernel), by decide,
    by decide, hflows, ?_⟩
  rintro ⟨part, f, hpart, -, hf, hmatch, -⟩
  rw [ruleFlows, hpart] at hflows
  simp only [hf, map_cons, map_nil, List.cons.injEq, and_true] at hflows
  have hport : getInPort f = 11 := by
    simp [getInPort, getOfbFields, hmatch, inPort, nniPort]
  rw [hport] at hflows
  exact absurd hflows (by decide)

/-- With one uplink the flow is installed there in every order of visits. -/
theorem nni_trap_one_uplink :
    (Call.computeRoutes oneOnu (oltPorts [10] [2])).Fits oneOnuNumbering ∧
    (∀ T, Offers oneOnuNumbering (oltPorts [10] [2])
        (Runs.run Call.step [.computeRoutes oneOnu (oltPorts [10] [2])] newDeviceRoutes) T →
      TrapsAt sizeHash T "olt" 10 (trapFlow 10 0x800) []) := by
  have hfits : (Call.computeRoutes oneOnu (oltPorts [10] [2])).Fits oneOnuNumbering :=
    ⟨oneOnu_honest, by decide⟩
  refine ⟨hfits, (nni_trap_iff (p := nniPort 10) (by simpa using hfits) rfl (by decide +kernel)
    (wired_oneOnu (by decide) (by decide) (by decide) (by decide)) (by decide) (by decide)
    (by decide)).mpr ⟨by decide +kernel, ⟨⟨2, 10⟩, by decide +kernel, by decide⟩, ?_, ?_, ?_⟩⟩
  · decide +kernel
  · intro field hfield
    change field ∈ [OfpOxmField.openflowBasic (ethType 0x800)] at hfield
    exact ⟨_, mem_singleton.mp hfield⟩
  · intro htrap
    exact absurd htrap (by decide)

end VolthaCore.Decomposition
