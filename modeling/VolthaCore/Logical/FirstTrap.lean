import VolthaCore.Decomposition.Traps
import VolthaCore.Logical.Refinement
import VolthaCore.Routes.Mesh

/-! The first flow of an agent whose logical device has no user ports yet: a trap on one of the
NNI ports. The route lookup is ready for it and answers with two equal hops when there are no
routes. The route computation before the request asks for two ports, though, so with a single
NNI port every request is refused. -/

namespace VolthaCore.Logical

open Decomposition Devices OpenFlow Outcome Routes List DeviceRules

variable {env : Env} {w : World} {P : Plant} {N : Numbering} {ports : List LogicalPort}
  {order : VisitOrder (Σ _ : PathID, List Hop)} {flow : OfpFlowStats} {p : LogicalPort}

/-! ### A fresh agent -/

/-- `buildRoutes` computes all routes of the logical device. -/
def generateDeviceRoutesIfNeeded (renv : Routes.Env) (ports : List LogicalPort) : RouteM Unit := do
  if isUpToDate (← getRoutes) (some ports) then return () else computeRoutes renv ports

def result (x : RouteM Unit) (dr : DeviceRoutes) : Except Err Unit :=
  match x ⟨dr, 0⟩ with
  | .ok _ _ => .ok ()
  | .error e _ => .error e

/-- An agent without tables and routes, for a logical device whose ports are all NNI ports of
the OLT. Requests use the routes that are generated first; store and adapters answer. -/
structure FreshAgent (P : Plant) (order : VisitOrder (Σ _ : PathID, List Hop)) (N : Numbering)
    (ports : List LogicalPort) (env : Env) (w : World) : Prop where
  uplinks : ∀ p ∈ ports, p.rootPort = true ∧ P.Stands p ∧ p.portNo ≠ 0
  lists : N.Lists ports
  routes : env.routes = result (generateDeviceRoutesIfNeeded (P.env order) ports) newDeviceRoutes
  offers : Offers N ports
    (afterCall (generateDeviceRoutesIfNeeded (P.env order) ports) newDeviceRoutes) env.topology
  works : env.StoreWorks
  willing : ∀ d, ∃ accepts, env.device d = willingEnv accepts
  fresh : w.agent.logicalDevice = {}
  known : w.devices N.root ≠ none

/-! ### The routes -/

theorem generateDeviceRoutesIfNeeded_fresh (renv : Routes.Env) (hne : ports ≠ []) :
    generateDeviceRoutesIfNeeded renv ports ⟨newDeviceRoutes, 0⟩ =
      computeRoutes renv ports ⟨newDeviceRoutes, 0⟩ := by
  have hstale : isUpToDate newDeviceRoutes (some ports) = false := by
    have hlen : ¬ 0 = ports.length := fun h => hne (length_eq_zero_iff.mp h.symm)
    simp [isUpToDate, newDeviceRoutes, hlen]
  change (if isUpToDate newDeviceRoutes (some ports) then return () else _ : RouteM Unit) _ = _
  rw [hstale]
  rfl

theorem FreshAgent.refused (h : FreshAgent P order N ports env w) (hne : ports ≠ [])
    (hlen : ports.length < 2) :
    env.routes = .error (.status .failedPrecondition "not-enough-logical-ports") := by
  rw [h.routes, result, generateDeviceRoutesIfNeeded_fresh _ hne, computeRoutes, if_pos hlen]
  rfl

/-- With two ports there are no routes and the ports are recorded as root ports. -/
theorem FreshAgent.routed (h : FreshAgent P order N ports env w) (hlen : 2 ≤ ports.length) :
    env.routes = .ok () ∧ env.topology.routes = [] ∧
      ∀ p ∈ ports, p.portNo ∈ env.topology.rootPorts := by
  have hne : ports ≠ [] := ne_nil_of_length_pos (by omega)
  have hnnis : nniPorts ports = ports := filter_eq_self.mpr fun p hp => (h.uplinks p hp).1
  have hunis : reachedPorts ports = [] := by
    have hnone : uniPorts ports = [] := filter_eq_nil_iff.mpr fun p hp => by
      simp [(h.uplinks p hp).1]
    rw [reachedPorts, hnone, filter_nil]
  obtain ⟨b, hok, hmeshed⟩ := computeRoutes_meshed order newDeviceRoutes hlen
    (fun p hp => (h.uplinks p hp).2.1) h.lists (hnnis.symm ▸ hne)
  rw [← generateDeviceRoutesIfNeeded_fresh _ hne] at hok
  have hafter := h.offers
  rw [afterCall, after_of_ok hok] at hafter
  refine ⟨by rw [h.routes, result, hok], ?_, fun p hp => ?_⟩
  · have hempty : b.dr.routes = ∅ := GoMap.eq_empty_of_forall_notMem fun q hq =>
      connects_nil _ q (hunis ▸ (hmeshed.domain q).mp hq)
    simpa [hempty] using hafter.routes
  · rw [hafter.rootPorts, hmeshed.sound.roots, hmeshed.ports, hnnis]
    exact mem_toFinset.mpr (mem_map_of_mem hp)

/-! ### The rules -/

/-- Without routes a trap on an NNI port is one flow of the root device, for that port. -/
theorem decomposeRules_first {H : HashEnv} {T : Topology} {n : UInt32} (hn : n ≠ 0)
    (hin : getInPort flow = n) (hout : isControllerPort (getOutPort flow) = true)
    (hnni : isNNIPort T n = true) (hroutes : T.routes = []) (hmem : n ∈ T.rootPorts)
    (hroot : T.isRootDevice T.rootDeviceID = true) :
    ∃ dec f, decomposeRules H T [flow] [] = .ok dec ∧ getInPort f = n ∧
      ∀ d, dec.rules.flowsOf d = (if d = T.rootDeviceID then [f] else []) ∧
        (d ∈ dec.rules → d = T.rootDeviceID) := by
  have hroute : getRoute T n (getOutPort flow) =
      .ok [⟨T.rootDeviceID, n, n⟩, ⟨T.rootDeviceID, n, n⟩] := by
    unfold getRoute
    rw [if_pos hout, if_pos hnni, if_pos (by simp [hroutes])]
  obtain ⟨rules, f, hrules, hdevices, hflows, hf⟩ :=
    updateOutputPort_oneRule (H := H) hroot (nniTrapArgs n flow)
  have hpart := (decomposeFlow_controller (H := H) [] ((decompositionInPort_of_ne_zero
    (T := T) (hin ▸ hn)).trans hin) hout hroute ⟨rules, flow⟩).mpr
    ⟨rules, by rw [processControllerBoundFlow_root hmem, hrules], rfl⟩
  refine ⟨_, f, decomposeRules_ok_iff.mpr ⟨[⟨rules, flow⟩], .cons hpart .nil, rfl⟩, ?_, fun d => ?_⟩
  · rw [getInPort, getOfbFields, (parentFlow_ok hf).1]
    rfl
  change (collect ∅ rules).flowsOf d = _ ∧ (d ∈ collect ∅ rules → _)
  rw [flowsOf_collect, ← AList.lookup_isSome, lookup_collect]
  by_cases hd : d = T.rootDeviceID
  · subst hd
    rw [hflows, if_pos rfl]
    exact ⟨OrderedMap.addIfAbsent_empty f, fun _ => rfl⟩
  · have hnone : d ∉ rules := fun hmem => hd ((hdevices d).mp hmem)
    rw [flowsOf_eq_nil hnone, AList.lookup_eq_none.mpr hnone, if_neg hd]
    exact ⟨rfl, fun hsome => by cases hsome⟩

/-! ### The devices -/

theorem addFlowsAndGroups_willing (accepts : Bool) (fg : FlowsAndGroups)
    (metadata : Option FlowMetadata) (a : SyncedAgent) :
    ∃ a', DeviceOp.add.run (willingEnv accepts) fg metadata a = .ok () a' := by
  have hsent : ∀ e, addFlowsAndGroupsToAdapter (willingEnv accepts) a.device fg.listFlows
      fg.listGroups metadata ≠ .fail e := by
    intro e
    unfold addFlowsAndGroupsToAdapter willingEnv
    dsimp only
    split_ifs <;> simp
  change ∃ a', ((addFlowsAndGroupsToAdapter _ _ _ _ _).plan _).execute _ _ = _
  cases hupdate : addFlowsAndGroupsToAdapter (willingEnv accepts) a.device fg.listFlows
      fg.listGroups metadata with
  | nothing => exact ⟨a, rfl⟩
  | fail e => exact absurd hupdate (hsent e)
  | send request flows groups => exact ⟨_, rfl⟩

theorem updateDevices_willing (hwilling : ∀ d, ∃ accepts, env.device d = willingEnv accepts)
    (rules : DeviceRules) (metadata : Option FlowMetadata)
    (hknown : ∀ d ∈ rules, w.devices d ≠ none) :
    ∃ w', updateDevices env .add rules metadata w = .ok () w' := by
  have hnone : ∀ (entries : List (Σ _ : String, FlowsAndGroups)) (w : World),
      (∀ e ∈ entries, w.devices e.1 ≠ none) →
      ∀ r ∈ (updateEach env .add metadata entries w).1, r = none := by
    intro entries
    induction entries with
    | nil => simp [updateEach]
    | cons e rest ih =>
      intro w hw
      obtain ⟨a, ha⟩ := Option.ne_none_iff_exists'.mp (hw e mem_cons_self)
      obtain ⟨accepts, henv⟩ := hwilling e.1
      obtain ⟨a', ha'⟩ := addFlowsAndGroups_willing accepts e.2 metadata a
      have hfirst : updateDevice env .add metadata e.1 e.2 w =
          (none, { w with devices := Function.update w.devices e.1 (some a') }) := by
        simp only [updateDevice, ha, henv, ha']
      rw [updateEach, hfirst]
      refine forall_mem_cons.mpr ⟨rfl, ih _ fun e' he' => ?_⟩
      by_cases hsame : e'.1 = e.1
      · simp [hsame]
      · exact (Function.update_of_ne hsame ..).trans_ne (hw e' (mem_cons_of_mem _ he'))
  have hok := (awaitResponses_ok_iff _).mpr (hnone rules.entries w fun e he =>
    hknown e.1 (AList.mem_keys.mpr (mem_map_of_mem he)))
  refine ⟨(updateEach env .add metadata rules.entries w).2, ?_⟩
  unfold updateDevices
  dsimp only
  rw [hok]

theorem runSteps_writes (hworks : env.StoreWorks) {steps : List Step}
    (hsteps : ∀ s ∈ steps, s.isWrite = true) (w : World) :
    ∃ w', runSteps env steps w = .ok () w' := by
  induction steps generalizing w with
  | nil => exact ⟨w, rfl⟩
  | cons s steps ih =>
    obtain hok | ⟨_, -, hfails⟩ := execute_write env (hsteps s mem_cons_self) w
    · obtain ⟨w', hrest⟩ := ih (fun t ht => hsteps t (mem_cons_of_mem _ ht)) _
      exact ⟨w', runSteps_cons_ok_iff.mpr ⟨_, hok, hrest⟩⟩
    · exact absurd hworks hfails

/-! ### The request -/

/-- A trap on one of the NNI ports is stored and installed on the root device only, exactly when
there are two ports and the flow names no meter; a fresh agent has none. -/
theorem first_trap_iff (mod : OfpFlowMod) (h : FreshAgent P order N ports env w)
    (hmod : mod.command = .add) (hp : p ∈ ports)
    (hflow : flowStatsEntryFromFlowModMessage env.hash mod = flow)
    (hin : getInPort flow = p.portNo) (hout : isControllerPort (getOutPort flow) = true) :
    (∃ w', Request.run env (.flow mod) w = .ok () w' ∧ w'.agent.logicalDevice.flows = [flow] ∧
      ∃ f, getInPort f = p.portNo ∧ ∀ d, w'.deviceFlows d =
        (Table.merge flowKey (if d = N.root then [f] else []) (w.deviceFlows d)).all) ↔
      2 ≤ ports.length ∧ getMeterIdFromFlow flow = 0 := by
  have hadd : flowAddition env.hash [] mod = some ⟨flow, [flow], none⟩ := by
    rw [← hflow]
    unfold flowAddition
    simp [findOverlappingFlows, findFlows]
  have hrun : 2 ≤ ports.length → Request.run env (.flow mod) w =
      runSteps env (flowAdd env mod w.agent.logicalDevice) w := by
    intro hlen
    have hsteps : (Request.flow mod).steps env w.agent.logicalDevice =
        flowAdd env mod w.agent.logicalDevice := by
      simp only [Request.steps, (h.routed hlen).1, Request.operation, updateFlowTable, hmod]
    rw [Request.run, hsteps]
  constructor
  · rintro ⟨w', hok, -⟩
    have hlen : 2 ≤ ports.length := by
      by_contra hlen
      rw [Request.run, Request.steps, h.refused (ne_nil_of_mem hp) (by omega)] at hok
      exact runSteps_fail_ne_ok hok
    refine ⟨hlen, by_contra fun hmeter => ?_⟩
    rw [hrun hlen] at hok
    obtain ⟨hnone, -⟩ | ⟨addition, _, _, hadded, hconfig, -⟩ := flowAdd_ok hok
    · rw [h.fresh, hadd] at hnone
      cases hnone
    · rw [h.fresh, hadd] at hadded
      cases hadded
      rw [h.fresh] at hconfig
      exact absurd (getMeterConfig_ok hconfig flow (by simp) hmeter) (by simp)
  · rintro ⟨hlen, hmeter⟩
    obtain ⟨hok, hempty, hroots⟩ := h.routed hlen
    have hnni : isNNIPort env.topology p.portNo = true := h.offers.isNNIPort_iff.mpr
      (mem_portNumbers_nniPorts.mpr ⟨p, hp, (h.uplinks p hp).1, rfl⟩)
    obtain ⟨dec, f, hdec, hf, hrules⟩ := decomposeRules_first (H := env.hash) (h.uplinks p hp).2.2
      hin hout hnni hempty (hroots p hp) ((h.offers.isRoot _).mpr h.offers.rootDevice)
    rw [h.offers.rootDevice] at hrules
    have hconfig : getMeterConfig [flow] [] = .ok ⟨[]⟩ := by
      simp [getMeterConfig, getMeterConfigLoop, hmeter]
    obtain ⟨w1, hdevices⟩ := updateDevices_willing h.willing dec.rules (some ⟨[]⟩)
      fun d hd => (hrules d).2 hd ▸ h.known
    have hsteps : flowAdd env mod w.agent.logicalDevice =
        .devices .add dec.rules (some ⟨[]⟩) :: .writeFlows [flow] ::
          writeCounted (updateFlowCountOfMeterStats mod.command [] flow) := by
      simp only [flowAdd, h.fresh, hadd, hconfig, hdec, Option.isNone_none, if_true]
      rfl
    have hlater : ∀ s ∈ Step.writeFlows [flow] ::
        writeCounted (updateFlowCountOfMeterStats mod.command [] flow), s.isWrite = true :=
      forall_mem_cons.mpr ⟨rfl, isWrite_of_mem_writeCounted⟩
    obtain ⟨w', hwrites⟩ := runSteps_writes h.works hlater w1
    have hok : runSteps env (flowAdd env mod w.agent.logicalDevice) w = .ok () w' := by
      rw [hsteps]
      exact runSteps_cons_ok_iff.mpr ⟨w1, hdevices, hwrites⟩
    obtain ⟨hnone, -⟩ | ⟨_, _, _, hadded, -, hdec', hupdated, hld⟩ := flowAdd_ok hok
    · rw [h.fresh, hadd] at hnone
      cases hnone
    · rw [h.fresh, hadd] at hadded
      cases hadded
      rw [h.fresh] at hdec'
      cases hdec.symm.trans hdec'
      refine ⟨w', (hrun hlen).trans hok, by rw [hld], f, hf, fun d => ?_⟩
      rw [deviceFlows_of_add (hupdated d), (hrules d).1]

/-! ### A root device alone -/

def barePlant : Plant where
  olt := { exampleOlt with ports := exampleOlt.ports.take 3 }
  onus := []
  lookup id := if id = "olt" then .ok { exampleOlt with ports := exampleOlt.ports.take 3 }
    else .error (.status .notFound id)
  lookup_id id device h := by
    split_ifs at h with hid
    cases h
    exact hid.symm
  olt_found := rfl
  onu_found := by simp
  olt_not_onu := by simp
  pon := by simp
  peers port hport htype :=
    have hnone : ∀ port ∈ exampleOlt.ports.take 3, port.type ≠ .ponOlt := by decide
    absurd htype (hnone port hport)

theorem stands_bare (h : ports ⊆ [nniPort 10, nniPort 11]) :
    ∀ p ∈ ports, p.rootPort = true ∧ barePlant.Stands p ∧ p.portNo ≠ 0 := by
  intro p hp
  have hstands : ∀ p ∈ [nniPort 10, nniPort 11], p.rootPort = true ∧ barePlant.Stands p ∧
      p.portNo ≠ 0 := by
    unfold Plant.Stands
    decide
  exact hstands p (h hp)

noncomputable def bareEnv {ports : List LogicalPort} (h : ports ⊆ [nniPort 10, nniPort 11]) : Env :=
  let x := generateDeviceRoutesIfNeeded (barePlant.env .listed) ports
  let dr := afterCall x newDeviceRoutes
  { workingEnv sizeHash (offered (barePlant.numbering ports fun p hp => (stands_bare h p hp).2.1)
      ports dr (dr.routes.entries.map fun e => (e.1, e.2))) with
    routes := result x newDeviceRoutes }

theorem freshAgent_bareEnv (h : ports ⊆ [nniPort 10, nniPort 11])
    (hnum : (portNumbers ports).Nodup) :
    FreshAgent barePlant .listed (barePlant.numbering ports fun p hp => (stands_bare h p hp).2.1)
      ports (bareEnv h) emptyWorld where
  uplinks := stands_bare h
  lists := Plant.numbering_lists _ hnum
  routes := rfl
  offers := offers_offered _ _ _ (.refl _)
  works := ⟨rfl, rfl, rfl⟩
  willing _ := ⟨true, rfl⟩
  fresh := rfl
  known h := by cases h

def firstTrap : OfpFlowMod where
  ofpMatch := some ⟨.oxm, [.openflowBasic (inPort 10)]⟩
  instructions := [⟨OFPIT_APPLY_ACTIONS, some (.actions [output OFPP_CONTROLLER])⟩]

theorem first_trap_two_uplinks : ∃ w' f,
    Request.run (bareEnv (List.Subset.refl [nniPort 10, nniPort 11])) (.flow firstTrap) emptyWorld =
      .ok () w' ∧
    w'.agent.logicalDevice.flows = [flowStatsEntryFromFlowModMessage sizeHash firstTrap] ∧
    getInPort f = 10 ∧ w'.deviceFlows "olt" = [f] := by
  have hfresh := freshAgent_bareEnv (List.Subset.refl [nniPort 10, nniPort 11]) (by decide)
  obtain ⟨w', hrun, hflows, f, hf, hdevices⟩ := (first_trap_iff firstTrap hfresh
    (p := nniPort 10) rfl (by simp) rfl (by decide) (by decide)).mpr (by decide)
  exact ⟨w', f, hrun, hflows, hf, hdevices "olt"⟩

/-- With one uplink the same request is refused. -/
theorem first_trap_one_uplink :
    let h : [nniPort 10] ⊆ [nniPort 10, nniPort 11] := by simp
    FreshAgent barePlant .listed (barePlant.numbering _ fun p hp => (stands_bare h p hp).2.1)
      [nniPort 10] (bareEnv h) emptyWorld ∧
    getInPort (flowStatsEntryFromFlowModMessage sizeHash firstTrap) = 10 ∧
    isControllerPort (getOutPort (flowStatsEntryFromFlowModMessage sizeHash firstTrap)) = true ∧
    Request.run (bareEnv h) (.flow firstTrap) emptyWorld =
      .error (.status .failedPrecondition "not-enough-logical-ports") emptyWorld :=
  ⟨freshAgent_bareEnv _ (by decide), by decide, by decide, rfl⟩

end VolthaCore.Logical
