import VolthaCore.Logical.GroupDeletion
import VolthaCore.Logical.Integrity

/-! Meters and the flows that name them. The flow count of a meter is kept by hand: it
follows the flows that are appended and those that are deleted strictly, but not the
flows that go with a wildcard deletion or with a group, and not a replacement that
changes the meter. A deleted meter takes its flows along, but only on the logical
device. -/

namespace VolthaCore.Logical

open OpenFlow Decomposition Outcome Runs Table List

variable {env : Env} {w w' : World}

/-! ### Flow counts -/

/-- Every flow count is the number of flows that name the meter. -/
def CountsExact (ld : LogicalDevice) : Prop :=
  ∀ m ∈ ld.meters, m.stats.flowCount.toNat = ld.flows.countP (namesMeter (meterId m))

/-- A flow request changes no meter reference that it does not count: a replaced flow
keeps its meter, the count of an appended flow's meter does not overflow, and the
flows that go with a wildcard deletion have no meter. -/
def FlowKeepsCounts (H : HashEnv) (ld : LogicalDevice) (mod : OfpFlowMod) : Prop :=
  match mod.command with
  | .add => ∀ addition, flowAddition H ld.flows mod = some addition →
      (∀ old ∈ addition.replaced, getMeterIdFromFlow old = getMeterIdFromFlow addition.flow) ∧
      (addition.replaced = none →
        ld.flows.countP (namesMeter (getMeterIdFromFlow addition.flow)) + 1 < UInt32.size)
  | .delete => ∀ f ∈ ld.flows, deletes H mod f = true → getMeterIdFromFlow f = 0
  | _ => True

/-- The same for every request; the flows that go with a group have no meter. -/
def KeepsCounts (H : HashEnv) (ld : LogicalDevice) : Request → Prop
  | .flow mod => FlowKeepsCounts H ld mod
  | .group mod => mod.command = .delete → ∀ deletion, groupDeletion mod ld = some deletion →
      deletion.flowsChanged = true →
      ∀ f ∈ ld.flows, avoids (deletedGroups mod ld) f = false → getMeterIdFromFlow f = 0
  | .meter _ => True

section Counts
variable {flows flows' : List OfpFlowStats} {id : UInt32}

theorem namesMeter_iff {f : OfpFlowStats} :
    namesMeter id f = true ↔ getMeterIdFromFlow f ≠ 0 ∧ getMeterIdFromFlow f = id := by
  simp [namesMeter]

theorem countP_namesMeter_congr (h : flows'.map getMeterIdFromFlow = flows.map getMeterIdFromFlow)
    (id : UInt32) : flows'.countP (namesMeter id) = flows.countP (namesMeter id) := by
  have hcomp : namesMeter id = (fun m => decide (m ≠ 0) && decide (m = id)) ∘ getMeterIdFromFlow :=
    rfl
  rw [hcomp, ← countP_map, ← countP_map, h]

theorem countP_filter_namesMeter {keep : OfpFlowStats → Bool}
    (h : ∀ f ∈ flows, namesMeter id f = true → keep f = true) :
    (flows.filter keep).countP (namesMeter id) = flows.countP (namesMeter id) := by
  rw [countP_filter]
  refine countP_congr fun f hf => ?_
  simpa using h f hf

end Counts

section Operations
variable {ld ld' : LogicalDevice}

/-- The counts stay exact if the meters stay and every meter is named as often as
before. -/
theorem CountsExact.of_meters_eq (h : CountsExact ld) (hmeters : ld'.meters = ld.meters)
    (hflows : ∀ m ∈ ld.meters,
      ld'.flows.countP (namesMeter (meterId m)) = ld.flows.countP (namesMeter (meterId m))) :
    CountsExact ld' := by
  intro m hm
  rw [hmeters] at hm
  rw [h m hm, hflows m hm]

/-- Counting the meter of a flow is right if the flows change by that flow only. -/
theorem CountsExact.counted (h : CountsExact ld) (hids : (ld.meters.map meterId).Nodup)
    (command : OfpFlowModCommand) (change : UInt32 → UInt32) (flow : OfpFlowStats)
    (hchange : flowCountChange command = some change)
    (hmeters : ld'.meters = (updateFlowCountOfMeterStats command ld.meters flow).2)
    (hother : ∀ id, namesMeter id flow = false →
      ld'.flows.countP (namesMeter id) = ld.flows.countP (namesMeter id))
    (hself : ∀ c : UInt32, namesMeter (getMeterIdFromFlow flow) flow = true →
      c.toNat = ld.flows.countP (namesMeter (getMeterIdFromFlow flow)) →
      (change c).toNat = ld'.flows.countP (namesMeter (getMeterIdFromFlow flow))) :
    CountsExact ld' := by
  intro m hm
  rw [hmeters, updateFlowCountOfMeterStats, hchange] at hm
  dsimp only at hm
  split_ifs at hm with hcounted
  · rcases mem_editFirst meterId hids hm with ⟨hm, hne⟩ | ⟨x, hx, hid, rfl⟩
    · rw [h m hm, hother]
      simpa [namesMeter] using fun _ => hne.symm
    · have hcount := hself x.stats.flowCount (namesMeter_iff.mpr ⟨hcounted.1, rfl⟩)
        (hid ▸ h x hx)
      rw [← hid] at hcount
      exact hcount
  · rw [h m hm, hother]
    by_contra hnames
    obtain ⟨hne, hid⟩ := namesMeter_iff.mp (by simpa using hnames)
    exact hcounted ⟨hne, hid ▸ mem_map_of_mem hm⟩

variable {mod : OfpFlowMod}

theorem countsExact_flowAdd (hids : (w.agent.logicalDevice.meters.map meterId).Nodup)
    (hcommand : mod.command = .add)
    (hrun : runSteps env (flowAdd env mod w.agent.logicalDevice) w = .ok () w')
    (hkeeps : FlowKeepsCounts env.hash w.agent.logicalDevice mod)
    (h : CountsExact w.agent.logicalDevice) : CountsExact w'.agent.logicalDevice := by
  obtain ⟨-, rfl⟩ | ⟨addition, metadata, dec, hadd, -, -, -, hld⟩ := flowAdd_ok hrun
  · exact h
  · simp only [FlowKeepsCounts, hcommand] at hkeeps
    obtain ⟨hmeter, hroom⟩ := hkeeps addition hadd
    obtain ⟨rest, hnew, hold⟩ := flowAddition_perm hadd
    rw [hld]
    cases hreplaced : addition.replaced with
    | some old =>
      rw [hreplaced] at hold
      have hsame : ∀ id, namesMeter id addition.flow = namesMeter id old := fun id => by
        simp only [namesMeter, hmeter old hreplaced]
      refine h.of_meters_eq rfl fun m _ => ?_
      dsimp only
      rw [hnew.countP_eq, hold.countP_eq, Option.toList_some, singleton_append,
        countP_cons, countP_cons, hsame]
    | none =>
      rw [hreplaced] at hold
      have hflows : ∀ id, addition.flows.countP (namesMeter id) =
          w.agent.logicalDevice.flows.countP (namesMeter id) +
            if namesMeter id addition.flow then 1 else 0 := by
        intro id
        rw [hnew.countP_eq, hold.countP_eq, countP_cons]
        simp
      refine h.counted hids .add (· + 1) addition.flow rfl ?_ ?_ ?_
      · simp [hcommand]
      · intro id hid
        simp [hflows, hid]
      · intro c hnames hc
        dsimp only
        have hlt := hroom hreplaced
        rw [← hc] at hlt
        rw [hflows, if_pos hnames, ← hc, UInt32.toNat_add]
        exact Nat.mod_eq_of_lt hlt

theorem countsExact_flowDelete (hcommand : mod.command = .delete)
    (hrun : runSteps env (flowDelete env mod w.agent.logicalDevice) w = .ok () w')
    (hkeeps : FlowKeepsCounts env.hash w.agent.logicalDevice mod)
    (h : CountsExact w.agent.logicalDevice) : CountsExact w'.agent.logicalDevice := by
  obtain ⟨-, rfl⟩ | ⟨metadata, dec, -, -, hld⟩ := flowDelete_ok hrun
  · exact h
  · simp only [FlowKeepsCounts, hcommand] at hkeeps
    rw [hld]
    refine h.of_meters_eq rfl fun m _ => countP_filter_namesMeter fun f hf hnames => ?_
    cases hdeletes : deletes env.hash mod f with
    | false => rfl
    | true => exact absurd (hkeeps f hf hdeletes) (namesMeter_iff.mp hnames).1

/-- A count never wraps below zero, since the deleted flow was counted. -/
theorem countsExact_flowDeleteStrict (hids : (w.agent.logicalDevice.meters.map meterId).Nodup)
    (hcommand : mod.command = .deleteStrict)
    (hrun : runSteps env (flowDeleteStrict env mod w.agent.logicalDevice) w = .ok () w')
    (h : CountsExact w.agent.logicalDevice) : CountsExact w'.agent.logicalDevice := by
  obtain ⟨removal, metadata, dec, hremoval, -, -, hld⟩ := flowDeleteStrict_ok hrun
  have hflows : ∀ id, w.agent.logicalDevice.flows.countP (namesMeter id) =
      removal.flows.countP (namesMeter id) + if namesMeter id removal.flow then 1 else 0 := by
    intro id
    rw [← (flowRemoval_perm hremoval).countP_eq, countP_cons]
  rw [hld]
  refine h.counted hids .deleteStrict (· - 1) removal.flow rfl ?_ ?_ ?_
  · simp [hcommand]
  · intro id hid
    simp [hflows, hid]
  · intro c hnames hc
    rw [hflows, if_pos hnames] at hc
    have hone : (1 : UInt32) ≤ c := by
      rw [UInt32.le_iff_toNat_le, hc]
      simp
    dsimp only
    rw [UInt32.toNat_sub_of_le _ _ hone, hc]
    simp

theorem countsExact_groupDelete {mod : OfpGroupMod} (hcommand : mod.command = .delete)
    (hrun : runSteps env (groupDelete env mod w.agent.logicalDevice) w = .ok () w')
    (hkeeps : KeepsCounts env.hash w.agent.logicalDevice (.group mod))
    (h : CountsExact w.agent.logicalDevice) : CountsExact w'.agent.logicalDevice := by
  cases hdeletion : groupDeletion mod w.agent.logicalDevice with
  | none =>
    simp only [groupDelete, hdeletion] at hrun
    cases hrun
    exact h
  | some deletion =>
    obtain ⟨dec, hdec, -, hld⟩ := groupDelete_ok hrun hdeletion
    rw [hld]
    refine h.of_meters_eq rfl fun m _ => ?_
    dsimp only
    split_ifs with hchanged
    · obtain ⟨-, hflows, hiff⟩ := groupDeletion_eq_some hdeletion
      rw [countP_namesMeter_congr (map_decomposeRules_flows hdec fun _ => rfl), hflows,
        if_neg (hiff.mp hchanged).1]
      refine countP_filter_namesMeter fun f hf hnames => ?_
      by_contra havoids
      exact (namesMeter_iff.mp hnames).1
        (hkeeps hcommand deletion hdeletion hchanged f hf (by simpa using havoids))
    · rfl

theorem countsExact_updateMeterTable {mod : OfpMeterMod} (hintegrity : Integrity ld)
    (h : CountsExact ld) : CountsExact (editSteps (updateMeterTable mod ld) ld) := by
  unfold updateMeterTable
  cases mod.command with
  | add =>
    simp only [meterAdd]
    split_ifs with hmem
    · exact h
    · intro m hm
      rcases mem_append.mp hm with hm | hm
      · exact h m hm
      · -- a flow that names the new meter would have named one that did not exist
        rw [mem_singleton.mp hm]
        refine (countP_eq_zero.mpr fun f hf hnames => ?_).symm
        obtain ⟨hne, hid⟩ := namesMeter_iff.mp hnames
        have hmeter := hintegrity.references f hf hne
        rw [hid] at hmeter
        exact hmem hmeter
  | modify =>
    simp only [meterModify]
    split_ifs with hmem
    · intro m hm
      rcases mem_editFirst meterId hintegrity.meters hm with ⟨hm, -⟩ | ⟨x, hx, hid, rfl⟩
      · exact h m hm
      · have hcount := h x hx
        rw [hid] at hcount
        exact hcount
    · exact h
  | delete =>
    cases hindex : indexOf meterId ld.meters mod.meterId with
    | none =>
      simp only [meterDelete, hindex]
      exact h
    | some index =>
      dsimp only
      rw [editSteps_meterDelete hindex]
      intro m hm
      have hne : meterId m ≠ mod.meterId := by
        have hcount : (ld.meters.map meterId).count mod.meterId = 1 :=
          count_eq_one_of_mem hintegrity.meters (mem_keys_of_indexOf meterId hindex)
        have hkept := ((sameEntries_eraseIdx_iff meterId hindex).mpr hcount m).mp hm
        simpa using (mem_filter.mp hkept).2
      rw [h m (mem_of_mem_eraseIdx hm)]
      refine (countP_filter_namesMeter fun f _ hnames => ?_).symm
      obtain ⟨-, hid⟩ := namesMeter_iff.mp hnames
      simp [namesMeter, hid, hne]

end Operations

section Runs
variable {request : Request}

theorem integrity_of_run_ok (hrun : request.run env w = .ok () w')
    (h : Integrity w.agent.logicalDevice) : Integrity w'.agent.logicalDevice := by
  rw [logicalDevice_of_ok (Request.run_ok hrun)]
  exact integrity_editSteps h (append_nil _).symm fun _ => .inr rfl

theorem countsExact_step (hrun : request.run env w = .ok () w')
    (hkeeps : KeepsCounts env.hash w.agent.logicalDevice request)
    (hintegrity : Integrity w.agent.logicalDevice) (h : CountsExact w.agent.logicalDevice) :
    CountsExact w'.agent.logicalDevice := by
  cases request with
  | flow mod =>
    obtain ⟨hcommand, hrun⟩ | ⟨hcommand, hrun⟩ | ⟨hcommand, hrun⟩ := Request.flow_run_ok hrun
    · exact countsExact_flowAdd hintegrity.meters hcommand hrun hkeeps h
    · exact countsExact_flowDelete hcommand hrun hkeeps h
    · exact countsExact_flowDeleteStrict hintegrity.meters hcommand hrun h
  | group mod =>
    replace hrun := Request.run_ok hrun
    simp only [Request.operation, updateGroupTable] at hrun
    cases hcommand : mod.command with
    | add =>
      simp only [hcommand, groupAdd] at hrun
      rw [logicalDevice_of_ok hrun]
      split <;> exact h
    | modify =>
      simp only [hcommand, groupModify] at hrun
      rw [logicalDevice_of_ok hrun]
      split <;> exact h
    | delete =>
      simp only [hcommand] at hrun
      exact countsExact_groupDelete hcommand hrun hkeeps h
  | meter mod =>
    rw [logicalDevice_of_ok (Request.run_ok hrun)]
    exact countsExact_updateMeterTable hintegrity h

/-- From empty tables, the flow counts are exact in every run of requests that return
and change no meter reference that they do not count. -/
theorem countsExact_of_keepsCounts {inputs : List (Env × Request)} {w₀ : World}
    (hempty : w₀.agent.logicalDevice = {})
    (hreturns : Along requestStep (fun w r => returns (r.2.run r.1) w = true) inputs w₀)
    (hkeeps : Along requestStep (fun w r => KeepsCounts r.1.hash w.agent.logicalDevice r.2)
      inputs w₀) : CountsExact (run requestStep inputs w₀).agent.logicalDevice := by
  refine (run_invariant (P := fun w => Integrity w.agent.logicalDevice ∧
    CountsExact w.agent.logicalDevice) ?_ (hreturns.and hkeeps) ?_).2
  · rintro w ⟨env, request⟩ ⟨hok, hkeeps⟩ ⟨hintegrity, h⟩
    obtain ⟨_, hrun⟩ := returns_iff.mp hok
    exact ⟨integrity_of_run_ok hrun hintegrity, countsExact_step hrun hkeeps hintegrity h⟩
  · rw [hempty]
    exact ⟨⟨nodup_nil, nodup_nil, by simp [References]⟩, by simp [CountsExact]⟩

end Runs

/-- A meter is added, a flow that names it, and the flow is deleted strictly. -/
theorem countsExact_after_strict_deletion :
    CountsExact (run requestStep [(workingEnv sizeHash oneLeaf, .meter { meterId := 1 }),
      (workingEnv sizeHash oneLeaf, .flow (leafMod .add 0 [meterInstruction 1])),
      (workingEnv sizeHash oneLeaf, .flow (leafMod .deleteStrict))]
      emptyWorld).agent.logicalDevice := by
  refine countsExact_of_keepsCounts rfl ⟨by decide, by decide, by decide, trivial⟩
    ⟨trivial, fun addition hadd => ?_, trivial, trivial⟩
  obtain rfl := Option.some.inj hadd
  exact ⟨by simp, fun _ => by decide⟩

/-- A wildcard deletion of the flow leaves the meter with one flow. -/
theorem wildcard_deletion_is_not_counted :
    Along requestStep (fun w r => returns (r.2.run r.1) w = true)
      [(workingEnv sizeHash oneLeaf, .meter { meterId := 1 }),
        (workingEnv sizeHash oneLeaf, .flow (leafMod .add 0 [meterInstruction 1])),
        (workingEnv sizeHash oneLeaf, .flow (leafMod .delete))] emptyWorld ∧
    ¬ CountsExact (run requestStep [(workingEnv sizeHash oneLeaf, .meter { meterId := 1 }),
      (workingEnv sizeHash oneLeaf, .flow (leafMod .add 0 [meterInstruction 1])),
      (workingEnv sizeHash oneLeaf, .flow (leafMod .delete))]
      emptyWorld).agent.logicalDevice := by
  refine ⟨⟨by decide, by decide, by decide, trivial⟩, ?_⟩
  unfold CountsExact
  decide

/-! ### Deleting a meter -/

/-- The meter and the flows that name it are gone, and the devices store the
decomposition of the other flows. -/
structure DeletedEverywhere (H : HashEnv) (T : Topology) (id : UInt32) (w w' : World) : Prop where
  meters : SameEntries w'.agent.logicalDevice.meters
    (w.agent.logicalDevice.meters.filter fun m => meterId m ≠ id)
  flows : w'.agent.logicalDevice.flows =
    w.agent.logicalDevice.flows.filter fun f => !namesMeter id f
  devices : StoresRules H T w'

/-- Two lists of flows have the same rules on every device. -/
def SameRules (H : HashEnv) (T : Topology) (groups : List OfpGroupEntry)
    (flows flows' : List OfpFlowStats) : Prop :=
  ∀ dec dec', decomposeRules H T flows groups = .ok dec →
    decomposeRules H T flows' groups = .ok dec' →
    ∀ d, SameEntries (dec.rules.flowsOf d) (dec'.rules.flowsOf d)

section MeterDelete
variable {mod : OfpMeterMod}

/-- No device is told about a deleted meter. -/
theorem meterDelete_ok {index : ℕ}
    (hindex : indexOf meterId w.agent.logicalDevice.meters mod.meterId = some index)
    (h : runSteps env (meterDelete mod w.agent.logicalDevice) w = .ok () w') :
    w'.devices = w.devices ∧ w'.agent.logicalDevice = { w.agent.logicalDevice with
      flows := w.agent.logicalDevice.flows.filter fun f => !namesMeter mod.meterId f
      meters := w.agent.logicalDevice.meters.eraseIdx index } := by
  refine ⟨devices_of_writes (isWrite_of_mem_meterDelete mod _) h, ?_⟩
  rw [logicalDevice_of_ok h, editSteps_meterDelete hindex]

/-- Devices that are left alone store the rules of other flows only if these are the
same rules. -/
theorem storesRules_iff_sameRules {H : HashEnv} {T : Topology} (hstores : StoresRules H T w)
    (hdevices : w'.devices = w.devices)
    (hgroups : w'.agent.logicalDevice.flowGroups = w.agent.logicalDevice.flowGroups)
    (hflows : ∀ f ∈ w'.agent.logicalDevice.flows, f ∈ w.agent.logicalDevice.flows) :
    StoresRules H T w' ↔ SameRules H T w.agent.logicalDevice.flowGroups
      w.agent.logicalDevice.flows w'.agent.logicalDevice.flows := by
  obtain ⟨dec, hdec, hstored⟩ := hstores
  obtain ⟨dec', hdec'⟩ : ∃ dec', decomposeRules H T w'.agent.logicalDevice.flows
      w.agent.logicalDevice.flowGroups = .ok dec' :=
    exists_decomposeRules fun f hf => decomposeFlow_of_mem hdec (hflows f hf)
  have hsame : ∀ d, w'.deviceFlows d = w.deviceFlows d := fun d =>
    (deviceFlows_congr (congrFun hdevices d)).1
  unfold StoresRules
  rw [hgroups]
  constructor
  · rintro ⟨dec1, hdec1, hstored1⟩ dec2 dec3 hdec2 hdec3 d x
    obtain rfl := Except.ok.inj (hdec.symm.trans hdec2)
    obtain rfl := Except.ok.inj (hdec1.symm.trans hdec3)
    rw [← hstored d x, ← hsame d]
    exact hstored1 d x
  · intro hrules
    refine ⟨dec', hdec', fun d x => ?_⟩
    rw [hsame d, hstored d x]
    exact hrules dec dec' hdec hdec' d x

/-- A deleted meter is deleted everywhere exactly if no other meter has its identifier
and the flows that name it have no rules of their own on any device. -/
theorem deletedEverywhere_iff (hcommand : mod.command = .delete)
    (hpresent : mod.meterId ∈ w.agent.logicalDevice.meters.map meterId)
    (hstores : StoresRules env.hash env.topology w)
    (hrun : (Request.meter mod).run env w = .ok () w') :
    DeletedEverywhere env.hash env.topology mod.meterId w w' ↔
      (w.agent.logicalDevice.meters.map meterId).count mod.meterId = 1 ∧
      SameRules env.hash env.topology w.agent.logicalDevice.flowGroups w.agent.logicalDevice.flows
        (w.agent.logicalDevice.flows.filter fun f => !namesMeter mod.meterId f) := by
  obtain ⟨index, hindex⟩ := Option.ne_none_iff_exists'.mp fun hnone =>
    (indexOf_eq_none_iff meterId _ _).mp hnone hpresent
  replace hrun := Request.run_ok hrun
  simp only [Request.operation, updateMeterTable, hcommand] at hrun
  obtain ⟨hdevices, hld⟩ := meterDelete_ok hindex hrun
  have hmeters := sameEntries_eraseIdx_iff meterId hindex
  have hrules := storesRules_iff_sameRules hstores hdevices (by rw [hld])
    (by rw [hld]; exact fun f hf => (mem_filter.mp hf).1)
  rw [hld] at hrules
  constructor
  · rintro ⟨hm, -, hd⟩
    rw [hld] at hm
    exact ⟨hmeters.mp hm, hrules.mp hd⟩
  · rintro ⟨hcount, hsame⟩
    refine ⟨?_, by rw [hld], hrules.mpr hsame⟩
    rw [hld]
    exact hmeters.mpr hcount

end MeterDelete

theorem storesRules_leafWorld (instructions : List OfpInstruction) (flowCount : UInt32)
    {dec : DecomposedFlows}
    (hdec : decomposeRules sizeHash oneLeaf [leafFlow instructions] [] = .ok dec)
    (hkeys : dec.rules.keys = ["onu"])
    (hrule : SameEntries (ruleFlows sizeHash oneLeaf [] (leafFlow instructions) "onu")
      (dec.rules.flowsOf "onu")) :
    StoresRules sizeHash oneLeaf (leafWorld instructions flowCount) := by
  refine ⟨dec, hdec, fun d => ?_⟩
  rw [leafWorld, deviceFlows_oneLeafWorld]
  by_cases hd : d = "onu"
  · subst hd
    exact hrule
  · rw [DeviceRules.flowsOf_eq_nil (by simpa [hkeys] using hd)]
    split_ifs <;> exact fun x => Iff.rfl

theorem deletedEverywhere_unnamed_meter :
    DeletedEverywhere sizeHash oneLeaf 1 (leafWorld [] 0) (requestStep (leafWorld [] 0)
      (workingEnv sizeHash oneLeaf, .meter { command := .delete, meterId := 1 })) := by
  have hreturns : returns ((Request.meter { command := .delete, meterId := 1 }).run
      (workingEnv sizeHash oneLeaf)) (leafWorld [] 0) = true := by decide
  have hstores : StoresRules (workingEnv sizeHash oneLeaf).hash
      (workingEnv sizeHash oneLeaf).topology (leafWorld [] 0) :=
    storesRules_leafWorld [] 0 rfl (by decide) (by decide)
  have hrules : SameRules sizeHash oneLeaf [] [leafFlow []]
      ([leafFlow []].filter fun f => !namesMeter 1 f) := by
    rw [show ([leafFlow []].filter fun f => !namesMeter 1 f) = [leafFlow []] by decide]
    intro dec dec' hdec hdec' d x
    rw [Except.ok.inj (hdec.symm.trans hdec')]
  obtain ⟨_, hrun⟩ := returns_iff.mp hreturns
  exact (deletedEverywhere_iff rfl (by decide) hstores hrun).mpr ⟨by decide, hrules⟩

/-- The leaf device keeps the rule of a flow that went with its meter. -/
theorem deleted_meter_leaves_rule :
    StoresRules sizeHash oneLeaf (leafWorld [meterInstruction 1] 1) ∧
    returns ((Request.meter { command := .delete, meterId := 1 }).run
      (workingEnv sizeHash oneLeaf)) (leafWorld [meterInstruction 1] 1) = true ∧
    ¬ DeletedEverywhere sizeHash oneLeaf 1 (leafWorld [meterInstruction 1] 1)
      (requestStep (leafWorld [meterInstruction 1] 1)
        (workingEnv sizeHash oneLeaf, .meter { command := .delete, meterId := 1 })) := by
  refine ⟨storesRules_leafWorld [meterInstruction 1] 1 rfl (by decide) (by decide), by decide, ?_⟩
  rintro ⟨-, -, dec, hdec, hstored⟩
  obtain rfl := Except.ok.inj hdec
  exact absurd (hstored "onu") (by decide)

end VolthaCore.Logical
