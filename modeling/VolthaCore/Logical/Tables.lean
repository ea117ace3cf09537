import VolthaCore.Decomposition.Union
import VolthaCore.Logical.Agent

/-! The flow, group and meter operations of `logical_device_agent.go`. An operation
reads the cached logical device and is given by the steps it goes through, in the
order of the source: what is checked, which devices are updated, which tables are
written. The three table requests choose the operation by their command, after the
routes have been brought up to date. -/

namespace VolthaCore.Logical

open OpenFlow Decomposition Devices Outcome List Option Table

/-! ### Meters of flows -/

def meterId (m : OfpMeterEntry) : UInt32 := m.config.meterId

/-- The configurations of the meters that the flows name, each once. -/
def getMeterConfigLoop (meters : List OfpMeterEntry) :
    List OfpFlowStats → List UInt32 → List OfpMeterConfig → Except Err FlowMetadata
  | [], _, configs => .ok ⟨configs⟩
  | flow :: rest, seen, configs =>
    let flowMeterID := getMeterIdFromFlow flow
    if flowMeterID ≠ 0 ∧ flowMeterID ∉ seen then
      match Table.lookup meterId meters flowMeterID with
      | some meter =>
        getMeterConfigLoop meters rest (flowMeterID :: seen) (configs ++ [meter.config])
      | none => .error (.plain "Meter-referred-by-flow-is-not-found-in-logicaldevice")
    else getMeterConfigLoop meters rest seen configs

def getMeterConfig (flows : List OfpFlowStats) (meters : List OfpMeterEntry) :
    Except Err FlowMetadata := getMeterConfigLoop meters flows [] []

variable {meters : List OfpMeterEntry} {flows : List OfpFlowStats} {metadata : FlowMetadata}
  {counted : Bool × List OfpMeterEntry} {env : Env} {w w' : World}

theorem getMeterConfigLoop_ok {seen : List UInt32} {configs : List OfpMeterConfig}
    (hseen : ∀ id ∈ seen, id ∈ meters.map meterId)
    (h : getMeterConfigLoop meters flows seen configs = .ok metadata) :
    ∀ f ∈ flows, getMeterIdFromFlow f ≠ 0 → getMeterIdFromFlow f ∈ meters.map meterId := by
  induction flows generalizing seen configs with
  | nil => simp
  | cons flow rest ih =>
    rw [getMeterConfigLoop] at h
    simp only [mem_cons, forall_eq_or_imp]
    by_cases hnew : getMeterIdFromFlow flow ≠ 0 ∧ getMeterIdFromFlow flow ∉ seen
    · rw [if_pos hnew] at h
      cases hmeter : lookup meterId meters (getMeterIdFromFlow flow) with
      | none => simp [hmeter] at h
      | some meter =>
        have hpresent := mem_keys_of_lookup meterId hmeter
        simp only [hmeter] at h
        refine ⟨fun _ => hpresent, ih (fun id hid => ?_) h⟩
        rcases mem_cons.mp hid with rfl | hid
        · exact hpresent
        · exact hseen id hid
    · rw [if_neg hnew] at h
      refine ⟨fun hid => ?_, ih hseen h⟩
      by_contra hnot
      exact hnew ⟨hid, fun hs => hnot (hseen _ hs)⟩

theorem getMeterConfig_ok (h : getMeterConfig flows meters = .ok metadata) :
    ∀ f ∈ flows, getMeterIdFromFlow f ≠ 0 → getMeterIdFromFlow f ∈ meters.map meterId :=
  getMeterConfigLoop_ok (by simp) h

/-- How a flow command changes the flow count of a meter. -/
def flowCountChange : OfpFlowModCommand → Option (UInt32 → UInt32)
  | .add => some (· + 1)
  | .deleteStrict => some (· - 1)
  | _ => none

def setFlowCount (change : UInt32 → UInt32) (m : OfpMeterEntry) : OfpMeterEntry :=
  { m with stats := { m.stats with flowCount := change m.stats.flowCount } }

/-- The first meter that the flow names, and whether there was one to change. -/
def updateFlowCountOfMeterStats (command : OfpFlowModCommand) (meters : List OfpMeterEntry)
    (flow : OfpFlowStats) : Bool × List OfpMeterEntry :=
  let meterID := getMeterIdFromFlow flow
  match flowCountChange command with
  | none => (false, meters)
  | some change =>
    if meterID ≠ 0 ∧ meterID ∈ meters.map meterId then
      (true, Table.editFirst (fun m => meterId m = meterID) (setFlowCount change) meters)
    else (false, meters)

def writeCounted (counted : Bool × List OfpMeterEntry) : List Step :=
  if counted.1 then [.writeMeters counted.2] else []

@[simp] theorem mem_writeCounted {s : Step} :
    s ∈ writeCounted counted ↔ counted.1 = true ∧ s = .writeMeters counted.2 := by
  unfold writeCounted
  split_ifs with h <;> simp [h]

theorem isWrite_of_mem_writeCounted : ∀ s ∈ writeCounted counted, s.isWrite = true := by
  intro s hs
  rw [(mem_writeCounted.mp hs).2]
  rfl

theorem updateFlowCountOfMeterStats_eq_of_not {command : OfpFlowModCommand} {flow : OfpFlowStats}
    (h : (updateFlowCountOfMeterStats command meters flow).1 = false) :
    (updateFlowCountOfMeterStats command meters flow).2 = meters := by
  unfold updateFlowCountOfMeterStats at h ⊢
  dsimp only at h ⊢
  cases hc : flowCountChange command with
  | none => rfl
  | some change =>
    simp only [hc] at h ⊢
    split_ifs at h ⊢
    rfl

/-- Writing the meters only if one changed leaves them as counted. -/
theorem editSteps_writeCounted (command : OfpFlowModCommand) (flow : OfpFlowStats)
    (ld : LogicalDevice) :
    editSteps (writeCounted (updateFlowCountOfMeterStats command ld.meters flow)) ld =
      { ld with meters := (updateFlowCountOfMeterStats command ld.meters flow).2 } := by
  unfold writeCounted
  split_ifs with h
  · rfl
  · rw [updateFlowCountOfMeterStats_eq_of_not (by simpa using h)]
    rfl

/-! ### Flows -/

/-- The flow that a request adds, the table with it, and the flow that it replaces
in place. -/
structure FlowAddition where
  flow : OfpFlowStats
  flows : List OfpFlowStats
  replaced : Option OfpFlowStats

/-- With `RESET_COUNTS` a flow takes over the counts of the one it replaces. -/
def withCounts (mod : OfpFlowMod) (oldFlow flow : OfpFlowStats) : OfpFlowStats :=
  if mod.flags &&& OFPFF_RESET_COUNTS ≠ 0 then
    { flow with byteCount := oldFlow.byteCount, packetCount := oldFlow.packetCount }
  else flow

/-- What `flowAdd` does to the table. With `CHECK_OVERLAP` the flow is appended
without looking for one that matches it. -/
def flowAddition (H : HashEnv) (flows : List OfpFlowStats) (mod : OfpFlowMod) :
    Option FlowAddition :=
  let flow := flowStatsEntryFromFlowModMessage H mod
  if mod.flags &&& OFPFF_CHECK_OVERLAP ≠ 0 then
    if findOverlappingFlows flows mod ≠ [] then none else some ⟨flow, flows ++ [flow], none⟩
  else
    match findFlows flows flow with
    | none => some ⟨flow, flows ++ [flow], none⟩
    | some idx =>
      flows[idx]?.bind fun oldFlow =>
        let flow := withCounts mod oldFlow flow
        if oldFlow = flow then none else some ⟨flow, flows.set idx flow, some oldFlow⟩

/-- The flow count of the meter goes up unless a flow was replaced. -/
def flowAdd (env : Env) (mod : OfpFlowMod) (ld : LogicalDevice) : List Step :=
  match flowAddition env.hash ld.flows mod with
  | none => []
  | some addition =>
    match getMeterConfig [addition.flow] ld.meters with
    | .error e => [.fail e]
    | .ok flowMetadata =>
      match decomposeRules env.hash env.topology [addition.flow] ld.flowGroups with
      | .error e => [.fail e]
      | .ok decomposed =>
        [.devices .add decomposed.rules (some flowMetadata), .writeFlows addition.flows] ++
          if addition.replaced.isNone then
            writeCounted (updateFlowCountOfMeterStats mod.command ld.meters addition.flow)
          else []

/-- Whether a wildcard deletion covers a flow. -/
def deletes (H : HashEnv) (mod : OfpFlowMod) (f : OfpFlowStats) : Bool :=
  flowMatch f (flowStatsEntryFromFlowModMessage H mod) || flowMatchesMod f mod

/-- The flow counts of the meters are left as they are. -/
def flowDelete (env : Env) (mod : OfpFlowMod) (ld : LogicalDevice) : List Step :=
  let toDelete := ld.flows.filter (deletes env.hash mod)
  let toKeep := ld.flows.filter fun f => !deletes env.hash mod f
  if toDelete.isEmpty then []
  else
    match getMeterConfig toDelete ld.meters with
    | .error _ => [.fail (.plain "Meter-referred-in-flows-not-present")]
    | .ok flowMetadata =>
      match decomposeRules env.hash env.topology toDelete ld.flowGroups with
      | .error e => [.fail e]
      | .ok decomposed =>
        [.devices .delete decomposed.rules (some flowMetadata), .writeFlows toKeep]

/-- The flow that a strict deletion finds, and the table without it. -/
structure FlowRemoval where
  flow : OfpFlowStats
  flows : List OfpFlowStats

def flowRemoval (H : HashEnv) (flows : List OfpFlowStats) (mod : OfpFlowMod) :
    Option FlowRemoval := do
  let idx ← findFlows flows (flowStatsEntryFromFlowModMessage H mod)
  let found ← flows[idx]?
  return ⟨found, flows.eraseIdx idx⟩

/-- The changed flow count is written before anything else can fail. -/
def flowDeleteStrict (env : Env) (mod : OfpFlowMod) (ld : LogicalDevice) : List Step :=
  match flowRemoval env.hash ld.flows mod with
  | none => [.fail (.plain ("Cannot delete flow - " ++
      env.hash.flowText (flowStatsEntryFromFlowModMessage env.hash mod)))]
  | some removal =>
    let counted := updateFlowCountOfMeterStats mod.command ld.meters removal.flow
    writeCounted counted ++
      match getMeterConfig [removal.flow] counted.2 with
      | .error e => [.fail e]
      | .ok flowMetadata =>
        match decomposeRules env.hash env.topology [removal.flow] ld.flowGroups with
        | .error e => [.fail e]
        | .ok decomposed =>
          [.devices .delete decomposed.rules (some flowMetadata), .writeFlows removal.flows]

/-! ### Groups -/

def groupRules (rootDeviceID : String) (group : OfpGroupEntry) : DeviceRules :=
  ((∅ : DeviceRules).createEntryIfNotExist rootDeviceID).addFlowsAndGroup rootDeviceID
    (.ofGroup group)

def groupAdd (env : Env) (mod : OfpGroupMod) (ld : LogicalDevice) : List Step :=
  match findGroup ld.flowGroups mod.groupId with
  | none =>
    let group := groupEntryFromGroupMod mod
    [.devices .add (groupRules env.topology.rootDeviceID group) (some {}),
      .writeGroups (ld.flowGroups ++ [group])]
  | some _ => [.fail (.plain ("Groups " ++ toString mod.groupId ++ " already present"))]

/-- What a group deletion leaves of the logical device, and whether flows went with
the group. -/
structure GroupDeletion where
  flows : List OfpFlowStats
  groups : List OfpGroupEntry
  flowsChanged : Bool

/-- Deleting all groups keeps the flows that output to them; deleting a group that
does not exist is a valid request. -/
def groupDeletion (mod : OfpGroupMod) (ld : LogicalDevice) : Option GroupDeletion :=
  if mod.groupId = OFPG_ALL then some ⟨ld.flows, [], false⟩
  else
    (findGroup ld.flowGroups mod.groupId).map fun idx =>
      let (flowsChanged, flows) := flowsDeleteByGroupId ld.flows mod.groupId
      ⟨flows, ld.flowGroups.eraseIdx idx, flowsChanged⟩

/-- The flows that are left are decomposed again and replace the tables of their
devices. -/
def groupDelete (env : Env) (mod : OfpGroupMod) (ld : LogicalDevice) : List Step :=
  match groupDeletion mod ld with
  | none => []
  | some deletion =>
    match decomposeRules env.hash env.topology deletion.flows deletion.groups with
    | .error e => [.fail e]
    | .ok decomposed =>
      .devices .update decomposed.rules none :: .writeGroups deletion.groups ::
        if deletion.flowsChanged then [.writeFlows decomposed.flows] else []

/-- The root device is told to replace its tables by the one group. -/
def groupModify (env : Env) (mod : OfpGroupMod) (ld : LogicalDevice) : List Step :=
  match findGroup ld.flowGroups mod.groupId with
  | none => [.fail (.plain ("group-absent:" ++ toString mod.groupId))]
  | some idx =>
    let group := groupEntryFromGroupMod mod
    [.devices .update (groupRules env.topology.rootDeviceID group) (some {}),
      .writeGroups (ld.flowGroups.set idx group)]

/-! ### Meters -/

def meterAdd (mod : OfpMeterMod) (ld : LogicalDevice) : List Step :=
  if mod.meterId ∈ ld.meters.map meterId then []
  else [.writeMeters (ld.meters ++ [meterEntryFromMeterMod mod])]

def namesMeter (id : UInt32) (f : OfpFlowStats) : Bool :=
  getMeterIdFromFlow f ≠ 0 && getMeterIdFromFlow f = id

/-- The loop from the last flow down deletes the flows that name the meter. -/
def getUpdatedFlowsAfterDeletebyMeterID (flows : List OfpFlowStats) (id : UInt32) :
    Bool × List OfpFlowStats :=
  (flows.any (namesMeter id), flows.filter fun f => !namesMeter id f)

/-- No device is updated. -/
def meterDelete (mod : OfpMeterMod) (ld : LogicalDevice) : List Step :=
  match Table.indexOf meterId ld.meters mod.meterId with
  | none => []
  | some index =>
    let flows := getUpdatedFlowsAfterDeletebyMeterID ld.flows mod.meterId
    .writeMeters (ld.meters.eraseIdx index) :: if flows.1 then [.writeFlows flows.2] else []

/-- A deleted meter takes the flows that name it along. -/
theorem editSteps_meterDelete {mod : OfpMeterMod} {ld : LogicalDevice} {index : ℕ}
    (h : indexOf meterId ld.meters mod.meterId = some index) :
    editSteps (meterDelete mod ld) ld = { ld with
      flows := ld.flows.filter fun f => !namesMeter mod.meterId f
      meters := ld.meters.eraseIdx index } := by
  simp only [meterDelete, h]
  unfold getUpdatedFlowsAfterDeletebyMeterID
  split_ifs with hchanged
  · rfl
  · have hself : (ld.flows.filter fun f => !namesMeter mod.meterId f) = ld.flows :=
      filter_eq_self.mpr (by simpa using hchanged)
    rw [hself]
    rfl

theorem isWrite_of_mem_meterDelete (mod : OfpMeterMod) (ld : LogicalDevice) :
    ∀ s ∈ meterDelete mod ld, s.isWrite = true := by
  unfold meterDelete
  cases indexOf meterId ld.meters mod.meterId with
  | none => simp
  | some index =>
    exact isWrite_of_mem_cons_ite rfl (forall_mem_singleton.mpr rfl)

/-- The new definition keeps the flow count. -/
def meterModify (mod : OfpMeterMod) (ld : LogicalDevice) : List Step :=
  if mod.meterId ∈ ld.meters.map meterId then
    [.writeMeters (Table.editFirst (fun m => meterId m = mod.meterId)
      (fun m => setFlowCount (fun _ => m.stats.flowCount) (meterEntryFromMeterMod mod)) ld.meters)]
  else [.fail (.plain ("no-logical-device-present:" ++ toString mod.meterId))]

/-! ### Requests -/

inductive Request where
  | flow (mod : OfpFlowMod)
  | group (mod : OfpGroupMod)
  | meter (mod : OfpMeterMod)

def updateFlowTable (env : Env) (mod : OfpFlowMod) (ld : LogicalDevice) : List Step :=
  match mod.command with
  | .add => flowAdd env mod ld
  | .delete => flowDelete env mod ld
  | .deleteStrict => flowDeleteStrict env mod ld
  | .modify => [.fail (.plain "flowModify not implemented")]
  | .modifyStrict => [.fail (.plain "flowModifyStrict not implemented")]

def updateGroupTable (env : Env) (mod : OfpGroupMod) (ld : LogicalDevice) : List Step :=
  match mod.command with
  | .add => groupAdd env mod ld
  | .delete => groupDelete env mod ld
  | .modify => groupModify env mod ld

def updateMeterTable (mod : OfpMeterMod) (ld : LogicalDevice) : List Step :=
  match mod.command with
  | .add => meterAdd mod ld
  | .delete => meterDelete mod ld
  | .modify => meterModify mod ld

def Request.operation (env : Env) (request : Request) (ld : LogicalDevice) : List Step :=
  match request with
  | .flow mod => updateFlowTable env mod ld
  | .group mod => updateGroupTable env mod ld
  | .meter mod => updateMeterTable mod ld

def Request.steps (env : Env) (request : Request) (ld : LogicalDevice) : List Step :=
  match env.routes with
  | .error e => [.fail e]
  | .ok _ => request.operation env ld

def Request.run (env : Env) (request : Request) : EStateM Err World Unit := fun w =>
  runSteps env (request.steps env w.agent.logicalDevice) w

def leafMod (command : OfpFlowModCommand) (flags : UInt32 := 0)
    (instructions : List OfpInstruction := []) : OfpFlowMod :=
  { command, flags, ofpMatch := some ⟨.oxm, [.openflowBasic (inPort 1)]⟩
    instructions := ⟨OFPIT_GOTO_TABLE, some (.gotoTable 1)⟩ :: instructions }

def meterInstruction (id : UInt32) : OfpInstruction := ⟨OFPIT_METER, some (.meter id)⟩

def leafFlow (instructions : List OfpInstruction) : OfpFlowStats :=
  flowStatsEntryFromFlowModMessage sizeHash (leafMod .add 0 instructions)

def leafWorld (instructions : List OfpInstruction) (flowCount : UInt32) : World :=
  oneLeafWorld { flows := [leafFlow instructions]
                 meters := [setFlowCount (fun _ => flowCount)
                   (meterEntryFromMeterMod { meterId := 1 })] }
    { id := "olt" }
    { id := "onu", flows := ruleFlows sizeHash oneLeaf [] (leafFlow instructions) "onu" }

def requestStep (w : World) (r : Env × Request) : World := after (r.2.run r.1) w

theorem Request.run_ok {request : Request} (h : request.run env w = .ok () w') :
    runSteps env (request.operation env w.agent.logicalDevice) w = .ok () w' := by
  unfold Request.run Request.steps at h
  cases hroutes : env.routes with
  | ok routes => simpa [hroutes] using h
  | error e =>
    rw [hroutes] at h
    exact absurd h runSteps_fail_ne_ok

/-- Of the flow requests, modifications always fail. -/
theorem Request.flow_run_ok {mod : OfpFlowMod} (h : (Request.flow mod).run env w = .ok () w') :
    (mod.command = .add ∧ runSteps env (flowAdd env mod w.agent.logicalDevice) w = .ok () w') ∨
    (mod.command = .delete ∧
      runSteps env (flowDelete env mod w.agent.logicalDevice) w = .ok () w') ∨
    (mod.command = .deleteStrict ∧
      runSteps env (flowDeleteStrict env mod w.agent.logicalDevice) w = .ok () w') := by
  have hrun := Request.run_ok h
  simp only [Request.operation, updateFlowTable] at hrun
  cases hcommand : mod.command with
  | add => exact .inl ⟨rfl, by simpa [hcommand] using hrun⟩
  | delete => exact .inr (.inl ⟨rfl, by simpa [hcommand] using hrun⟩)
  | deleteStrict => exact .inr (.inr ⟨rfl, by simpa [hcommand] using hrun⟩)
  | modify | modifyStrict =>
    rw [hcommand] at hrun
    exact absurd hrun runSteps_fail_ne_ok

/-- In any case a request has done some of the steps of its operation, and it stopped
on the way only at a step that can fail. -/
theorem after_request (env : Env) (request : Request) (w : World) :
    ∃ before later, request.operation env w.agent.logicalDevice = before ++ later ∧
      (after (request.run env) w).agent = applySteps before w.agent ∧
      (before ≠ [] → ∀ s ∈ later.head?, s.Stops env) := by
  obtain ⟨before, later, hsteps, hagent, hstops⟩ :=
    after_runSteps env (request.steps env w.agent.logicalDevice) w
  unfold Request.steps at hsteps
  cases hroutes : env.routes with
  | ok routes =>
    rw [hroutes] at hsteps
    exact ⟨before, later, hsteps, hagent, fun _ => hstops⟩
  | error e =>
    -- the only step there is changes nothing
    rw [hroutes] at hsteps
    refine ⟨[], _, rfl, hagent.trans ?_, by simp⟩
    cases before with
    | nil => rfl
    | cons s before =>
      obtain ⟨rfl, hnil⟩ := List.cons.inj hsteps
      rw [(append_eq_nil_iff.mp hnil.symm).1]
      rfl

/-! ### What the flow operations do to the table -/

section FlowTable
variable {H : HashEnv} {flows : List OfpFlowStats} {mod : OfpFlowMod}

@[simp] theorem flowKey_withCounts (oldFlow flow : OfpFlowStats) :
    flowKey (withCounts mod oldFlow flow) = flowKey flow := by
  unfold withCounts
  split <;> rfl

variable {addition : FlowAddition} {removal : FlowRemoval}

theorem flowAddition_eq_some (h : flowAddition H flows mod = some addition) :
    (addition.replaced = none ∧ addition.flow = flowStatsEntryFromFlowModMessage H mod ∧
      addition.flows = flows ++ [addition.flow] ∧
      (mod.flags &&& OFPFF_CHECK_OVERLAP = 0 → flowKey addition.flow ∉ flows.map flowKey)) ∨
    ∃ idx, ∃ hidx : idx < flows.length, addition.replaced = some flows[idx] ∧
      addition.flows = flows.set idx addition.flow ∧
      flowKey addition.flow = flowKey flows[idx] := by
  unfold flowAddition at h
  dsimp only at h
  by_cases hoverlap : mod.flags &&& OFPFF_CHECK_OVERLAP = 0
  · rw [if_neg (not_not.mpr hoverlap)] at h
    cases hidx : findFlows flows (flowStatsEntryFromFlowModMessage H mod) with
    | none =>
      rw [hidx] at h
      cases h
      exact .inl ⟨rfl, rfl, rfl, fun _ => (findFlows_eq_none_iff _ _).mp hidx⟩
    | some idx =>
      obtain ⟨hlt, hkey⟩ := indexOf_eq_some flowKey (findFlows_eq _ _ ▸ hidx)
      simp only [hidx, getElem?_eq_getElem hlt, bind_some] at h
      split_ifs at h
      cases h
      exact .inr ⟨idx, hlt, rfl, rfl, by rw [flowKey_withCounts, hkey]⟩
  · have hnone : findOverlappingFlows flows mod = [] := rfl
    rw [if_pos hoverlap, if_neg (not_not.mpr hnone)] at h
    cases h
    exact .inl ⟨rfl, rfl, rfl, fun h => absurd h hoverlap⟩

theorem flowRemoval_eq_some (h : flowRemoval H flows mod = some removal) :
    ∃ idx, ∃ hidx : idx < flows.length, removal.flow = flows[idx] ∧
      removal.flows = flows.eraseIdx idx := by
  obtain ⟨idx, -, h⟩ := bind_eq_some_iff.mp h
  obtain ⟨found, hfound, h⟩ := bind_eq_some_iff.mp h
  obtain ⟨hidx, rfl⟩ := List.getElem?_eq_some_iff.mp hfound
  cases h
  exact ⟨idx, hidx, rfl, rfl⟩

theorem flowRemoval_perm (h : flowRemoval H flows mod = some removal) :
    (removal.flow :: removal.flows).Perm flows := by
  obtain ⟨idx, hidx, hflow, hflows⟩ := flowRemoval_eq_some h
  rw [hflow, hflows]
  exact getElem_cons_eraseIdx_perm hidx

theorem flowAddition_perm (h : flowAddition H flows mod = some addition) :
    ∃ rest, addition.flows.Perm (addition.flow :: rest) ∧
      flows.Perm (addition.replaced.toList ++ rest) := by
  obtain ⟨hreplaced, -, hflows, -⟩ | ⟨idx, hidx, hreplaced, hflows, -⟩ := flowAddition_eq_some h
  · refine ⟨flows, ?_, by simp [hreplaced]⟩
    rw [hflows]
    exact perm_append_singleton _ _
  · refine ⟨flows.eraseIdx idx, ?_, ?_⟩
    · rw [hflows]
      exact set_perm_cons_eraseIdx hidx _
    · rw [hreplaced]
      exact (getElem_cons_eraseIdx_perm hidx).symm

end FlowTable

/-! ### What a group deletion leaves of the tables -/

section GroupDeletion
variable {mod : OfpGroupMod} {ld : LogicalDevice} {deletion : GroupDeletion}

theorem groupDeletion_flows_sublist (h : groupDeletion mod ld = some deletion) :
    deletion.flows.Sublist ld.flows := by
  unfold groupDeletion at h
  split_ifs at h
  · cases h
    exact List.Sublist.refl _
  · obtain ⟨idx, -, rfl⟩ := map_eq_some_iff.mp h
    exact filter_sublist

theorem groupDeletion_groups_sublist (h : groupDeletion mod ld = some deletion) :
    deletion.groups.Sublist ld.flowGroups := by
  unfold groupDeletion at h
  split_ifs at h
  · cases h
    exact nil_sublist _
  · obtain ⟨idx, -, rfl⟩ := map_eq_some_iff.mp h
    exact eraseIdx_sublist _ _

end GroupDeletion

/-! ### The steps of the flow operations -/

section FlowSteps
variable (env : Env) (mod : OfpFlowMod) (ld : LogicalDevice)

/-- Without a change there are no steps; an addition that does not fail before it
reaches the devices goes through all of its steps. -/
theorem flowAdd_cases :
    (flowAddition env.hash ld.flows mod = none ∧ flowAdd env mod ld = []) ∨
    (∃ e, flowAdd env mod ld = [.fail e]) ∨
    ∃ addition metadata decomposed, flowAddition env.hash ld.flows mod = some addition ∧
      getMeterConfig [addition.flow] ld.meters = .ok metadata ∧
      decomposeRules env.hash env.topology [addition.flow] ld.flowGroups = .ok decomposed ∧
      flowAdd env mod ld = .devices .add decomposed.rules (some metadata) ::
        .writeFlows addition.flows ::
          if addition.replaced.isNone then
            writeCounted (updateFlowCountOfMeterStats mod.command ld.meters addition.flow)
          else [] := by
  unfold flowAdd
  cases hadd : flowAddition env.hash ld.flows mod with
  | none => exact .inl ⟨rfl, rfl⟩
  | some addition =>
    right
    cases hm : getMeterConfig [addition.flow] ld.meters with
    | error e => exact .inl ⟨e, by simp [hm]⟩
    | ok metadata =>
      cases hd : decomposeRules env.hash env.topology [addition.flow] ld.flowGroups with
      | error e => exact .inl ⟨e, by simp [hm, hd]⟩
      | ok decomposed =>
        exact .inr ⟨addition, metadata, decomposed, rfl, hm, hd, by simp [hm, hd]⟩

theorem flowDelete_cases :
    (ld.flows.filter (deletes env.hash mod) = [] ∧ flowDelete env mod ld = []) ∨
    (∃ e, flowDelete env mod ld = [.fail e]) ∨
    ∃ metadata decomposed,
      decomposeRules env.hash env.topology (ld.flows.filter (deletes env.hash mod)) ld.flowGroups =
        .ok decomposed ∧
      flowDelete env mod ld = [.devices .delete decomposed.rules (some metadata),
        .writeFlows (ld.flows.filter fun f => !deletes env.hash mod f)] := by
  unfold flowDelete
  dsimp only
  split_ifs with hempty
  · exact .inl ⟨List.isEmpty_iff.mp hempty, rfl⟩
  · right
    cases hm : getMeterConfig (ld.flows.filter (deletes env.hash mod)) ld.meters with
    | error e => exact .inl ⟨_, rfl⟩
    | ok metadata =>
      cases hd : decomposeRules env.hash env.topology (ld.flows.filter (deletes env.hash mod))
          ld.flowGroups with
      | error e => exact .inl ⟨e, rfl⟩
      | ok decomposed => exact .inr ⟨metadata, decomposed, rfl, rfl⟩

theorem flowDeleteStrict_cases :
    (∃ e, flowRemoval env.hash ld.flows mod = none ∧ flowDeleteStrict env mod ld = [.fail e]) ∨
    ∃ removal, flowRemoval env.hash ld.flows mod = some removal ∧
      ((∃ e, flowDeleteStrict env mod ld =
        writeCounted (updateFlowCountOfMeterStats mod.command ld.meters removal.flow) ++
          [.fail e]) ∨
      ∃ metadata decomposed,
        decomposeRules env.hash env.topology [removal.flow] ld.flowGroups = .ok decomposed ∧
        flowDeleteStrict env mod ld =
          writeCounted (updateFlowCountOfMeterStats mod.command ld.meters removal.flow) ++
            [.devices .delete decomposed.rules (some metadata), .writeFlows removal.flows]) := by
  unfold flowDeleteStrict
  cases hr : flowRemoval env.hash ld.flows mod with
  | none => exact .inl ⟨_, rfl, rfl⟩
  | some removal =>
    refine .inr ⟨removal, rfl, ?_⟩
    dsimp only
    cases hm : getMeterConfig [removal.flow]
        (updateFlowCountOfMeterStats mod.command ld.meters removal.flow).2 with
    | error e => exact .inl ⟨e, rfl⟩
    | ok metadata =>
      cases hd : decomposeRules env.hash env.topology [removal.flow] ld.flowGroups with
      | error e => exact .inl ⟨e, rfl⟩
      | ok decomposed => exact .inr ⟨metadata, decomposed, rfl, rfl⟩

end FlowSteps

/-! ### What a flow operation that returns has done -/

section FlowResults
variable {env : Env} {mod : OfpFlowMod} {w w' : World}

/-- The flow count of the meter of a flow that is new to the table goes up. -/
theorem flowAdd_ok (h : runSteps env (flowAdd env mod w.agent.logicalDevice) w = .ok () w') :
    (flowAddition env.hash w.agent.logicalDevice.flows mod = none ∧ w' = w) ∨
    ∃ addition metadata decomposed,
      flowAddition env.hash w.agent.logicalDevice.flows mod = some addition ∧
      getMeterConfig [addition.flow] w.agent.logicalDevice.meters = .ok metadata ∧
      decomposeRules env.hash env.topology [addition.flow] w.agent.logicalDevice.flowGroups =
        .ok decomposed ∧
      (∀ d, Updated env .add (some metadata) w w' d (decomposed.rules.lookup d)) ∧
      w'.agent.logicalDevice = { w.agent.logicalDevice with
        flows := addition.flows
        meters := if addition.replaced.isNone then (updateFlowCountOfMeterStats mod.command
          w.agent.logicalDevice.meters addition.flow).2 else w.agent.logicalDevice.meters } := by
  obtain ⟨hnone, hsteps⟩ | ⟨e, hsteps⟩ | ⟨addition, metadata, decomposed, hadd, hm, hd, hsteps⟩ :=
    flowAdd_cases env mod w.agent.logicalDevice
  · rw [hsteps] at h
    cases h
    exact .inl ⟨hnone, rfl⟩
  · rw [hsteps] at h
    exact absurd h runSteps_fail_ne_ok
  · rw [hsteps] at h
    refine .inr ⟨addition, metadata, decomposed, hadd, hm, hd, ?_, ?_⟩
    · exact runSteps_devices_ok [] (by simp)
        (isWrite_of_mem_cons_ite rfl isWrite_of_mem_writeCounted) h
    · rw [logicalDevice_of_ok h]
      split_ifs
      · exact editSteps_writeCounted mod.command addition.flow
          { w.agent.logicalDevice with flows := addition.flows }
      · rfl

theorem flowDelete_ok (h : runSteps env (flowDelete env mod w.agent.logicalDevice) w = .ok () w') :
    (w.agent.logicalDevice.flows.filter (deletes env.hash mod) = [] ∧ w' = w) ∨
    ∃ metadata decomposed,
      decomposeRules env.hash env.topology
        (w.agent.logicalDevice.flows.filter (deletes env.hash mod))
        w.agent.logicalDevice.flowGroups = .ok decomposed ∧
      (∀ d, Updated env .delete (some metadata) w w' d (decomposed.rules.lookup d)) ∧
      w'.agent.logicalDevice = { w.agent.logicalDevice with
        flows := w.agent.logicalDevice.flows.filter fun f => !deletes env.hash mod f } := by
  obtain ⟨hnone, hsteps⟩ | ⟨e, hsteps⟩ | ⟨metadata, decomposed, hd, hsteps⟩ :=
    flowDelete_cases env mod w.agent.logicalDevice
  · rw [hsteps] at h
    cases h
    exact .inl ⟨hnone, rfl⟩
  · rw [hsteps] at h
    exact absurd h runSteps_fail_ne_ok
  · rw [hsteps] at h
    refine .inr ⟨metadata, decomposed, hd, ?_, logicalDevice_of_ok h⟩
    exact runSteps_devices_ok [] (by simp) (forall_mem_singleton.mpr rfl) h

theorem flowDeleteStrict_ok
    (h : runSteps env (flowDeleteStrict env mod w.agent.logicalDevice) w = .ok () w') :
    ∃ removal metadata decomposed,
      flowRemoval env.hash w.agent.logicalDevice.flows mod = some removal ∧
      decomposeRules env.hash env.topology [removal.flow] w.agent.logicalDevice.flowGroups =
        .ok decomposed ∧
      (∀ d, Updated env .delete (some metadata) w w' d (decomposed.rules.lookup d)) ∧
      w'.agent.logicalDevice = { w.agent.logicalDevice with
        flows := removal.flows
        meters := (updateFlowCountOfMeterStats mod.command w.agent.logicalDevice.meters
          removal.flow).2 } := by
  obtain ⟨e, -, hsteps⟩ | ⟨removal, hr, ⟨e, hsteps⟩ | ⟨metadata, decomposed, hd, hsteps⟩⟩ :=
    flowDeleteStrict_cases env mod w.agent.logicalDevice
  · rw [hsteps] at h
    exact absurd h runSteps_fail_ne_ok
  · exact absurd (by simp [hsteps]) (fail_not_mem_of_ok h e)
  · rw [hsteps] at h
    refine ⟨removal, metadata, decomposed, hr, hd, ?_, ?_⟩
    · exact runSteps_devices_ok _ isWrite_of_mem_writeCounted (forall_mem_singleton.mpr rfl) h
    · rw [logicalDevice_of_ok h, editSteps_append, editSteps_writeCounted]
      rfl

end FlowResults

end VolthaCore.Logical
