import VolthaCore.Devices.Agent
import VolthaCore.OpenFlow.FlowUtils

/-! The three flow operations of the device agent: add, delete and replace flows
and groups. Each computes the new tables and the request for the adapter, which
receives either the whole tables or a set of changes, then stores the tables and
waits for the answer. What a successful operation leaves behind is stated once
for each of them. -/

namespace VolthaCore.Devices

open OpenFlow List Table

/-- What a flow operation decides: nothing to do, an error, or a request for the
adapter together with the tables to store. -/
inductive FlowUpdate where
  | nothing
  | fail (e : Err)
  | send (request : AdapterRequest) (flows : List OfpFlowStats) (groups : List OfpGroupEntry)
  deriving DecidableEq

def noDeviceType (type : String) : Err :=
  .status .failedPrecondition ("non-existent device type " ++ type)

def flowsToUpdateToDelete (newFlows existingFlows : List OfpFlowStats) :
    Table.Merge OfpFlowStats := Table.merge flowKey newFlows existingFlows

def groupsToUpdateToDelete (newGroups existingGroups : List OfpGroupEntry) :
    Table.Merge OfpGroupEntry := Table.merge groupId newGroups existingGroups

def addFlowsAndGroupsToAdapter (env : DeviceEnv) (device : Device) (newFlows : List OfpFlowStats)
    (newGroups : List OfpGroupEntry) (metadata : Option FlowMetadata) : FlowUpdate :=
  if newFlows.isEmpty && newGroups.isEmpty then .nothing
  else
    let flows := flowsToUpdateToDelete newFlows device.flows
    let groups := groupsToUpdateToDelete newGroups device.flowGroups
    if flows.all.isEmpty && flows.dropped.isEmpty && groups.all.isEmpty &&
        groups.dropped.isEmpty then .nothing
    else
      match env.getDeviceType device.type with
      | none => .fail (noDeviceType device.type)
      | some dType =>
        if !dType.acceptsAddRemoveFlowUpdates then
          if !groups.all.isEmpty && device.flowGroups = groups.all && !flows.all.isEmpty &&
              device.flows = flows.all then .nothing
          else .send (.bulk flows.all groups.all metadata) flows.all groups.all
        else
          .send (.incremental ⟨flows.fresh, flows.dropped⟩ ⟨groups.fresh, groups.dropped, []⟩
            metadata) flows.all groups.all

def deleteFlowsAndGroupsFromAdapter (env : DeviceEnv) (device : Device)
    (flowsToDel : List OfpFlowStats) (groupsToDel : List OfpGroupEntry)
    (metadata : Option FlowMetadata) : FlowUpdate :=
  if flowsToDel.isEmpty && groupsToDel.isEmpty then .nothing
  else
    let flowsToKeep := device.flows.filter fun f => findFlows flowsToDel f = none
    let groupsToKeep :=
      device.flowGroups.filter fun g => findGroup groupsToDel g.desc.groupId = none
    if flowsToKeep.isEmpty && flowsToDel.isEmpty && groupsToKeep.isEmpty &&
        groupsToDel.isEmpty then .nothing
    else
      match env.getDeviceType device.type with
      | none => .fail (noDeviceType device.type)
      | some dType =>
        if !dType.acceptsAddRemoveFlowUpdates then
          if !groupsToKeep.isEmpty && device.flowGroups = groupsToKeep && !flowsToKeep.isEmpty &&
              device.flows = flowsToKeep then .nothing
          else .send (.bulk flowsToKeep groupsToKeep metadata) flowsToKeep groupsToKeep
        else
          .send (.incremental ⟨[], flowsToDel⟩ ⟨[], groupsToDel, []⟩ metadata) flowsToKeep
            groupsToKeep

/-- The changes that replace the tables of a device. An existing entry is put
into `toRemove` when the updated list contains it. -/
def replaceChanges (device : Device) (updatedFlows : List OfpFlowStats)
    (updatedGroups : List OfpGroupEntry) : FlowChanges × FlowGroupChanges :=
  (⟨updatedFlows.filter fun f => findFlows device.flows f = none,
    device.flows.filter fun f => findFlows updatedFlows f ≠ none⟩,
   ⟨updatedGroups.filter fun g => findGroup device.flowGroups g.desc.groupId = none,
    device.flowGroups.filter fun g => findGroup updatedGroups g.desc.groupId ≠ none,
    updatedGroups⟩)

/-- Both updated tables are non-empty and the device has them already. -/
def nothingToReplace (device : Device) (updatedFlows : List OfpFlowStats)
    (updatedGroups : List OfpGroupEntry) : Bool :=
  !updatedGroups.isEmpty && device.flowGroups = updatedGroups && !updatedFlows.isEmpty &&
    device.flows = updatedFlows

def updateFlowsAndGroupsToAdapter (env : DeviceEnv) (device : Device)
    (updatedFlows : List OfpFlowStats) (updatedGroups : List OfpGroupEntry)
    (metadata : Option FlowMetadata) : FlowUpdate :=
  if updatedFlows.isEmpty && updatedGroups.isEmpty then .nothing
  else if nothingToReplace device updatedFlows updatedGroups then .nothing
  else
    match env.getDeviceType device.type with
    | none => .fail (noDeviceType device.type)
    | some dType =>
      if !dType.acceptsAddRemoveFlowUpdates then
        .send (.bulk updatedFlows updatedGroups none) updatedFlows updatedGroups
      else
        let changes := replaceChanges device updatedFlows updatedGroups
        if changes.1.toAdd.isEmpty && changes.1.toRemove.isEmpty && changes.2.toAdd.isEmpty &&
            changes.2.toRemove.isEmpty && updatedGroups.isEmpty then .nothing
        else .send (.incremental changes.1 changes.2 metadata) updatedFlows updatedGroups

/-- Send the request, store the tables, then wait for the adapter. -/
def FlowUpdate.plan (device : Device) : FlowUpdate → Plan
  | .nothing => .acknowledge device
  | .fail e => .fail e
  | .send request flows groups =>
    .write { device with flows := flows, flowGroups := groups }
      (.status .internal ("failure-updating-" ++ device.id))
      (some ⟨.updateFlows request, device, .beside⟩)

section

variable {α : Type} [AgentModel α]

def addFlowsAndGroups (env : DeviceEnv) (newFlows : List OfpFlowStats)
    (newGroups : List OfpGroupEntry) (metadata : Option FlowMetadata) :
    EStateM Err α Unit :=
  perform env fun device =>
    (addFlowsAndGroupsToAdapter env device newFlows newGroups metadata).plan device

def deleteFlowsAndGroups (env : DeviceEnv) (flowsToDel : List OfpFlowStats)
    (groupsToDel : List OfpGroupEntry) (metadata : Option FlowMetadata) :
    EStateM Err α Unit :=
  perform env fun device =>
    (deleteFlowsAndGroupsFromAdapter env device flowsToDel groupsToDel metadata).plan device

def updateFlowsAndGroups (env : DeviceEnv) (updatedFlows : List OfpFlowStats)
    (updatedGroups : List OfpGroupEntry) (metadata : Option FlowMetadata) :
    EStateM Err α Unit :=
  perform env fun device =>
    (updateFlowsAndGroupsToAdapter env device updatedFlows updatedGroups metadata).plan device

end

/-! ### What a successful operation leaves behind -/

section Specs
variable {env : DeviceEnv} {metadata : Option FlowMetadata} {a a' : SyncedAgent}

/-- The tables that a decision leaves a device with, if it is not an error. -/
def FlowUpdate.tables (device : Device) : FlowUpdate → Device
  | .send _ flows groups => { device with flows := flows, flowGroups := groups }
  | _ => device

theorem device_of_plan_ok {update : FlowUpdate}
    (h : (update.plan a.device).execute env a = .ok () a') :
    a'.device = update.tables a.device ∧ ∀ e, update ≠ .fail e := by
  obtain ⟨edited, hp, rfl⟩ | ⟨_, ⟨edited, sf, request, hp, rfl⟩ | ⟨pm, hp, -⟩, rfl⟩ :=
    execute_ok h <;> cases update <;> cases hp
  · exact ⟨rfl, by simp⟩
  · exact ⟨rfl, by simp⟩

/-- What is sent, or not sent because the device has it already, are the new tables. -/
theorem tables_of_sent {device : Device} {flows : List OfpFlowStats} {groups : List OfpGroupEntry}
    {bulk incremental : AdapterRequest} {update : FlowUpdate}
    (hupdate : update = match env.getDeviceType device.type with
      | none => .fail (noDeviceType device.type)
      | some dType =>
        if !dType.acceptsAddRemoveFlowUpdates then
          if !groups.isEmpty && device.flowGroups = groups && !flows.isEmpty &&
              device.flows = flows then .nothing
          else .send bulk flows groups
        else .send incremental flows groups)
    (h : ∀ e, update ≠ .fail e) :
    update.tables device = { device with flows := flows, flowGroups := groups } := by
  cases hd : env.getDeviceType device.type with
  | none =>
    rw [hd] at hupdate
    exact absurd hupdate (h _)
  | some dType =>
    rw [hupdate, hd]
    dsimp only
    split_ifs with _ hsame
    · simp only [Bool.and_eq_true, decide_eq_true_eq] at hsame
      rw [← hsame.2, ← hsame.1.1.2]
      rfl
    · rfl
    · rfl

theorem addFlowsAndGroupsToAdapter_tables (device : Device) (newFlows : List OfpFlowStats)
    (newGroups : List OfpGroupEntry)
    (h : ∀ e, addFlowsAndGroupsToAdapter env device newFlows newGroups metadata ≠ .fail e) :
    (addFlowsAndGroupsToAdapter env device newFlows newGroups metadata).tables device =
      { device with
        flows := (merge flowKey newFlows device.flows).all
        flowGroups := (merge groupId newGroups device.flowGroups).all } := by
  unfold addFlowsAndGroupsToAdapter flowsToUpdateToDelete groupsToUpdateToDelete at h ⊢
  dsimp only at h ⊢
  split
  next hempty =>
    simp only [Bool.and_eq_true, List.isEmpty_iff] at hempty
    simp [hempty, FlowUpdate.tables]
  next hempty =>
    rw [if_neg hempty] at h
    split
    next hall =>
      -- the tables were empty before and stay so
      simp only [Bool.and_eq_true, List.isEmpty_iff] at hall
      rw [hall.1.1.1, hall.1.2]
      have hf := eq_nil_of_merge_all_eq_nil flowKey hall.1.1.1
      have hg := eq_nil_of_merge_all_eq_nil groupId hall.1.2
      simp [FlowUpdate.tables, ← hf, ← hg]
    next hall =>
      rw [if_neg hall] at h
      exact tables_of_sent rfl h

/-- Adding merges the new flows and groups into the tables. -/
theorem addFlowsAndGroups_ok {newFlows : List OfpFlowStats} {newGroups : List OfpGroupEntry}
    (h : addFlowsAndGroups env newFlows newGroups metadata a = .ok () a') :
    a'.device = { a.device with
      flows := (merge flowKey newFlows a.device.flows).all
      flowGroups := (merge groupId newGroups a.device.flowGroups).all } := by
  obtain ⟨hdevice, hfail⟩ := device_of_plan_ok h
  exact hdevice.trans (addFlowsAndGroupsToAdapter_tables _ _ _ hfail)

theorem deleteFlowsAndGroupsFromAdapter_tables (device : Device) (flowsToDel : List OfpFlowStats)
    (groupsToDel : List OfpGroupEntry)
    (h : ∀ e,
      deleteFlowsAndGroupsFromAdapter env device flowsToDel groupsToDel metadata ≠ .fail e) :
    (deleteFlowsAndGroupsFromAdapter env device flowsToDel groupsToDel metadata).tables device =
      { device with
        flows := device.flows.filter fun f => flowKey f ∉ flowsToDel.map flowKey
        flowGroups := device.flowGroups.filter fun g => groupId g ∉ groupsToDel.map groupId } := by
  have hflows : (device.flows.filter fun f => findFlows flowsToDel f = none) =
      device.flows.filter fun f => flowKey f ∉ flowsToDel.map flowKey :=
    filter_congr fun f _ => by simp only [findFlows_eq_none_iff]
  have hgroups : (device.flowGroups.filter fun g => findGroup groupsToDel g.desc.groupId = none) =
      device.flowGroups.filter fun g => groupId g ∉ groupsToDel.map groupId :=
    filter_congr fun g _ => by simp only [findGroup_eq_none_iff]; rfl
  unfold deleteFlowsAndGroupsFromAdapter at h ⊢
  dsimp only at h ⊢
  rw [hflows, hgroups] at h ⊢
  split
  next hempty =>
    simp only [Bool.and_eq_true, List.isEmpty_iff] at hempty
    simp [hempty, FlowUpdate.tables]
  next hempty =>
    rw [if_neg hempty] at h
    split
    next hall =>
      simp only [Bool.and_eq_true] at hall hempty
      exact absurd ⟨hall.1.1.2, hall.2⟩ hempty
    next hall =>
      rw [if_neg hall] at h
      exact tables_of_sent rfl h

/-- Deleting keeps the entries whose key is not listed. -/
theorem deleteFlowsAndGroups_ok {flowsToDel : List OfpFlowStats}
    {groupsToDel : List OfpGroupEntry}
    (h : deleteFlowsAndGroups env flowsToDel groupsToDel metadata a = .ok () a') :
    a'.device = { a.device with
      flows := a.device.flows.filter fun f => flowKey f ∉ flowsToDel.map flowKey
      flowGroups := a.device.flowGroups.filter fun g => groupId g ∉ groupsToDel.map groupId } := by
  obtain ⟨hdevice, hfail⟩ := device_of_plan_ok h
  exact hdevice.trans (deleteFlowsAndGroupsFromAdapter_tables _ _ _ hfail)

variable {updatedFlows : List OfpFlowStats} {updatedGroups : List OfpGroupEntry}

/-- An updated flow is either new to the device or the flow with its key is put
into the removals, so the changes that replace a table are never empty. -/
theorem replaceChanges_nonempty (device : Device) (updatedGroups : List OfpGroupEntry)
    (hne : updatedFlows ≠ []) :
    (replaceChanges device updatedFlows updatedGroups).1.toAdd ≠ [] ∨
      (replaceChanges device updatedFlows updatedGroups).1.toRemove ≠ [] := by
  obtain ⟨f, hf⟩ := exists_mem_of_ne_nil _ hne
  by_cases hk : flowKey f ∈ device.flows.map flowKey
  · obtain ⟨e, he, hek⟩ := mem_map.mp hk
    refine .inr (ne_nil_of_mem (mem_filter.mpr ⟨he, ?_⟩))
    simpa [findFlows_eq_none_iff, hek] using ⟨f, hf, rfl⟩
  · refine .inl (ne_nil_of_mem (mem_filter.mpr ⟨hf, ?_⟩))
    simpa [findFlows_eq_none_iff] using hk

/-- The check for an empty set of changes never applies. -/
theorem updateFlowsAndGroupsToAdapter_eq (device : Device)
    (hne : updatedFlows ≠ [] ∨ updatedGroups ≠ []) :
    updateFlowsAndGroupsToAdapter env device updatedFlows updatedGroups metadata =
      if nothingToReplace device updatedFlows updatedGroups then .nothing
      else match env.getDeviceType device.type with
        | none => .fail (noDeviceType device.type)
        | some dType =>
          if !dType.acceptsAddRemoveFlowUpdates then
            .send (.bulk updatedFlows updatedGroups none) updatedFlows updatedGroups
          else .send (.incremental (replaceChanges device updatedFlows updatedGroups).1
            (replaceChanges device updatedFlows updatedGroups).2 metadata) updatedFlows
            updatedGroups := by
  have hempty : ¬ (updatedFlows.isEmpty && updatedGroups.isEmpty) = true := by
    simpa [Classical.or_iff_not_imp_left] using hne
  have hchanges : ¬ ((replaceChanges device updatedFlows updatedGroups).1.toAdd.isEmpty &&
      (replaceChanges device updatedFlows updatedGroups).1.toRemove.isEmpty &&
      (replaceChanges device updatedFlows updatedGroups).2.toAdd.isEmpty &&
      (replaceChanges device updatedFlows updatedGroups).2.toRemove.isEmpty &&
      updatedGroups.isEmpty) = true := by
    simp only [Bool.and_eq_true, List.isEmpty_iff]
    rintro ⟨⟨⟨⟨hadd, hremove⟩, -⟩, -⟩, hgroups⟩
    have hflows : updatedFlows ≠ [] := hne.resolve_right (not_not.mpr hgroups)
    rcases replaceChanges_nonempty device updatedGroups hflows with hc | hc
    · exact hc hadd
    · exact hc hremove
  unfold updateFlowsAndGroupsToAdapter
  simp only [if_neg hempty, if_neg hchanges]

theorem updateFlowsAndGroupsToAdapter_tables (device : Device) (updatedFlows : List OfpFlowStats)
    (updatedGroups : List OfpGroupEntry) (hne : updatedFlows ≠ [] ∨ updatedGroups ≠ [])
    (h : ∀ e, updateFlowsAndGroupsToAdapter env device updatedFlows updatedGroups metadata ≠
      .fail e) :
    (updateFlowsAndGroupsToAdapter env device updatedFlows updatedGroups metadata).tables device =
      { device with flows := updatedFlows, flowGroups := updatedGroups } := by
  rw [updateFlowsAndGroupsToAdapter_eq device hne] at h ⊢
  split_ifs at h ⊢ with hsame
  · simp only [nothingToReplace, Bool.and_eq_true, decide_eq_true_eq] at hsame
    rw [← hsame.1.1.2, ← hsame.2]
    rfl
  · cases hd : env.getDeviceType device.type with
    | none => simp [hd] at h
    | some dType =>
      simp only
      split_ifs <;> rfl

/-- Replacing stores exactly the given tables, unless both are empty. -/
theorem updateFlowsAndGroups_ok (hne : updatedFlows ≠ [] ∨ updatedGroups ≠ [])
    (h : updateFlowsAndGroups env updatedFlows updatedGroups metadata a = .ok () a') :
    a'.device = { a.device with flows := updatedFlows, flowGroups := updatedGroups } := by
  obtain ⟨hdevice, hfail⟩ := device_of_plan_ok h
  exact hdevice.trans (updateFlowsAndGroupsToAdapter_tables _ _ _ hne hfail)

end Specs

end VolthaCore.Devices
