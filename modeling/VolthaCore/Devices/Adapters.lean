import VolthaCore.Devices.FlowUpdates

/-! The adapter's side of a flow operation. An adapter that takes bulk updates
replaces its tables; one that takes changes removes, adds and overwrites, and
tells flows apart by their key and groups by their identifier. A replacement
computes the removals the wrong way round: it removes what the new tables repeat
and keeps what they lack, so the two kinds of adapters rarely end up alike. -/

namespace VolthaCore.Devices

open OpenFlow Table

structure AdapterTables where
  flows : List OfpFlowStats
  groups : List OfpGroupEntry
  deriving DecidableEq

/-- Remove, then add, then overwrite groups. -/
def AdapterRequest.apply : AdapterRequest → AdapterTables → AdapterTables
  | .bulk flows groups _, _ => ⟨flows, groups⟩
  | .incremental flows groups _, t =>
    ⟨putAll flowKey (removeAll flowKey t.flows flows.toRemove) flows.toAdd,
      putAll groupId (putAll groupId (removeAll groupId t.groups groups.toRemove) groups.toAdd)
        groups.toUpdate⟩

/-- An adapter that held the stored tables, after what was decided for it. -/
def FlowUpdate.adapterTables (device : Device) : FlowUpdate → AdapterTables
  | .send request _ _ => request.apply ⟨device.flows, device.flowGroups⟩
  | _ => ⟨device.flows, device.flowGroups⟩

def AdapterTables.Same (t u : AdapterTables) : Prop :=
  SameEntries t.flows u.flows ∧ SameEntries t.groups u.groups

section Replace
variable (envAddRemove envBulk : DeviceEnv) (device : Device) (updatedFlows : List OfpFlowStats)
  (updatedGroups : List OfpGroupEntry) (metadata : Option FlowMetadata)

/-- After a replacement, an adapter that takes changes and one that takes whole
tables hold the same flows and groups, and these are the stored ones. -/
def ReplaceAgrees : Prop :=
  let incremental :=
    updateFlowsAndGroupsToAdapter envAddRemove device updatedFlows updatedGroups metadata
  let bulk := updateFlowsAndGroupsToAdapter envBulk device updatedFlows updatedGroups metadata
  (incremental.adapterTables device).Same (bulk.adapterTables device) ∧
    (bulk.adapterTables device).Same
      ⟨(bulk.tables device).flows, (bulk.tables device).flowGroups⟩

variable {envAddRemove envBulk device updatedFlows updatedGroups metadata}

omit envAddRemove envBulk in
theorem replaceChanges_eq :
    replaceChanges device updatedFlows updatedGroups =
      (⟨removeAll flowKey updatedFlows device.flows, sharedKeys flowKey device.flows updatedFlows⟩,
       ⟨removeAll groupId updatedGroups device.flowGroups,
        sharedKeys groupId device.flowGroups updatedGroups, updatedGroups⟩) := by
  unfold replaceChanges removeAll sharedKeys
  simp only [findFlows_eq_none_iff, findGroup_eq_none_iff, ne_eq, not_not]
  rfl

/-- The two kinds of adapters agree on a replacement, and with the store, exactly
when there is nothing to replace, or the device has no flow and only groups that
the updated ones redefine. -/
theorem replace_agrees_iff {addRemove bulk : DeviceType}
    (hflows : (updatedFlows.map flowKey).Nodup) (hgroups : (updatedGroups.map groupId).Nodup)
    (hne : updatedFlows ≠ [] ∨ updatedGroups ≠ [])
    (haddRemove : envAddRemove.getDeviceType device.type = some addRemove)
    (hbulk : envBulk.getDeviceType device.type = some bulk)
    (ha : addRemove.acceptsAddRemoveFlowUpdates = true)
    (hb : bulk.acceptsAddRemoveFlowUpdates = false) :
    ReplaceAgrees envAddRemove envBulk device updatedFlows updatedGroups metadata ↔
      nothingToReplace device updatedFlows updatedGroups = true ∨
      (device.flows = [] ∧ ∀ g ∈ device.flowGroups, groupId g ∈ updatedGroups.map groupId) := by
  unfold ReplaceAgrees
  rw [updateFlowsAndGroupsToAdapter_eq device hne, updateFlowsAndGroupsToAdapter_eq device hne,
    haddRemove, hbulk]
  by_cases hn : nothingToReplace device updatedFlows updatedGroups = true
  · -- nothing is sent, and the adapters keep the stored tables
    simp only [hn, true_or, iff_true]
    exact ⟨⟨fun _ => Iff.rfl, fun _ => Iff.rfl⟩, fun _ => Iff.rfl, fun _ => Iff.rfl⟩
  · simp only [ha, hb, Bool.not_true, Bool.not_false, if_true, hn, false_or,
      Bool.false_eq_true, if_false, FlowUpdate.adapterTables, AdapterRequest.apply,
      FlowUpdate.tables, AdapterTables.Same, replaceChanges_eq]
    rw [changes_sameEntries_iff flowKey hflows, changes_overwrite_sameEntries_iff groupId hgroups]
    exact and_iff_left ⟨fun _ => Iff.rfl, fun _ => Iff.rfl⟩

end Replace

/-! ### Two runs of a replacement -/

theorem replace_agrees_on_an_empty_device :
    ReplaceAgrees (willingEnv true) (willingEnv false) { id := "olt" } [{ cookie := 1 }] []
      none :=
  (replace_agrees_iff (by decide) (by decide) (by decide) rfl rfl rfl rfl).mpr
    (.inr ⟨rfl, by simp⟩)

/-- A device with one flow, replaced by that flow and another one. -/
theorem replace_disagrees_on_a_kept_flow :
    (([{ cookie := 1 }, { cookie := 2 }] : List OfpFlowStats).map flowKey).Nodup ∧
      ¬ ReplaceAgrees (willingEnv true) (willingEnv false)
        { id := "olt", flows := [{ cookie := 1 }] } [{ cookie := 1 }, { cookie := 2 }] [] none := by
  refine ⟨by decide, fun h => ?_⟩
  have hkept := (h.1.1 { cookie := 1 }).mpr (by decide)
  exact absurd hkept (by decide)

end VolthaCore.Devices
