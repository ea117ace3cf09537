import VolthaCore.Logical.Tables

/-! Group requests and the devices. A new group is merged into the tables of the root
device, but a modified one replaces them, flows and other groups included. -/

namespace VolthaCore.Logical

open OpenFlow Decomposition Devices Outcome Table World DeviceRules

variable {env : Env} {mod : OfpGroupMod} {w w' : World}

@[simp] theorem lookup_groupRules_self (root : String) (group : OfpGroupEntry) :
    (groupRules root group).lookup root = some (.ofGroup group) :=
  AList.lookup_insert _

variable {root d : String} {group : OfpGroupEntry} {metadata : Option FlowMetadata}

theorem lookup_groupRules_ne (hne : d ≠ root) (group : OfpGroupEntry) :
    (groupRules root group).lookup d = none := by
  unfold groupRules addFlowsAndGroup createEntryIfNotExist
  rw [AList.lookup_insert_ne hne, if_neg (AList.notMem_empty root), AList.lookup_insert_ne hne]
  exact AList.lookup_empty d

/-- Of all devices only the root changes, and there only the group with the
identifier of the new one. -/
structure TouchesOnlyGroup (root : String) (group : OfpGroupEntry) (w w' : World) : Prop where
  otherDevices : ∀ d, d ≠ root → w'.devices d = w.devices d
  flows : w'.deviceFlows root = w.deviceFlows root
  otherGroups : ((w'.deviceGroups root).filter fun g => groupId g ≠ groupId group) =
    (w.deviceGroups root).filter fun g => groupId g ≠ groupId group
  addressed : lookup groupId (w'.deviceGroups root) (groupId group) = some group

theorem groupAdd_ok (h : runSteps env (groupAdd env mod w.agent.logicalDevice) w = .ok () w')
    (d : String) :
    Updated env .add (some {}) w w' d
      ((groupRules env.topology.rootDeviceID (groupEntryFromGroupMod mod)).lookup d) := by
  unfold groupAdd at h
  cases hfind : findGroup w.agent.logicalDevice.flowGroups mod.groupId with
  | none =>
    simp only [hfind] at h
    exact runSteps_devices_ok [] (by simp) (List.forall_mem_singleton.mpr rfl) h d
  | some idx =>
    simp only [hfind] at h
    exact absurd h runSteps_fail_ne_ok

theorem groupModify_ok (h : runSteps env (groupModify env mod w.agent.logicalDevice) w = .ok () w')
    (d : String) :
    Updated env .update (some {}) w w' d
      ((groupRules env.topology.rootDeviceID (groupEntryFromGroupMod mod)).lookup d) := by
  unfold groupModify at h
  cases hfind : findGroup w.agent.logicalDevice.flowGroups mod.groupId with
  | none =>
    simp only [hfind] at h
    exact absurd h runSteps_fail_ne_ok
  | some idx =>
    simp only [hfind] at h
    exact runSteps_devices_ok [] (by simp) (List.forall_mem_singleton.mpr rfl) h d

theorem touchesOnlyGroup_of_add
    (h : ∀ d, Updated env .add metadata w w' d ((groupRules root group).lookup d)) :
    TouchesOnlyGroup root group w w' := by
  have hroot := h root
  rw [lookup_groupRules_self] at hroot
  obtain ⟨a, a', ha, hrun, ha'⟩ := hroot
  have hdevice := addFlowsAndGroups_ok hrun
  simp only [FlowsAndGroups.listFlows_ofGroup, FlowsAndGroups.listGroups_ofGroup, merge_nil]
    at hdevice
  refine ⟨fun d hd => ?_, ?_, ?_, ?_⟩
  · have hother := h d
    rwa [lookup_groupRules_ne hd] at hother
  · simp [deviceFlows, ha, ha', hdevice]
  · simp only [deviceGroups, ha, ha', SyncedAgent.stored_flowGroups, hdevice]
    exact merge_singleton_filter groupId group a.device.flowGroups
  · simp only [deviceGroups, ha', SyncedAgent.stored_flowGroups, hdevice]
    exact lookup_merge_singleton groupId group a.device.flowGroups

/-- Replacing the tables by one group touches nothing else only if nothing else was
there. -/
theorem touchesOnlyGroup_of_update_iff
    (h : ∀ d, Updated env .update metadata w w' d ((groupRules root group).lookup d)) :
    TouchesOnlyGroup root group w w' ↔
      w.deviceFlows root = [] ∧ ∀ g ∈ w.deviceGroups root, groupId g = groupId group := by
  have hroot := h root
  rw [lookup_groupRules_self] at hroot
  obtain ⟨a, a', ha, hrun, ha'⟩ := hroot
  have hdevice := updateFlowsAndGroups_ok (by simp) hrun
  have hflows : w'.deviceFlows root = [] := by
    simp [deviceFlows, ha', hdevice]
  have hgroups : w'.deviceGroups root = [group] := by
    simp [deviceGroups, ha', hdevice]
  constructor
  · rintro ⟨-, hsame, hother, -⟩
    rw [hflows] at hsame
    rw [hgroups] at hother
    refine ⟨hsame.symm, fun g hg => by_contra fun hne => ?_⟩
    have hmem : g ∈ (w.deviceGroups root).filter fun g => groupId g ≠ groupId group := by
      simpa using ⟨hg, hne⟩
    rw [← hother] at hmem
    simp at hmem
  · rintro ⟨hnone, hall⟩
    refine ⟨fun d hd => ?_, hflows.trans hnone.symm, ?_, ?_⟩
    · have hother := h d
      rwa [lookup_groupRules_ne hd] at hother
    · rw [hgroups]
      simpa using hall
    · simp [hgroups, lookup]

/-- A new group leaves everything else alone; a modified one does so exactly when the
root device stores no flow and no other group. -/
theorem touchesOnlyGroup_iff (hcommand : mod.command = .add ∨ mod.command = .modify)
    (hrun : (Request.group mod).run env w = .ok () w') :
    TouchesOnlyGroup env.topology.rootDeviceID (groupEntryFromGroupMod mod) w w' ↔
      (mod.command = .modify → w.deviceFlows env.topology.rootDeviceID = [] ∧
        ∀ g ∈ w.deviceGroups env.topology.rootDeviceID, groupId g = mod.groupId) := by
  replace hrun := Request.run_ok hrun
  unfold Request.operation updateGroupTable at hrun
  rcases hcommand with hcommand | hcommand
  · simp only [hcommand] at hrun
    simpa [hcommand] using touchesOnlyGroup_of_add (groupAdd_ok hrun)
  · simp only [hcommand] at hrun
    simpa [hcommand] using touchesOnlyGroup_of_update_iff (groupModify_ok hrun)

/-- One group on the logical device and on the root device, which stores some flows. -/
def oneGroupWorld (flows : List OfpFlowStats) : World :=
  oneLeafWorld { flowGroups := [groupEntryFromGroupMod { groupId := 1 }] }
    { id := "olt", flows, flowGroups := [groupEntryFromGroupMod { groupId := 1 }] } { id := "onu" }

def fastFailover : OfpGroupMod := { command := .modify, type := .ff, groupId := 1 }

theorem touchesOnlyGroup_without_flows :
    TouchesOnlyGroup "olt" (groupEntryFromGroupMod fastFailover) (oneGroupWorld [])
      (requestStep (oneGroupWorld []) (workingEnv sizeHash oneLeaf, .group fastFailover)) := by
  have hreturns : returns ((Request.group fastFailover).run (workingEnv sizeHash oneLeaf))
      (oneGroupWorld []) = true := by decide
  obtain ⟨_, hrun⟩ := returns_iff.mp hreturns
  exact (touchesOnlyGroup_iff (.inr rfl) hrun).mpr fun _ => ⟨rfl, by decide⟩

/-- Modifying a group deletes the flows of the root device. -/
theorem groupModify_deletes_flows :
    returns ((Request.group fastFailover).run (workingEnv sizeHash oneLeaf)) (oneGroupWorld [{}]) =
      true ∧
    ¬ TouchesOnlyGroup "olt" (groupEntryFromGroupMod fastFailover) (oneGroupWorld [{}])
      (requestStep (oneGroupWorld [{}]) (workingEnv sizeHash oneLeaf, .group fastFailover)) :=
  ⟨by decide, fun h => absurd h.flows (by decide)⟩

end VolthaCore.Logical
