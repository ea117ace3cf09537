import VolthaCore.Logical.Groups

/-! Deleting groups. The flows that output to a deleted group go with it, unless all groups are
deleted, and the rules of the remaining flows replace the tables of the devices that have such
rules. -/

namespace VolthaCore.Logical

open OpenFlow Decomposition Outcome Table World

variable {env : Env} {mod : OfpGroupMod} {w w' : World} {d : String} {deletion : GroupDeletion}
  {ld : LogicalDevice}

def deletedGroups (mod : OfpGroupMod) (ld : LogicalDevice) : List UInt32 :=
  if mod.groupId = OFPG_ALL then ld.flowGroups.map groupId else [mod.groupId]

def avoids (ids : List UInt32) (f : OfpFlowStats) : Bool := ids.all fun id => !flowHasOutGroup f id

/-! ### The flows and groups that are left -/

theorem groupDeletion_eq_some (h : groupDeletion mod ld = some deletion) :
    (∀ g, g ∈ ld.flowGroups ∧ groupId g ∉ deletedGroups mod ld → g ∈ deletion.groups) ∧
    (deletion.flows = if mod.groupId = OFPG_ALL then ld.flows
      else ld.flows.filter (avoids (deletedGroups mod ld))) ∧
    (deletion.flowsChanged = true ↔ mod.groupId ≠ OFPG_ALL ∧
      ∃ f ∈ ld.flows, avoids (deletedGroups mod ld) f = false) := by
  unfold groupDeletion at h
  unfold deletedGroups
  split_ifs at h ⊢ with hall
  · cases h
    refine ⟨?_, rfl, by simp [hall]⟩
    rintro g ⟨hg, hnot⟩
    exact absurd (List.mem_map_of_mem hg) hnot
  · obtain ⟨idx, hidx, h⟩ := Option.map_eq_some_iff.mp h
    obtain ⟨hlt, hid⟩ := indexOf_eq_some groupId hidx
    have hperm := List.getElem_cons_eraseIdx_perm hlt
    have hkeep : avoids [mod.groupId] = fun f => !flowHasOutGroup f mod.groupId := by
      funext f
      simp [avoids]
    subst h
    rw [hkeep]
    refine ⟨?_, rfl, ?_⟩
    · rintro g ⟨hg, hnot⟩
      rcases List.mem_cons.mp (hperm.mem_iff.mpr hg) with rfl | hg
      · simp [hid] at hnot
      · exact hg
    · simp [flowsDeleteByGroupId, List.length_filter_lt_length_iff_exists, hall]

/-! ### Running a deletion -/

theorem groupDelete_ok (h : runSteps env (groupDelete env mod w.agent.logicalDevice) w = .ok () w')
    (hdeletion : groupDeletion mod w.agent.logicalDevice = some deletion) :
    ∃ dec, decomposeRules env.hash env.topology deletion.flows deletion.groups = .ok dec ∧
      (∀ d, Updated env .update none w w' d (dec.rules.lookup d)) ∧
      w'.agent.logicalDevice = { w.agent.logicalDevice with
        flows := if deletion.flowsChanged then dec.flows else w.agent.logicalDevice.flows
        flowGroups := deletion.groups } := by
  unfold groupDelete at h
  simp only [hdeletion] at h
  cases hdec : decomposeRules env.hash env.topology deletion.flows deletion.groups with
  | error e =>
    simp only [hdec] at h
    exact absurd h runSteps_fail_ne_ok
  | ok dec =>
    simp only [hdec] at h
    refine ⟨dec, rfl, runSteps_devices_ok [] (by simp)
      (isWrite_of_mem_cons_ite rfl (List.forall_mem_singleton.mpr rfl)) h, ?_⟩
    rw [logicalDevice_of_ok h]
    split_ifs <;> rfl

theorem deviceFlows_congr (h : w'.devices d = w.devices d) :
    w'.deviceFlows d = w.deviceFlows d ∧ w'.deviceGroups d = w.deviceGroups d := by
  unfold deviceFlows deviceGroups
  rw [h]
  exact ⟨rfl, rfl⟩

end VolthaCore.Logical
