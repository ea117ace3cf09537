import VolthaCore.Lib.Runs
import VolthaCore.Logical.Tables

/-! Invariants of the tables of a logical device. Meter and group identifiers stay
distinct and every flow with a meter names one that exists, whatever fails, as long
as the writes of the logical device succeed. The flow table stays keyed as long as no
flow is added with `CHECK_OVERLAP` under a key that is taken, since the overlap check
never finds anything. -/

namespace VolthaCore.Logical

open OpenFlow Decomposition Runs List Table

variable {env : Env} {request : Request} {ld : LogicalDevice} {mod : OfpFlowMod}
  {flows : List OfpFlowStats}

/-! ### What a request can write -/

section Writes

/-- The meters after a count are the same but for their counts. -/
theorem ids_updateFlowCountOfMeterStats (command : OfpFlowModCommand) (meters : List OfpMeterEntry)
    (flow : OfpFlowStats) :
    (updateFlowCountOfMeterStats command meters flow).2.map meterId = meters.map meterId := by
  unfold updateFlowCountOfMeterStats
  dsimp only
  cases flowCountChange command with
  | none => rfl
  | some change =>
    dsimp only
    split_ifs
    · refine map_editFirst ?_ meters
      exact fun m _ => rfl
    · rfl

/-- What a request can write: a flow is appended or put in the place of another, or a
part of the flow table is kept, where identifiers may change; an entry with a new
identifier is appended to the groups or meters, or identifiers are kept or dropped,
those of meters only when a meter is deleted. -/
def MayWrite (env : Env) (request : Request) (ld : LogicalDevice) : Step → Prop
  | .fail _ => True
  | .devices _ _ _ => True
  | .writeFlows flows =>
    (∃ mod addition metadata, request = .flow mod ∧ mod.command = .add ∧
      flowAddition env.hash ld.flows mod = some addition ∧
      getMeterConfig [addition.flow] ld.meters = .ok metadata ∧ flows = addition.flows) ∨
    ∃ kept : List OfpFlowStats, kept.Sublist ld.flows ∧ flows.map flowKey = kept.map flowKey ∧
      flows.map getMeterIdFromFlow = kept.map getMeterIdFromFlow
  | .writeGroups groups =>
    (∃ g, groupId g ∉ ld.flowGroups.map groupId ∧ groups = ld.flowGroups ++ [g]) ∨
      (groups.map groupId).Sublist (ld.flowGroups.map groupId)
  | .writeMeters meters =>
    (∃ m, meterId m ∉ ld.meters.map meterId ∧ meters = ld.meters ++ [m]) ∨
      meters.map meterId = ld.meters.map meterId ∨
      ((∃ mod, request = .meter mod ∧ mod.command = .delete) ∧
        (meters.map meterId).Sublist (ld.meters.map meterId))

theorem mayWrite_sublist (h : flows.Sublist ld.flows) :
    MayWrite env request ld (.writeFlows flows) := .inr ⟨flows, h, rfl, rfl⟩

theorem mayWrite_counted (command : OfpFlowModCommand) (flow : OfpFlowStats) :
    ∀ s ∈ writeCounted (updateFlowCountOfMeterStats command ld.meters flow),
      MayWrite env request ld s := by
  intro s hs
  rw [(mem_writeCounted.mp hs).2]
  exact .inr (.inl (ids_updateFlowCountOfMeterStats command ld.meters flow))

theorem mayWrite_flowAdd (hcommand : mod.command = .add) :
    ∀ s ∈ flowAdd env mod ld, MayWrite env (.flow mod) ld s := by
  obtain ⟨-, hs⟩ | ⟨e, hs⟩ | ⟨addition, metadata, dec, hadd, hmeter, -, hs⟩ :=
    flowAdd_cases env mod ld <;> rw [hs]
  · simp
  · simp [MayWrite]
  · simp only [forall_mem_cons]
    refine ⟨trivial, .inl ⟨mod, addition, metadata, rfl, hcommand, hadd, hmeter, rfl⟩, ?_⟩
    split_ifs
    · exact mayWrite_counted mod.command addition.flow
    · simp

theorem mayWrite_flowDelete :
    ∀ s ∈ flowDelete env mod ld, MayWrite env (.flow mod) ld s := by
  obtain ⟨-, hs⟩ | ⟨e, hs⟩ | ⟨metadata, dec, -, hs⟩ := flowDelete_cases env mod ld <;> rw [hs]
  · simp
  · simp [MayWrite]
  · simp only [forall_mem_cons]
    exact ⟨trivial, mayWrite_sublist filter_sublist, by simp⟩

theorem mayWrite_flowDeleteStrict :
    ∀ s ∈ flowDeleteStrict env mod ld, MayWrite env (.flow mod) ld s := by
  obtain ⟨e, -, hs⟩ | ⟨removal, hremoval, ⟨e, hs⟩ | ⟨metadata, dec, -, hs⟩⟩ :=
    flowDeleteStrict_cases env mod ld <;> rw [hs]
  · simp [MayWrite]
  · rw [forall_mem_append]
    exact ⟨mayWrite_counted mod.command removal.flow, by simp [MayWrite]⟩
  · obtain ⟨idx, -, -, hflows⟩ := flowRemoval_eq_some hremoval
    rw [forall_mem_append]
    refine ⟨mayWrite_counted mod.command removal.flow, ?_⟩
    simp only [forall_mem_cons]
    exact ⟨trivial, mayWrite_sublist (hflows ▸ eraseIdx_sublist _ _), by simp⟩

variable {mod : OfpGroupMod}

theorem mayWrite_groupAdd : ∀ s ∈ groupAdd env mod ld, MayWrite env (.group mod) ld s := by
  unfold groupAdd
  cases hfind : findGroup ld.flowGroups mod.groupId with
  | none =>
    simp only [forall_mem_cons]
    have hfresh := (findGroup_eq_none_iff _ _).mp hfind
    exact ⟨trivial, .inl ⟨groupEntryFromGroupMod mod, hfresh, rfl⟩, by simp⟩
  | some idx => simp [MayWrite]

theorem mayWrite_groupModify : ∀ s ∈ groupModify env mod ld, MayWrite env (.group mod) ld s := by
  unfold groupModify
  cases hfind : findGroup ld.flowGroups mod.groupId with
  | none => simp [MayWrite]
  | some idx =>
    obtain ⟨hlt, hid⟩ := indexOf_eq_some groupId hfind
    have hids : (ld.flowGroups.set idx (groupEntryFromGroupMod mod)).map groupId =
        ld.flowGroups.map groupId := keys_set_of_key_eq groupId hlt hid.symm
    simp only [forall_mem_cons]
    exact ⟨trivial, .inr (hids ▸ List.Sublist.refl _), by simp⟩

theorem mayWrite_groupDelete : ∀ s ∈ groupDelete env mod ld, MayWrite env (.group mod) ld s := by
  unfold groupDelete
  cases hdeletion : groupDeletion mod ld with
  | none => simp
  | some deletion =>
    dsimp only
    cases hdec : decomposeRules env.hash env.topology deletion.flows deletion.groups with
    | error e => simp [MayWrite]
    | ok dec =>
      simp only [forall_mem_cons]
      refine ⟨trivial, .inr ((groupDeletion_groups_sublist hdeletion).map groupId), ?_⟩
      split_ifs
      · -- the flows that are written back may have new identifiers
        simp only [forall_mem_cons]
        exact ⟨.inr ⟨deletion.flows, groupDeletion_flows_sublist hdeletion,
          map_decomposeRules_flows hdec fun _ => rfl,
          map_decomposeRules_flows hdec fun _ => rfl⟩, by simp⟩
      · simp

theorem mayWrite_updateMeterTable {mod : OfpMeterMod} :
    ∀ s ∈ updateMeterTable mod ld, MayWrite env (.meter mod) ld s := by
  unfold updateMeterTable
  cases hcommand : mod.command with
  | add =>
    simp only [meterAdd]
    split_ifs with hmem
    · simp
    · simp only [forall_mem_cons]
      exact ⟨.inl ⟨meterEntryFromMeterMod mod, hmem, rfl⟩, by simp⟩
  | modify =>
    simp only [meterModify]
    split_ifs with hmem
    · simp only [forall_mem_cons]
      refine ⟨.inr (.inl (map_editFirst (fun m hm => ?_) _)), by simp⟩
      exact (of_decide_eq_true hm).symm
    · simp [MayWrite]
  | delete =>
    simp only [meterDelete]
    cases indexOf meterId ld.meters mod.meterId with
    | none => simp
    | some index =>
      simp only [forall_mem_cons]
      refine ⟨.inr (.inr ⟨⟨mod, rfl, hcommand⟩, (eraseIdx_sublist _ _).map meterId⟩), ?_⟩
      split_ifs
      · simp only [forall_mem_cons]
        exact ⟨mayWrite_sublist filter_sublist, by simp⟩
      · simp

/-- Every step of a request is one of these. -/
theorem mayWrite_of_mem {s : Step} (h : s ∈ request.operation env ld) :
    MayWrite env request ld s := by
  cases request with
  | flow mod =>
    unfold Request.operation updateFlowTable at h
    cases hcommand : mod.command with
    | add => exact mayWrite_flowAdd hcommand s (by simpa [hcommand] using h)
    | delete => exact mayWrite_flowDelete s (by simpa [hcommand] using h)
    | deleteStrict => exact mayWrite_flowDeleteStrict s (by simpa [hcommand] using h)
    | modify | modifyStrict =>
      simp only [hcommand, mem_singleton] at h
      exact h ▸ trivial
  | group mod =>
    unfold Request.operation updateGroupTable at h
    cases hcommand : mod.command with
    | add => exact mayWrite_groupAdd s (by simpa [hcommand] using h)
    | modify => exact mayWrite_groupModify s (by simpa [hcommand] using h)
    | delete => exact mayWrite_groupDelete s (by simpa [hcommand] using h)
  | meter mod => exact mayWrite_updateMeterTable s h

end Writes

/-! ### Keyed flow tables -/

/-- No two flows agree on table, priority, flags, cookie and match. -/
def Keyed (flows : List OfpFlowStats) : Prop := (flows.map flowKey).Nodup

/-- A flow that is added with `CHECK_OVERLAP` has a key that is not taken. -/
def AddsFresh (H : HashEnv) (ld : LogicalDevice) : Request → Prop
  | .flow mod => mod.command = .add → mod.flags &&& OFPFF_CHECK_OVERLAP ≠ 0 →
      flowKey (flowStatsEntryFromFlowModMessage H mod) ∉ ld.flows.map flowKey
  | _ => True

theorem keyed_flowAddition {H : HashEnv}
    {addition : FlowAddition} (h : flowAddition H flows mod = some addition) (hkeyed : Keyed flows)
    (hfresh : mod.flags &&& OFPFF_CHECK_OVERLAP ≠ 0 →
      flowKey (flowStatsEntryFromFlowModMessage H mod) ∉ flows.map flowKey) :
    Keyed addition.flows := by
  unfold Keyed
  obtain ⟨-, hflow, hflows, hnew⟩ | ⟨idx, hidx, -, hflows, hkey⟩ := flowAddition_eq_some h
  · rw [hflows]
    refine nodup_keys_concat flowKey hkeyed ?_
    by_cases hoverlap : mod.flags &&& OFPFF_CHECK_OVERLAP = 0
    · exact hnew hoverlap
    · rw [hflow]
      exact hfresh hoverlap
  · rw [hflows, keys_set_of_key_eq flowKey hidx hkey]
    exact hkeyed

theorem keyed_step {w : World} {env : Env} {request : Request}
    (hfresh : AddsFresh env.hash w.agent.logicalDevice request)
    (h : Keyed w.agent.logicalDevice.flows) :
    Keyed (requestStep w (env, request)).agent.logicalDevice.flows := by
  obtain ⟨before, later, hsteps, hagent, -⟩ := after_request env request w
  unfold requestStep
  rw [hagent, logicalDevice_applySteps]
  refine editSteps_induction (P := fun ld => Keyed ld.flows) h fun s hs ld hld => ?_
  have hmay := mayWrite_of_mem (hsteps ▸ mem_append_left later hs)
  cases s with
  | writeFlows flows =>
    obtain ⟨mod, addition, -, rfl, hcommand, hadd, -, rfl⟩ | ⟨kept, hsub, hkeys, -⟩ := hmay
    · exact keyed_flowAddition hadd h (hfresh hcommand)
    · change (flows.map flowKey).Nodup
      rw [hkeys]
      exact h.sublist (hsub.map flowKey)
  | _ => exact hld

/-- A table that starts empty stays keyed as long as flows that are added with
`CHECK_OVERLAP` have fresh keys. -/
theorem keyed_of_addsFresh {inputs : List (Env × Request)} {w₀ : World}
    (hempty : w₀.agent.logicalDevice.flows = [])
    (h : Along requestStep (fun w r => AddsFresh r.1.hash w.agent.logicalDevice r.2) inputs w₀) :
    Keyed (run requestStep inputs w₀).agent.logicalDevice.flows := by
  refine run_invariant (P := fun w => Keyed w.agent.logicalDevice.flows)
    (fun w r hfresh hw => keyed_step hfresh hw) h ?_
  rw [hempty]
  exact nodup_nil

theorem keyed_of_one_checked_flow :
    Keyed (run requestStep [(workingEnv sizeHash oneLeaf, .flow (leafMod .add OFPFF_CHECK_OVERLAP))]
      emptyWorld).agent.logicalDevice.flows :=
  keyed_of_addsFresh rfl ⟨fun _ _ => by decide, trivial⟩

/-- A flow that is added twice with `CHECK_OVERLAP` is in the table twice. -/
theorem checked_flow_added_twice :
    ¬ Keyed (run requestStep
      [(workingEnv sizeHash oneLeaf, .flow (leafMod .add OFPFF_CHECK_OVERLAP)),
      (workingEnv sizeHash oneLeaf, .flow (leafMod .add OFPFF_CHECK_OVERLAP))]
      emptyWorld).agent.logicalDevice.flows := by
  unfold Keyed
  decide

/-! ### Identifiers and references -/

/-- A flow with a meter names one that exists. -/
def References (flows : List OfpFlowStats) (meters : List OfpMeterEntry) : Prop :=
  ∀ f ∈ flows, getMeterIdFromFlow f ≠ 0 → getMeterIdFromFlow f ∈ meters.map meterId

/-- Identifiers of meters and groups are distinct, and a flow with a meter names one
that exists. -/
structure Integrity (ld : LogicalDevice) : Prop where
  meters : (ld.meters.map meterId).Nodup
  groups : (ld.flowGroups.map groupId).Nodup
  references : References ld.flows ld.meters

section Integrity
variable {steps : List Step}

section

variable (hmay : ∀ s ∈ steps, MayWrite env request ld s)
include hmay

theorem nodup_meters_editSteps (h : (ld.meters.map meterId).Nodup) :
    ((editSteps steps ld).meters.map meterId).Nodup := by
  refine editSteps_induction (P := fun l => (l.meters.map meterId).Nodup) h fun s hs l hl => ?_
  cases s with
  | writeMeters meters =>
    change (meters.map meterId).Nodup
    obtain ⟨m, hm, rfl⟩ | hids | ⟨-, hsub⟩ := hmay _ hs
    · exact nodup_keys_concat meterId h hm
    · rw [hids]
      exact h
    · exact h.sublist hsub
  | _ => exact hl

theorem nodup_groups_editSteps (h : (ld.flowGroups.map groupId).Nodup) :
    ((editSteps steps ld).flowGroups.map groupId).Nodup := by
  refine editSteps_induction (P := fun l => (l.flowGroups.map groupId).Nodup) h fun s hs l hl => ?_
  cases s with
  | writeGroups groups =>
    change (groups.map groupId).Nodup
    obtain ⟨g, hg, rfl⟩ | hsub := hmay _ hs
    · exact nodup_keys_concat groupId h hg
    · exact h.sublist hsub
  | _ => exact hl

/-- Unless a meter is deleted, meters only come in, and a flow that comes in names one
that was there before. -/
theorem references_editSteps (hkeep : ¬ ∃ mod, request = .meter mod ∧ mod.command = .delete)
    (h : References ld.flows ld.meters) :
    References (editSteps steps ld).flows (editSteps steps ld).meters := by
  suffices hinv : References (editSteps steps ld).flows ld.meters ∧
      ∀ id ∈ ld.meters.map meterId, id ∈ (editSteps steps ld).meters.map meterId from
    fun f hf hid => hinv.2 _ (hinv.1 f hf hid)
  refine editSteps_induction (P := fun l => References l.flows ld.meters ∧
    ∀ id ∈ ld.meters.map meterId, id ∈ l.meters.map meterId) ⟨h, fun _ hid => hid⟩
    fun s hs l hl => ?_
  cases s with
  | writeFlows flows =>
    refine ⟨?_, hl.2⟩
    obtain ⟨mod, addition, metadata, -, -, hadd, hmeter, rfl⟩ | ⟨kept, hsub, -, hids⟩ := hmay _ hs
    · obtain ⟨rest, hnew, hold⟩ := flowAddition_perm hadd
      intro f hf
      rcases mem_cons.mp (hnew.mem_iff.mp hf) with rfl | hf
      · exact getMeterConfig_ok hmeter _ (by simp)
      · exact h f (hold.mem_iff.mpr (mem_append_right _ hf))
    · intro f hf
      have hmem : getMeterIdFromFlow f ∈ kept.map getMeterIdFromFlow :=
        hids ▸ mem_map_of_mem hf
      obtain ⟨g, hg, hgf⟩ := mem_map.mp hmem
      rw [← hgf]
      exact h g (hsub.subset hg)
  | writeMeters meters =>
    refine ⟨hl.1, ?_⟩
    change ∀ id ∈ ld.meters.map meterId, id ∈ meters.map meterId
    obtain ⟨m, -, rfl⟩ | hids | ⟨hdelete, -⟩ := hmay _ hs
    · intro id hid
      rw [map_append]
      exact mem_append_left _ hid
    · rw [hids]
      exact fun _ hid => hid
    · exact absurd hdelete hkeep
  | _ => exact hl

end

/-- A meter that is deleted is no longer named by a flow. -/
theorem references_meterDelete {mod : OfpMeterMod} (h : References ld.flows ld.meters) :
    References (editSteps (meterDelete mod ld) ld).flows
      (editSteps (meterDelete mod ld) ld).meters := by
  cases hindex : indexOf meterId ld.meters mod.meterId with
  | none =>
    simpa [meterDelete, hindex] using h
  | some index =>
    rw [editSteps_meterDelete hindex]
    dsimp only
    intro f hf hid
    obtain ⟨hlt, hmeter⟩ := indexOf_eq_some meterId hindex
    obtain ⟨hf, hnot⟩ := mem_filter.mp hf
    have hne : getMeterIdFromFlow f ≠ mod.meterId := by
      simpa [namesMeter, hid] using hnot
    obtain ⟨m, hm, hmf⟩ := mem_map.mp (h f hf hid)
    rcases mem_cons.mp ((getElem_cons_eraseIdx_perm hlt).mem_iff.mpr hm) with rfl | hm
    · exact absurd (hmf.symm.trans hmeter) hne
    · exact hmf ▸ mem_map_of_mem hm

/-- Steps of a request keep the integrity, if a deletion of a meter is not cut short. -/
theorem integrity_editSteps {before later : List Step} (h : Integrity ld)
    (hsteps : request.operation env ld = before ++ later)
    (hdelete : (∃ mod, request = .meter mod ∧ mod.command = .delete) → before = [] ∨ later = []) :
    Integrity (editSteps before ld) := by
  have hmay : ∀ s ∈ before, MayWrite env request ld s := fun s hs =>
    mayWrite_of_mem (hsteps ▸ mem_append_left later hs)
  refine ⟨nodup_meters_editSteps hmay h.meters, nodup_groups_editSteps hmay h.groups, ?_⟩
  by_cases hkeep : ∃ mod, request = .meter mod ∧ mod.command = .delete
  · rcases hdelete hkeep with rfl | rfl
    · exact h.references
    · obtain ⟨mod, rfl, hcommand⟩ := hkeep
      have hbefore : before = meterDelete mod ld := by
        simpa [Request.operation, updateMeterTable, hcommand] using hsteps.symm
      rw [hbefore]
      exact references_meterDelete h.references
  · exact references_editSteps hmay hkeep h.references

/-- With working writes a request keeps the integrity, whatever else fails. -/
theorem integrity_step {w : World} (hworks : env.StoreWorks)
    (h : Integrity w.agent.logicalDevice) :
    Integrity (requestStep w (env, request)).agent.logicalDevice := by
  obtain ⟨before, later, hsteps, hagent, hstops⟩ := after_request env request w
  unfold requestStep
  rw [hagent, logicalDevice_applySteps]
  refine integrity_editSteps h hsteps ?_
  rintro ⟨mod, rfl, hcommand⟩
  by_contra hcut
  obtain ⟨hbefore, hlater⟩ := not_or.mp hcut
  obtain ⟨s, rest, rfl⟩ := exists_cons_of_ne_nil hlater
  -- the deletion consists of writes, so it could not stop at `s`
  have hwrite : s.isWrite = true := by
    refine isWrite_of_mem_meterDelete mod w.agent.logicalDevice s ?_
    have hs : s ∈ (Request.meter mod).operation env w.agent.logicalDevice := by
      rw [hsteps]
      simp
    simpa [Request.operation, updateMeterTable, hcommand] using hs
  rw [hstops hbefore s rfl hworks] at hwrite
  cases hwrite

end Integrity

/-- From empty tables, identifiers stay distinct and references valid in every run in
which the writes of the logical device succeed. -/
theorem integrity_of_storeWorks {inputs : List (Env × Request)} {w₀ : World}
    (hempty : w₀.agent.logicalDevice = {}) (hworks : ∀ r ∈ inputs, r.1.StoreWorks) :
    Integrity (run requestStep inputs w₀).agent.logicalDevice := by
  refine run_invariant (P := fun w => Integrity w.agent.logicalDevice)
    (fun w r hr hw => integrity_step hr hw) (along_of_forall hworks w₀) ?_
  rw [hempty]
  exact ⟨nodup_nil, nodup_nil, by simp [References]⟩

theorem integrity_of_metered_flow :
    Integrity (run requestStep [(workingEnv sizeHash oneLeaf, .meter { meterId := 1 }),
      (workingEnv sizeHash oneLeaf, .flow (leafMod .add 0 [meterInstruction 1])),
      (workingEnv sizeHash oneLeaf, .meter { command := .delete, meterId := 1 })]
      emptyWorld).agent.logicalDevice :=
  integrity_of_storeWorks rfl (by simp [storeWorks_workingEnv])

end VolthaCore.Logical
