import VolthaCore.Logical.Tables

/-! Failed requests. When the writes of the logical device succeed, a request can only
fail at a check, at the decomposition or at the devices. Almost all operations have
that behind them when they start to write, so their failures leave the logical
device as it was. The exception is the strict deletion of a flow with a meter: the
flow count of the meter is written first. -/

namespace VolthaCore.Logical

open OpenFlow Decomposition Outcome List

/-! ### Operations that write last -/

/-- No step after a write is anything but a write. -/
def WritesLast (steps : List Step) : Prop :=
  steps.Pairwise fun s t => s.isWrite = true → t.isWrite = true

variable {steps : List Step} {agent : LogicalDeviceAgent}

theorem writesLast_of_writes (h : ∀ s ∈ steps, s.isWrite = true) : WritesLast steps :=
  pairwise_of_forall_mem_list fun _ _ t ht _ => h t ht

theorem writesLast_cons {s : Step} (hs : s.isWrite = false) (h : WritesLast steps) :
    WritesLast (s :: steps) :=
  pairwise_cons.mpr ⟨fun _ _ hw => by simp [hs] at hw, h⟩

theorem writesLast_fail (e : Err) : WritesLast [.fail e] := pairwise_singleton _ _

theorem applySteps_of_not_write (h : ∀ s ∈ steps, s.isWrite = false) :
    applySteps steps agent = agent := by
  induction steps with
  | nil => rfl
  | cons s steps ih =>
    have hs : s.applyTo agent = agent := by simp [Step.applyTo, h s]
    rw [applySteps, foldl_cons, hs]
    exact ih fun t ht => h t (mem_cons_of_mem _ ht)

/-- Where writes come last, nothing is written before a step that is no write. -/
theorem applySteps_of_writesLast {before later : List Step} {s : Step}
    (h : WritesLast (before ++ s :: later)) (hs : s.isWrite = false) :
    applySteps before agent = agent := by
  refine applySteps_of_not_write fun t ht => ?_
  have horder := (pairwise_append.mp h).2.2 t ht s (by simp)
  cases hw : t.isWrite with
  | false => rfl
  | true => rw [horder hw] at hs; cases hs

section Order
variable (env : Env) (ld : LogicalDevice)

theorem writesLast_flowAdd (mod : OfpFlowMod) : WritesLast (flowAdd env mod ld) := by
  obtain ⟨-, hs⟩ | ⟨e, hs⟩ | ⟨addition, metadata, dec, -, -, -, hs⟩ := flowAdd_cases env mod ld <;>
    rw [hs]
  · exact List.Pairwise.nil
  · exact writesLast_fail e
  · exact writesLast_cons rfl
      (writesLast_of_writes (isWrite_of_mem_cons_ite rfl isWrite_of_mem_writeCounted))

theorem writesLast_flowDelete (mod : OfpFlowMod) : WritesLast (flowDelete env mod ld) := by
  obtain ⟨-, hs⟩ | ⟨e, hs⟩ | ⟨metadata, dec, -, hs⟩ := flowDelete_cases env mod ld <;> rw [hs]
  · exact List.Pairwise.nil
  · exact writesLast_fail e
  · exact writesLast_cons rfl (pairwise_singleton _ _)

theorem writesLast_group (mod : OfpGroupMod) : WritesLast (updateGroupTable env mod ld) := by
  unfold updateGroupTable
  cases mod.command with
  | add =>
    dsimp only [groupAdd]
    split
    · exact writesLast_cons rfl (pairwise_singleton _ _)
    · exact writesLast_fail _
  | modify =>
    dsimp only [groupModify]
    split
    · exact writesLast_fail _
    · exact writesLast_cons rfl (pairwise_singleton _ _)
  | delete =>
    dsimp only [groupDelete]
    split
    · exact List.Pairwise.nil
    · split
      · exact writesLast_fail _
      · exact writesLast_cons rfl (writesLast_of_writes
          (isWrite_of_mem_cons_ite rfl (forall_mem_singleton.mpr rfl)))

theorem writesLast_meter (mod : OfpMeterMod) : WritesLast (updateMeterTable mod ld) := by
  unfold updateMeterTable
  cases mod.command with
  | add =>
    dsimp only [meterAdd]
    split_ifs
    · exact List.Pairwise.nil
    · exact pairwise_singleton _ _
  | modify =>
    dsimp only [meterModify]
    split_ifs
    · exact pairwise_singleton _ _
    · exact writesLast_fail _
  | delete => exact writesLast_of_writes (isWrite_of_mem_meterDelete mod ld)

end Order

/-! ### Counting down a meter -/

/-- A strict deletion that has its routes and finds a flow whose meter exists. -/
def CountsDown (env : Env) (ld : LogicalDevice) : Request → Prop
  | .flow mod => (∃ routes, env.routes = .ok routes) ∧ mod.command = .deleteStrict ∧
      ∃ removal, flowRemoval env.hash ld.flows mod = some removal ∧
        getMeterIdFromFlow removal.flow ≠ 0 ∧
        getMeterIdFromFlow removal.flow ∈ ld.meters.map meterId
  | _ => False

theorem writeCounted_deleteStrict (meters : List OfpMeterEntry) (flow : OfpFlowStats) :
    writeCounted (updateFlowCountOfMeterStats .deleteStrict meters flow) =
      if getMeterIdFromFlow flow ≠ 0 ∧ getMeterIdFromFlow flow ∈ meters.map meterId then
        [.writeMeters (Table.editFirst (fun m => meterId m = getMeterIdFromFlow flow)
          (setFlowCount (· - 1)) meters)]
      else [] := by
  simp only [updateFlowCountOfMeterStats, flowCountChange]
  split_ifs <;> rfl

theorem setFlowCount_sub_one_ne (m : OfpMeterEntry) : setFlowCount (· - 1) m ≠ m := by
  intro h
  have hcount : m.stats.flowCount - 1 = m.stats.flowCount :=
    congrArg (fun m : OfpMeterEntry => m.stats.flowCount) h
  grind

section CountsDown
variable {env : Env} {request : Request} {ld : LogicalDevice}

/-- Without a meter to count down a strict deletion writes last, too. -/
theorem writesLast_flowDeleteStrict {mod : OfpFlowMod} (hcommand : mod.command = .deleteStrict)
    (h : ∀ removal, flowRemoval env.hash ld.flows mod = some removal →
      ¬ (getMeterIdFromFlow removal.flow ≠ 0 ∧
        getMeterIdFromFlow removal.flow ∈ ld.meters.map meterId)) :
    WritesLast (flowDeleteStrict env mod ld) := by
  obtain ⟨e, -, hs⟩ | ⟨removal, hremoval, hs⟩ := flowDeleteStrict_cases env mod ld
  · rw [hs]
    exact writesLast_fail e
  · rw [hcommand, writeCounted_deleteStrict, if_neg (h removal hremoval)] at hs
    obtain ⟨e, hs⟩ | ⟨metadata, dec, -, hs⟩ := hs <;> rw [hs]
    · exact writesLast_fail e
    · exact writesLast_cons rfl (pairwise_singleton _ _)

/-- Every other request writes last. -/
theorem writesLast_steps (h : ¬ CountsDown env ld request) : WritesLast (request.steps env ld) := by
  unfold Request.steps
  cases hroutes : env.routes with
  | error e => exact writesLast_fail e
  | ok routes =>
    cases request with
    | group mod => exact writesLast_group env ld mod
    | meter mod => exact writesLast_meter ld mod
    | flow mod =>
      simp only [Request.operation, updateFlowTable]
      cases hcommand : mod.command with
      | add => exact writesLast_flowAdd env ld mod
      | delete => exact writesLast_flowDelete env ld mod
      | modify | modifyStrict => exact writesLast_fail _
      | deleteStrict =>
        exact writesLast_flowDeleteStrict hcommand fun removal hremoval hmeter =>
          h ⟨⟨routes, hroutes⟩, hcommand, removal, hremoval, hmeter⟩

/-- A strict deletion that counts down starts with that write and has one more step
that can fail. -/
theorem steps_of_countsDown (h : CountsDown env ld request) :
    ∃ meters rest, request.steps env ld = .writeMeters meters :: rest ∧ meters ≠ ld.meters ∧
      WritesLast rest := by
  cases request with
  | group mod | meter mod => exact h.elim
  | flow mod =>
    obtain ⟨⟨routes, hroutes⟩, hcommand, removal, hremoval, hid, hmeter⟩ := h
    have hne : Table.editFirst (fun m => meterId m = getMeterIdFromFlow removal.flow)
        (setFlowCount (· - 1)) ld.meters ≠ ld.meters := by
      obtain ⟨m, hm, hmid⟩ := mem_map.mp hmeter
      exact Table.editFirst_ne ⟨m, hm, by simpa using hmid⟩ setFlowCount_sub_one_ne
    simp only [Request.steps, hroutes, Request.operation, updateFlowTable, hcommand]
    obtain ⟨e, hnone, -⟩ | ⟨removal', hremoval', hs⟩ := flowDeleteStrict_cases env mod ld
    · rw [hremoval] at hnone
      cases hnone
    · obtain rfl := Option.some.inj (hremoval.symm.trans hremoval')
      rw [hcommand, writeCounted_deleteStrict, if_pos ⟨hid, hmeter⟩] at hs
      obtain ⟨e, hs⟩ | ⟨metadata, dec, -, hs⟩ := hs
      · exact ⟨_, _, hs, hne, writesLast_fail e⟩
      · exact ⟨_, _, hs, hne, writesLast_cons rfl (pairwise_singleton _ _)⟩

/-- With working writes, a request that fails leaves the cached and the stored tables
as they were, unless it has counted down a meter. -/
theorem unchanged_after_failure_iff {w w' : World} {e : Err} (hworks : env.StoreWorks)
    (hrun : request.run env w = .error e w') :
    w'.agent = w.agent ↔ ¬ CountsDown env w.agent.logicalDevice request := by
  obtain ⟨before, s, later, hsteps, hagent, hstops⟩ := runSteps_error hrun
  have hs := hstops hworks
  constructor
  · intro hsame hcounts
    obtain ⟨meters, rest, hfirst, hne, hlast⟩ := steps_of_countsDown hcounts
    rw [hfirst] at hsteps
    cases before with
    | nil =>
      obtain ⟨rfl, -⟩ := List.cons.inj hsteps
      cases hs
    | cons t before =>
      obtain ⟨rfl, rfl⟩ := List.cons.inj hsteps
      rw [applySteps, foldl_cons] at hagent
      have hrest := hagent.trans (applySteps_of_writesLast hlast hs)
      refine hne ?_
      rw [← hsame, hrest]
      rfl
  · intro hcounts
    rw [hagent]
    exact applySteps_of_writesLast (hsteps ▸ writesLast_steps hcounts) hs

end CountsDown

/-- The topology before any route is known, in which no flow decomposes. -/
def noRoutes : Topology := { oneLeaf with routes := [] }

theorem unchanged_after_failed_flowAdd :
    (requestStep (leafWorld [meterInstruction 1] 1)
      (workingEnv sizeHash noRoutes, .flow (leafMod .add))).agent =
      (leafWorld [meterInstruction 1] 1).agent := by
  have hfails : returns ((Request.flow (leafMod .add)).run (workingEnv sizeHash noRoutes))
      (leafWorld [meterInstruction 1] 1) = false := by decide
  obtain ⟨e, hrun⟩ := not_returns_iff.mp hfails
  refine (unchanged_after_failure_iff (storeWorks_workingEnv _ _) hrun).mpr ?_
  rintro ⟨-, hcommand, -⟩
  cases hcommand

/-- Deleting the flow fails, but its meter has been counted down. -/
theorem failed_deletion_counts_down :
    returns ((Request.flow (leafMod .deleteStrict)).run (workingEnv sizeHash noRoutes))
      (leafWorld [meterInstruction 1] 1) = false ∧
    (requestStep (leafWorld [meterInstruction 1] 1)
      (workingEnv sizeHash noRoutes, .flow (leafMod .deleteStrict))).agent ≠
      (leafWorld [meterInstruction 1] 1).agent := by
  decide

end VolthaCore.Logical
