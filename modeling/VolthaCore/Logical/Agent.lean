import VolthaCore.Decomposition.Decomposer
import VolthaCore.Devices.FlowUpdates

/-! The logical device agent and the devices below it. A table request runs under
the lock of the logical device: it reads the cached logical device once and then
goes through steps, which update devices, write a table or fail. The device
updates of one step run side by side, all of them to the end, and the step fails
when one of them did. A failed step ends the request and keeps what was done. -/

namespace VolthaCore.Logical

open OpenFlow Decomposition Devices Outcome
open List hiding after

variable {env : Env} {w : World}

structure LogicalDevice where
  flows : List OfpFlowStats := []
  flowGroups : List OfpGroupEntry := []
  meters : List OfpMeterEntry := []
  deriving DecidableEq

/-- The agent, with its cached logical device and the one last written to the
store. -/
structure LogicalDeviceAgent where
  logicalDeviceID : String
  logicalDevice : LogicalDevice
  stored : LogicalDevice
  deriving DecidableEq

/-- The logical device agent and the device agents by device identifier. -/
structure World where
  agent : LogicalDeviceAgent
  devices : String → Option SyncedAgent

/-- What happens around one request: the text and hash functions, the topology,
whether the routes could be built, the answers of the store to the writes of the
three tables, and what happens around the update of each device. -/
structure Env where
  hash : HashEnv
  topology : Topology
  routes : Except Err Unit
  flowsWrite : StoreResult
  groupsWrite : StoreResult
  metersWrite : StoreResult
  device : String → DeviceEnv

structure Env.StoreWorks (env : Env) : Prop where
  flows : env.flowsWrite = .written
  groups : env.groupsWrite = .written
  meters : env.metersWrite = .written

def workingEnv (H : HashEnv) (T : Topology) : Env where
  hash := H
  topology := T
  routes := .ok ()
  flowsWrite := .written
  groupsWrite := .written
  metersWrite := .written
  device := fun _ => willingEnv true

theorem storeWorks_workingEnv (H : HashEnv) (T : Topology) : (workingEnv H T).StoreWorks :=
  ⟨rfl, rfl, rfl⟩

/-- A logical device over the two devices of `oneLeaf`. -/
def oneLeafWorld (ld : LogicalDevice) (olt onu : Device) : World where
  agent := ⟨"logical", ld, ld⟩
  devices := fun d => if d = "olt" then some (.wrote olt) else if d = "onu" then some (.wrote onu)
    else none

def emptyWorld : World := oneLeafWorld {} { id := "olt" } { id := "onu" }

def World.deviceFlows (w : World) (d : String) : List OfpFlowStats :=
  match w.devices d with
  | none => []
  | some a => a.stored.flows

def World.deviceGroups (w : World) (d : String) : List OfpGroupEntry :=
  match w.devices d with
  | none => []
  | some a => a.stored.flowGroups

theorem deviceFlows_oneLeafWorld (ld : LogicalDevice) (olt onu : Device) (d : String) :
    (oneLeafWorld ld olt onu).deviceFlows d =
      if d = "olt" then olt.flows else if d = "onu" then onu.flows else [] := by
  unfold World.deviceFlows oneLeafWorld
  dsimp only
  split_ifs <;> rfl

/-- The devices store the decomposition of the flows of the logical device. -/
def StoresRules (H : HashEnv) (T : Topology) (w : World) : Prop :=
  ∃ dec, decomposeRules H T w.agent.logicalDevice.flows w.agent.logicalDevice.flowGroups = .ok dec ∧
    ∀ d, Table.SameEntries (w.deviceFlows d) (dec.rules.flowsOf d)

/-! ### Writing the logical device -/

def LogicalDeviceAgent.write (agent : LogicalDeviceAgent) (ld : LogicalDevice) :
    LogicalDeviceAgent := { agent with logicalDevice := ld, stored := ld }

def updateLogicalDeviceWithoutLock (result : StoreResult) (edit : LogicalDevice → LogicalDevice) :
    EStateM Err World Unit := fun w =>
  match result with
  | .written => .ok () { w with agent := w.agent.write (edit w.agent.logicalDevice) }
  | .missing =>
    .error (.status .internal ("failed-updating-logical-device:" ++ w.agent.logicalDeviceID)) w
  | .failed e => .error e w

/-! ### Updating devices -/

inductive DeviceOp where
  | add | delete | update
  deriving DecidableEq

def DeviceOp.run (op : DeviceOp) (env : DeviceEnv) (fg : FlowsAndGroups)
    (metadata : Option FlowMetadata) : EStateM Err SyncedAgent Unit :=
  match op with
  | .add => addFlowsAndGroups env fg.listFlows fg.listGroups metadata
  | .delete => deleteFlowsAndGroups env fg.listFlows fg.listGroups metadata
  | .update => updateFlowsAndGroups env fg.listFlows fg.listGroups metadata

def DeviceOp.failure : DeviceOp → String
  | .add => "flow-add-failed: "
  | .delete => "flow-delete-failed: "
  | .update => "flow-update-failed: "

/-- Update one device through the device manager, which knows no other devices
than those of the world. -/
def updateDevice (env : Env) (op : DeviceOp) (metadata : Option FlowMetadata) (d : String)
    (fg : FlowsAndGroups) (w : World) : Option Err × World :=
  match w.devices d with
  | none => (some (.status .internal (op.failure ++ d)), w)
  | some a =>
    match op.run (env.device d) fg metadata a with
    | .ok _ a' => (none, { w with devices := Function.update w.devices d (some a') })
    | .error _ a' =>
      (some (.status .internal (op.failure ++ d)),
        { w with devices := Function.update w.devices d (some a') })

def updateEach (env : Env) (op : DeviceOp) (metadata : Option FlowMetadata) :
    List (Σ _ : String, FlowsAndGroups) → World → List (Option Err) × World
  | [], w => ([], w)
  | entry :: rest, w =>
    let first := updateDevice env op metadata entry.1 entry.2 w
    let others := updateEach env op metadata rest first.2
    (first.1 :: others.1, others.2)

/-- `addDeviceFlowsAndGroups`, `deleteDeviceFlowsAndGroups` and
`updateDeviceFlowsAndGroups`. -/
def updateDevices (env : Env) (op : DeviceOp) (rules : DeviceRules)
    (metadata : Option FlowMetadata) : EStateM Err World Unit := fun w =>
  let (responses, w') := updateEach env op metadata rules.entries w
  match awaitResponses responses with
  | .ok _ => .ok () w'
  | .error e => .error e w'

/-! ### Steps -/

inductive Step where
  | fail (e : Err)
  | devices (op : DeviceOp) (rules : DeviceRules) (metadata : Option FlowMetadata)
  | writeFlows (flows : List OfpFlowStats)
  | writeGroups (groups : List OfpGroupEntry)
  | writeMeters (meters : List OfpMeterEntry)

def Step.edit : Step → LogicalDevice → LogicalDevice
  | .writeFlows flows, ld => { ld with flows }
  | .writeGroups groups, ld => { ld with flowGroups := groups }
  | .writeMeters meters, ld => { ld with meters }
  | _, ld => ld

def Step.execute (env : Env) : Step → EStateM Err World Unit
  | .fail e => throw e
  | .devices op rules metadata => updateDevices env op rules metadata
  | .writeFlows flows => updateLogicalDeviceWithoutLock env.flowsWrite (Step.writeFlows flows).edit
  | .writeGroups groups =>
    updateLogicalDeviceWithoutLock env.groupsWrite (Step.writeGroups groups).edit
  | .writeMeters meters =>
    updateLogicalDeviceWithoutLock env.metersWrite (Step.writeMeters meters).edit

/-- Go through the steps until one fails. -/
def runSteps (env : Env) : List Step → EStateM Err World Unit
  | [] => pure ()
  | step :: steps => do
    step.execute env
    runSteps env steps

/-! ### What a device update does -/

section Devices
variable {op : DeviceOp} {metadata : Option FlowMetadata}

theorem updateDevice_agent (d : String) (fg : FlowsAndGroups) (w : World) :
    (updateDevice env op metadata d fg w).2.agent = w.agent := by
  unfold updateDevice
  split
  · rfl
  · split <;> rfl

theorem updateEach_agent (entries : List (Σ _ : String, FlowsAndGroups)) (w : World) :
    (updateEach env op metadata entries w).2.agent = w.agent := by
  induction entries generalizing w with
  | nil => rfl
  | cons entry rest ih =>
    simp only [updateEach]
    rw [ih, updateDevice_agent]

theorem updateDevice_ok {d : String} {fg : FlowsAndGroups}
    (h : (updateDevice env op metadata d fg w).1 = none) :
    ∃ a a', w.devices d = some a ∧ op.run (env.device d) fg metadata a = .ok () a' ∧
      (updateDevice env op metadata d fg w).2.devices =
        Function.update w.devices d (some a') := by
  unfold updateDevice at h ⊢
  cases hd : w.devices d with
  | none => simp [hd] at h
  | some a =>
    simp only [hd] at h ⊢
    cases hr : op.run (env.device d) fg metadata a with
    | ok u a' =>
      cases u
      exact ⟨a, a', rfl, hr, rfl⟩
    | error e a' => simp [hr] at h

/-- The device of an entry ran its operation, every other device is as it was. -/
def Updated (env : Env) (op : DeviceOp) (metadata : Option FlowMetadata) (w w' : World)
    (d : String) : Option FlowsAndGroups → Prop
  | none => w'.devices d = w.devices d
  | some fg => ∃ a a', w.devices d = some a ∧ op.run (env.device d) fg metadata a = .ok () a' ∧
      w'.devices d = some a'

theorem updateEach_ok {entries : List (Σ _ : String, FlowsAndGroups)} (hn : entries.NodupKeys)
    (h : ∀ r ∈ (updateEach env op metadata entries w).1, r = none) (d : String) :
    Updated env op metadata w (updateEach env op metadata entries w).2 d (entries.dlookup d) := by
  induction entries generalizing w with
  | nil => rfl
  | cons entry rest ih =>
    obtain ⟨d0, fg⟩ := entry
    rw [nodupKeys_cons] at hn
    simp only [updateEach, mem_cons, forall_eq_or_imp] at h
    obtain ⟨a, a', ha, hrun, hdevices⟩ := updateDevice_ok h.1
    have hrest := ih hn.2 h.2
    by_cases hd : d = d0
    · subst hd
      rw [dlookup_eq_none.mpr hn.1] at hrest
      rw [dlookup_cons_eq]
      refine ⟨a, a', ha, hrun, ?_⟩
      simp only [updateEach]
      rw [show (updateEach env op metadata rest _).2.devices d = _ from hrest, hdevices]
      exact Function.update_self ..
    · rw [dlookup_cons_ne _ _ hd]
      simp only [updateEach]
      unfold Updated at hrest ⊢
      rwa [hdevices, Function.update_of_ne hd] at hrest

theorem updateDevices_ok {rules : DeviceRules} {w' : World}
    (h : updateDevices env op rules metadata w = .ok () w') :
    w'.agent = w.agent ∧ ∀ d, Updated env op metadata w w' d (rules.lookup d) := by
  unfold updateDevices at h
  dsimp only at h
  split at h
  next u hresponses =>
    cases h
    exact ⟨updateEach_agent _ w,
      updateEach_ok rules.nodupKeys ((awaitResponses_ok_iff _).mp hresponses)⟩
  · cases h

theorem after_updateDevices_agent (env : Env) (op : DeviceOp) (rules : DeviceRules)
    (metadata : Option FlowMetadata) (w : World) :
    (after (updateDevices env op rules metadata) w).agent = w.agent := by
  unfold after updateDevices
  dsimp only
  cases awaitResponses (updateEach env op metadata rules.entries w).1 <;>
    exact updateEach_agent _ w

end Devices

/-! ### What the steps of a request do to the logical device -/

section Steps

def Step.isWrite : Step → Bool
  | .fail _ => false
  | .devices _ _ _ => false
  | _ => true

def Step.applyTo (s : Step) (agent : LogicalDeviceAgent) : LogicalDeviceAgent :=
  if s.isWrite then agent.write (s.edit agent.logicalDevice) else agent

def applySteps (steps : List Step) (agent : LogicalDeviceAgent) : LogicalDeviceAgent :=
  steps.foldl (fun agent s => s.applyTo agent) agent

def editSteps (steps : List Step) (ld : LogicalDevice) : LogicalDevice :=
  steps.foldl (fun ld s => s.edit ld) ld

@[simp] theorem editSteps_nil (ld : LogicalDevice) : editSteps [] ld = ld := rfl

@[simp] theorem editSteps_append (before later : List Step) (ld : LogicalDevice) :
    editSteps (before ++ later) ld = editSteps later (editSteps before ld) :=
  foldl_append

variable {steps later : List Step} {s : Step} {w' : World}

/-- What no step of a list destroys holds after the list. -/
theorem editSteps_induction {P : LogicalDevice → Prop} {ld : LogicalDevice} (hld : P ld)
    (hsteps : ∀ s ∈ steps, ∀ ld, P ld → P (s.edit ld)) : P (editSteps steps ld) :=
  List.foldlRecOn steps _ hld fun ld h s hs => hsteps s hs ld h

/-- A step that can fail when the writes of the logical device succeed. -/
def Step.Stops (env : Env) (s : Step) : Prop := env.StoreWorks → s.isWrite = false

theorem logicalDevice_applySteps (steps : List Step) (agent : LogicalDeviceAgent) :
    (applySteps steps agent).logicalDevice = editSteps steps agent.logicalDevice := by
  induction steps generalizing agent with
  | nil => rfl
  | cons s steps ih =>
    simp only [applySteps, editSteps, foldl_cons]
    have hs : (s.applyTo agent).logicalDevice = s.edit agent.logicalDevice := by
      cases s <;> rfl
    rw [← hs]
    exact ih _

theorem execute_write (env : Env) (hs : s.isWrite = true) (w : World) :
    s.execute env w = .ok () { w with agent := w.agent.write (s.edit w.agent.logicalDevice) } ∨
      ∃ e, s.execute env w = .error e w ∧ ¬ env.StoreWorks := by
  have hresult : ∃ result, s.execute env = updateLogicalDeviceWithoutLock result s.edit ∧
      (env.StoreWorks → result = .written) := by
    cases s with
    | fail e | devices op rules metadata => cases hs
    | writeFlows flows => exact ⟨env.flowsWrite, rfl, Env.StoreWorks.flows⟩
    | writeGroups groups => exact ⟨env.groupsWrite, rfl, Env.StoreWorks.groups⟩
    | writeMeters meters => exact ⟨env.metersWrite, rfl, Env.StoreWorks.meters⟩
  obtain ⟨result, hexecute, hworks⟩ := hresult
  rw [hexecute]
  cases result with
  | written => exact .inl rfl
  | missing | failed e => exact .inr ⟨_, rfl, fun h => nomatch hworks h⟩

/-- A step either does what it says or fails and leaves the agent as it was. -/
theorem execute_agent (env : Env) (s : Step) (w : World) :
    (∃ w', s.execute env w = .ok () w' ∧ w'.agent = s.applyTo w.agent) ∨
    (∃ e w', s.execute env w = .error e w' ∧ w'.agent = w.agent ∧ s.Stops env) := by
  by_cases hwrite : s.isWrite = true
  · rcases execute_write env hwrite w with h | ⟨e, h, hworks⟩
    · exact .inl ⟨_, h, by simp [Step.applyTo, hwrite]⟩
    · exact .inr ⟨e, w, h, rfl, fun hw => absurd hw hworks⟩
  · cases s with
    | fail e => exact .inr ⟨e, w, rfl, rfl, fun _ => rfl⟩
    | devices op rules metadata =>
      have hafter := after_updateDevices_agent env op rules metadata w
      cases h : updateDevices env op rules metadata w with
      | ok u w' =>
        rw [after_of_ok h] at hafter
        exact .inl ⟨w', h, hafter⟩
      | error e w' =>
        rw [after_of_error h] at hafter
        exact .inr ⟨e, w', h, hafter, fun _ => rfl⟩
    | _ => exact absurd rfl hwrite

theorem runSteps_cons_ok_iff :
    runSteps env (s :: steps) w = .ok () w' ↔
      ∃ w1, s.execute env w = .ok () w1 ∧ runSteps env steps w1 = .ok () w' := by
  rw [runSteps, bind_ok_iff]
  exact ⟨fun ⟨_, w1, h⟩ => ⟨w1, h⟩, fun ⟨w1, h⟩ => ⟨(), w1, h⟩⟩

theorem runSteps_ok (h : runSteps env steps w = .ok () w') :
    w'.agent = applySteps steps w.agent := by
  induction steps generalizing w with
  | nil =>
    cases h
    rfl
  | cons s steps ih =>
    obtain ⟨w1, hs, h⟩ := runSteps_cons_ok_iff.mp h
    obtain ⟨w2, hs', hagent⟩ | ⟨e, w2, hs', -⟩ := execute_agent env s w
    · rw [hs] at hs'
      cases hs'
      rw [ih h, hagent]
      rfl
    · rw [hs] at hs'
      cases hs'

theorem logicalDevice_of_ok (h : runSteps env steps w = .ok () w') :
    w'.agent.logicalDevice = editSteps steps w.agent.logicalDevice := by
  rw [runSteps_ok h, logicalDevice_applySteps]

theorem devices_of_writes (hwrites : ∀ s ∈ steps, s.isWrite = true)
    (h : runSteps env steps w = .ok () w') : w'.devices = w.devices := by
  induction steps generalizing w with
  | nil =>
    cases h
    rfl
  | cons s steps ih =>
    obtain ⟨w1, hs, h⟩ := runSteps_cons_ok_iff.mp h
    rw [ih (fun t ht => hwrites t (mem_cons_of_mem _ ht)) h]
    rcases execute_write env (hwrites s (by simp)) w with hok | ⟨e, herr, -⟩
    · rw [hok] at hs
      cases hs
      rfl
    · rw [herr] at hs
      cases hs

theorem runSteps_append_ok_iff {before : List Step} :
    runSteps env (before ++ later) w = .ok () w' ↔
      ∃ w1, runSteps env before w = .ok () w1 ∧ runSteps env later w1 = .ok () w' := by
  induction before generalizing w with
  | nil =>
    constructor
    · exact fun h => ⟨w, rfl, h⟩
    · rintro ⟨w1, h1, h⟩
      cases h1
      exact h
  | cons s before ih =>
    simp only [cons_append, runSteps_cons_ok_iff, ih]
    constructor
    · rintro ⟨w1, hs, w2, hbefore, h⟩
      exact ⟨w2, ⟨w1, hs, hbefore⟩, h⟩
    · rintro ⟨w2, ⟨w1, hs, hbefore⟩, h⟩
      exact ⟨w1, hs, w2, hbefore, h⟩

theorem fail_not_mem_of_ok (h : runSteps env steps w = .ok () w') (e : Err) : .fail e ∉ steps := by
  intro hmem
  obtain ⟨before, later, rfl⟩ := append_of_mem hmem
  obtain ⟨w1, -, h⟩ := runSteps_append_ok_iff.mp h
  obtain ⟨w2, hs, -⟩ := runSteps_cons_ok_iff.mp h
  cases hs

theorem runSteps_fail_ne_ok {e : Err} : runSteps env [.fail e] w ≠ .ok () w' :=
  fun h => fail_not_mem_of_ok h e (mem_singleton_self _)

theorem isWrite_of_mem_cons_ite {p : Prop} [Decidable p] (hs : s.isWrite = true)
    (hsteps : ∀ t ∈ steps, t.isWrite = true) :
    ∀ t ∈ s :: (if p then steps else []), t.isWrite = true := by
  intro t ht
  rcases mem_cons.mp ht with rfl | ht
  · exact hs
  · split_ifs at ht
    · exact hsteps t ht
    · cases ht

/-- A request that updates devices between writes has updated each of them. -/
theorem runSteps_devices_ok {op : DeviceOp} {rules : DeviceRules} {metadata : Option FlowMetadata}
    (before : List Step) (hbefore : ∀ s ∈ before, s.isWrite = true)
    (hlater : ∀ s ∈ later, s.isWrite = true)
    (h : runSteps env (before ++ .devices op rules metadata :: later) w = .ok () w') (d : String) :
    Updated env op metadata w w' d (rules.lookup d) := by
  obtain ⟨w1, h1, h⟩ := runSteps_append_ok_iff.mp h
  obtain ⟨w2, hs, h⟩ := runSteps_cons_ok_iff.mp h
  have hd := (updateDevices_ok hs).2 d
  have hw1 := congrFun (devices_of_writes hbefore h1) d
  have hw' := congrFun (devices_of_writes hlater h) d
  cases hl : rules.lookup d with
  | none =>
    rw [hl] at hd
    exact hw'.trans (hd.trans hw1)
  | some fg =>
    rw [hl] at hd
    obtain ⟨a, a', ha, hrun, ha'⟩ := hd
    exact ⟨a, a', hw1 ▸ ha, hrun, hw'.trans ha'⟩

theorem runSteps_error {e : Err} (h : runSteps env steps w = .error e w') :
    ∃ before s later, steps = before ++ s :: later ∧ w'.agent = applySteps before w.agent ∧
      s.Stops env := by
  induction steps generalizing w with
  | nil => cases h
  | cons s steps ih =>
    obtain ⟨w1, hs, hagent⟩ | ⟨e1, w1, hs, hagent, hstops⟩ := execute_agent env s w
    · rw [runSteps, bind_apply, hs] at h
      obtain ⟨before, t, later, rfl, hw, ht⟩ := ih h
      refine ⟨s :: before, t, later, rfl, ?_, ht⟩
      rw [hw, hagent]
      rfl
    · rw [runSteps, bind_apply, hs] at h
      cases h
      exact ⟨[], s, steps, rfl, hagent, hstops⟩

/-- In any case the agent has done some of the steps, and it stopped before the end
only at a step that can fail. -/
theorem after_runSteps (env : Env) (steps : List Step) (w : World) :
    ∃ before later, steps = before ++ later ∧
      (after (runSteps env steps) w).agent = applySteps before w.agent ∧
      ∀ s ∈ later.head?, s.Stops env := by
  cases h : runSteps env steps w with
  | ok u w' =>
    refine ⟨steps, [], by simp, ?_, by simp⟩
    rw [after_of_ok h, runSteps_ok h]
  | error e w' =>
    obtain ⟨before, s, later, hsteps, hagent, hstops⟩ := runSteps_error h
    refine ⟨before, s :: later, hsteps, ?_, by simpa using hstops⟩
    rw [after_of_error h, hagent]

end Steps

end VolthaCore.Logical
