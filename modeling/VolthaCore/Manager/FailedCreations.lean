import VolthaCore.Manager.Creation

/-! What a request that creates a device or a logical device leaves behind when it
fails. No step takes back an earlier one, so the managers are what they were
exactly when all that the request enters, stores and sets was there before it:
the agent in the maps, the device or the logical device in the store, and the
logical device as the parent of the root device. -/

namespace VolthaCore.Manager.Creation

open Devices Outcome Option AList

/-! ### What is there already -/

/-- What the step enters is in memory. -/
def LoadStep.InMemory (m : Managers) : LoadStep → Prop
  | .device agent => agent.deviceID ∈ m.deviceAgents
  | .logicalDevice agent => agent.logicalDeviceID ∈ m.logicalDeviceAgents
  | .removed _ => True

/-- All that is loaded is in memory already. -/
def Load.EntersNothing (load : Load) (m : Managers) : Prop := ∀ l ∈ load.steps, l.InMemory m

/-- The agent is in the maps already, and so is the device in the store if it gets that far. -/
def Reentered (m : Managers) (agent : NewAgent) (a : StartAnswers) : Prop :=
  agent.deviceID ∈ m.deviceAgents ∧ m.rootDevices.lookup agent.deviceID = some agent.isRootdevice ∧
    (a.add = .added → agent.deviceID ∈ m.stores.devices)

/-- The start gets as far as to store the logical device. -/
def LogicalAnswers.Stores (a : LogicalAnswers) : Prop :=
  a.capability = none ∧ (∃ datapathId, a.datapathID = .ok datapathId) ∧ a.add = .added

/-- The device of the agent has the parent already, in memory and in the store if it is there, and
so is the logical device in the store if it gets that far. -/
def Relinked (m : Managers) (agent : NewAgent) (id : String) (a : LogicalAnswers) : Prop :=
  agent.device.parentId = id ∧
    (∀ d, m.stores.devices.lookup agent.deviceID = some d → d.parentId = id) ∧
    (a.Stores → id ∈ m.stores.logicalDevices)

/-- The request finds all that it leaves behind: what it enters into the maps and the store and the
parent that it sets are there before it. -/
def Request.FindsAll (view : DeviceManager) (m : Managers) : Request → Prop
  | .createDevice device listed createDeviceID a =>
    ∀ d, prepareDevice view listed device = .ok d →
      Reentered m (newDeviceAgent createDeviceID d) a
  | .childDeviceDetected d load deviceTypes createDeviceID a =>
    load.EntersNothing m ∧ ∀ child, prepareChild view deviceTypes d = .ok child →
      Reentered m (newDeviceAgent createDeviceID child) a
  | .createLogicalDevice device a =>
    logicalDeviceID device ∈ m.logicalDeviceAgents ∧
      match m.deviceAgents.lookup device.id with
      | none => a.load.EntersNothing m
      | some agent => a.setParentID = .written → Relinked m agent (logicalDeviceID device) a

/-! ### Maps -/

section AddIfAbsent

variable {α β : Type} {m : GoMap String α} {id : String} {a : α}

theorem mem_addIfAbsent (id' : String) : id' ∈ addIfAbsent m id a ↔ id' = id ∨ id' ∈ m := by
  unfold addIfAbsent
  split_ifs with h
  · constructor
    · exact .inr
    · rintro (rfl | h')
      · exact h
      · exact h'
  · exact mem_insert m

theorem addIfAbsent_of_mem (h : id ∈ m) : addIfAbsent m id a = m := if_pos h

/-- What holds for a map, and only for maps with no other keys, holds with the entry exactly when
there was one. -/
theorem addIfAbsent_iff {P : GoMap String α → Prop} (hm : P m)
    (hP : ∀ n, P n → ∀ id', id' ∈ n → id' ∈ m) : P (addIfAbsent m id a) ↔ id ∈ m := by
  constructor
  · exact fun h => hP _ h id ((mem_addIfAbsent id).mpr (.inl rfl))
  · intro h
    rwa [addIfAbsent_of_mem h]

/-- A part of the values answers every lookup as before exactly when it does so at the new entry. -/
theorem lookup_insert_iff (f : α → β) :
    (∀ id', ((m.insert id a).lookup id').map f = (m.lookup id').map f) ↔
      (m.lookup id).map f = some (f a) := by
  constructor
  · intro h
    rw [← h id, lookup_insert]
    rfl
  · intro h id'
    rw [GoMap.lookup_insert_eq]
    split_ifs with hid
    · rw [hid, h]
      rfl
    · rfl

theorem mem_of_same {n : GoMap String α} (h : GoMap.Same n m) (hid : id ∈ n) : id ∈ m := by
  rw [← lookup_isSome, h, lookup_isSome] at hid
  exact hid

theorem lookup_addIfAbsent_iff (f : α → β) :
    (∀ id', ((addIfAbsent m id a).lookup id').map f = (m.lookup id').map f) ↔ id ∈ m :=
  addIfAbsent_iff (P := fun n => ∀ id', (AList.lookup id' n).map f = (m.lookup id').map f)
    (fun _ => rfl) fun n h id' hid => by
    rw [← lookup_isSome, ← isSome_map (f := f), h, isSome_map, lookup_isSome] at hid
    exact hid

theorem same_addIfAbsent_iff : GoMap.Same (addIfAbsent m id a) m ↔ id ∈ m :=
  addIfAbsent_iff (fun _ => rfl) fun _ h _ => mem_of_same h

theorem same_insert_iff : GoMap.Same (m.insert id a) m ↔ m.lookup id = some a := by
  have h : (∀ id', ((m.insert id a).lookup id').map (fun v => v) =
      (m.lookup id').map fun v => v) ↔ (m.lookup id).map (fun v => v) = some a :=
    lookup_insert_iff _
  rw [map_id_fun'] at h
  exact h

end AddIfAbsent

variable {m : Managers} {lds : GoMap String LogicalDevice}

theorem addLogicalDeviceAgentToMap_of_mem {agent : LogicalAgent}
    (h : agent.logicalDeviceID ∈ m.logicalDeviceAgents) :
    addLogicalDeviceAgentToMap agent m = m := by
  unfold addLogicalDeviceAgentToMap
  rw [addIfAbsent_of_mem h]

def withLogicalDevices (lds : GoMap String LogicalDevice) (m : Managers) : Managers :=
  { m with stores := { m.stores with logicalDevices := lds } }

/-! ### What is entered stays -/

structure Grows (m m' : Managers) : Prop where
  deviceAgents : ∀ id, id ∈ m.deviceAgents → id ∈ m'.deviceAgents
  logicalDeviceAgents : ∀ id, id ∈ m.logicalDeviceAgents → id ∈ m'.logicalDeviceAgents

namespace Grows

variable {m m₁ m₂ : Managers}

theorem refl (m : Managers) : Grows m m := ⟨fun _ => id, fun _ => id⟩

theorem trans (h : Grows m m₁) (h' : Grows m₁ m₂) : Grows m m₂ :=
  ⟨fun id hid => h'.deviceAgents id (h.deviceAgents id hid),
    fun id hid => h'.logicalDeviceAgents id (h.logicalDeviceAgents id hid)⟩

theorem addDeviceAgentToMap (agent : NewAgent) (m : Managers) :
    Grows m (Creation.addDeviceAgentToMap agent m) :=
  ⟨fun id hid => (mem_addIfAbsent id).mpr (.inr hid), fun _ => id⟩

theorem addLogicalDeviceAgentToMap (agent : LogicalAgent) (m : Managers) :
    Grows m (Creation.addLogicalDeviceAgentToMap agent m) :=
  ⟨fun _ => id, fun id hid => (mem_addIfAbsent id).mpr (.inr hid)⟩

theorem link (deviceID parentID : String) (agent : NewAgent) (m : Managers) :
    Grows m (Creation.link deviceID parentID agent m) :=
  ⟨fun _ hid => (mem_insert _).mpr (.inr hid), fun _ => id⟩

theorem inMemory (h : Grows m m₁) {l : LoadStep} (hl : l.InMemory m) : l.InMemory m₁ := by
  cases l with
  | device agent => exact h.deviceAgents _ hl
  | logicalDevice agent => exact h.logicalDeviceAgents _ hl
  | removed id => trivial

end Grows

theorem Restored.grows {m' : Managers} (h : Restored m m') : Grows m' m :=
  ⟨fun _ => mem_of_same h.deviceAgents, fun _ => mem_of_same h.logicalDeviceAgents⟩

theorem restored_withLogicalDevices (h : ∀ id, id ∈ lds → id ∈ m.stores.logicalDevices) :
    Restored m (withLogicalDevices lds m) :=
  ⟨fun _ => rfl, fun _ => rfl, fun _ => rfl, fun _ => rfl, h⟩

/-! ### Loads -/

namespace LoadStep

theorem grows_step (m : Managers) (l : LoadStep) : Grows m (step m l) := by
  cases l with
  | device agent =>
    unfold step
    dsimp only
    split_ifs
    · exact .refl m
    · exact .addDeviceAgentToMap agent m
  | logicalDevice agent => exact .addLogicalDeviceAgentToMap agent m
  | removed id => exact ⟨fun _ h => h, fun _ h => h⟩

theorem inMemory_step (m : Managers) (l : LoadStep) : l.InMemory (step m l) := by
  cases l with
  | device agent =>
    change agent.deviceID ∈ (ite _ m _ : Managers).deviceAgents
    split_ifs with h
    · exact h
    · exact (mem_addIfAbsent _).mpr (.inl rfl)
  | logicalDevice agent => exact (mem_addIfAbsent _).mpr (.inl rfl)
  | removed id => trivial

/-- A step that enters nothing leaves at most fewer logical devices in the store. -/
theorem step_of_inMemory {m : Managers} {l : LoadStep} (h : l.InMemory m) :
    ∃ lds, (∀ id, id ∈ lds → id ∈ m.stores.logicalDevices) ∧
      step m l = withLogicalDevices lds m := by
  cases l with
  | device agent => exact ⟨m.stores.logicalDevices, fun _ => id, if_pos h⟩
  | logicalDevice agent =>
    exact ⟨m.stores.logicalDevices, fun _ => id, addLogicalDeviceAgentToMap_of_mem h⟩
  | removed id => exact ⟨_, fun id hid => (mem_erase.mp hid).2, rfl⟩

end LoadStep

namespace Load

theorem grows_run (load : Load) (m : Managers) : Grows m (load.run m) := by
  have hstep : ∀ m' l, True → Grows m m' → Grows m (LoadStep.step m' l) :=
    fun m' l _ h => h.trans (l.grows_step m')
  exact Runs.run_invariant hstep (Runs.along_of_forall (fun _ _ => trivial) m) (.refl m)

theorem inMemory_run (load : Load) (m : Managers) : load.EntersNothing (load.run m) := by
  obtain ⟨steps, error⟩ := load
  unfold EntersNothing run
  dsimp only
  induction steps generalizing m with
  | nil => simp
  | cons l steps ih =>
    rw [List.forall_mem_cons]
    refine ⟨?_, ih (l.step m)⟩
    exact (grows_run ⟨steps, error⟩ (l.step m)).inMemory (l.inMemory_step m)

variable {load : Load} {m : Managers}

theorem run_of_entersNothing (h : load.EntersNothing m) :
    ∃ lds, (∀ id, id ∈ lds → id ∈ m.stores.logicalDevices) ∧
      load.run m = withLogicalDevices lds m := by
  have hstep : ∀ m' l, LoadStep.InMemory m l →
      (∃ lds, (∀ id, id ∈ lds → id ∈ m.stores.logicalDevices) ∧ m' = withLogicalDevices lds m) →
      ∃ lds, (∀ id, id ∈ lds → id ∈ m.stores.logicalDevices) ∧
        LoadStep.step m' l = withLogicalDevices lds m := by
    rintro m' l hl ⟨lds, hlds, rfl⟩
    have hl' : l.InMemory (withLogicalDevices lds m) :=
      Grows.inMemory (m := m) ⟨fun _ => id, fun _ => id⟩ hl
    obtain ⟨lds', hlds', hm'⟩ := LoadStep.step_of_inMemory hl'
    exact ⟨lds', fun id hid => hlds id (hlds' id hid), hm'⟩
  exact Runs.run_invariant hstep (Runs.along_of_forall h m)
    ⟨m.stores.logicalDevices, fun _ => id, rfl⟩

/-- A load before managers that are restored in the end has entered nothing. -/
theorem entersNothing_of_restored {m' : Managers} (hgrows : Grows (load.run m) m')
    (h : Restored m m') : load.EntersNothing m :=
  fun l hl => h.grows.inMemory (hgrows.inMemory (load.inMemory_run m l hl))

end Load

/-! ### Devices -/

section

variable (createDeviceID : String) (d : ManagedDevice) (a : StartAnswers)
include createDeviceID d a

theorem after_addNewDevice (m : Managers) :
    ∃ agent devices, agent.deviceID = (newDeviceAgent createDeviceID d).deviceID ∧
      agent.isRootdevice = (newDeviceAgent createDeviceID d).isRootdevice ∧
      after (addNewDevice createDeviceID d a) m =
        addDeviceAgentToMap agent { m with stores := { m.stores with devices } } ∧
      devices = if a.add = .added then
        addIfAbsent m.stores.devices agent.deviceID (startDevice createDeviceID d)
        else m.stores.devices := by
  let agent := newDeviceAgent createDeviceID d
  let started := { agent with device := startDevice createDeviceID d }
  unfold addNewDevice after
  dsimp only
  cases a.add with
  | failed e | absent => exact ⟨agent, _, rfl, rfl, rfl, rfl⟩
  | added =>
    cases a.proxy with
    | failed e | absent => exact ⟨started, _, rfl, rfl, rfl, rfl⟩
    | created => exact ⟨{ started with deviceProxy := true }, _, rfl, rfl, rfl, rfl⟩

/-- The device stays stored, and in the maps, whether its agent starts or not. -/
theorem restored_addNewDevice_iff (hlds : ∀ id, id ∈ lds → id ∈ m.stores.logicalDevices) :
    Restored m (after (addNewDevice createDeviceID d a) (withLogicalDevices lds m)) ↔
      Reentered m (newDeviceAgent createDeviceID d) a := by
  obtain ⟨agent, devices, hid, hroot, hafter, hdevices⟩ :=
    after_addNewDevice createDeviceID d a (withLogicalDevices lds m)
  have hstored : (∀ id, (devices.lookup id).map (·.parentId) =
      (m.stores.devices.lookup id).map (·.parentId)) ↔
      (a.add = .added → agent.deviceID ∈ m.stores.devices) := by
    rw [hdevices]
    split_ifs with hadd
    · exact (lookup_addIfAbsent_iff _).trans (imp_iff_right hadd).symm
    · exact iff_of_true (fun _ => rfl) fun h => absurd h hadd
  unfold Reentered
  rw [hafter, ← hid, ← hroot]
  constructor
  · intro h
    exact ⟨same_addIfAbsent_iff.mp h.deviceAgents, same_insert_iff.mp h.rootDevices,
      hstored.mp h.devices⟩
  · rintro ⟨hagent, hrootDevice, hdevice⟩
    exact ⟨same_addIfAbsent_iff.mpr hagent, same_insert_iff.mpr hrootDevice, fun _ => rfl,
      hstored.mpr hdevice, hlds⟩

theorem grows_addNewDevice (m : Managers) :
    Grows m (after (addNewDevice createDeviceID d a) m) := by
  obtain ⟨agent, devices, -, -, hafter, -⟩ := after_addNewDevice createDeviceID d a m
  have h := Grows.addDeviceAgentToMap agent m
  rw [hafter]
  exact ⟨h.deviceAgents, h.logicalDeviceAgents⟩

theorem restored_addNewDevice_load_iff (load : Load) (m : Managers) :
    Restored m (after (addNewDevice createDeviceID d a) (load.run m)) ↔
      load.EntersNothing m ∧ Reentered m (newDeviceAgent createDeviceID d) a := by
  by_cases hload : load.EntersNothing m
  · obtain ⟨lds, hlds, hrun⟩ := Load.run_of_entersNothing hload
    rw [hrun, restored_addNewDevice_iff createDeviceID d a hlds, and_iff_right hload]
  · refine iff_of_false (fun h => hload ?_) fun h => hload h.1
    exact Load.entersNothing_of_restored (grows_addNewDevice createDeviceID d a _) h

end

/-! ### Logical devices -/

theorem startLogical_cases (a : LogicalAnswers) (agent : LogicalAgent) (stores : Stores) :
    (a.Stores ∧ ∃ ld, (after (startLogical a) (agent, stores)).2 =
      { stores with
        logicalDevices := addIfAbsent stores.logicalDevices agent.logicalDeviceID ld }) ∨
    (¬a.Stores ∧ (after (startLogical a) (agent, stores)).2 = stores) := by
  unfold LogicalAnswers.Stores startLogical after
  dsimp only
  cases a.capability with
  | some e => exact .inr ⟨by simp, rfl⟩
  | none =>
    cases a.datapathID with
    | error e => exact .inr ⟨by simp, rfl⟩
    | ok datapathId =>
      cases a.add with
      | failed e => exact .inr ⟨by simp, rfl⟩
      | absent =>
        refine .inr ⟨by simp, ?_⟩
        dsimp only
        cases LogicalAgent.createProxies a.proxies _ <;> rfl
      | added =>
        refine .inl ⟨⟨rfl, ⟨datapathId, rfl⟩, rfl⟩,
          { id := agent.logicalDeviceID, rootDeviceId := agent.rootDeviceID, datapathId }, ?_⟩
        dsimp only
        cases LogicalAgent.createProxies a.proxies _ <;> rfl

section SetParentID

variable {deviceID : String} (parentID : String) (load : Load) (update : StoreResult)
  {m : Managers}

/-- The agent is in memory: nothing is loaded, and the parent is set or nothing happens. -/
theorem setParentID_of_lookup (h : m.deviceAgents.lookup deviceID = some agent) :
    setParentID deviceID parentID load update m =
      if update = .written then .ok () (link deviceID parentID agent m)
      else .error (.status .internal ("failed-update-device:" ++ agent.deviceID)) m := by
  unfold setParentID getDeviceAgent
  rw [h]

theorem grows_setParentID_of_none (h : m.deviceAgents.lookup deviceID = none) :
    Grows (load.run m) (after (setParentID deviceID parentID load update) m) := by
  unfold setParentID getDeviceAgent after
  dsimp only
  rw [h]
  cases load.error with
  | some e => exact .refl _
  | none =>
    dsimp only
    cases (load.run m).deviceAgents.lookup deviceID with
    | none => exact .refl _
    | some agent =>
      dsimp only
      split_ifs
      · exact .link deviceID parentID agent _
      · exact .refl _

theorem grows_setParentID (deviceID : String) (m : Managers) :
    Grows m (after (setParentID deviceID parentID load update) m) := by
  cases h : m.deviceAgents.lookup deviceID with
  | none => exact (load.grows_run m).trans (grows_setParentID_of_none parentID load update h)
  | some agent =>
    unfold after
    rw [setParentID_of_lookup parentID load update h]
    split_ifs
    · exact .link deviceID parentID agent m
    · exact .refl m

theorem setParentID_of_entersNothing {load : Load} (h : m.deviceAgents.lookup deviceID = none)
    (hload : load.EntersNothing m) :
    setParentID deviceID parentID load update m =
      .error (.status .notFound deviceID) (load.run m) := by
  obtain ⟨lds, -, hrun⟩ := Load.run_of_entersNothing hload
  unfold setParentID getDeviceAgent
  rw [h]
  cases load.error with
  | some e => rfl
  | none =>
    have hloaded : (load.run m).deviceAgents.lookup deviceID = none := by
      rw [hrun]
      exact h
    rw [hloaded]

end SetParentID

theorem restored_link_iff {deviceID parentID : String}
    (h : m.deviceAgents.lookup deviceID = some agent) (lds : GoMap String LogicalDevice) :
    Restored m (withLogicalDevices lds (link deviceID parentID agent m)) ↔
      agent.device.parentId = parentID ∧
      (∀ d, m.stores.devices.lookup agent.deviceID = some d → d.parentId = parentID) ∧
      ∀ id, id ∈ lds → id ∈ m.stores.logicalDevices := by
  have hagent : m.deviceAgents.lookup deviceID =
      some { agent with device := { agent.device with parentId := parentID } } ↔
      agent.device.parentId = parentID := by
    rw [h, some_inj]
    constructor
    · intro heq
      exact congrArg (·.device.parentId) heq
    · rintro rfl
      rfl
  have hdevices : (∀ id, ((link deviceID parentID agent m).stores.devices.lookup id).map
      (·.parentId) = (m.stores.devices.lookup id).map (·.parentId)) ↔
      ∀ d, m.stores.devices.lookup agent.deviceID = some d → d.parentId = parentID := by
    unfold link
    dsimp only
    split_ifs with hmem
    · obtain ⟨d, hd⟩ := GoMap.mem_iff_exists_lookup.mp hmem
      rw [lookup_insert_iff, hd]
      simp
    · refine iff_of_true (fun _ => rfl) fun d hd => ?_
      exact absurd (GoMap.mem_iff_exists_lookup.mpr ⟨d, hd⟩) hmem
  constructor
  · intro hr
    exact ⟨hagent.mp (same_insert_iff.mp hr.deviceAgents), hdevices.mp hr.devices,
      hr.logicalDevices⟩
  · rintro ⟨hparent, hstored, hlds⟩
    exact ⟨same_insert_iff.mpr (hagent.mpr hparent), fun _ => rfl, fun _ => rfl,
      hdevices.mpr hstored, hlds⟩

section CreateLogicalDevice

variable {device : ManagedDevice} {a : LogicalAnswers} {m : Managers}
  {x : EStateM Err Managers Unit}

section

variable (hroot : device.root = true) (hid : logicalDeviceID device ≠ "")
include hroot hid

/-- The agent is entered, then the parent is set, and then, unless that fails, the agent is
started. -/
theorem after_createLogicalDevice {agent : LogicalAgent}
    (hagent : agent = newLogicalDeviceAgent (logicalDeviceID device) device.id)
    (hx : x = setParentID device.id (logicalDeviceID device) a.load a.setParentID) {m₁ : Managers}
    (hm1 : m₁ = addLogicalDeviceAgentToMap agent m) :
    after (createLogicalDevice device a) m =
      if returns x m₁ = true then
        let s := after (startLogical a) (agent, (after x m₁).stores)
        started m (logicalDeviceID device) s.1 { after x m₁ with stores := s.2 }
      else after x m₁ := by
  subst hagent hx hm1
  unfold createLogicalDevice
  unfold after returns
  dsimp only
  rw [if_neg (by simp [hroot]), if_neg hid]
  cases setParentID device.id (logicalDeviceID device) a.load a.setParentID
    (addLogicalDeviceAgentToMap (newLogicalDeviceAgent (logicalDeviceID device) device.id) m) with
  | error e m' => rfl
  | ok u m' =>
    dsimp only
    cases startLogical a (newLogicalDeviceAgent (logicalDeviceID device) device.id, m'.stores) <;>
      rfl

theorem mem_after_createLogicalDevice :
    logicalDeviceID device ∈ (after (createLogicalDevice device a) m).logicalDeviceAgents := by
  have hentered := (grows_setParentID (logicalDeviceID device) a.load a.setParentID device.id
    (addLogicalDeviceAgentToMap (newLogicalDeviceAgent (logicalDeviceID device) device.id)
      m)).logicalDeviceAgents _ ((mem_addIfAbsent _).mpr (.inl rfl))
  rw [after_createLogicalDevice hroot hid rfl rfl rfl]
  split_ifs
  · dsimp only
    unfold started
    split_ifs
    · exact hentered
    · exact (mem_insert _).mpr (.inl rfl)
  · exact hentered

section

variable (hmem : logicalDeviceID device ∈ m.logicalDeviceAgents)
include hmem

/-- For a logical device that has an agent, the start only adds to the store. -/
theorem after_createLogicalDevice_of_mem
    (hx : x = setParentID device.id (logicalDeviceID device) a.load a.setParentID) :
    (returns x m = true ∧ a.Stores ∧ ∃ ld, after (createLogicalDevice device a) m =
      withLogicalDevices (addIfAbsent (after x m).stores.logicalDevices (logicalDeviceID device) ld)
        (after x m)) ∨
    (¬(returns x m = true ∧ a.Stores) ∧ after (createLogicalDevice device a) m = after x m) := by
  have hentered : m = addLogicalDeviceAgentToMap
      (newLogicalDeviceAgent (logicalDeviceID device) device.id) m :=
    (addLogicalDeviceAgentToMap_of_mem hmem).symm
  rw [after_createLogicalDevice hroot hid rfl hx hentered]
  split_ifs with hreturns
  · dsimp only
    rw [started, if_pos hmem]
    obtain ⟨hstores, ld, h⟩ | ⟨hstores, h⟩ := startLogical_cases a
      (newLogicalDeviceAgent (logicalDeviceID device) device.id) (after x m).stores
    · exact .inl ⟨hreturns, hstores, ld, by rw [h]; rfl⟩
    · exact .inr ⟨fun hboth => hstores hboth.2, by rw [h]⟩
  · exact .inr ⟨fun hboth => hreturns hboth.1, rfl⟩

theorem restored_createLogicalDevice_iff_of_none (hnone : m.deviceAgents.lookup device.id = none) :
    Restored m (after (createLogicalDevice device a) m) ↔ a.load.EntersNothing m := by
  have hcases := after_createLogicalDevice_of_mem (a := a) hroot hid hmem rfl
  constructor
  · intro h
    refine Load.entersNothing_of_restored ?_ h
    have hgrows := grows_setParentID_of_none (logicalDeviceID device) a.load a.setParentID hnone
    obtain ⟨-, -, ld, hafter⟩ | ⟨-, hafter⟩ := hcases
    · rw [hafter]
      exact ⟨hgrows.deviceAgents, hgrows.logicalDeviceAgents⟩
    · rw [hafter]
      exact hgrows
  · intro hload
    have hset := setParentID_of_entersNothing (logicalDeviceID device) a.setParentID hnone hload
    obtain ⟨hreturns, -⟩ | ⟨-, hafter⟩ := hcases
    · rw [returns, hset] at hreturns
      cases hreturns
    · obtain ⟨lds, hlds, hrun⟩ := Load.run_of_entersNothing hload
      rw [hafter, after_of_error hset, hrun]
      exact restored_withLogicalDevices hlds

theorem restored_createLogicalDevice_iff_of_some
    (hagent : m.deviceAgents.lookup device.id = some agent) :
    Restored m (after (createLogicalDevice device a) m) ↔
      (a.setParentID = .written → Relinked m agent (logicalDeviceID device) a) := by
  have hcases := after_createLogicalDevice_of_mem (a := a) hroot hid hmem rfl
  have hset := setParentID_of_lookup (logicalDeviceID device) a.load a.setParentID hagent
  by_cases hlinks : a.setParentID = .written
  · rw [if_pos hlinks] at hset
    rw [after_of_ok hset] at hcases
    rw [imp_iff_right hlinks]
    unfold Relinked
    have hreturns : returns (setParentID device.id (logicalDeviceID device) a.load a.setParentID) m
        = true := by
      rw [returns, hset]
    obtain ⟨-, hstores, ld, hafter⟩ | ⟨hstores, hafter⟩ := hcases
    · rw [hafter, restored_link_iff hagent, imp_iff_right hstores]
      exact and_congr_right fun _ => and_congr_right fun _ =>
        addIfAbsent_iff (P := fun n => ∀ id, id ∈ n → id ∈ m.stores.logicalDevices)
          (fun _ => id) fun _ h => h
    · have hkept : Restored m (link device.id (logicalDeviceID device) agent m) ↔ _ :=
        restored_link_iff hagent m.stores.logicalDevices
      rw [hafter, hkept]
      refine and_congr_right fun _ => and_congr_right fun _ => iff_of_true (fun _ => id) ?_
      exact fun h => absurd ⟨hreturns, h⟩ hstores
  · rw [if_neg hlinks] at hset
    obtain ⟨hreturns, -⟩ | ⟨-, hafter⟩ := hcases
    · rw [returns, hset] at hreturns
      cases hreturns
    · rw [hafter, after_of_error hset]
      exact iff_of_true (restored_withLogicalDevices fun _ => id)
        fun hwritten => absurd hwritten hlinks

end

theorem restored_createLogicalDevice_iff (view : DeviceManager) :
    Restored m (after (createLogicalDevice device a) m) ↔
      (Request.createLogicalDevice device a).FindsAll view m := by
  unfold Request.FindsAll
  dsimp only
  by_cases hmem : logicalDeviceID device ∈ m.logicalDeviceAgents
  · rw [and_iff_right hmem]
    cases hagent : m.deviceAgents.lookup device.id with
    | none => exact restored_createLogicalDevice_iff_of_none hroot hid hmem hagent
    | some agent => exact restored_createLogicalDevice_iff_of_some hroot hid hmem hagent
  · refine iff_of_false (fun h => hmem ?_) fun h => hmem h.1
    exact h.grows.logicalDeviceAgents _ (mem_after_createLogicalDevice hroot hid)

end

/-- Without the capability of the switch the agent is not started. -/
theorem createLogicalDevice_of_capability {e : Err} (h : a.capability = some e) (id : String)
    (m' : Managers) : createLogicalDevice device a m ≠ .ok (id, none) m' := by
  unfold createLogicalDevice startLogical
  dsimp only
  rw [h]
  split_ifs
  · simp
  · simp
  · cases setParentID device.id (logicalDeviceID device) a.load a.setParentID _ <;> simp

end CreateLogicalDevice

/-! ### Requests -/

/-- A request that fails after its checks takes nothing back: the managers are what they were
exactly when it found all that it leaves behind. -/
theorem restored_iff_findsAll (view : DeviceManager) (m : Managers) (c : Request)
    (hfails : c.Fails view m) : Restored m (c.run view m) ↔ c.FindsAll view m := by
  cases c with
  | createDevice device listed createDeviceID a =>
    obtain ⟨⟨d, hd⟩, -⟩ := hfails
    have hrun : (Request.createDevice device listed createDeviceID a).run view m =
        after (addNewDevice createDeviceID d a) (withLogicalDevices m.stores.logicalDevices m) := by
      unfold Request.run createDevice after
      dsimp only
      rw [hd]
      rfl
    rw [hrun, restored_addNewDevice_iff createDeviceID d a fun _ => id]
    simp [Request.FindsAll, hd]
  | childDeviceDetected d load deviceTypes createDeviceID a =>
    obtain ⟨⟨child, hchild⟩, -⟩ := hfails
    have hrun : (Request.childDeviceDetected d load deviceTypes createDeviceID a).run view m =
        after (addNewDevice createDeviceID child a) (load.run m) := by
      unfold Request.run childDeviceDetected after
      dsimp only
      rw [hchild]
    rw [hrun, restored_addNewDevice_load_iff]
    simp [Request.FindsAll, hchild]
  | createLogicalDevice device a =>
    obtain ⟨⟨hroot, hid⟩, -⟩ := hfails
    exact restored_createLogicalDevice_iff hroot hid view

/-- A second creation of a device with an id of its own, whose agent is in memory. -/
theorem failed_second_creation_restored :
    let olt : ManagedDevice := { id := "olt", root := true }
    let m : Managers :=
      { deviceAgents := AList.singleton "olt" (newDeviceAgent "" olt)
        rootDevices := AList.singleton "olt" true }
    let c : Request := .createDevice olt none "" { add := .failed (.plain "timeout") }
    c.Fails ∅ m ∧ Restored m (c.run ∅ m) := by
  intro olt m c
  have hfails : c.Fails ∅ m := ⟨⟨olt, rfl⟩, rfl⟩
  refine ⟨hfails, (restored_iff_findsAll ∅ m c hfails).mpr ?_⟩
  intro d hd
  cases hd
  exact ⟨by decide, by decide, fun hadded => by cases hadded⟩

/-- A device whose store add fails is in the maps of the device manager. A logical device for which
the capability of the switch cannot be had is in the map of its manager, and the root device has it
as its parent. -/
theorem failed_creations_leave_agents :
    let olt : ManagedDevice := { id := "olt", root := true, macAddress := "0a:0b" }
    let create : Request := .createDevice olt none "" { add := .failed (.plain "timeout") }
    let m : Managers :=
      { deviceAgents := AList.singleton "olt" (newDeviceAgent "" olt)
        rootDevices := AList.singleton "olt" true
        stores := { devices := AList.singleton "olt" olt } }
    let createLogical : Request :=
      .createLogicalDevice olt { capability := some (.plain "timeout") }
    (create.Fails ∅ {} ∧ ¬Restored {} (create.run ∅ {}) ∧
      "olt" ∈ (create.run ∅ {}).deviceAgents ∧
      (create.run ∅ {}).rootDevices.lookup "olt" = some true) ∧
    createLogical.Fails ∅ m ∧ ¬Restored m (createLogical.run ∅ m) ∧
      "0a0b" ∈ (createLogical.run ∅ m).logicalDeviceAgents ∧
      ((createLogical.run ∅ m).stores.devices.lookup "olt").map (·.parentId) = some "0a0b" := by
  intro olt create m createLogical
  have hagent : "olt" ∈ (create.run ∅ {}).deviceAgents := by decide
  have hlogical : "0a0b" ∈ (createLogical.run ∅ m).logicalDeviceAgents := by decide
  refine ⟨⟨⟨⟨olt, rfl⟩, rfl⟩, fun h => ?_, hagent, by decide⟩,
    ⟨by decide, createLogicalDevice_of_capability rfl⟩, fun h => ?_, hlogical, by decide⟩
  · exact absurd (h.grows.deviceAgents _ hagent) (by decide)
  · exact absurd (h.grows.logicalDeviceAgents _ hlogical) (by decide)

end VolthaCore.Manager.Creation
