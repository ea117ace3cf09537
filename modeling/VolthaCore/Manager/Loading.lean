import VolthaCore.Manager.AgentLifecycle

/-! Loading devices and logical devices into memory, after `loadDevice` of the device
manager and `load` of the logical device manager. Both let one call load while
the others wait. When an agent cannot be started they stop it again, with the
same `stop` that a deletion uses. For a device this panics before the waiting
calls are released. For a logical device it removes the data from the store,
blocks on the lock that `start` left held, or returns without releasing the
waiting calls. -/

namespace VolthaCore.Manager

open Devices SingleFlight

/-! ### Loads -/

/-- What a load comes to: how it ends, whether it removes what is stored, and whether the lock of
the agent stays held. -/
structure Loaded (A : Type) where
  ending : Ending A
  removes : Bool := false
  lockHeld : Bool := false
  deriving DecidableEq

structure DeviceLoad where
  lookup : Read ManagedDevice
  read : Read ManagedDevice
  proxy : ProxyAnswer := .created
  remove : Except Err Unit := .ok ()
  createDeviceID : String := ""

/-- The part of `loadDevice` without the lock. The agent is stored under its own id. -/
def loadDevice (deviceID : String) (a : DeviceLoad) : Loaded NewAgent :=
  match a.lookup with
  | .ok (.value device) =>
    match NewAgent.start a.read a.proxy (newDeviceAgent a.createDeviceID device) with
    | .ok _ agent => { ending := if agent.deviceID = deviceID then .found agent else .nothing }
    | .error (.crash _) _ => { ending := .leaves }
    | .error _ agent =>
      match agent.stop a.remove with
      | .error _ => { ending := .leaves }
      | .ok removes => { ending := .nothing, removes }
  | _ => { ending := .nothing }

structure LogicalLoad where
  lookup : Read LogicalDevice
  read : Read LogicalDevice
  proxies : LogicalProxies := {}
  remove : Except Err Unit := .ok ()

/-- The part of `load` without the lock. -/
def loadLogicalDevice (lDeviceID : String) (a : LogicalLoad) : Loaded LogicalAgent :=
  match a.lookup with
  | .ok (.value _) =>
    match LogicalAgent.start a.read a.proxies (newLogicalDeviceAgent lDeviceID "") with
    | .ok () agent => { ending := .found agent, lockHeld := agent.locked }
    | .error _ agent =>
      match agent.stop a.remove with
      | .blocked => { ending := .blocks, lockHeld := agent.locked }
      | .failed _ => { ending := .leaves, lockHeld := agent.locked }
      | .removed => { ending := .nothing, removes := true, lockHeld := agent.locked }
  | _ => { ending := .nothing }

/-- The device is found, and its agent cannot be started. -/
def DeviceLoad.StartFails (a : DeviceLoad) : Prop :=
  (∃ device, a.lookup = .ok (.value device)) ∧
    ¬((∃ device, a.read = .ok (.value device)) ∧ a.proxy = .created)

namespace LogicalLoad

def Finds (a : LogicalLoad) : Prop := ∃ ld, a.lookup = .ok (.value ld)

def ReadFails (a : LogicalLoad) : Prop := ∃ e, a.read = .error e

/-- The second read finds no logical device, or a proxy cannot be created. -/
def StartFails (a : LogicalLoad) : Prop :=
  (∀ ld, a.read ≠ .ok (.value ld)) ∨ ¬a.proxies.Succeed

/-- The load gets as far as to remove the logical device. -/
def Destroys (a : LogicalLoad) : Prop :=
  a.Finds ∧ ¬a.ReadFails ∧ a.StartFails ∧ a.remove = .ok ()

/-- The load ends without releasing the calls that wait. -/
def Strands (a : LogicalLoad) : Prop :=
  a.Finds ∧ (a.ReadFails ∨ a.StartFails ∧ a.remove ≠ .ok ())

end LogicalLoad

/-- A start that fails is followed by a panic, so nothing is removed. -/
theorem loadDevice_cases (deviceID : String) (a : DeviceLoad) :
    (a.StartFails ∧ loadDevice deviceID a = { ending := .leaves }) ∨
      (¬a.StartFails ∧ (loadDevice deviceID a).ending.Announced ∧
        (loadDevice deviceID a).removes = false) := by
  unfold loadDevice DeviceLoad.StartFails
  cases a.lookup with
  | error e => exact .inr ⟨by simp, trivial, rfl⟩
  | ok got =>
    cases got with
    | other | absent => exact .inr ⟨by simp, trivial, rfl⟩
    | value device =>
      dsimp only
      obtain ⟨hstarts, started, agent, h⟩ | ⟨hfails, e, agent, h, hproxy⟩ :=
        NewAgent.start_cases a.read a.proxy (newDeviceAgent a.createDeviceID device)
      · refine .inr ⟨fun hs => hs.2 hstarts, ?_⟩
        rw [h]
        dsimp only
        split_ifs <;> exact ⟨trivial, rfl⟩
      · refine .inl ⟨⟨⟨device, rfl⟩, hfails⟩, ?_⟩
        have hstop : agent.stop a.remove = .error nilPointer := by
          unfold NewAgent.stop
          rw [hproxy]
          rfl
        rw [h]
        cases e <;> simp [hstop]

theorem loadDevice_announced_iff {deviceID : String} {a : DeviceLoad} :
    (loadDevice deviceID a).ending.Announced ↔ ¬a.StartFails := by
  obtain ⟨hfails, h⟩ | ⟨hstarts, h, -⟩ := loadDevice_cases deviceID a
  · rw [h]
    exact iff_of_false id (not_not.mpr hfails)
  · exact iff_of_true h hstarts

theorem loadDevice_removes (deviceID : String) (a : DeviceLoad) :
    (loadDevice deviceID a).removes = false := by
  obtain ⟨-, h⟩ | ⟨-, -, h⟩ := loadDevice_cases deviceID a
  · rw [h]
  · exact h

/-- The four ways in which the load of a logical device that is found can go. -/
theorem loadLogicalDevice_cases (lDeviceID : String) (a : LogicalLoad) :
    (¬a.Finds ∧ loadLogicalDevice lDeviceID a = { ending := .nothing }) ∨
    (a.Finds ∧ a.ReadFails ∧
      loadLogicalDevice lDeviceID a = { ending := .blocks, lockHeld := true }) ∨
    (a.Finds ∧ ¬a.ReadFails ∧ ¬a.StartFails ∧
      ∃ agent, loadLogicalDevice lDeviceID a = { ending := .found agent }) ∨
    (a.Finds ∧ ¬a.ReadFails ∧ a.StartFails ∧ a.remove ≠ .ok () ∧
      loadLogicalDevice lDeviceID a = { ending := .leaves }) ∨
    (a.Finds ∧ ¬a.ReadFails ∧ a.StartFails ∧ a.remove = .ok () ∧
      loadLogicalDevice lDeviceID a = { ending := .nothing, removes := true }) := by
  unfold loadLogicalDevice LogicalLoad.Finds LogicalLoad.ReadFails LogicalLoad.StartFails
  cases a.lookup with
  | error e => exact .inl ⟨by simp, rfl⟩
  | ok got =>
    cases got with
    | other | absent => exact .inl ⟨by simp, rfl⟩
    | value ld =>
      have hfinds : ∃ ld', (Except.ok (.value ld) : Read LogicalDevice) = .ok (.value ld') :=
        ⟨ld, rfl⟩
      dsimp only
      obtain ⟨hread, e, h⟩ | ⟨⟨⟨ld', hread⟩, hproxies⟩, agent, h, hlocked⟩ |
          ⟨⟨hread, hfails⟩, e, agent, h, hlocked⟩ :=
        LogicalAgent.start_cases a.read a.proxies (newLogicalDeviceAgent lDeviceID "")
      · exact .inr (.inl ⟨hfinds, hread, by rw [h]; rfl⟩)
      · refine .inr (.inr (.inl ⟨hfinds, by simp [hread], by simp [hread, hproxies], agent, ?_⟩))
        rw [h]
        dsimp only
        rw [hlocked]
        rfl
      · have hnot : ¬∃ e, a.read = .error e := fun ⟨e, he⟩ => hread e he
        rw [h]
        dsimp only
        rw [LogicalAgent.stop_of_unlocked hlocked, hlocked]
        cases hremove : a.remove with
        | error e =>
          exact .inr (.inr (.inr (.inl ⟨hfinds, hnot, hfails, by simp, rfl⟩)))
        | ok u => exact .inr (.inr (.inr (.inr ⟨hfinds, hnot, hfails, rfl, rfl⟩)))

variable {a : LogicalLoad} {lDeviceID : String}

theorem loadLogicalDevice_announced_iff :
    (loadLogicalDevice lDeviceID a).ending.Announced ↔ ¬a.Strands := by
  unfold LogicalLoad.Strands
  obtain ⟨hfinds, h⟩ | ⟨hfinds, hread, h⟩ | ⟨hfinds, hread, hstarts, agent, h⟩ |
      ⟨hfinds, hread, hfails, hremove, h⟩ | ⟨hfinds, hread, hfails, hremove, h⟩ :=
    loadLogicalDevice_cases lDeviceID a
  · exact iff_of_true (h ▸ trivial) fun hs => hfinds hs.1
  · exact iff_of_false (h ▸ id) (not_not.mpr ⟨hfinds, .inl hread⟩)
  · exact iff_of_true (h ▸ trivial) fun hs => hs.2.elim hread fun hs => hstarts hs.1
  · exact iff_of_false (h ▸ id) (not_not.mpr ⟨hfinds, .inr ⟨hfails, hremove⟩⟩)
  · exact iff_of_true (h ▸ trivial) fun hs => hs.2.elim hread fun hs => hs.2 hremove

theorem loadLogicalDevice_removes_iff :
    (loadLogicalDevice lDeviceID a).removes = true ↔ a.Destroys := by
  unfold LogicalLoad.Destroys
  obtain ⟨hfinds, h⟩ | ⟨hfinds, hread, h⟩ | ⟨hfinds, hread, hstarts, agent, h⟩ |
      ⟨hfinds, hread, hfails, hremove, h⟩ | ⟨hfinds, hread, hfails, hremove, h⟩ :=
    loadLogicalDevice_cases lDeviceID a
  · simp [h, hfinds]
  · simp [h, hread]
  · simp [h, hstarts]
  · simp [h, hremove]
  · simp [h, hfinds, hread, hfails, hremove]

theorem strands_of_lockHeld (hlock : (loadLogicalDevice lDeviceID a).lockHeld = true) :
    a.Strands := by
  obtain ⟨-, h⟩ | ⟨hfinds, hread, h⟩ | ⟨-, -, -, agent, h⟩ | ⟨-, -, -, -, h⟩ | ⟨-, -, -, -, h⟩ :=
    loadLogicalDevice_cases lDeviceID a
  · simp [h] at hlock
  · exact ⟨hfinds, .inl hread⟩
  · simp [h] at hlock
  · simp [h] at hlock
  · simp [h] at hlock

end VolthaCore.Manager
