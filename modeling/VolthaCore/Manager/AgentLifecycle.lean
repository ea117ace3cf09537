import VolthaCore.Lib.SingleFlight
import VolthaCore.Manager.DeviceManager
import VolthaCore.Ports.PortMap

/-! How the agents of devices and logical devices are started and stopped, after
`device_agent.go` and `logical_device_agent.go`, with every answer of the cluster
data proxy. A device agent whose start fails has no proxy, and stopping it
panics before anything is removed. A logical device agent whose read fails keeps
its lock, and stopping it then blocks; otherwise stopping it removes the logical
device from the store. -/

namespace VolthaCore.Manager

open Devices Outcome Routes

/-- What a read finds: a value of the expected type, one of another type, or nothing. -/
inductive Got (α : Type) where
  | value (a : α)
  | other
  | absent
  deriving DecidableEq

abbrev Read (α : Type) := Except Err (Got α)

/-- The answer to `CreateProxy`, which may give `nil` without an error. -/
inductive ProxyAnswer where
  | failed (e : Err)
  | absent
  | created
  deriving DecidableEq

def ProxyAnswer.create {σ : Type} : ProxyAnswer → EStateM Err σ Bool
  | .failed e => throw e
  | .absent => pure false
  | .created => pure true

/-- Going on after a proxy that is not needed. -/
theorem returns_create_bind_iff {σ α : Type} {proxy : ProxyAnswer} {x : EStateM Err σ α} {s : σ} :
    returns (do let _ ← proxy.create; x) s = true ↔
      (∀ e, proxy ≠ .failed e) ∧ returns x s = true := by
  cases proxy with
  | failed e => simp [returns, ProxyAnswer.create, bind_apply]
  | absent | created => exact (and_iff_right fun e h => by cases h).symm

theorem after_create_bind {σ α β : Type} {proxy : ProxyAnswer} {f : Bool → EStateM Err σ α} {s : σ}
    {g : σ → β} (h : ∀ b, g (after (f b) s) = g s) : g (after (proxy.create >>= f) s) = g s := by
  cases proxy with
  | failed e => rfl
  | absent => exact h false
  | created => exact h true

/-- The part of a logical device that its agent reads when it is started. -/
structure LogicalDevice where
  id : String
  rootDeviceId : String
  datapathId : UInt64 := 0
  ports : List LogicalPort := []
  deriving DecidableEq

/-- What is stored under `/devices` and `/logical_devices`. -/
structure Stores where
  devices : GoMap String ManagedDevice := ∅
  logicalDevices : GoMap String LogicalDevice := ∅
  deriving DecidableEq

/-! ### Device agents -/

/-- The fields of a device agent around its start; `deviceProxy` says whether the proxy exists. -/
structure NewAgent where
  deviceID : String
  parentID : String
  deviceType : String
  isRootdevice : Bool
  device : ManagedDevice
  deviceProxy : Bool := false
  deriving DecidableEq

def newDeviceAgent (createDeviceID : String) (device : ManagedDevice) : NewAgent where
  deviceID := if device.id = "" then createDeviceID else device.id
  parentID := device.parentId
  deviceType := device.type
  isRootdevice := device.root
  device := device

namespace NewAgent

/-- The end of `start`: a proxy that is `nil` makes the registration of the callback panic. -/
def createProxy (proxy : ProxyAnswer) : EStateM Err NewAgent Unit := do
  if ← proxy.create then modify fun agent => { agent with deviceProxy := true }
  else throw nilPointer

def start (read : Read ManagedDevice) (proxy : ProxyAnswer) : EStateM Err NewAgent ManagedDevice :=
  do
  let agent ← get
  match read with
  | .error e => throw e
  | .ok (.value device) =>
    set { agent with deviceType := device.adapter, device }
    createProxy proxy
    return device
  | .ok _ => throw (.status .notFound ("device-" ++ agent.deviceID))

def stop (agent : NewAgent) (remove : Except Err Unit) : Except Err Bool :=
  if agent.deviceProxy then
    match remove with
    | .error _ => .ok false
    | .ok () => .ok true
  else .error nilPointer

/-- A start fails before the proxy is there. -/
theorem start_cases (read : Read ManagedDevice) (proxy : ProxyAnswer) (agent : NewAgent) :
    (((∃ device, read = .ok (.value device)) ∧ proxy = .created) ∧
      ∃ device agent', start read proxy agent = .ok device agent') ∨
    (¬((∃ device, read = .ok (.value device)) ∧ proxy = .created) ∧
      ∃ e agent', start read proxy agent = .error e agent' ∧
        agent'.deviceProxy = agent.deviceProxy) := by
  cases read with
  | error e => exact .inr ⟨by simp, e, agent, rfl, rfl⟩
  | ok got =>
    cases got with
    | value device =>
      cases proxy with
      | failed e => exact .inr ⟨by simp, e, _, rfl, rfl⟩
      | absent => exact .inr ⟨by simp, _, _, rfl, rfl⟩
      | created => exact .inl ⟨by simp, device, _, rfl⟩
    | other | absent => exact .inr ⟨by simp, _, _, rfl, rfl⟩

end NewAgent

/-! ### Logical device agents -/

/-- The fields of a logical device agent around its start, with its lock. -/
structure LogicalAgent where
  logicalDeviceID : String
  rootDeviceID : String
  logicalDevice : Option LogicalDevice := none
  logicalPortsNo : GoMap UInt32 Bool := ∅
  ldProxy : Bool := false
  locked : Bool := false
  deriving DecidableEq

def newLogicalDeviceAgent (id deviceID : String) : LogicalAgent where
  logicalDeviceID := id
  rootDeviceID := deviceID

/-- The answers to the four proxies that `start` creates. -/
structure LogicalProxies where
  flows : ProxyAnswer := .created
  meters : ProxyAnswer := .created
  groups : ProxyAnswer := .created
  logicalDevice : ProxyAnswer := .created
  deriving DecidableEq

/-- No proxy fails, and that of the logical device exists. -/
def LogicalProxies.Succeed (p : LogicalProxies) : Prop :=
  (∀ e, p.flows ≠ .failed e) ∧ (∀ e, p.meters ≠ .failed e) ∧ (∀ e, p.groups ≠ .failed e) ∧
    p.logicalDevice = .created

namespace LogicalAgent

/-- The part of `start` for new and for stored logical devices, under the lock. -/
def createProxies (p : LogicalProxies) : EStateM Err LogicalAgent Unit := do
  let _ ← p.flows.create
  let _ ← p.meters.create
  let _ ← p.groups.create
  if ← p.logicalDevice.create then modify fun agent => { agent with ldProxy := true }
  else throw (.status .internal "logical-device-proxy-null")

/-- `start` of an agent for a stored logical device. The lock is not released when the read
fails. -/
def start (read : Read LogicalDevice) (p : LogicalProxies) : EStateM Err LogicalAgent Unit := do
  let agent ← get
  match read with
  | .error _ =>
    set { agent with locked := true }
    throw (.status .notFound ("logical_device-" ++ agent.logicalDeviceID))
  | .ok (.value ld) =>
    let ports := Ports.addLogicalPortsToMap ld.ports
      { logicalDeviceID := agent.logicalDeviceID, ports := ld.ports,
        logicalPortsNo := agent.logicalPortsNo }
    set { agent with
      rootDeviceID := ld.rootDeviceId
      logicalDevice := some ld
      logicalPortsNo := ports.logicalPortsNo }
    createProxies p
  | .ok _ => throw (.status .notFound ("logical_device-" ++ agent.logicalDeviceID))

inductive Stop where
  | blocked
  | failed (e : Err)
  | removed
  deriving DecidableEq

def stop (agent : LogicalAgent) (remove : Except Err Unit) : Stop :=
  if agent.locked then .blocked
  else match remove with
    | .error e => .failed e
    | .ok () => .removed

theorem stop_of_unlocked {agent : LogicalAgent} (h : agent.locked = false)
    (remove : Except Err Unit) :
    agent.stop remove = match remove with
      | .error e => .failed e
      | .ok () => .removed := by
  unfold stop
  rw [h]
  rfl

theorem returns_createProxies_iff {p : LogicalProxies} {agent : LogicalAgent} :
    returns (createProxies p) agent = true ↔ p.Succeed := by
  unfold createProxies
  rw [returns_create_bind_iff, returns_create_bind_iff, returns_create_bind_iff]
  unfold LogicalProxies.Succeed
  refine and_congr_right fun _ => and_congr_right fun _ => and_congr_right fun _ => ?_
  cases p.logicalDevice with
  | failed e | absent =>
    exact iff_of_false (by simp [returns, ProxyAnswer.create, bind_apply]) (by simp)
  | created => exact iff_of_true rfl rfl

theorem locked_createProxies (p : LogicalProxies) (agent : LogicalAgent) :
    (after (createProxies p) agent).locked = agent.locked := by
  unfold createProxies
  refine after_create_bind (fun _ => after_create_bind (fun _ => after_create_bind fun _ =>
    after_create_bind fun proxy => ?_))
  cases proxy <;> rfl

/-- The lock stays held exactly when the read fails. -/
theorem start_cases (read : Read LogicalDevice) (p : LogicalProxies) (agent : LogicalAgent) :
    ((∃ e, read = .error e) ∧
      ∃ e, start read p agent = .error e { agent with locked := true }) ∨
    (((∃ ld, read = .ok (.value ld)) ∧ p.Succeed) ∧
      ∃ agent', start read p agent = .ok () agent' ∧ agent'.locked = agent.locked) ∨
    (((∀ e, read ≠ .error e) ∧ ((∀ ld, read ≠ .ok (.value ld)) ∨ ¬p.Succeed)) ∧
      ∃ e agent', start read p agent = .error e agent' ∧ agent'.locked = agent.locked) := by
  cases read with
  | error e => exact .inl ⟨⟨e, rfl⟩, _, rfl⟩
  | ok got =>
    cases got with
    | other | absent => exact .inr (.inr ⟨⟨by simp, by simp⟩, _, agent, rfl, rfl⟩)
    | value ld =>
      generalize hloaded : ({ agent with
        rootDeviceID := ld.rootDeviceId
        logicalDevice := some ld
        logicalPortsNo := (Ports.addLogicalPortsToMap ld.ports
          { logicalDeviceID := agent.logicalDeviceID, ports := ld.ports,
            logicalPortsNo := agent.logicalPortsNo }).logicalPortsNo } : LogicalAgent) = loaded
      have hstart : start (.ok (.value ld)) p agent = createProxies p loaded := by
        rw [← hloaded]
        rfl
      have hlocked : loaded.locked = agent.locked := by rw [← hloaded]
      have hafter := locked_createProxies p loaded
      rw [hstart]
      cases hproxies : returns (createProxies p) loaded with
      | true =>
        obtain ⟨⟨⟩, h⟩ := returns_iff.mp hproxies
        exact .inr (.inl ⟨⟨⟨ld, rfl⟩, returns_createProxies_iff.mp hproxies⟩, _, h,
          hafter.trans hlocked⟩)
      | false =>
        obtain ⟨e, h⟩ := not_returns_iff.mp hproxies
        have hfails : ¬p.Succeed := fun hp => by
          rw [returns_createProxies_iff.mpr hp] at hproxies
          cases hproxies
        exact .inr (.inr ⟨⟨by simp, .inr hfails⟩, e, _, h, hafter.trans hlocked⟩)

end LogicalAgent

end VolthaCore.Manager
