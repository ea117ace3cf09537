import VolthaCore.Devices.Messages
import VolthaCore.Errors
import VolthaCore.Lib.Outcome

/-! The device agent: a cached device and the one in the store. An operation clones the cached
device, edits the clone and then writes it back or not, and it may ask the adapter, so an operation
is a plan computed from the cached device, and carrying a plan out is the same for all of them. What
happens when a plan is carried out, requests and writes, is a list of events, which an agent takes
in one by one.

A write refreshes the cache, with one exception: the performance configuration may be newer in the
store. It reaches the store unless neither the new device nor the stored one can be encoded: the
store compares hashes, and all such devices have the same. `SyncedAgent` is the agent of devices
that can be encoded, for which the store follows the cache. -/

namespace VolthaCore.Devices

open Outcome

/-- The answer of the cluster data proxy to an update. -/
inductive StoreResult where
  | written
  | missing
  | failed (e : Err)
  deriving DecidableEq

/-- What happens around one operation: the answer of the store, the error that
the adapter answers with, and the registered device types and adapters. -/
structure DeviceEnv where
  store : StoreResult
  adapter : Option Err
  getDeviceType : String → Option DeviceType
  deviceTypeToAdapter : String → Option String

/-- Store and adapter answer without an error, and every device type is registered
with the given capability. -/
def willingEnv (acceptsAddRemove : Bool) : DeviceEnv where
  store := .written
  adapter := none
  getDeviceType := fun type => some ⟨type, acceptsAddRemove⟩
  deviceTypeToAdapter := fun _ => some "adapter"

/-! ### Plans -/

/-- When the adapter is asked: before the write, which is not made when it refuses, beside the
write, with the answer awaited at the end, or after the write. -/
inductive Moment where
  | before | beside | after
  deriving DecidableEq

/-- A request for the adapter, with the device that it carries, if any. -/
structure Request where
  call : AdapterCall
  device : Option Device
  moment : Moment := .after

/-- What an operation does with the clone it edited: fail, acknowledge without a
write, or write it back, with a request for the adapter or without one.
`writeStoreOnly` is the write that does not refresh the cache. -/
inductive Plan where
  | fail (e : Err)
  | acknowledge (edited : Device)
  | write (edited : Device) (storeFailure : Err) (request : Option Request)
  | writeStoreOnly (pmConfigs : PmConfigs)

/-- `updateDeviceInStoreWithoutLock`, with the request that the operation sends. -/
def writeDevice (edited : Device) (request : Option Request) : Plan :=
  .write edited (.status .internal ("failed-update-device:" ++ edited.id)) request

/-- The adapter is asked, and answers without an error or with one, or the device or its performance
configuration is written. -/
inductive Event where
  | asked (call : AdapterCall) (ok : Bool)
  | stored (device : Device)
  | storedPmConfigs (pmConfigs : PmConfigs)
  deriving DecidableEq

/-- A request with a device that cannot be encoded is not sent and ends with an error. -/
def Request.answer (encodes : Device → Bool) (env : DeviceEnv) (r : Request) : Option Err :=
  let answer := if r.device.all encodes then env.adapter else some (.plain "message is nil")
  if r.moment = .beside then
    match awaitResponses [answer] with
    | .ok _ => none
    | .error e => some e
  else answer

/-- The events of a plan, the first one first, and its error. -/
structure Execution where
  events : List Event := []
  error : Option Err := none

def Plan.execution (encodes : Device → Bool) (env : DeviceEnv) (d : Device) : Plan → Execution
  | .fail e => { error := e }
  | .acknowledge _ => {}
  | .write edited storeFailure none =>
    if env.store = .written then { events := [.stored edited] } else { error := storeFailure }
  | .write edited storeFailure (some r) =>
    let error := r.answer encodes env
    let asked := .asked r.call error.isNone
    match r.moment with
    | .before =>
      if error.isSome then { events := [asked], error }
      else if env.store = .written then { events := [asked, .stored edited] }
      else { events := [asked], error := storeFailure }
    | .beside =>
      if env.store = .written then { events := [asked, .stored edited], error }
      else { events := [asked], error := storeFailure }
    | .after =>
      if env.store = .written then { events := [.stored edited, asked], error }
      else { error := storeFailure }
  | .writeStoreOnly pmConfigs =>
    if env.store = .written then { events := [.storedPmConfigs pmConfigs] }
    else { error := some (.status .internal d.id) }

/-- What an operation needs of an agent. -/
class AgentModel (α : Type) where
  device : α → Device
  encodes : α → Device → Bool
  step : α → Event → α

section

variable {α : Type} [AgentModel α]

def Plan.execute (env : DeviceEnv) (plan : Plan) : EStateM Err α Unit := fun a =>
  let x := plan.execution (AgentModel.encodes a) env (AgentModel.device a)
  match x.error with
  | none => .ok () (x.events.foldl AgentModel.step a)
  | some e => .error e (x.events.foldl AgentModel.step a)

def perform (env : DeviceEnv) (operation : Device → Plan) : EStateM Err α Unit :=
  fun a => (operation (AgentModel.device a)).execute env a

theorem after_execute_eq (env : DeviceEnv) (plan : Plan) (a : α) : after (plan.execute env) a =
    (plan.execution (AgentModel.encodes a) env (AgentModel.device a)).events.foldl
      AgentModel.step a := by
  unfold after Plan.execute
  dsimp only
  cases (plan.execution (AgentModel.encodes a) env (AgentModel.device a)).error <;> rfl

theorem error_of_execute_ok {env : DeviceEnv} {plan : Plan} {a a' : α}
    (h : plan.execute env a = .ok () a') :
    (plan.execution (AgentModel.encodes a) env (AgentModel.device a)).error = none := by
  unfold Plan.execute at h
  dsimp only at h
  cases herror : (plan.execution (AgentModel.encodes a) env (AgentModel.device a)).error with
  | none => rfl
  | some e =>
    rw [herror] at h
    cases h

end

/-! ### What is written -/

def Event.isWrite : Event → Bool
  | .asked _ _ => false
  | .stored _ | .storedPmConfigs _ => true

/-- What a plan is to write. -/
def Plan.Writes (plan : Plan) (e : Event) : Prop :=
  (∃ edited storeFailure request, plan = .write edited storeFailure request ∧
    e = .stored edited) ∨ ∃ pm, plan = .writeStoreOnly pm ∧ e = .storedPmConfigs pm

section

variable {encodes : Device → Bool} {env : DeviceEnv} {d : Device} {plan : Plan}

/-- A plan writes at most once. -/
theorem execution_writes (encodes : Device → Bool) (env : DeviceEnv) (d : Device) (plan : Plan) :
    (plan.execution encodes env d).events.filter Event.isWrite = [] ∨
      ∃ e, plan.Writes e ∧ (plan.execution encodes env d).events.filter Event.isWrite = [e] := by
  cases plan with
  | fail e | acknowledge edited => exact .inl rfl
  | write edited storeFailure request =>
    have hwrite : ((Plan.write edited storeFailure request).execution encodes env d).events.filter
          Event.isWrite = [] ∨
        ((Plan.write edited storeFailure request).execution encodes env d).events.filter
          Event.isWrite = [.stored edited] := by
      rcases request with - | ⟨call, device, moment⟩
      · simp only [Plan.execution]
        split_ifs
        · exact .inr rfl
        · exact .inl rfl
      · cases moment <;> simp only [Plan.execution] <;> split_ifs <;>
          first | exact .inl rfl | exact .inr rfl
    exact hwrite.imp_right fun h => ⟨_, .inl ⟨edited, storeFailure, request, rfl, rfl⟩, h⟩
  | writeStoreOnly pm =>
    simp only [Plan.execution]
    split_ifs
    · exact .inr ⟨_, .inr ⟨pm, rfl, rfl⟩, rfl⟩
    · exact .inl rfl

/-- A plan that returns has acknowledged or written. -/
theorem execution_ok (h : (plan.execution encodes env d).error = none) :
    (∃ edited, plan = .acknowledge edited ∧
        (plan.execution encodes env d).events.filter Event.isWrite = []) ∨
      ∃ e, plan.Writes e ∧ (plan.execution encodes env d).events.filter Event.isWrite = [e] := by
  cases plan with
  | fail e => cases h
  | acknowledge edited => exact .inl ⟨edited, rfl, rfl⟩
  | write edited storeFailure request =>
    refine .inr ⟨_, .inl ⟨edited, storeFailure, request, rfl, rfl⟩, ?_⟩
    by_cases hstore : env.store = .written
    · rcases request with - | ⟨call, device, moment⟩
      · simp [Plan.execution, hstore, Event.isWrite]
      · cases hanswer : Request.answer encodes env ⟨call, device, moment⟩ <;>
          cases moment <;> simp_all [Plan.execution, Event.isWrite, List.filter_cons]
    · rcases request with - | ⟨call, device, moment⟩
      · simp [Plan.execution, hstore] at h
      · cases hanswer : Request.answer encodes env ⟨call, device, moment⟩ <;>
          cases moment <;> simp_all [Plan.execution]
  | writeStoreOnly pm =>
    by_cases hstore : env.store = .written
    · exact .inr ⟨_, .inr ⟨pm, rfl, rfl⟩, by simp [Plan.execution, hstore, Event.isWrite]⟩
    · simp [Plan.execution, hstore] at h

end

section

variable {α β : Type} [AgentModel α] (view : α → β)
  (hasked : ∀ a call ok, view (AgentModel.step a (.asked call ok)) = view a)
  (hstep : ∀ {a b : α}, view a = view b →
    ∀ e, view (AgentModel.step a e) = view (AgentModel.step b e))
include hasked hstep

/-- What requests do not change follows from the writes. -/
theorem view_foldl_step {a b : α} (h : view a = view b) (events : List Event) :
    view (events.foldl AgentModel.step a) =
      view ((events.filter Event.isWrite).foldl AgentModel.step b) := by
  induction events generalizing a b with
  | nil => exact h
  | cons e events ih =>
    cases e with
    | asked call ok => exact ih ((hasked a call ok).trans h)
    | stored edited => exact ih (hstep h _)
    | storedPmConfigs pm => exact ih (hstep h _)

theorem view_after_execute (env : DeviceEnv) (plan : Plan) (a : α) :
    view (after (plan.execute env) a) = view a ∨ ∃ e, plan.Writes e ∧
      view (after (plan.execute env) a) = view (AgentModel.step a e) := by
  have hview := view_foldl_step view hasked hstep (rfl : view a = view a)
    (plan.execution (AgentModel.encodes a) env (AgentModel.device a)).events
  rw [← after_execute_eq] at hview
  obtain h | ⟨e, he, h⟩ :=
    execution_writes (AgentModel.encodes a) env (AgentModel.device a) plan <;> rw [h] at hview
  · exact .inl hview
  · exact .inr ⟨e, he, hview⟩

theorem view_of_execute_ok {env : DeviceEnv} {plan : Plan} {a a' : α}
    (h : plan.execute env a = .ok () a') :
    (∃ edited, plan = .acknowledge edited ∧ view a' = view a) ∨
      ∃ e, plan.Writes e ∧ view a' = view (AgentModel.step a e) := by
  have hview := view_foldl_step view hasked hstep (rfl : view a = view a)
    (plan.execution (AgentModel.encodes a) env (AgentModel.device a)).events
  rw [← after_execute_eq, after_of_ok h] at hview
  obtain ⟨edited, hplan, hevents⟩ | ⟨e, he, hevents⟩ :=
    execution_ok (error_of_execute_ok h) <;> rw [hevents] at hview
  · exact .inl ⟨edited, hplan, hview⟩
  · exact .inr ⟨e, he, hview⟩

end

/-! ### The agent -/

/-- A device agent with the events so far, the last one first. Cache and store differ at most in the
performance configuration when one of them can be encoded. -/
structure DeviceAgent where
  device : Device
  stored : Device
  events : List Event
  agree : stored.marshals = true ∨ device.marshals = true →
    stored = { device with pmConfigs := stored.pmConfigs }

namespace DeviceAgent

/-- An agent that has stored its device. -/
def wrote (device : Device) : DeviceAgent := ⟨device, device, [.stored device], fun _ => rfl⟩

def step (a : DeviceAgent) : Event → DeviceAgent
  | .asked call ok => { a with events := .asked call ok :: a.events }
  | .stored edited =>
    if h : a.stored.marshals = true ∨ edited.marshals = true then
      ⟨edited, edited, .stored edited :: a.events, fun _ => rfl⟩
    else ⟨edited, a.stored, a.events, fun h' => absurd h' h⟩
  | .storedPmConfigs pm =>
    if a.stored.marshals = true ∨ a.device.marshals = true then
      ⟨a.device, { a.device with pmConfigs := some pm }, .storedPmConfigs pm :: a.events,
        fun _ => rfl⟩
    else a

instance : AgentModel DeviceAgent := ⟨device, fun _ => Device.marshals, step⟩

/-- The device in the cache and in the store. -/
def view (a : DeviceAgent) : Device × Device := (a.device, a.stored)

theorem view_step {a b : DeviceAgent} (h : a.view = b.view) (e : Event) :
    (a.step e).view = (b.step e).view := by
  obtain ⟨device, stored, events, hagree⟩ := a
  obtain ⟨device', stored', events', hagree'⟩ := b
  cases h
  cases e with
  | asked call ok => rfl
  | stored edited | storedPmConfigs pm =>
    simp only [step]
    split_ifs <;> rfl

theorem step_stored_device (a : DeviceAgent) (edited : Device) :
    (a.step (.stored edited)).device = edited := by
  unfold step
  dsimp only
  split_ifs <;> rfl

theorem step_stored {a : DeviceAgent} {edited : Device}
    (h : a.stored.marshals = true ∨ edited.marshals = true) :
    a.step (.stored edited) = ⟨edited, edited, .stored edited :: a.events, fun _ => rfl⟩ := by
  rw [step, dif_pos h]

theorem view_step_stored {a : DeviceAgent} {edited : Device}
    (h : a.stored.marshals = true ∨ edited.marshals = true) :
    (a.step (.stored edited)).view = (edited, edited) := by
  rw [step_stored h]
  rfl

theorem view_step_storedPmConfigs {a : DeviceAgent} {pm : PmConfigs}
    (h : a.stored.marshals = true ∨ a.device.marshals = true) :
    (a.step (.storedPmConfigs pm)).view = (a.device, { a.device with pmConfigs := some pm }) := by
  rw [step, if_pos h]
  rfl

/-- What a plan leaves behind: the device as it was, the edited one, in the store as well if it gets
there, or a performance configuration in the store. -/
theorem after_execute (env : DeviceEnv) (plan : Plan) (a : DeviceAgent) :
    (after (plan.execute env) a).view = a.view ∨
      ∃ e, plan.Writes e ∧ (after (plan.execute env) a).view = (a.step e).view :=
  view_after_execute view (fun _ _ _ => rfl) view_step env plan a

theorem execute_ok {env : DeviceEnv} {plan : Plan} {a a' : DeviceAgent}
    (h : plan.execute env a = .ok () a') :
    (∃ edited, plan = .acknowledge edited ∧ a'.view = a.view) ∨
      ∃ e, plan.Writes e ∧ a'.view = (a.step e).view :=
  view_of_execute_ok view (fun _ _ _ => rfl) view_step h

end DeviceAgent

/-! ### Devices that can be encoded -/

/-- An agent of a device that can be encoded. Cache and store differ at most in the
performance configuration. -/
structure SyncedAgent where
  device : Device
  stored : Device
  agree : stored = { device with pmConfigs := stored.pmConfigs }

namespace SyncedAgent

def wrote (device : Device) : SyncedAgent := ⟨device, device, rfl⟩

def step (a : SyncedAgent) : Event → SyncedAgent
  | .asked _ _ => a
  | .stored edited => .wrote edited
  | .storedPmConfigs pm => ⟨a.device, { a.device with pmConfigs := some pm }, rfl⟩

instance : AgentModel SyncedAgent := ⟨device, fun _ _ => true, step⟩

@[simp] theorem wrote_device (device : Device) : (wrote device).device = device := rfl

@[simp] theorem wrote_stored (device : Device) : (wrote device).stored = device := rfl

@[simp] theorem stored_flows (a : SyncedAgent) : a.stored.flows = a.device.flows := by
  rw [a.agree]

@[simp] theorem stored_flowGroups (a : SyncedAgent) :
    a.stored.flowGroups = a.device.flowGroups := by
  rw [a.agree]

@[simp] theorem stored_adminState (a : SyncedAgent) :
    a.stored.adminState = a.device.adminState := by
  rw [a.agree]

end SyncedAgent

theorem execute_ok {env : DeviceEnv} {plan : Plan} {a a' : SyncedAgent}
    (h : plan.execute env a = .ok () a') :
    (∃ edited, plan = .acknowledge edited ∧ a' = a) ∨ ∃ e, plan.Writes e ∧ a' = a.step e :=
  view_of_execute_ok id (fun _ _ _ => rfl) (fun h _ => congrArg (AgentModel.step · _) h) h

theorem execute_write (env : DeviceEnv) (edited : Device) (a : SyncedAgent) :
    (writeDevice edited none).execute env a = if env.store = .written then .ok () (.wrote edited)
      else .error (.status .internal ("failed-update-device:" ++ edited.id)) a := by
  by_cases hs : env.store = .written <;> simp [writeDevice, Plan.execute, Plan.execution, hs]
  rfl

theorem after_execute (env : DeviceEnv) (plan : Plan) (a : SyncedAgent) :
    after (plan.execute env) a = a ∨
      ∃ e, plan.Writes e ∧ after (plan.execute env) a = a.step e :=
  view_after_execute id (fun _ _ _ => rfl) (fun h _ => congrArg (AgentModel.step · _) h)
    env plan a

end VolthaCore.Devices
