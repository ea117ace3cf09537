import VolthaCore.Devices.NoLostUpdates

/-! The two models of a device agent. While the device can be encoded, so can every request about
it, and every write reaches the store: the agent answers each operation as the agent that keeps
cache and store in step does. -/

namespace VolthaCore.Devices

open Outcome
open DeviceCall (plan)

variable {d : Device} {a : DeviceAgent}

theorem execution_eq_of_sends {plan : Plan} (h : plan.Sends) (env : DeviceEnv) (d : Device) :
    plan.execution Device.marshals env d = plan.execution (fun _ => true) env d := by
  rcases plan with e | edited | ⟨edited, storeFailure, - | r⟩ | pm
  · rfl
  · rfl
  · rfl
  · have hall : r.device.all Device.marshals = r.device.all fun _ => true := by
      rw [show r.device.all Device.marshals = true from h, Option.all_true]
    have hanswer : r.answer Device.marshals env = r.answer (fun _ => true) env := by
      unfold Request.answer
      rw [hall]
    simp only [Plan.execution, hanswer]
  · rfl

/-- The two agents have the same device, in the cache and in the store. -/
def DeviceAgent.Simulates (a : DeviceAgent) (s : SyncedAgent) : Prop :=
  a.view = (s.device, s.stored)

theorem DeviceAgent.Simulates.step {s : SyncedAgent} (h : a.Simulates s)
    (hm : a.device.marshals = true) (e : Event) : (a.step e).Simulates (s.step e) := by
  obtain ⟨hdevice, hstored⟩ := Prod.mk.inj h
  cases e with
  | asked call ok => exact h
  | stored edited =>
    refine view_step_stored (.inl ?_)
    rw [a.agree (.inr hm)]
    exact hm
  | storedPmConfigs pm =>
    refine (view_step_storedPmConfigs (.inr hm)).trans ?_
    rw [hdevice]
    rfl

theorem DeviceAgent.Simulates.foldl {s : SyncedAgent} (h : a.Simulates s)
    (hm : a.device.marshals = true) (encodes : Device → Bool) (env : DeviceEnv) (plan : Plan) :
    DeviceAgent.Simulates ((plan.execution encodes env d).events.foldl AgentModel.step a)
      ((plan.execution encodes env d).events.foldl AgentModel.step s) := by
  have ha := view_foldl_step view (fun _ _ _ => rfl) view_step (rfl : a.view = a.view)
    (plan.execution encodes env d).events
  have hs := view_foldl_step id (fun _ _ _ => rfl) (fun h _ => congrArg (AgentModel.step · _) h)
    (rfl : id s = id s) (plan.execution encodes env d).events
  unfold Simulates
  rw [ha, show List.foldl AgentModel.step s _ = _ from hs]
  obtain hw | ⟨e, -, hw⟩ := execution_writes encodes env d plan <;> rw [hw]
  · exact h
  · exact h.step hm e

/-- While the device can be encoded, an agent answers each operation as the agent that keeps cache
and store in step. -/
theorem run_simulates {s : SyncedAgent} (h : a.Simulates s) (hm : a.device.marshals = true)
    (env : DeviceEnv) (call : DeviceCall) :
    (∃ a' s', call.run env a = .ok () a' ∧ call.run env s = .ok () s' ∧ a'.Simulates s') ∨
      ∃ e a' s', call.run env a = .error e a' ∧ call.run env s = .error e s' ∧
        a'.Simulates s' := by
  have hsim := h.foldl (d := s.device) hm (fun _ => true) env (call.plan env s.device)
  have hdevice : a.device = s.device := congrArg Prod.fst h
  have hexecution : (call.plan env a.device).execution Device.marshals env a.device =
      (call.plan env s.device).execution (fun _ => true) env s.device := by
    rw [execution_eq_of_sends ((plan_sound env call a.device).sends hm), hdevice]
  simp only [DeviceCall.run, perform, Plan.execute, AgentModel.device, AgentModel.encodes,
    hexecution]
  cases ((call.plan env s.device).execution (fun _ => true) env s.device).error with
  | none => exact .inl ⟨_, _, rfl, rfl, hsim⟩
  | some e => exact .inr ⟨e, _, _, rfl, rfl, hsim⟩

end VolthaCore.Devices
