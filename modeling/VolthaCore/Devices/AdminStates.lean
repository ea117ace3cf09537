import VolthaCore.Devices.NoLostUpdates

/-! The admin state of a device over runs of operations. A deleted device stays so under every
operation but two of the images, which set another state whatever the state is. A device is
stored as enabled or disabled before the adapter is asked, so that the same call again finds it in
this state and acknowledges what the adapter refused. -/

namespace VolthaCore.Devices

open Outcome Runs DeviceCall

/-! ### Deleted devices -/

/-- An image with the identity of `img` is in the list. -/
def registered (img : ImageDownload) (images : List (Option ImageDownload)) : Bool :=
  images.any fun i => i.any (sameImage · img)

theorem registered_of_isImageRegistered {img : ImageDownload}
    {images : List (Option ImageDownload)} (h : isImageRegistered img images = .ok true) :
    registered img images = true := by
  induction images with
  | nil => cases h
  | cons image images ih =>
    cases image with
    | none => cases h
    | some image =>
      rw [isImageRegistered] at h
      rw [registered, List.any_cons]
      split_ifs at h with hsame
      · simp [hsame]
      · rw [show images.any _ = true from ih h, Bool.or_true]

/-- The operation gives a deleted device another admin state: the report about an image that is
not under way, the activation of a registered image and the plain update of the state. -/
def Revives (d : Device) : DeviceCall → Bool
  | .updateAdminState adminState => adminState ≠ .deleted
  | .activateImage img => registered img (d.imageDownloads.getD [])
  | .updateImageDownload img =>
    (img.downloadState ≠ .requested && img.downloadState ≠ .started) || img.imageState ≠ .activating
  | _ => false

variable {d edited : Device} {env : DeviceEnv} {a : DeviceAgent}

/-- Every other operation leaves a deleted device deleted. -/
theorem edited_deleted (env : DeviceEnv) (hd : d.adminState = .deleted) {call : DeviceCall}
    (hcall : Revives d call = false) : ((call.plan env d).edited d).adminState = .deleted := by
  have hframe : .adminState ∉ call.assigns → ((call.plan env d).edited d).adminState = .deleted :=
    fun h => ((plan_sound env call d).edits.same h).symm.trans hd
  cases call with
  | enableDevice =>
    simp only [plan, enableDevice]
    split
    · exact hd
    · simp [hd, Plan.edited]
  | disableDevice => simp [plan, disableDevice, hd, Plan.edited]
  | updateAdminState adminState =>
    have hstate : adminState = .deleted := by simpa [Revives] using hcall
    simp [plan, updateAdminState, hd, hstate, Plan.edited]
  | deleteDevice => simp [plan, deleteDevice, hd, Plan.edited]
  | downloadImage img => simp [plan, downloadImage, hd, Plan.edited]
  | cancelImageDownload img =>
    refine planOf_rec (P := fun plan => (plan.edited d).adminState = .deleted) (fun _ => hd)
      fun plan hplan => ?_
    obtain ⟨edited, hedited, hplan⟩ := except_bind_ok_iff.mp hplan
    obtain ⟨images, -, rfl⟩ := withRegisteredImage_ok hedited
    rw [if_neg (by simp [hd])] at hplan
    cases hplan
    exact hd
  | activateImage img =>
    refine planOf_rec (P := fun plan => (plan.edited d).adminState = .deleted) (fun _ => hd)
      fun plan hplan => ?_
    obtain ⟨edited, hedited, -⟩ := except_bind_ok_iff.mp hplan
    obtain ⟨found, hfound, hedited⟩ := except_bind_ok_iff.mp hedited
    -- the image would have to be registered
    cases found with
    | false => simp at hedited
    | true => exact absurd (registered_of_isImageRegistered hfound) (by simpa [Revives] using hcall)
  | updateImageDownload img =>
    refine planOf_rec (P := fun plan => (plan.edited d).adminState = .deleted) (fun _ => hd)
      fun plan hplan => ?_
    obtain ⟨images, -, hplan⟩ := except_bind_ok_iff.mp hplan
    rw [if_neg (by simpa [Revives] using hcall)] at hplan
    cases hplan
    exact hd
  | _ => exact hframe (by simp [assigns])

/-- In a run in which no operation revives a deleted device, a device that is stored as deleted
stays so. -/
theorem deleted_absorbing {a : DeviceAgent} {before later : List (DeviceEnv × DeviceCall)}
    (hcalls : Along callStep (fun (a : DeviceAgent) c => a.stored.adminState = .deleted →
      Revives a.device c.2 = false) (before ++ later) a)
    (hdeleted : (run callStep before a).stored.adminState = .deleted) :
    (run callStep (before ++ later) a).stored.adminState = .deleted := by
  have hstep : ∀ (a : DeviceAgent) (c : DeviceEnv × DeviceCall),
      (a.stored.adminState = .deleted → Revives a.device c.2 = false) →
      a.stored.adminState = .deleted → (callStep a c).stored.adminState = .deleted := by
    intro a c hc ha
    obtain h | ⟨hagree, ⟨edited, storeFailure, request, hplan, h⟩ | ⟨pm, hplan, h⟩⟩ :=
      stored_after_run c.1 c.2 a <;> rw [show (callStep a c).stored = _ from h]
    · exact ha
    · have hdevice : a.device.adminState = .deleted :=
        (congrArg Device.adminState hagree).symm.trans ha
      have hedited := edited_deleted c.1 hdevice (hc ha)
      rw [hplan] at hedited
      exact hedited
    · exact (congrArg Device.adminState hagree).symm.trans ha
  rw [run_append]
  exact run_invariant (P := fun a => a.stored.adminState = .deleted) hstep
    (along_append.mp hcalls).2 hdeleted

def enabledDevice : DeviceAgent :=
  .wrote { id := "onu", adminState := .enabled, imageDownloads := some [] }

/-- A northbound client and the adapter go on with a device that was deleted. -/
theorem deleted_absorbing_statuses :
    (run callStep ([(willingEnv false, .deleteDevice)] ++
      [(willingEnv false, .enableDevice), (willingEnv false, .disableDevice),
        (willingEnv false, .updateDeviceStatus (.known .active) (.unknown 7)),
        (willingEnv false, .activateImage { id := "onu", name := "image" })])
      enabledDevice).stored.adminState = .deleted :=
  deleted_absorbing (by decide +kernel) (by decide +kernel)

/-- The adapter reports about an image of a device that was deleted. -/
theorem image_report_revives_deleted :
    (run callStep [(willingEnv false, .deleteDevice)] enabledDevice).stored.adminState =
        .deleted ∧
      (run callStep ([(willingEnv false, .deleteDevice)] ++
        [(willingEnv false, .updateImageDownload { id := "onu", name := "image" })])
        enabledDevice).stored.adminState = .enabled := by
  decide +kernel

/-! ### Adapters that refuse -/

/-- The calls that switch a device on and off. -/
inductive Switch where
  | enableDevice
  | disableDevice
  deriving DecidableEq

def Switch.call : Switch → DeviceCall
  | .enableDevice => .enableDevice
  | .disableDevice => .disableDevice

def Switch.target : Switch → AdminState
  | .enableDevice => .enabled
  | .disableDevice => .disabled

def Switch.requests : Switch → List AdapterCall
  | .enableDevice => [.adoptDevice, .reEnableDevice]
  | .disableDevice => [.disableDevice]

def switchStep (a : DeviceAgent) (c : DeviceEnv × Switch) : DeviceAgent :=
  after (c.2.call.run c.1) a

/-- The agent of a new device. -/
def startAgent (d : Device) : DeviceAgent := .wrote { d with adminState := .preprovisioned }

/-- One of the requests of a call has succeeded since the stored state was last another one. -/
def Accepted (call : Switch) (events : List Event) : Prop :=
  ∃ m ∈ call.requests, .asked m true ∈ events.takeWhile fun
    | .stored device => device.adminState = call.target
    | _ => true

instance (call : Switch) (events : List Event) : Decidable (Accepted call events) :=
  inferInstanceAs (Decidable (∃ m ∈ call.requests, _))

def lastAnswer (events : List Event) : Option Bool :=
  events.findSome? fun
    | .asked _ ok => some ok
    | _ => none

/-- A call that finds the device in the state that it asks for comes when the last answer of the
adapter was no error. -/
def Unrefused (a : DeviceAgent) (c : DeviceEnv × Switch) : Prop :=
  a.device.adminState = c.2.target → lastAnswer a.events ≠ some false

instance (a : DeviceAgent) (c : DeviceEnv × Switch) : Decidable (Unrefused a c) :=
  inferInstanceAs (Decidable (_ → _))

theorem Switch.target_injective : Function.Injective Switch.target := by
  intro c c' h
  cases c <;> cases c' <;> simp_all [target]

/-- A call fails, finds the device in its state, or stores this state and asks the adapter. -/
theorem Switch.plan_cases (env : DeviceEnv) (d : Device) (call : Switch) :
    (∃ e, call.call.plan env d = .fail e) ∨
      (∃ d', call.call.plan env d = .acknowledge d' ∧ d.adminState = call.target) ∨
      ∃ edited, ∃ m ∈ call.requests, edited.adminState = call.target ∧
        call.call.plan env d = writeDevice edited (some ⟨m, edited, .after⟩) := by
  cases call with
  | enableDevice =>
    simp only [Switch.call, plan, Devices.enableDevice]
    split
    · exact .inl ⟨_, rfl⟩
    · split_ifs with henabled hdeleted
      · exact .inr (.inl ⟨_, rfl, henabled⟩)
      · exact .inl ⟨_, rfl⟩
      all_goals exact .inr (.inr ⟨_, _, by simp [requests], rfl, rfl⟩)
  | disableDevice =>
    simp only [Switch.call, plan, Devices.disableDevice]
    split_ifs with hdisabled hother
    · exact .inr (.inl ⟨_, rfl, hdisabled⟩)
    · exact .inl ⟨_, rfl⟩
    · exact .inr (.inr ⟨_, _, by simp [requests], rfl, rfl⟩)

/-- A call leaves the agent as it is, and then it fails or finds the device in its state, or the
last thing that happens is that the adapter is asked. -/
theorem switchStep_cases (a : DeviceAgent) (env : DeviceEnv) (call : Switch) :
    (switchStep a (env, call) = a ∧
      (returns (call.call.run env) a = true → a.device.adminState = call.target)) ∨
    (switchStep a (env, call)).device.adminState = call.target ∧
      ∃ m ∈ call.requests, ∃ rest, (switchStep a (env, call)).events =
        .asked m (returns (call.call.run env) a) :: rest := by
  have hrun : call.call.run env a = (call.call.plan env a.device).execute env a := rfl
  unfold switchStep after returns
  dsimp only
  rw [hrun]
  obtain ⟨e, hplan⟩ | ⟨d', hplan, hstate⟩ | ⟨edited, m, hm, hstate, hplan⟩ :=
    call.plan_cases env a.device <;> rw [hplan]
  · exact .inl ⟨rfl, fun h => by cases h⟩
  · exact .inl ⟨rfl, fun _ => hstate⟩
  · by_cases hstore : env.store = .written
    · right
      simp only [Plan.execute, writeDevice, Plan.execution, if_pos hstore]
      cases Request.answer (AgentModel.encodes a) env ⟨m, edited, .after⟩ with
      | none => exact ⟨(congrArg Device.adminState (a.step_stored_device edited)).trans hstate,
          m, hm, _, rfl⟩
      | some e => exact ⟨(congrArg Device.adminState (a.step_stored_device edited)).trans hstate,
          m, hm, _, rfl⟩
    · left
      simp only [Plan.execute, writeDevice, Plan.execution, if_neg hstore]
      exact ⟨rfl, fun h => by cases h⟩

/-- The last request is that of the call that set the state. -/
def Settled (a : DeviceAgent) : Prop :=
  a.device.adminState = .preprovisioned ∨
    ∃ call : Switch, a.device.adminState = call.target ∧
      ∃ m ∈ call.requests, ∃ ok rest, a.events = .asked m ok :: rest

theorem accepted_of_asked {call : Switch} {m : AdapterCall} (hm : m ∈ call.requests)
    (rest : List Event) : Accepted call (.asked m true :: rest) :=
  ⟨m, hm, by simp⟩

theorem Settled.step (ha : Settled a) (c : DeviceEnv × Switch) : Settled (switchStep a c) := by
  obtain ⟨h, -⟩ | ⟨hstate, m, hm, rest, hevents⟩ := switchStep_cases a c.1 c.2
  · rw [h]
    exact ha
  · exact .inr ⟨c.2, hstate, m, hm, _, rest, hevents⟩

theorem Settled.accepted (ha : Settled a) {c : DeviceEnv × Switch} (hc : Unrefused a c)
    (hok : returns (c.2.call.run c.1) a = true) : Accepted c.2 (switchStep a c).events := by
  obtain ⟨h, hfound⟩ | ⟨-, m, hm, rest, hevents⟩ := switchStep_cases a c.1 c.2
  · -- the device was found in the state that the call asks for, and nothing happens
    have hstate := hfound hok
    rw [h]
    rcases ha with hpre | ⟨call', hcall', m, hm, ok, rest, hevents⟩
    · rw [hpre] at hstate
      cases hcall : c.2 <;> rw [hcall] at hstate <;> cases hstate
    · obtain rfl : call' = c.2 := Switch.target_injective (hcall'.symm.trans hstate)
      have hlast := hc hstate
      rw [hevents] at hlast ⊢
      cases ok with
      | true => exact accepted_of_asked hm _
      | false => exact absurd rfl hlast
  · rw [hevents, hok]
    exact accepted_of_asked hm _

/-- In a run in which no refused call is repeated while its state is stored, every call that
returns without an error has been accepted by the adapter. -/
theorem returned_accepted {d : Device} {calls : List (DeviceEnv × Switch)}
    (hcalls : Along switchStep Unrefused calls (startAgent d)) {before later c}
    (hsplit : calls = before ++ c :: later)
    (hok : returns (c.2.call.run c.1) (run switchStep before (startAgent d)) = true) :
    Accepted c.2 (run switchStep (before ++ [c]) (startAgent d)).events := by
  rw [hsplit, along_append] at hcalls
  have hsettled : Settled (run switchStep before (startAgent d)) :=
    run_invariant (P := Settled) (fun _ c _ ha => ha.step c) hcalls.1 (.inl rfl)
  rw [run_append]
  exact hsettled.accepted hcalls.2.1 hok

def refusingEnv : DeviceEnv :=
  { willingEnv false with adapter := some (.status .aborted "no answer") }

/-- A refused call is followed by the other one before it is made again. -/
def switchCalls : List (DeviceEnv × Switch) :=
  [(refusingEnv, .enableDevice), (willingEnv false, .disableDevice),
    (willingEnv false, .enableDevice), (willingEnv false, .enableDevice)]

theorem returned_accepted_again :
    Accepted .enableDevice (run switchStep (switchCalls.take 3 ++
      [(willingEnv false, .enableDevice)]) (startAgent { id := "olt" })).events := by
  have hsplit : switchCalls = switchCalls.take 3 ++ (willingEnv false, .enableDevice) :: [] := rfl
  exact returned_accepted (by decide +kernel) hsplit (by decide +kernel)

/-- The adapter refuses to adopt the device, and the same call again returns without an error. -/
theorem refused_call_returns_when_repeated :
    returns (Switch.enableDevice.call.run refusingEnv)
        (run switchStep [(refusingEnv, .enableDevice)] (startAgent { id := "olt" })) = true ∧
      ¬ Accepted .enableDevice (run switchStep ([(refusingEnv, .enableDevice)] ++
        [(refusingEnv, .enableDevice)]) (startAgent { id := "olt" })).events := by
  decide +kernel

end VolthaCore.Devices
