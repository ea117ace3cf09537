import VolthaCore.Devices.Operations
import VolthaCore.Lib.Runs

/-! Whether the updates of a device survive. An acknowledged operation should
leave the edited clone in the cache and in the store, and a field it assigned
should keep that value until another operation assigns the field. Four
operations acknowledge an edit that they do not keep, and a report about an image
leaves a device that cannot be encoded, whose later updates do not reach the
store; in a run without those acknowledgements and reports nothing is lost. -/

namespace VolthaCore.Devices

open Outcome Runs
open DeviceCall (plan)

inductive DeviceField where
  | root | parentId | vendor | model | serialNumber | adapter | vlan | macAddress | adminState
  | operStatus | reason | connectStatus | ports | flows | flowGroups | pmConfigs | imageDownloads
  deriving DecidableEq

def Device.Same (d d' : Device) : DeviceField → Prop
  | .root => d.root = d'.root
  | .parentId => d.parentId = d'.parentId
  | .vendor => d.vendor = d'.vendor
  | .model => d.model = d'.model
  | .serialNumber => d.serialNumber = d'.serialNumber
  | .adapter => d.adapter = d'.adapter
  | .vlan => d.vlan = d'.vlan
  | .macAddress => d.macAddress = d'.macAddress
  | .adminState => d.adminState = d'.adminState
  | .operStatus => d.operStatus = d'.operStatus
  | .reason => d.reason = d'.reason
  | .connectStatus => d.connectStatus = d'.connectStatus
  | .ports => d.ports = d'.ports
  | .flows => d.flows = d'.flows
  | .flowGroups => d.flowGroups = d'.flowGroups
  | .pmConfigs => d.pmConfigs = d'.pmConfigs
  | .imageDownloads => d.imageDownloads = d'.imageDownloads

theorem Device.Same.refl (d : Device) (φ : DeviceField) : d.Same d φ := by
  cases φ <;> rfl

variable {φ : DeviceField} {S : List DeviceField} {d cloned : Device} {x : Except Err Plan}
  {img : ImageDownload} {check : Except Err Unit} {edit : ImageDownload → ImageDownload}
  {env : DeviceEnv} {call : DeviceCall} {a : DeviceAgent}

theorem Device.Same.trans {d1 d2 d3 : Device} (h : d1.Same d2 φ) (h' : d2.Same d3 φ) :
    d1.Same d3 φ := by
  cases φ <;> exact Eq.trans h h'

def Device.take (d : Device) (S : List DeviceField) (e : Device) : Device where
  id := d.id
  type := d.type
  root := if .root ∈ S then e.root else d.root
  parentId := if .parentId ∈ S then e.parentId else d.parentId
  vendor := if .vendor ∈ S then e.vendor else d.vendor
  model := if .model ∈ S then e.model else d.model
  serialNumber := if .serialNumber ∈ S then e.serialNumber else d.serialNumber
  adapter := if .adapter ∈ S then e.adapter else d.adapter
  vlan := if .vlan ∈ S then e.vlan else d.vlan
  macAddress := if .macAddress ∈ S then e.macAddress else d.macAddress
  adminState := if .adminState ∈ S then e.adminState else d.adminState
  operStatus := if .operStatus ∈ S then e.operStatus else d.operStatus
  reason := if .reason ∈ S then e.reason else d.reason
  connectStatus := if .connectStatus ∈ S then e.connectStatus else d.connectStatus
  ports := if .ports ∈ S then e.ports else d.ports
  flows := if .flows ∈ S then e.flows else d.flows
  flowGroups := if .flowGroups ∈ S then e.flowGroups else d.flowGroups
  pmConfigs := if .pmConfigs ∈ S then e.pmConfigs else d.pmConfigs
  imageDownloads := if .imageDownloads ∈ S then e.imageDownloads else d.imageDownloads

/-- Going from `d` to `e` changes only the listed fields. -/
def Edits (S : List DeviceField) (d e : Device) : Prop := e = d.take S e

theorem Edits.same {e : Device} (h : Edits S d e) (hφ : φ ∉ S) : d.Same e φ := by
  rw [h]
  cases φ <;> exact (if_neg hφ).symm

theorem Edits.refl (S : List DeviceField) (d : Device) : Edits S d d := by
  unfold Edits Device.take
  simp

/-- The fields that the code of an operation assigns in the clone. -/
def DeviceCall.assigns : DeviceCall → List DeviceField
  | .enableDevice => [.adapter, .adminState, .operStatus]
  | .disableDevice => [.adminState, .operStatus]
  | .updateAdminState _ => [.adminState]
  | .deleteDevice => [.adminState]
  | .setParentID _ => [.parentId]
  | .updatePmConfigs _ => [.pmConfigs]
  | .initPmConfigs _ => [.pmConfigs]
  | .downloadImage _ => [.imageDownloads, .adminState]
  | .cancelImageDownload _ => [.imageDownloads, .adminState]
  | .activateImage _ => [.imageDownloads, .adminState]
  | .revertImage _ => [.imageDownloads]
  | .updateImageDownload _ => [.imageDownloads, .adminState]
  | .updateDeviceUsingAdapterData _ =>
    [.root, .vendor, .model, .serialNumber, .macAddress, .vlan, .reason]
  | .updateDeviceStatus _ _ => [.connectStatus, .operStatus]
  | .updateDeviceReason _ => [.reason]
  | .updatePortsOperState _ => [.ports]
  | .updatePortState _ _ _ => [.ports]
  | .deleteAllPorts => [.ports]
  | .addPort _ => [.ports]
  | .addPeerPort _ => [.ports]
  | .deletePeerPorts _ => [.ports]
  | .disablePort _ => [.ports]
  | .enablePort _ => [.ports]
  | .addFlowsAndGroups _ _ _ => [.flows, .flowGroups]
  | .deleteFlowsAndGroups _ _ _ => [.flows, .flowGroups]
  | .updateFlowsAndGroups _ _ _ => [.flows, .flowGroups]

/-- The clone as an operation edited it; an operation that fails before a write
edits nothing. -/
def Plan.edited (device : Device) : Plan → Device
  | .fail _ => device
  | .acknowledge edited => edited
  | .write edited _ _ => edited
  | .writeStoreOnly pmConfigs => { device with pmConfigs := some pmConfigs }

/-! ### Operations edit the fields they assign -/

theorem withRegisteredImage_ok {edited : Device}
    (h : withRegisteredImage img cloned check edit = .ok edited) :
    ∃ images, editImages img edit (cloned.imageDownloads.getD []) = .ok images ∧
      edited = { cloned with imageDownloads := some images } := by
  obtain ⟨registered, -, h⟩ := except_bind_ok_iff.mp h
  split_ifs at h
  · obtain ⟨-, -, h⟩ := except_bind_ok_iff.mp h
    obtain ⟨images, himages, h⟩ := except_bind_ok_iff.mp h
    cases h
    exact ⟨images, himages, rfl⟩

/-! ### Acknowledged edits -/

/-- What an operation needs for its acknowledgement to be true: the initial
performance configuration is the cached one, an enabled device has the registered
adapter, a device that downloads has a list of images, an image cancelled
outside a download is already marked so, and a report comes when there are no
images. -/
def KeepsEdit (env : DeviceEnv) (d : Device) : DeviceCall → Prop
  | .initPmConfigs pmConfigs => d.pmConfigs = some pmConfigs
  | .enableDevice => d.adminState = .enabled →
      ∀ name, env.deviceTypeToAdapter d.type = some name → name = d.adapter
  | .downloadImage _ => d.adminState = .enabled → d.imageDownloads ≠ none
  | .cancelImageDownload img => d.adminState ≠ .downloadingImage →
      ∀ image, some image ∈ d.imageDownloads.getD [] → sameImage image img = true →
        image.downloadState = .cancelled
  | .updateImageDownload _ => d.imageDownloads.getD [] = []
  | _ => True

theorem editImages_eq_self {images images' : List (Option ImageDownload)}
    (hedit : ∀ image, some image ∈ images → sameImage image img = true → edit image = image)
    (h : editImages img edit images = .ok images') : images' = images := by
  have hall := except_mapM_ok_iff.mp h
  clear h
  induction hall with
  | nil => rfl
  | @cons image image' images images' hi _ ih =>
    rw [ih fun i hmem => hedit i (List.mem_cons_of_mem _ hmem)]
    cases image with
    | none => cases hi
    | some image =>
      simp only [Except.ok.injEq] at hi
      subst hi
      split_ifs with hs
      · rw [hedit image (by simp) hs]
      · rfl

theorem registered_ne_none {edited : Device}
    (h : withRegisteredImage img cloned check edit = .ok edited) :
    ∃ images, cloned.imageDownloads = some images := by
  obtain ⟨registered, hr, h⟩ := except_bind_ok_iff.mp h
  cases hd : cloned.imageDownloads with
  | none =>
    simp only [hd, Option.getD_none, isImageRegistered, Except.ok.injEq] at hr
    subst hr
    simp at h
  | some images => exact ⟨images, rfl⟩

/-- What a plan acknowledges is what the agent keeps: an acknowledgement without
a write edits nothing, and a write past the cache writes what is cached. -/
def Plan.Keeps (d : Device) : Plan → Prop
  | .fail _ => True
  | .acknowledge edited => edited = d
  | .write _ _ _ => True
  | .writeStoreOnly pmConfigs => d.pmConfigs = some pmConfigs

/-! ### Devices that can be encoded -/

theorem marshals_editImages {images : List (Option ImageDownload)}
    (h : editImages img edit (d.imageDownloads.getD []) = .ok images) :
    d.marshals = true ∧ images.all Option.isSome = true := by
  have hall := except_mapM_ok_iff.mp h
  refine ⟨List.all_eq_true.mpr fun image hmem => ?_, List.all_eq_true.mpr fun image hmem => ?_⟩
  · obtain ⟨i, -, hi⟩ := exists_mem_right_of_forall₂ hall hmem
    cases image with
    | none => cases hi
    | some image => rfl
  · obtain ⟨i, -, hi⟩ := exists_mem_left_of_forall₂ hall hmem
    cases i with
    | none => cases hi
    | some i =>
      cases hi
      rfl

theorem marshals_of_updatedImages {images : List (Option ImageDownload)}
    (h : updatedImages img (d.imageDownloads.getD []) = .ok images) : d.marshals = true := by
  obtain ⟨kept, hkept, -⟩ := except_bind_ok_iff.mp h
  refine List.all_eq_true.mpr fun image hmem => ?_
  obtain ⟨i, -, hi⟩ := exists_mem_right_of_forall₂ (except_mapM_ok_iff.mp hkept) hmem
  cases image with
  | none => cases hi
  | some image => rfl

/-- The request of a plan can be encoded. -/
def Plan.Sends : Plan → Prop
  | .write _ _ (some r) => r.device.all Device.marshals = true
  | _ => True

/-! ### The plans of the operations -/

/-- What holds of the plan of an operation. It edits only the fields that the operation assigns, and
what it acknowledges is kept where the operation keeps its edit. Then a device that can be encoded
stays so; a missing image stays in the list, and of a device that can be encoded only such devices
are sent. -/
structure Plan.Sound (env : DeviceEnv) (d : Device) (call : DeviceCall) (plan : Plan) : Prop where
  edits : Edits call.assigns d (plan.edited d)
  keeps : KeepsEdit env d call → plan.Keeps d
  marshals : KeepsEdit env d call → d.marshals = true → (plan.edited d).marshals = true
  marshals_of : (plan.edited d).marshals = true → d.marshals = true
  sends : d.marshals = true → plan.Sends

namespace Plan.Sound

variable {edited : Device} {storeFailure : Err} {request : Option Request}

theorem fail (e : Err) : Sound env d call (.fail e) :=
  ⟨.refl .., fun _ => trivial, fun _ => id, id, fun _ => trivial⟩

theorem acknowledge : Sound env d call (.acknowledge d) :=
  ⟨.refl .., fun _ => rfl, fun _ => id, id, fun _ => trivial⟩

theorem write (hedits : Edits call.assigns d edited) (himages : edited.marshals = d.marshals)
    (hsends : d.marshals = true → Sends (.write edited storeFailure request)) :
    Sound env d call (.write edited storeFailure request) :=
  ⟨hedits, fun _ => trivial, fun _ => himages.trans, himages.symm.trans, hsends⟩

theorem switchPort {word : String} {s : AdminState} {send : Port → AdapterCall} {portNo : UInt32}
    (hcall : call.assigns = [.ports]) :
    Sound env d call (switchPort word s send portNo d) := by
  unfold Devices.switchPort
  split
  · exact fail _
  · split_ifs
    · exact fail _
    · exact write (by rw [hcall]; rfl) rfl fun _ => rfl

theorem flowUpdate (hcall : call.assigns = [.flows, .flowGroups]) (update : FlowUpdate) :
    Sound env d call (update.plan d) := by
  cases update with
  | nothing => exact acknowledge
  | fail e => exact fail e
  | send request flows groups => exact write (by rw [hcall]; rfl) rfl id

theorem registeredImage {next : Device → Except Err Plan}
    (h : ∀ images plan, editImages img edit (d.imageDownloads.getD []) = .ok images →
      (∃ old, d.imageDownloads = some old) → images.all Option.isSome = d.marshals →
      next { d with imageDownloads := some images } = .ok plan → Sound env d call plan) :
    Sound env d call (planOf (withRegisteredImage img d check edit >>= next)) := by
  refine planOf_rec fail fun plan hplan => ?_
  obtain ⟨edited, hedited, hplan⟩ := except_bind_ok_iff.mp hplan
  obtain ⟨images, himages, rfl⟩ := withRegisteredImage_ok hedited
  obtain ⟨hd, hall⟩ := marshals_editImages himages
  exact h images plan himages (registered_ne_none hedited) (hall.trans hd.symm) hplan

theorem enableDevice : Sound env d .enableDevice (enableDevice env d) := by
  unfold Devices.enableDevice
  split
  · exact fail _
  next name hname =>
    dsimp only
    split_ifs with hadmin
    · refine ⟨rfl, fun hk => ?_, fun _ => id, id, fun _ => trivial⟩
      show ({ d with adapter := name } : Device) = d
      rw [hk hadmin name hname]
    · exact fail _
    all_goals exact write rfl rfl id

theorem downloadImage : Sound env d (.downloadImage img) (downloadImage img d) := by
  unfold Devices.downloadImage
  split_ifs with hadmin
  · exact fail _
  · dsimp only
    split
    next hnone =>
      refine ⟨rfl, fun hk => absurd hnone (hk (not_not.mp hadmin)), fun _ _ => rfl, fun _ => ?_,
        fun _ => trivial⟩
      rw [Device.marshals, hnone]
      rfl
    next images himages =>
      have hall : (images ++ [some { img with downloadState := .requested }]).all Option.isSome =
          d.marshals := by
        simp [Device.marshals, himages]
      exact write rfl hall hall.trans

theorem cancelImageDownload :
    Sound env d (.cancelImageDownload img) (cancelImageDownload img d) := by
  refine registeredImage fun images plan himages hold hall hplan => ?_
  split_ifs at hplan with hadmin <;> cases hplan
  · exact write rfl hall id
  · refine ⟨rfl, fun hk => ?_, fun _ => hall.trans, hall.symm.trans, fun _ => trivial⟩
    obtain ⟨old, hold⟩ := hold
    rw [hold, Option.getD_some] at himages
    have heq : images = old := by
      refine editImages_eq_self (fun image hmem hs => ?_) himages
      rw [← hk hadmin image (by simpa [hold] using hmem) hs]
    show ({ d with imageDownloads := some images } : Device) = d
    rw [heq, ← hold]

theorem updateImageDownload :
    Sound env d (.updateImageDownload img) (updateImageDownload img d) := by
  refine planOf_rec fail fun plan hplan => ?_
  obtain ⟨images, himages, hplan⟩ := except_bind_ok_iff.mp hplan
  have hempty : d.imageDownloads.getD [] = [] → images.all Option.isSome = true := fun hk => by
    rw [hk] at himages
    cases himages
    rfl
  split_ifs at hplan <;> cases hplan <;>
    exact ⟨rfl, fun _ => trivial, fun hk _ => hempty hk,
      fun _ => marshals_of_updatedImages himages, fun _ => trivial⟩

end Plan.Sound

theorem plan_sound (env : DeviceEnv) (call : DeviceCall) (d : Device) :
    Plan.Sound env d call (call.plan env d) := by
  cases call with
  | enableDevice => exact .enableDevice
  | downloadImage img => exact .downloadImage
  | cancelImageDownload img => exact .cancelImageDownload
  | updateImageDownload img => exact .updateImageDownload
  | activateImage img | revertImage img =>
    refine .registeredImage fun images plan _ _ hall hplan => ?_
    cases hplan
    exact .write rfl hall hall.trans
  | disablePort portNo | enablePort portNo => exact .switchPort rfl
  | addFlowsAndGroups flows groups metadata | deleteFlowsAndGroups flows groups metadata
  | updateFlowsAndGroups flows groups metadata => exact .flowUpdate rfl _
  | initPmConfigs pm => exact ⟨rfl, id, fun _ => id, id, fun _ => trivial⟩
  | updatePortState portType portNo s =>
    cases portType with
    | unknown number => exact .fail _
    | known type => exact .write rfl rfl fun _ => trivial
  | disableDevice =>
    simp only [plan, disableDevice]
    split_ifs
    · exact .acknowledge
    · exact .fail _
    · exact .write rfl rfl id
  | updateAdminState s =>
    simp only [plan, updateAdminState]
    split_ifs with hs
    · exact .acknowledge
    · exact .write rfl rfl fun _ => trivial
  | deleteDevice =>
    simp only [plan, deleteDevice]
    split_ifs
    · exact .acknowledge
    · exact .write rfl rfl fun _ => trivial
    · exact .write rfl rfl id
  | deleteAllPorts =>
    simp only [plan, deleteAllPorts]
    split_ifs
    · exact .fail _
    · exact .acknowledge
    · exact .write rfl rfl fun _ => trivial
  | addPort port =>
    simp only [plan, addPort]
    split_ifs
    · exact .acknowledge
    · exact .write rfl rfl fun _ => trivial
  | updatePmConfigs pm => exact .write rfl rfl id
  | _ => exact .write rfl rfl fun _ => trivial

/-- What an operation leaves in the store. A device that gets there agrees with the stored one
before. -/
theorem stored_after_run (env : DeviceEnv) (call : DeviceCall) (a : DeviceAgent) :
    (after (call.run env) a).stored = a.stored ∨
      a.stored = { a.device with pmConfigs := a.stored.pmConfigs } ∧
        ((∃ edited storeFailure request,
          call.plan env a.device = .write edited storeFailure request ∧
            (after (call.run env) a).stored = edited) ∨
        ∃ pm, call.plan env a.device = .writeStoreOnly pm ∧
          (after (call.run env) a).stored = { a.device with pmConfigs := some pm }) := by
  obtain h | ⟨_, ⟨edited, storeFailure, request, hplan, rfl⟩ | ⟨pm, hplan, rfl⟩, h⟩ :=
    DeviceAgent.after_execute env (call.plan env a.device) a <;>
    have hstored : (after (call.run env) a).stored = _ := congrArg Prod.snd h
  · exact .inl hstored
  · by_cases hreaches : a.stored.marshals = true ∨ edited.marshals = true
    · have hmarshals := (plan_sound env call a.device).marshals_of
      rw [hplan] at hmarshals
      rw [DeviceAgent.view_step_stored hreaches] at hstored
      exact .inr ⟨a.agree (hreaches.imp_right hmarshals),
        .inl ⟨edited, storeFailure, request, hplan, hstored⟩⟩
    · rw [DeviceAgent.step, dif_neg hreaches] at hstored
      exact .inl hstored
  · by_cases hreaches : a.stored.marshals = true ∨ a.device.marshals = true
    · rw [DeviceAgent.view_step_storedPmConfigs hreaches] at hstored
      exact .inr ⟨a.agree hreaches, .inr ⟨pm, hplan, hstored⟩⟩
    · rw [DeviceAgent.step, if_neg hreaches] at hstored
      exact .inl hstored

/-! ### Runs -/

/-- Cache and store are equal, and the device can be encoded. -/
structure Kept (a : DeviceAgent) : Prop where
  equal : a.stored = a.device
  marshals : a.device.marshals = true

/-- An operation whose acknowledgement is true leaves the fields that it does not assign, whether it
returns or fails. -/
theorem Kept.step (ha : Kept a) (hk : KeepsEdit env a.device call) :
    Kept (after (call.run env) a) ∧
      ∀ φ ∉ call.assigns, a.device.Same (after (call.run env) a).device φ := by
  have hsound := plan_sound env call a.device
  have hkeeps := hsound.keeps hk
  have hedits := hsound.edits
  have hedited := hsound.marshals hk ha.marshals
  obtain ⟨e, hview, hmarshals, hsame⟩ : ∃ e, (after (call.run env) a).view = (e, e) ∧
      e.marshals = true ∧ ∀ φ ∉ call.assigns, a.device.Same e φ := by
    obtain h | ⟨_, ⟨edited, storeFailure, request, hplan, rfl⟩ | ⟨pm, hplan, rfl⟩, h⟩ :=
      DeviceAgent.after_execute env (call.plan env a.device) a
    · refine ⟨a.device, h.trans ?_, ha.marshals, fun φ _ => .refl _ φ⟩
      rw [DeviceAgent.view, ha.equal]
    · rw [hplan] at hedits hedited
      exact ⟨edited, h.trans (DeviceAgent.view_step_stored (.inr hedited)), hedited,
        fun φ hφ => hedits.same hφ⟩
    · rw [hplan] at hkeeps
      refine ⟨a.device, (h.trans (DeviceAgent.view_step_storedPmConfigs (.inr ha.marshals))).trans
        ?_, ha.marshals, fun φ _ => .refl _ φ⟩
      rw [← show a.device.pmConfigs = some pm from hkeeps]
  obtain ⟨hdevice, hstored⟩ := Prod.mk.inj hview
  exact ⟨⟨hstored.trans hdevice.symm, hdevice ▸ hmarshals⟩, fun φ hφ => hdevice ▸ hsame φ hφ⟩

theorem device_of_run_ok {a' : DeviceAgent} (hm : a.device.marshals = true)
    (hk : KeepsEdit env a.device call) (h : call.run env a = .ok () a') :
    a'.device = (call.plan env a.device).edited a.device := by
  have hkeeps := (plan_sound env call a.device).keeps hk
  obtain ⟨edited, hplan, hview⟩ |
    ⟨_, ⟨edited, storeFailure, request, hplan, rfl⟩ | ⟨pm, hplan, rfl⟩, hview⟩ :=
    DeviceAgent.execute_ok h <;>
    rw [show call.plan env a.device = _ from hplan] at hkeeps ⊢ <;>
    rw [show a'.device = _ from congrArg Prod.fst hview]
  · exact (show edited = a.device from hkeeps).symm
  · exact a.step_stored_device edited
  · rw [DeviceAgent.view_step_storedPmConfigs (.inr hm)]
    show a.device = { a.device with pmConfigs := some pm }
    rw [← show a.device.pmConfigs = some pm from hkeeps]

def callStep {α : Type} [AgentModel α] (a : α) (c : DeviceEnv × DeviceCall) : α :=
  after (c.2.run c.1) a

/-- Every operation of a run meets its condition in the state it starts from. -/
abbrev KeepsEdits (calls : List (DeviceEnv × DeviceCall)) (a : DeviceAgent) : Prop :=
  Along callStep (fun a c => KeepsEdit c.1 a.device c.2) calls a

/-- Cache and store stay equal, and a field keeps its value until it is assigned. -/
theorem Kept.run {calls : List (DeviceEnv × DeviceCall)} (ha : Kept a) (hk : KeepsEdits calls a) :
    Kept (run callStep calls a) ∧
      ∀ φ, (∀ c ∈ calls, φ ∉ c.2.assigns) → a.device.Same (Runs.run callStep calls a).device φ := by
  induction calls generalizing a with
  | nil => exact ⟨ha, fun φ _ => .refl _ φ⟩
  | cons c calls ih =>
    obtain ⟨hstep, hsame⟩ := ha.step hk.1
    obtain ⟨hend, hrest⟩ := ih hstep hk.2
    refine ⟨hend, fun φ hφ => ?_⟩
    exact (hsame φ (hφ c (by simp))).trans (hrest φ fun d hd => hφ d (List.mem_cons_of_mem _ hd))

/-- No update is lost in a run: after an operation that returns, cache and store
are equal, and every field that it assigned has the value of the edited clone, in
cache and store, as long as no later operation assigns the field. -/
def NoLostUpdates (calls : List (DeviceEnv × DeviceCall)) (a : DeviceAgent) : Prop :=
  ∀ before env call later, calls = before ++ (env, call) :: later →
    ∀ a', call.run env (run callStep before a) = .ok () a' →
      a'.device = a'.stored ∧
      ∀ φ ∈ call.assigns, (∀ c ∈ later, φ ∉ c.2.assigns) →
        let edited :=
          (call.plan env (run callStep before a).device).edited (run callStep before a).device
        edited.Same (run callStep later a').device φ ∧ edited.Same (run callStep later a').stored φ

/-- From an agent whose cache and store agree on a device that can be encoded, as a started
agent's do, nothing is lost in a run whose operations all meet their condition. -/
theorem no_lost_updates_of_keepsEdits {calls : List (DeviceEnv × DeviceCall)} {a : DeviceAgent}
    (ha : Kept a) (hk : KeepsEdits calls a) : NoLostUpdates calls a := by
  rintro before env call later rfl a' hok
  obtain ⟨hbefore, hcall, hlater⟩ := along_append.mp hk
  have hs := (ha.run hbefore).1
  have hafter : after (call.run env) (run callStep before a) = a' := after_of_ok hok
  have hkept := (hs.step hcall).1
  simp only [callStep, hafter] at hkept hlater
  refine ⟨hkept.equal.symm, fun φ _ hφ => ?_⟩
  obtain ⟨hend, hsame⟩ := hkept.run hlater
  simp only
  rw [← device_of_run_ok hs.marshals hcall hok, hend.equal]
  exact ⟨hsame φ hφ, hsame φ hφ⟩

theorem no_lost_updates_of_port_and_reason :
    NoLostUpdates [(willingEnv true, .addPort { portNo := 1 }),
      (willingEnv true, .updateDeviceReason "ready")] (.wrote { id := "olt" }) :=
  no_lost_updates_of_keepsEdits ⟨rfl, rfl⟩ ⟨trivial, trivial, trivial⟩

/-- The initial performance configuration is acknowledged and stored, but not
cached, and the next operation writes the cached device back over it. -/
theorem initPmConfigs_is_lost :
    ¬ NoLostUpdates [(willingEnv true, .initPmConfigs { id := "olt" }),
      (willingEnv true, .updateDeviceReason "ready")] (.wrote { id := "olt" }) := by
  intro h
  obtain ⟨-, hfields⟩ := h [] (willingEnv true) (.initPmConfigs { id := "olt" })
    [(willingEnv true, .updateDeviceReason "ready")] rfl _ rfl
  have hstored : some _ = none := (hfields .pmConfigs (by decide) (by decide)).2
  cases hstored

end VolthaCore.Devices
