import Mathlib.Data.List.ReduceOption
import VolthaCore.Devices.AdminStates

/-! The image downloads of a device. `updateImageDownload` rebuilds the list of images: it starts
with as many missing images as there were images and appends the reported one, so that every other
image is lost, and the device cannot be encoded any more. `downloadImage` does nothing for a device
that has no list of images yet. -/

namespace VolthaCore.Devices

open Outcome Runs List

theorem sameImage_iff {image img : ImageDownload} :
    sameImage image img = true ↔ image.id = img.id ∧ image.name = img.name := by
  simp [sameImage]

/-! ### The report about an image -/

/-- The images when one is reported: it takes the place of the registered one, which is removed
when it was cancelled. -/
def reportedImages (img : ImageDownload) (images : List ImageDownload) : List ImageDownload :=
  images.filterMap fun image =>
    if sameImage image img then
      if image.downloadState = .cancelled then none else some img
    else
      some image

/-- A report that returns stores the images with the reported one in its place, in any order. -/
def ReportTouchesOne (env : DeviceEnv) (a : DeviceAgent) (img : ImageDownload)
    (images : List ImageDownload) : Prop :=
  ∀ a', (DeviceCall.updateImageDownload img).run env a = .ok () a' →
    (a'.stored.imageDownloads.getD []).Perm ((reportedImages img images).map some)

/-- The reported image once for each registered one that is not cancelled. -/
def keptReports (img : ImageDownload) (images : List ImageDownload) : List ImageDownload :=
  images.filterMap fun image =>
    if sameImage image img && image.downloadState ≠ .cancelled then some img else none

theorem keptReports_eq (img : ImageDownload) (images : List ImageDownload) :
    (images.map fun image =>
      if sameImage image img && image.downloadState ≠ .cancelled then [some img] else []).flatten =
        (keptReports img images).map some := by
  induction images with
  | nil => rfl
  | cons image images ih =>
    rw [map_cons, flatten_cons, ih]
    simp only [keptReports, filterMap_cons]
    split_ifs <;> rfl

theorem updatedImages_eq (img : ImageDownload) (images : List ImageDownload) :
    updatedImages img (images.map some) =
      .ok (List.replicate images.length none ++ (keptReports img images).map some) := by
  refine except_bind_ok_iff.mpr ⟨images.map fun image =>
    if sameImage image img && image.downloadState ≠ .cancelled then [some img] else [], ?_, ?_⟩
  · rw [except_mapM_ok_iff, forall₂_map_left_iff, forall₂_map_right_iff]
    exact forall₂_same.mpr fun _ _ => rfl
  · rw [keptReports_eq, length_map]
    rfl

variable {d edited : Device} {i : ImageDownload} {storeFailure : Err} {request : Option Request}
  {edit : ImageDownload → ImageDownload} {images' : List (Option ImageDownload)}
  {calls : List ImageCall}

theorem updateImageDownload_eq {images : List ImageDownload}
    (himages : d.imageDownloads.getD [] = images.map some) (img : ImageDownload) :
    ∃ edited, updateImageDownload img d = writeDevice edited none ∧
      edited.imageDownloads =
        some (List.replicate images.length none ++ (keptReports img images).map some) := by
  unfold updateImageDownload
  rw [himages, updatedImages_eq]
  simp only [bind, Except.bind, pure, Except.pure]
  split_ifs
  · exact ⟨_, rfl, rfl⟩
  · exact ⟨_, rfl, rfl⟩

/-- A report touches one image exactly when it is not stored or no image is registered. -/
theorem report_touches_one_iff {env : DeviceEnv} {a : DeviceAgent} {img : ImageDownload}
    {images : List ImageDownload} (himages : a.device.imageDownloads.getD [] = images.map some) :
    ReportTouchesOne env a img images ↔ (env.store = .written → images = []) := by
  obtain ⟨edited, hplan, hedited⟩ := updateImageDownload_eq himages img
  have hmarshals : a.device.marshals = true := by simp [Device.marshals, himages]
  have hreaches : a.stored.marshals = true := by
    rw [a.agree (.inr hmarshals)]
    exact hmarshals
  have hok : ∀ a', (DeviceCall.updateImageDownload img).run env a = .ok () a' ↔
      env.store = .written ∧ a' = a.step (.stored edited) := by
    intro a'
    change (updateImageDownload img a.device).execute env a = _ ↔ _
    rw [hplan]
    by_cases hs : env.store = .written
    · simp [writeDevice, Plan.execute, Plan.execution, hs, eq_comm]
      rfl
    · simp [writeDevice, Plan.execute, Plan.execution, hs]
  have hstored : (a.step (.stored edited)).stored.imageDownloads = some
      (List.replicate images.length none ++ (keptReports img images).map some) :=
    (congrArg (Device.imageDownloads ∘ Prod.snd)
      (DeviceAgent.view_step_stored (.inl hreaches))).trans hedited
  constructor
  · intro h hstore
    have hperm := h _ ((hok _).mpr ⟨hstore, rfl⟩)
    rw [hstored, Option.getD_some] at hperm
    -- a missing image would have to come from the images
    by_contra hne
    have hnone : none ∈ List.replicate images.length (none : Option ImageDownload) :=
      mem_replicate.mpr ⟨fun h => hne (length_eq_zero_iff.mp h), rfl⟩
    have hmem := hperm.mem_iff.mp (mem_append_left _ hnone)
    simp at hmem
  · intro h a' hrun
    obtain ⟨hstore, rfl⟩ := (hok a').mp hrun
    rw [hstored, h hstore]
    exact List.Perm.refl _

/-- A report about a device without images. -/
theorem report_touches_none :
    ReportTouchesOne (willingEnv false) (.wrote { id := "onu", imageDownloads := some [] })
      { id := "onu", name := "image" } [] :=
  (report_touches_one_iff rfl).mpr fun _ => rfl

/-- A report about one of two images. -/
theorem report_loses_images :
    ¬ ReportTouchesOne (willingEnv false)
      (.wrote { id := "onu", imageDownloads := some [some { id := "onu", name := "image" },
        some { id := "onu", name := "other" }] })
      { id := "onu", name := "image", downloadState := .started }
      [{ id := "onu", name := "image" }, { id := "onu", name := "other" }] := by
  intro h
  exact absurd (h _ rfl) (by decide +kernel)

/-! ### Runs of downloads -/

/-- The operations on images. -/
inductive ImageCall where
  | downloadImage (img : ImageDownload)
  | cancelImageDownload (img : ImageDownload)
  | activateImage (img : ImageDownload)
  | revertImage (img : ImageDownload)
  | updateImageDownload (img : ImageDownload)
  deriving DecidableEq

def ImageCall.call : ImageCall → DeviceCall
  | .downloadImage img => .downloadImage img
  | .cancelImageDownload img => .cancelImageDownload img
  | .activateImage img => .activateImage img
  | .revertImage img => .revertImage img
  | .updateImageDownload img => .updateImageDownload img

/-- Store and adapter answer every call. -/
def imageRun (call : ImageCall) : EStateM Err DeviceAgent Unit := call.call.run (willingEnv false)

def imageStep (a : DeviceAgent) (call : ImageCall) : DeviceAgent := after (imageRun call) a

def DeviceAgent.images (a : DeviceAgent) : List (Option ImageDownload) :=
  a.stored.imageDownloads.getD []

/-- The image was cancelled, and later its state was reported. -/
def Forgotten (img : ImageDownload) (calls : List ImageCall) : Prop :=
  ∃ before later i j, calls = before ++ .cancelImageDownload i :: later ∧
    .updateImageDownload j ∈ later ∧ sameImage i img = true ∧ sameImage j img = true

/-- A download finds a list of images, and a report is about an image besides which none is
registered, unless a missing image makes the report panic. -/
def Tracks (a : DeviceAgent) : ImageCall → Prop
  | .downloadImage _ => a.device.adminState = .enabled → a.device.imageDownloads ≠ none
  | .updateImageDownload img => none ∈ a.images ∨ a.images.all fun i => i.all (sameImage · img)
  | _ => True

instance (a : DeviceAgent) : ∀ call, Decidable (Tracks a call)
  | .downloadImage _ => inferInstanceAs (Decidable (_ → _))
  | .updateImageDownload _ => inferInstanceAs (Decidable (_ ∨ _))
  | .cancelImageDownload _ | .activateImage _ | .revertImage _ => .isTrue trivial

variable {a : DeviceAgent} {img : ImageDownload} {call : ImageCall}
  {images : List (Option ImageDownload)}

theorem registered_iff :
    registered img images = true ↔ ∃ image, some image ∈ images ∧ sameImage image img = true := by
  unfold registered
  rw [any_eq_true]
  constructor
  · rintro ⟨image, hmem, hsame⟩
    cases image with
    | none => cases hsame
    | some image => exact ⟨image, hmem, hsame⟩
  · rintro ⟨image, hmem, hsame⟩
    exact ⟨some image, hmem, hsame⟩

theorem sameImage_trans {j k : ImageDownload} (h : sameImage i j = true)
    (h' : sameImage i k = true) :
    sameImage j k = true := by
  rw [sameImage_iff] at *
  exact ⟨h.1.symm.trans h'.1, h.2.symm.trans h'.2⟩

/-! ### What a call makes of the images -/

/-- The images after a call that stores the device. -/
def ImageCall.Makes (images images' : List (Option ImageDownload)) : ImageCall → Prop
  | .downloadImage img => images' = images ++ [some { img with downloadState := .requested }]
  | .cancelImageDownload img =>
    editImages img (fun i => { i with downloadState := .cancelled }) images = .ok images'
  | .activateImage img =>
    editImages img (fun i => { i with imageState := .activating }) images = .ok images'
  | .revertImage img =>
    editImages img (fun i => { i with imageState := .reverting }) images = .ok images'
  | .updateImageDownload img => updatedImages img images = .ok images'

theorem planOf_eq_write {x : Except Err Plan} (h : planOf x = .write edited storeFailure request) :
    x = .ok (.write edited storeFailure request) := by
  cases x with
  | error e => cases h
  | ok plan => rw [← h]; rfl

theorem ImageCall.makes_of_write {env : DeviceEnv} {call : ImageCall}
    (h : call.call.plan env d = .write edited storeFailure request) :
    call.Makes (d.imageDownloads.getD []) (edited.imageDownloads.getD []) := by
  cases call with
  | downloadImage img =>
    simp only [ImageCall.call, DeviceCall.plan, Devices.downloadImage] at h
    split_ifs at h
    split at h
    · cases h
    · rename_i images himages
      cases h
      rw [himages]
      rfl
  | cancelImageDownload img =>
    obtain ⟨edited', hedited, h⟩ := except_bind_ok_iff.mp (planOf_eq_write h)
    obtain ⟨images, himages, rfl⟩ := withRegisteredImage_ok hedited
    split_ifs at h
    · cases h
      exact himages
    · cases h
  | activateImage img | revertImage img =>
    obtain ⟨edited', hedited, h⟩ := except_bind_ok_iff.mp (planOf_eq_write h)
    obtain ⟨images, himages, rfl⟩ := withRegisteredImage_ok hedited
    cases h
    exact himages
  | updateImageDownload img =>
    obtain ⟨images, himages, h⟩ := except_bind_ok_iff.mp (planOf_eq_write h)
    split_ifs at h <;> cases h <;> exact himages

theorem imageStep_cases (a : DeviceAgent) (call : ImageCall) :
    (imageStep a call).images = a.images ∨ call.Makes a.images (imageStep a call).images := by
  obtain h | ⟨hagree, ⟨edited, storeFailure, request, hplan, h⟩ | ⟨pm, hplan, h⟩⟩ :=
    stored_after_run (willingEnv false) call.call a <;>
    rw [DeviceAgent.images, show (imageStep a call).stored = _ from h]
  · exact .inl rfl
  · right
    have himages : a.stored.imageDownloads = a.device.imageDownloads := by rw [hagree]
    rw [DeviceAgent.images, himages]
    exact ImageCall.makes_of_write hplan
  · exact .inl (congrArg (·.imageDownloads.getD []) hagree).symm

/-- Editing meets no missing image and keeps the identities that the edit keeps. -/
theorem mem_editImages (h : editImages img edit images = .ok images') :
    none ∉ images ∧ ∀ image, some image ∈ images →
      some (if sameImage image img then edit image else image) ∈ images' := by
  have hall := except_mapM_ok_iff.mp h
  refine ⟨fun hnone => ?_, fun image hmem => ?_⟩
  · obtain ⟨image', -, h⟩ := exists_mem_right_of_forall₂ hall hnone
    cases h
  · obtain ⟨image', hmem', h⟩ := exists_mem_right_of_forall₂ hall hmem
    cases h
    exact hmem'

theorem exists_eq_map_some {α : Type} {l : List (Option α)} (h : none ∉ l) :
    ∃ xs : List α, l = xs.map some := by
  refine ⟨l.reduceOption, ?_⟩
  induction l with
  | nil => rfl
  | cons x l ih =>
    cases x with
    | none => simp at h
    | some x =>
      rw [reduceOption_cons_of_some, map_cons, ← ih fun hmem => h (by simp [hmem])]

/-- A report meets no missing image, leaves one for each image, and keeps itself when one of its
images is not cancelled. -/
theorem mem_updatedImages (h : updatedImages img images = .ok images') :
    none ∉ images ∧ (images ≠ [] → none ∈ images') ∧ ∀ image, some image ∈ images →
      sameImage image img = true → image.downloadState ≠ .cancelled → some img ∈ images' := by
  have hnone : none ∉ images := by
    intro hnone
    obtain ⟨kept, hkept, -⟩ := except_bind_ok_iff.mp h
    obtain ⟨image', -, h⟩ := exists_mem_right_of_forall₂ (except_mapM_ok_iff.mp hkept) hnone
    cases h
  obtain ⟨xs, rfl⟩ := exists_eq_map_some hnone
  rw [updatedImages_eq, Except.ok.injEq] at h
  subst h
  refine ⟨hnone, fun hne => ?_, fun image hmem hsame hlive => ?_⟩
  · refine mem_append_left _ (mem_replicate.mpr ⟨fun h => hne ?_, rfl⟩)
    rw [length_eq_zero_iff.mp h, map_nil]
  · have hmem' : image ∈ xs := by simpa using hmem
    refine mem_append_right _ (mem_map_of_mem (mem_filterMap.mpr ⟨image, hmem', ?_⟩))
    simp [hsame, hlive]

/-! ### Tracking -/

/-- The image is registered and its download is not cancelled. -/
def Live (img : ImageDownload) (images : List (Option ImageDownload)) : Prop :=
  ∃ image, some image ∈ images ∧ sameImage image img = true ∧ image.downloadState ≠ .cancelled

/-- The image is not cancelled, or a missing image keeps reports from removing it. -/
def Lasting (img : ImageDownload) (images : List (Option ImageDownload)) : Prop :=
  Live img images ∨ registered img images = true ∧ none ∈ images

theorem Live.registered (h : Live img images) :
    registered img images = true := by
  obtain ⟨image, hmem, hsame, -⟩ := h
  exact registered_iff.mpr ⟨image, hmem, hsame⟩

theorem Lasting.registered (h : Lasting img images) :
    registered img images = true := by
  rcases h with h | h
  · exact h.registered
  · exact h.1

/-- An edit that keeps the identities, and what else is asked of an image, keeps an image. -/
theorem exists_editImages {P : ImageDownload → Prop} (h : editImages i edit images = .ok images')
    (hedit : ∀ i, (edit i).id = i.id ∧ (edit i).name = i.name) (hP : ∀ i, P i → P (edit i))
    (hreg : ∃ image, some image ∈ images ∧ sameImage image img = true ∧ P image) :
    ∃ image, some image ∈ images' ∧ sameImage image img = true ∧ P image := by
  obtain ⟨image, hmem, hsame, hp⟩ := hreg
  refine ⟨_, (mem_editImages h).2 image hmem, ?_⟩
  split_ifs
  · rw [sameImage_iff, (hedit image).1, (hedit image).2, ← sameImage_iff]
    exact ⟨hsame, hP image hp⟩
  · exact ⟨hsame, hp⟩

theorem registered_imageStep (hcall : Tracks a call)
    (hother : ∀ i, call = .updateImageDownload i → sameImage i img = false)
    (h : registered img a.images = true) : registered img (imageStep a call).images = true := by
  rcases imageStep_cases a call with hsame | hmakes
  · rwa [hsame]
  · cases call with
    | downloadImage i =>
      obtain ⟨image, hmem, hsame⟩ := registered_iff.mp h
      rw [show (imageStep a (.downloadImage i)).images = _ from hmakes]
      exact registered_iff.mpr ⟨image, mem_append_left _ hmem, hsame⟩
    | cancelImageDownload i | activateImage i | revertImage i =>
      rw [registered_iff] at h ⊢
      simpa using exists_editImages (P := fun _ => True) hmakes (fun _ => ⟨rfl, rfl⟩) (by simp)
        (by simpa using h)
    | updateImageDownload i =>
      -- the report would have to be about the image, as no other one is registered
      obtain ⟨image, hmem, hsame⟩ := registered_iff.mp h
      have hall := hcall.resolve_left (mem_updatedImages hmakes).1
      have hi : sameImage image i = true := all_eq_true.mp hall _ hmem
      exact absurd (sameImage_trans hi hsame) (by simp [hother i rfl])

theorem lasting_imageStep (hcall : Tracks a call)
    (hother : ∀ i, call = .cancelImageDownload i → sameImage i img = false)
    (h : Lasting img a.images) : Lasting img (imageStep a call).images := by
  rcases imageStep_cases a call with hsame | hmakes
  · rwa [hsame]
  · cases call with
    | downloadImage i =>
      rw [show (imageStep a (.downloadImage i)).images = _ from hmakes]
      rcases h with ⟨image, hmem, hlive⟩ | ⟨hreg, hnone⟩
      · exact .inl ⟨image, mem_append_left _ hmem, hlive⟩
      · obtain ⟨image, hmem, hsame⟩ := registered_iff.mp hreg
        exact .inr ⟨registered_iff.mpr ⟨image, mem_append_left _ hmem, hsame⟩,
          mem_append_left _ hnone⟩
    | cancelImageDownload i =>
      obtain ⟨image, hmem, hsame, hstate⟩ :=
        h.resolve_right fun h => (mem_editImages hmakes).1 h.2
      -- another image is cancelled
      have hne : ¬ sameImage image i = true := fun hi => by
        simpa [hother i rfl] using sameImage_trans hi hsame
      have hkept := (mem_editImages hmakes).2 image hmem
      rw [if_neg hne] at hkept
      exact .inl ⟨image, hkept, hsame, hstate⟩
    | activateImage i | revertImage i =>
      exact .inl (exists_editImages hmakes (fun _ => ⟨rfl, rfl⟩) (fun _ => id)
        (h.resolve_right fun h => (mem_editImages hmakes).1 h.2))
    | updateImageDownload i =>
      obtain ⟨hnone, hmissing, hkept⟩ := mem_updatedImages hmakes
      obtain ⟨image, hmem, hsame, hstate⟩ := h.resolve_right fun h => hnone h.2
      have hi : sameImage image i = true :=
        all_eq_true.mp (hcall.resolve_left hnone) _ hmem
      exact .inr ⟨registered_iff.mpr ⟨i, hkept image hmem hi hstate, sameImage_trans hi hsame⟩,
        hmissing (ne_nil_of_mem hmem)⟩

theorem registered_run (hcalls : Along imageStep Tracks calls a)
    (hother : ∀ i, .updateImageDownload i ∈ calls → sameImage i img = false)
    (h : registered img a.images = true) :
    registered img (run imageStep calls a).images = true := by
  induction calls generalizing a with
  | nil => exact h
  | cons call calls ih =>
    refine ih hcalls.2 (fun i hi => hother i (mem_cons_of_mem _ hi)) ?_
    exact registered_imageStep hcalls.1 (fun i hi => hother i (by simp [hi])) h

/-- The first cancellation of the image splits the run: it lasts until then, and after that no
report about it comes. -/
theorem registered_of_lasting (hcalls : Along imageStep Tracks calls a)
    (hforgotten : ¬ Forgotten img calls) (h : Lasting img a.images) :
    registered img (run imageStep calls a).images = true := by
  induction calls generalizing a with
  | nil => exact h.registered
  | cons call calls ih =>
    rw [run_cons]
    by_cases hcancel : ∃ i, call = .cancelImageDownload i ∧ sameImage i img = true
    · obtain ⟨i, rfl, hi⟩ := hcancel
      have hreg := registered_imageStep hcalls.1 (fun _ => nofun) h.registered
      refine registered_run hcalls.2 (fun j hj => ?_) hreg
      by_contra hsame
      exact hforgotten ⟨[], calls, i, j, rfl, hj, hi, by simpa using hsame⟩
    · refine ih hcalls.2 (fun hlater => hforgotten ?_) (lasting_imageStep hcalls.1 ?_ h)
      · obtain ⟨before, later, i, j, rfl, hj⟩ := hlater
        exact ⟨call :: before, later, i, j, rfl, hj⟩
      · intro i hi
        by_contra hsame
        exact hcancel ⟨i, hi, by simpa using hsame⟩

/-- The device that a download stores. -/
def downloadingDevice (img : ImageDownload) (d : Device) (images : List (Option ImageDownload)) :
    Device :=
  { d with
    imageDownloads := some (images ++ [some { img with downloadState := .requested }])
    adminState := .downloadingImage }

theorem imageRun_downloadImage (henabled : a.device.adminState = .enabled)
    (himages : a.device.imageDownloads = some images) (img : ImageDownload) :
    imageRun (.downloadImage img) a =
      (writeDevice (downloadingDevice img a.device images)
        (some ⟨.downloadImage { img with downloadState := .requested },
          downloadingDevice img a.device images, .after⟩)).execute (willingEnv false) a := by
  change (downloadImage img a.device).execute (willingEnv false) a = _
  simp [downloadImage, henabled, himages, downloadingDevice]

/-- A download that returns has stored the device and asked the adapter. -/
theorem downloaded (hcall : Tracks a (.downloadImage img))
    (hok : returns (imageRun (.downloadImage img)) a = true) :
    let a' := imageStep a (.downloadImage img)
    (∃ device, a'.events = .asked (.downloadImage { img with downloadState := .requested }) true ::
      .stored device :: a.events) ∧
      a'.stored.adminState = .downloadingImage ∧ Live img a'.images := by
  intro a'
  have henabled : a.device.adminState = .enabled := by
    by_contra hne
    change returns ((downloadImage img a.device).execute _) a = true at hok
    rw [downloadImage, if_pos hne] at hok
    cases hok
  obtain ⟨images, himages⟩ := Option.ne_none_iff_exists'.mp (hcall henabled)
  have hrun := imageRun_downloadImage henabled himages img
  by_cases hm : (downloadingDevice img a.device images).marshals = true
  · have hstep : a' = (a.step (.stored (downloadingDevice img a.device images))).step
        (.asked (.downloadImage { img with downloadState := .requested }) true) := by
      refine after_of_ok (a := ()) (hrun.trans ?_)
      simp [writeDevice, Plan.execute, Plan.execution, Request.answer, AgentModel.encodes, hm,
        willingEnv]
      rfl
    rw [DeviceAgent.step_stored (.inr hm)] at hstep
    rw [hstep]
    exact ⟨⟨_, rfl⟩, rfl, { img with downloadState := .requested },
      by simp [DeviceAgent.images, DeviceAgent.step, downloadingDevice], by simp [sameImage],
      by simp⟩
  · -- the request would not have been sent
    rw [returns, hrun] at hok
    simp [writeDevice, Plan.execute, Plan.execution, Request.answer, AgentModel.encodes, hm,
      willingEnv] at hok

/-- In a run in which every download finds a list of images and every report is about the only
registered image, a download that returns was sent to the adapter and accepted, leaves the device
downloading with the image registered, and the image stays registered until it is cancelled and
reported. -/
theorem download_tracked {before later : List ImageCall}
    (hcalls : Along imageStep Tracks (before ++ .downloadImage img :: later) a)
    (hok : returns (imageRun (.downloadImage img)) (run imageStep before a) = true) :
    (∃ device, (run imageStep (before ++ [.downloadImage img]) a).events =
      .asked (.downloadImage { img with downloadState := .requested }) true :: .stored device ::
        (run imageStep before a).events) ∧
      (run imageStep (before ++ [.downloadImage img]) a).stored.adminState = .downloadingImage ∧
      registered img (run imageStep (before ++ [.downloadImage img]) a).images = true ∧
      (¬ Forgotten img later →
        registered img (run imageStep (before ++ .downloadImage img :: later) a).images =
          true) := by
  obtain ⟨-, hcall, hlater⟩ := along_append.mp hcalls
  obtain ⟨hsent, hstate, hlive⟩ := downloaded hcall hok
  simp only [run_append, run_cons, run_nil]
  exact ⟨hsent, hstate, hlive.registered, fun hforgotten =>
    registered_of_lasting hlater hforgotten (.inl hlive)⟩

/-- An image is downloaded, cancelled, downloaded again and reported. -/
theorem download_tracked_twice :
    let img : ImageDownload := { id := "onu", name := "image" }
    registered img (run imageStep ([.downloadImage img, .cancelImageDownload img] ++
      .downloadImage img :: [.updateImageDownload { img with downloadState := .started }])
      enabledDevice).images = true :=
  (download_tracked (by decide +kernel) (by decide +kernel)).2.2.2 (by
    rintro ⟨before, later, i, j, h, -⟩
    have hmem : ImageCall.cancelImageDownload i ∈ _ := h ▸ mem_append_right before (by simp)
    simp at hmem)

/-- The first download of a device that has no list of images returns without an error, and the
adapter is not asked. -/
theorem first_download_lost :
    let img : ImageDownload := { id := "onu", name := "image" }
    let a : DeviceAgent := .wrote { id := "onu", adminState := .enabled }
    returns (imageRun (.downloadImage img)) a = true ∧
      (imageStep a (.downloadImage img)).events = a.events ∧
      (imageStep a (.downloadImage img)).stored.adminState = .enabled ∧
      registered img (imageStep a (.downloadImage img)).images = false := by
  decide +kernel

end VolthaCore.Devices
