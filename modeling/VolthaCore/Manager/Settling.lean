import VolthaCore.Manager.QuietSteps

/-! The last part of a deletion: every device that is to be removed has a goroutine that will do
so. The handlers of the children need the agent of the parent, which its own handlers remove. -/

namespace VolthaCore.Manager

open Devices Outcome Runs Option AList GoMap SyncedAgent ManagedDevice
open List hiding after
open DeviceCall (assigns)

/-- The handlers still to run read the parent of the device. -/
def NeedsParent (t : Task) : Prop :=
  .childDeviceLost ∈ t.handlers ∨ .deleteLogicalPorts ∈ t.handlers

instance (t : Task) : Decidable (NeedsParent t) := inferInstanceAs (Decidable (_ ∨ _))

/-- A device is removed when no handler that reads it as the parent of a device is left. -/
def Orderly (core : Core) (i : ℕ) : Prop :=
  ∀ t ∈ core.tasks[i]?, t.handlers.head? = some .runPostDeviceDelete →
    ∀ t' ∈ core.tasks, t'.device.parentId = t.device.id → ¬ NeedsParent t'

instance (core : Core) (i : ℕ) : Decidable (Orderly core i) :=
  inferInstanceAs (Decidable (∀ t ∈ core.tasks[i]?, _))

/-- The goroutines of the last part of a deletion: harmless ones, those of children of `R` and that
of `R` itself. -/
def Late (R : String) (t : Task) : Prop :=
  Harmless t ∨
    (t.handlers <:+ childHandlers ∧ t.device.id ≠ R ∧
      (NeedsParent t → t.device.parentId = R ∧ t.device.proxyAddress ≠ none)) ∨
    (t.handlers <:+ [.deleteLogicalDevice, .runPostDeviceDelete] ∧ t.device.id = R ∧
      t.device.root = true)

/-- A goroutine will remove the device. -/
def Core.Doomed (core : Core) (id : String) : Prop :=
  ∃ t ∈ core.tasks, t.device.id = id ∧ .runPostDeviceDelete ∈ t.handlers

/-- Every device that is to be removed has a goroutine that will do so, and what its handlers read
is there. -/
structure Settling (R : String) (dying : String → Prop) (core : Core) : Prop where
  late : ∀ t ∈ core.tasks, Late R t
  parent : ∀ t ∈ core.tasks, NeedsParent t → R ∈ core.devices ∧
    ∀ a, core.devices.lookup t.device.id = some a → a.ChildOf R
  doomed : ∀ id, dying id → id ∈ core.devices → core.Doomed id
  registered : dying R → R ∈ core.devices → core.rootDevices.lookup R = some true
  logical : dying R → R ∉ core.devices → ∀ l ld, core.logicalDevices.lookup l = some ld →
    ld.rootDeviceID ≠ R

variable {dying : String → Prop} {i : ℕ} {device : ManagedDevice} {handler : Handler} {t : Task}
  {rest handlers : List Handler} {id R x : String} {core core' : Core} {setup : Setup}

theorem NeedsParent.of_suffix (h : NeedsParent ⟨device, rest⟩) (hrest : rest <:+ handlers) :
    NeedsParent ⟨device, handlers⟩ :=
  h.imp (hrest.subset ·) (hrest.subset ·)

theorem Late.of_suffix (h : Late R ⟨device, handlers⟩) (hrest : rest <:+ handlers) :
    Late R ⟨device, rest⟩ := by
  rcases h with h | ⟨h, hne, hkin⟩ | ⟨h, hkin⟩
  · exact .inl fun x hx => h x (hrest.subset hx)
  · exact .inr (.inl ⟨hrest.trans h, hne, fun hneeds => hkin (hneeds.of_suffix hrest)⟩)
  · exact .inr (.inr ⟨hrest.trans h, hkin⟩)

theorem Harmless.not_needsParent (h : Harmless t) : ¬ NeedsParent t := by
  rintro (hmem | hmem)
  · simpa using h _ hmem
  · simpa using h _ hmem

/-- A goroutine that reads the parent is that of a child. -/
theorem Late.of_needsParent (h : Late R t) (hneeds : NeedsParent t) :
    t.device.id ≠ R ∧ t.device.parentId = R ∧ t.device.proxyAddress ≠ none := by
  rcases h with h | ⟨-, hne, hkin⟩ | ⟨hsuffix, -, -⟩
  · exact absurd hneeds h.not_needsParent
  · exact ⟨hne, hkin hneeds⟩
  · rcases hneeds with hneeds | hneeds <;> simpa using hsuffix.subset hneeds

/-- A goroutine stays in the list unless it is the one that ran. -/
theorem mem_set_of_mem {α : Type} {l : List α} {a b t : α} (ha : l[i]? = some a) (ht : t ∈ l) :
    t = a ∨ t ∈ l.set i b := by
  obtain ⟨j, hj⟩ := mem_iff_getElem?.mp ht
  by_cases hij : i = j
  · subst hij
    rw [ha] at hj
    exact .inl (Option.some.inj hj).symm
  · exact .inr (mem_iff_getElem?.mpr ⟨j, by rw [getElem?_set_ne hij, hj]⟩)

/-- A handler that removes nothing; one that fails does so when its device is gone. -/
theorem Settling.quiet (h : Settling R dying core) (hq : Quiet R Harmless core core')
    (hi : core.tasks[i]? = some ⟨device, handler :: handlers⟩)
    (hhandler : handler ≠ .runPostDeviceDelete) (hrest : rest = handlers ∨
      rest = [] ∧ (.runPostDeviceDelete ∈ handlers → device.id ∉ core.devices)) :
    Settling R dying (core'.setTask i ⟨device, rest⟩) := by
  obtain ⟨new, hnew, hharmless⟩ := hq.tasks
  have hi' : core'.tasks[i]? = some ⟨device, handler :: handlers⟩ := by
    rw [hnew, getElem?_append_left (List.getElem?_eq_some_iff.mp hi).1, hi]
  have hsuffix : rest <:+ handler :: handlers := by
    rcases hrest with rfl | ⟨rfl, -⟩
    · exact suffix_cons _ _
    · exact nil_suffix
  have hran := mem_of_getElem? hi
  have hmem : ∀ t ∈ (core'.setTask i ⟨device, rest⟩).tasks,
      t = ⟨device, rest⟩ ∨ t ∈ core.tasks ∨ Harmless t := by
    intro t ht
    rcases mem_or_eq_of_mem_set ht with ht | ht
    · rw [hnew] at ht
      exact .inr ((mem_append.mp ht).imp_right (hharmless t))
    · exact .inl ht
  have hlate : ∀ t ∈ (core'.setTask i ⟨device, rest⟩).tasks, Late R t := by
    intro t ht
    rcases hmem t ht with rfl | ht | ht
    · exact (h.late _ hran).of_suffix hsuffix
    · exact h.late t ht
    · exact .inl ht
  refine ⟨hlate, ?_, ?_, ?_, ?_⟩
  · intro t ht hneeds
    have hold : R ∈ core.devices ∧
        ∀ a, core.devices.lookup t.device.id = some a → a.ChildOf R := by
      rcases hmem t ht with rfl | ht | ht
      · have hneeds' : NeedsParent ⟨device, handler :: handlers⟩ := hneeds.of_suffix hsuffix
        exact h.parent ⟨device, handler :: handlers⟩ hran hneeds'
      · exact h.parent t ht hneeds
      · exact absurd hneeds ht.not_needsParent
    refine ⟨(hq.stored R).mpr hold.1, fun a ha => ?_⟩
    obtain ⟨b, hb, hab⟩ := hq.exists_kin ((hlate t ht).of_needsParent hneeds).1 ha
    obtain ⟨hroot, hparent⟩ := hold.2 b hb
    exact ⟨(congrArg Kin.root hab).symm.trans hroot, (congrArg Kin.parentId hab).symm.trans hparent⟩
  · intro id hid hstored
    have hstored' : id ∈ core.devices := (hq.stored id).mp hstored
    obtain ⟨t, ht, htid, hpost⟩ := h.doomed id hid hstored'
    have ht' : t ∈ core'.tasks := by
      rw [hnew]
      exact mem_append_left _ ht
    rcases mem_set_of_mem (b := ⟨device, rest⟩) hi' ht' with rfl | ht'
    · -- the goroutine that ran still has to remove the device
      have hpost' : .runPostDeviceDelete ∈ handlers :=
        (mem_cons.mp hpost).resolve_left hhandler.symm
      rcases hrest with rfl | ⟨-, hgone⟩
      · have hlt := (List.getElem?_eq_some_iff.mp hi').1
        exact ⟨⟨device, rest⟩, mem_set hlt _, htid, hpost'⟩
      · exact absurd (htid ▸ hstored') (hgone hpost')
    · exact ⟨t, ht', htid, hpost⟩
  · intro hR hstored
    change core'.rootDevices.lookup R = some true
    rw [hq.rootDevices]
    exact h.registered hR ((hq.stored R).mp hstored)
  · intro hR hgone l ld hl
    obtain ⟨l', ld', hl', hroot⟩ := hq.logical l ld hl
    rw [← hroot]
    exact h.logical hR (fun hstored => hgone ((hq.stored R).mpr hstored)) l' ld' hl'

/-- The next handler of a goroutine of a child. -/
theorem childHandlers_cases (h : handler :: handlers <:+ childHandlers) :
    (handler = .childDeviceLost ∧ handlers = [.deleteLogicalPorts, .runPostDeviceDelete]) ∨
      (handler = .deleteLogicalPorts ∧ handlers = [.runPostDeviceDelete]) ∨
      (handler = .runPostDeviceDelete ∧ handlers = []) := by
  simpa [childHandlers, suffix_cons_iff] using h

theorem lookup_stopManagingDevice (core : Core) (id x : String) :
    (stopManagingDevice id core).devices.lookup x =
      if x = id then none else core.devices.lookup x := by
  unfold stopManagingDevice
  by_cases hmem : id ∈ core.devices
  · rw [if_pos hmem]
    change (core.devices.erase id).lookup x = _
    split_ifs with hx
    · rw [hx, lookup_erase]
    · exact lookup_erase_ne hx
  · rw [if_neg hmem]
    split_ifs with hx
    · rw [hx]
      exact lookup_eq_none.mpr hmem
    · rfl

theorem mem_stopManagingDevice :
    x ∈ (stopManagingDevice id core).devices ↔ x ≠ id ∧ x ∈ core.devices := by
  rw [mem_iff_exists_lookup, mem_iff_exists_lookup, lookup_stopManagingDevice]
  split_ifs with hx <;> simp [hx]

theorem tasks_stopManagingDevice (id : String) (core : Core) :
    (stopManagingDevice id core).tasks = core.tasks := by
  unfold stopManagingDevice
  split_ifs <;> rfl

/-- A logical device that is left was there before, and is not rooted at a root device that was
removed. -/
theorem logical_stopManagingDevice {id l : String} {ld : ManagedLogicalDevice}
    (h : (stopManagingDevice id core).logicalDevices.lookup l = some ld) :
    core.logicalDevices.lookup l = some ld ∧
      (id ∈ core.devices → core.rootDevices.lookup id = some true → ld.rootDeviceID ≠ id) := by
  unfold stopManagingDevice at h
  split_ifs at h with hmem hroot
  · dsimp only at h
    rw [lookup_filter, filter_eq_some_iff] at h
    exact ⟨h.1, fun _ _ => by simpa using h.2⟩
  · exact ⟨h, fun _ hr => absurd hr hroot⟩
  · exact ⟨h, fun hm => absurd hm hmem⟩

/-- A device is removed by the goroutine that is done with it. -/
theorem Settling.remove (h : Settling R dying core) (ho : Orderly core i)
    (hi : core.tasks[i]? = some ⟨device, [.runPostDeviceDelete]⟩) :
    Settling R dying ((stopManagingDevice device.id core).setTask i ⟨device, []⟩) := by
  have hmem : ∀ t ∈ ((stopManagingDevice device.id core).setTask i ⟨device, []⟩).tasks,
      t = ⟨device, []⟩ ∨ t ∈ core.tasks := by
    intro t ht
    rw [← tasks_stopManagingDevice device.id core]
    exact (mem_or_eq_of_mem_set ht).symm
  refine ⟨?_, ?_, ?_, ?_, ?_⟩
  · intro t ht
    rcases hmem t ht with rfl | ht
    · exact .inl (by simp [Harmless])
    · exact h.late t ht
  · intro t ht hneeds
    have ht : t ∈ core.tasks := (hmem t ht).resolve_left fun heq => by
      simp [heq, NeedsParent] at hneeds
    obtain ⟨hstored, hkin⟩ := h.parent t ht hneeds
    refine ⟨mem_stopManagingDevice.mpr ⟨fun hR => ?_, hstored⟩, fun a ha => hkin a ?_⟩
    · -- the device is removed in order, so no child reads it any more
      have hparent := ((h.late t ht).of_needsParent hneeds).2.1
      exact ho _ hi rfl t ht (hparent.trans hR) hneeds
    · have ha' := lookup_stopManagingDevice core device.id t.device.id
      rw [show (stopManagingDevice device.id core).devices.lookup t.device.id = some a from ha]
        at ha'
      split_ifs at ha'
      exact ha'.symm
  · intro id hid hstored
    obtain ⟨hne, hstored⟩ := mem_stopManagingDevice.mp hstored
    obtain ⟨t, ht, htid, hpost⟩ := h.doomed id hid hstored
    rw [← tasks_stopManagingDevice device.id core] at ht hi
    rcases mem_set_of_mem (b := ⟨device, []⟩) hi ht with rfl | ht
    · exact absurd htid.symm hne
    · exact ⟨t, ht, htid, hpost⟩
  · intro hR hstored
    obtain ⟨hne, hstored⟩ := mem_stopManagingDevice.mp hstored
    have hroots : (stopManagingDevice device.id core).rootDevices.lookup R =
        core.rootDevices.lookup R := by
      unfold stopManagingDevice
      by_cases hmem : device.id ∈ core.devices
      · rw [if_pos hmem]
        exact lookup_erase_ne hne
      · rw [if_neg hmem]
    exact hroots.trans (h.registered hR hstored)
  · intro hR hgone l ld hl
    obtain ⟨hl, hroot⟩ := logical_stopManagingDevice hl
    by_cases hstored : R ∈ core.devices
    · have hid : R = device.id := by
        by_contra hne
        exact hgone (mem_stopManagingDevice.mpr ⟨hne, hstored⟩)
      rw [hid]
      exact hroot (hid ▸ hstored) (hid ▸ h.registered hR hstored)
    · exact h.logical hR hstored l ld hl

theorem Settling.step (h : Settling R dying core) (ho : Orderly core i) :
    Settling R dying (core.step setup i) := by
  unfold Core.step
  split
  case h_2 => exact h
  case h_1 device handler handlers hi =>
  have hran := mem_of_getElem? hi
  rcases h.late _ hran with hharmless | ⟨hsuffix, -, -⟩ | ⟨hsuffix, hid, hroot⟩
  · have hpost : .runPostDeviceDelete ∉ handlers := fun hmem => by
      simpa using hharmless _ (mem_cons_of_mem _ hmem)
    rcases hharmless handler (by simp) with rfl | rfl
    · exact h.quiet (.refl R _ core) hi nofun (.inl rfl)
    · have hq : Quiet R Harmless core (after (runHandler setup .deletePeerPorts device) core) :=
        .deletePeerPorts device
      cases hr : runHandler setup .deletePeerPorts device core with
      | ok _ core' =>
        rw [after_of_ok hr] at hq
        exact h.quiet hq hi nofun (.inl rfl)
      | error e core' =>
        rw [after_of_error hr] at hq
        exact h.quiet hq hi nofun (.inr ⟨rfl, fun hmem => absurd hmem hpost⟩)
  · rcases childHandlers_cases hsuffix with ⟨rfl, rfl⟩ | ⟨rfl, rfl⟩ | ⟨rfl, rfl⟩
    · have hneeds : NeedsParent ⟨device, .childDeviceLost ::
          [.deleteLogicalPorts, .runPostDeviceDelete]⟩ := .inl mem_cons_self
      obtain ⟨-, hparent, hproxy⟩ := (h.late _ hran).of_needsParent hneeds
      have hstored := (h.parent _ hran hneeds).1
      obtain ⟨core', hr, hq⟩ := childDeviceLost_quiet (R := R) (hparent ▸ hstored) hproxy
      rw [show runHandler setup .childDeviceLost device core = _ from hr]
      exact h.quiet hq hi nofun (.inl rfl)
    · obtain ⟨hstored, hkin⟩ := h.parent _ hran (.inr mem_cons_self)
      rcases deleteLogicalPorts_quiet hstored hkin with ⟨core', hr, hq⟩ | ⟨hgone, e, hr⟩
      · rw [show runHandler setup .deleteLogicalPorts device core = _ from hr]
        exact h.quiet hq hi nofun (.inl rfl)
      · rw [show runHandler setup .deleteLogicalPorts device core = _ from hr]
        exact h.quiet (.refl R _ core) hi nofun (.inr ⟨rfl, fun _ => hgone⟩)
    · exact h.remove ho hi
  · have hnext : (handler = .deleteLogicalDevice ∧ handlers = [.runPostDeviceDelete]) ∨
        (handler = .runPostDeviceDelete ∧ handlers = []) := by
      simpa [suffix_cons_iff] using hsuffix
    rcases hnext with ⟨rfl, rfl⟩ | ⟨rfl, rfl⟩
    · obtain ⟨core', hr, hq⟩ := deleteLogicalDevice_quiet hroot hid
      rw [show runHandler setup .deleteLogicalDevice device core = _ from hr]
      exact h.quiet hq hi nofun (.inl rfl)
    · exact h.remove ho hi

/-- When no handler is left, the devices are gone, and with `R` its logical devices. -/
theorem Settling.done (h : Settling R dying core) (hdone : core.Done) :
    (∀ id, dying id → id ∉ core.devices) ∧
      (dying R → ∀ l ld, core.logicalDevices.lookup l = some ld → ld.rootDeviceID ≠ R) := by
  have hgone : ∀ id, dying id → id ∉ core.devices := by
    intro id hid hstored
    obtain ⟨t, ht, -, hpost⟩ := h.doomed id hid hstored
    rw [hdone t ht] at hpost
    cases hpost
  exact ⟨hgone, fun hR => h.logical hR (hgone R hR)⟩

end VolthaCore.Manager
