import VolthaCore.Manager.Settling

/-! Whether a deletion cleans up. The table has no row for a root device that is deleted while it is
enabled or downloads an image, so nothing is cleaned up then. The row for a disabled root device
disables its children first, which fails on one that was never enabled. -/

namespace VolthaCore.Manager

open Devices Outcome Runs Option AList GoMap SyncedAgent ManagedDevice
open List hiding after
open DeviceCall (assigns)

/-! ### The children of a disabled root device -/

/-- A root device `R` with the given children. -/
structure Family (R : String) (kids : List String) (core : Core) : Prop where
  stored : R ∈ core.devices
  registered : core.rootDevices.lookup R = some true
  kin : ∀ x ∈ kids, x ≠ R ∧ ∀ a, core.devices.lookup x = some a →
    a.kin.id = x ∧ a.kin.root = false ∧ a.kin.parentId = R ∧ a.kin.proxyAddress ≠ none

variable {D device : ManagedDevice} {ids kids : List String} {P : Task → Prop} {t : Task}
  {id R x : String} {a : ManagedAgent} {setup : Setup} {core core' : Core}
  {handlers : List Handler}

theorem Family.quiet (h : Family R kids core) (hq : Quiet R P core core') :
    Family R kids core' where
  stored := (hq.stored R).mpr h.stored
  registered := hq.rootDevices ▸ h.registered
  kin x hx := by
    obtain ⟨hne, hkin⟩ := h.kin x hx
    refine ⟨hne, fun a ha => ?_⟩
    obtain ⟨b, hb, hab⟩ := hq.exists_kin hne ha
    rw [← hab]
    exact hkin b hb

/-- The admin state of a device, if it is stored, is one of those. -/
def InState (S : AdminState → Prop) (core : Core) (x : String) : Prop :=
  ∀ a, core.devices.lookup x = some a → S a.device.adminState

theorem inState_disable {S S' : AdminState → Prop} (h : InState S core x)
    (hother : x ≠ id → ∀ state, S state → S' state)
    (hfail : ∀ state, S state → state = .preprovisioned ∨ state = .deleted → S' state)
    (hok : ∀ state, S state → ¬ (state = .preprovisioned ∨ state = .deleted) → S' .disabled) :
    InState S' (after (onDevice id .disableDevice) core) x := by
  intro a' ha'
  rw [lookup_onDevice] at ha'
  split_ifs at ha' with hx
  · obtain ⟨a, ha, rfl⟩ := map_eq_some_iff.mp ha'
    by_cases hstate : a.device.adminState = .preprovisioned ∨ a.device.adminState = .deleted
    · rw [(perform_disable_failed hstate).1]
      exact hfail _ (h a ha) hstate
    · rw [(perform_disable hstate).1]
      exact hok _ (h a ha) hstate
  · exact hother hx _ (h a' ha')

theorem onDevice_disable (hid : id ∈ core.devices) :
    (∃ e, onDevice id .disableDevice core =
        .error e (after (onDevice id .disableDevice) core) ∧
        InState (fun state => state = .preprovisioned ∨ state = .deleted) core id) ∨
      onDevice id .disableDevice core = .ok () (after (onDevice id .disableDevice) core) := by
  obtain ⟨a, ha⟩ := mem_iff_exists_lookup.mp hid
  by_cases hstate : a.device.adminState = .preprovisioned ∨ a.device.adminState = .deleted
  · obtain ⟨e, he⟩ := (perform_disable_failed hstate).2
    refine .inl ⟨e, ?_, fun b hb => ?_⟩
    · simp [after, onDevice, ha, he]
    · rw [ha] at hb
      cases hb
      exact hstate
  · right
    simp [after, onDevice, ha, (perform_disable hstate).2]

/-- The states of children after they have been disabled. -/
def Tame (state : AdminState) : Prop := state = .disabled ∨ state = .preprovisioned

/-- The loop that disables the children: it ends without an error when the last one does. -/
theorem eachChild_disable (hids : ids ⊆ kids) (hfamily : Family R kids core)
    (halive : ∀ x ∈ kids, InState (· ≠ .deleted) core x)
    (err : Option Err) (allDone : Bool) (hnone : ids.filter (· ∈ core.devices) = [] → err = none)
    (hlast : ∀ x, (ids.filter (· ∈ core.devices)).getLast? = some x →
      InState (· ≠ .preprovisioned) core x) :
    ∃ allDone' core', eachChild .disableDevice ids err allDone core = (none, allDone', core') ∧
      Quiet R Notifies core core' ∧
      ∀ x ∈ kids, x ∈ ids ∨ InState Tame core x → InState Tame core' x := by
  induction ids generalizing core err allDone with
  | nil =>
    refine ⟨allDone, core, ?_, .refl R _ core, fun x _ h => ?_⟩
    · rw [eachChild, forEachChild, hnone rfl]
    exact h.resolve_left (by simp)
  | cons id ids ih =>
    obtain ⟨hid, hids⟩ := cons_subset.mp hids
    rw [eachChild, forEachChild]
    by_cases hstored : id ∈ core.devices
    · rw [if_pos hstored]
      rw [filter_cons_of_pos (by simpa using hstored)] at hnone hlast
      have hroot : ∀ a, core.devices.lookup id = some a → a.device.root = false :=
        fun a ha => ((hfamily.kin id hid).2 a ha).2.1
      have hq : Quiet R Notifies core (after (onDevice id .disableDevice) core) :=
        .onDevice (by simp [assigns]) (by simp [assigns])
          fun a ha => processUpdate_disable (hroot a ha)
      have hfilter : ids.filter (· ∈ (after (onDevice id .disableDevice) core).devices) =
          ids.filter (· ∈ core.devices) :=
        filter_congr fun x _ => by simp [hq.stored x]
      have halive' : ∀ x ∈ kids, InState (· ≠ .deleted)
          (after (onDevice id .disableDevice) core) x := fun x hx =>
        inState_disable (halive x hx) (fun _ _ h => h) (fun _ h _ => h) fun _ _ _ => by decide
      have hlast' : ∀ x, (ids.filter (· ∈ core.devices)).getLast? = some x →
          InState (· ≠ .preprovisioned) (after (onDevice id .disableDevice) core) x :=
        fun x hx => inState_disable (hlast x (by rw [getLast?_cons, hx]; rfl))
          (fun _ _ h => h) (fun _ h _ => h) fun _ _ _ => by decide
      -- a child is tame from its turn on
      have htame : ∀ x ∈ kids, x ∈ id :: ids ∨ InState Tame core x →
          x ∈ ids ∨ InState Tame (after (onDevice id .disableDevice) core) x := by
        intro x hx h
        by_cases hxid : x = id
        · refine .inr (inState_disable (halive x hx) (fun hne => absurd hxid hne) ?_ ?_)
          · exact fun state hne hor => .inr (hor.resolve_right hne)
          · exact fun _ _ _ => .inl rfl
        · rcases h with hmem | h
          · exact .inl ((mem_cons.mp hmem).resolve_left hxid)
          · exact .inr (inState_disable h (fun _ _ h => h) (fun _ h _ => h) fun _ _ _ => .inl rfl)
      rw [← hfilter] at hlast'
      have hrest := fun err allDone hnone =>
        (ih hids (hfamily.quiet hq) halive' err allDone hnone hlast').imp fun _ =>
          Exists.imp fun _ => And.imp_right fun h =>
            And.intro (hq.trans h.1) fun x hx hmem => h.2 x hx (htame x hx hmem)
      rcases onDevice_disable hstored with ⟨e, hr, hpre⟩ | hr <;> rw [hr]
      · refine hrest (some e) false fun hnil => ?_
        obtain ⟨a, ha⟩ := mem_iff_exists_lookup.mp hstored
        exact absurd ((hpre a ha).resolve_right (halive id hid a ha))
          (hlast id (by rw [← hfilter, hnil]; rfl) a ha)
      · exact hrest none allDone fun _ => rfl
    · rw [if_neg hstored]
      rw [filter_cons_of_neg (by simpa using hstored)] at hnone hlast
      obtain ⟨allDone', core', heq, hq, h⟩ := ih hids hfamily halive err allDone hnone hlast
      refine ⟨allDone', core', heq, hq, fun x hx hmem => h x hx ?_⟩
      rcases hmem with hmem | hmem
      · rcases mem_cons.mp hmem with rfl | hmem
        · -- a device that is not stored has no state
          exact .inr fun a ha => absurd (mem_iff_exists_lookup.mpr ⟨a, ha⟩) hstored
        · exact .inl hmem
      · exact .inr hmem

/-- The goroutine of a child that is to be removed. -/
def Removes (R : String) (kids : List String) (t : Task) : Prop :=
  t.handlers <:+ childHandlers ∧ t.device.id ∈ kids ∧ t.device.id ≠ R ∧ t.device.parentId = R ∧
    t.device.proxyAddress ≠ none

theorem storedDevice_delete (a : ManagedAgent) :
    (a.perform .deleteDevice).storedDevice.id = a.kin.id ∧
      (a.perform .deleteDevice).storedDevice.root = a.kin.root ∧
      (a.perform .deleteDevice).storedDevice.parentId = a.kin.parentId ∧
      (a.perform .deleteDevice).storedDevice.proxyAddress = a.kin.proxyAddress := by
  have hkin := (storedDevice_kin (a.perform .deleteDevice)).trans
    (kin_perform (by simp [assigns]) (by simp [assigns]) a)
  exact Kin.mk.inj hkin

theorem processUpdate_delete_child (hroot : a.device.root = false)
    (ht : t ∈ processUpdate a.storedDevice (a.perform .deleteDevice).storedDevice) :
    t.device = (a.perform .deleteDevice).storedDevice ∧ t.handlers <:+ childHandlers := by
  rw [processUpdate_delete, hroot] at ht
  split_ifs at ht
  · cases ht
  · cases hstate : a.device.adminState <;> rw [hstate] at ht <;>
      simp only [deletionHandlers, mem_singleton, not_mem_nil] at ht
    all_goals
      rw [ht]
      exact ⟨rfl, by simp [childHandlers, suffix_cons_iff]⟩

/-- The deletion of a child that has been disabled triggers its removal. -/
theorem processUpdate_delete_tame (hroot : a.device.root = false)
    (htame : Tame a.device.adminState) :
    ∃ handlers, ⟨(a.perform .deleteDevice).storedDevice, handlers⟩ ∈
      processUpdate a.storedDevice (a.perform .deleteDevice).storedDevice ∧
        .runPostDeviceDelete ∈ handlers := by
  rw [processUpdate_delete, hroot]
  rcases htame with hstate | hstate
  · exact ⟨childHandlers, by simp [hstate, deletionHandlers], by simp [childHandlers]⟩
  · exact ⟨[.runPostDeviceDelete], by simp [hstate, deletionHandlers], by simp⟩

theorem onDevice_delete (hid : id ∈ core.devices) :
    onDevice id .deleteDevice core = .ok () (after (onDevice id .deleteDevice) core) := by
  obtain ⟨a, ha⟩ := mem_iff_exists_lookup.mp hid
  simp [after, onDevice, ha, (perform_delete a).2]

/-- The loop that deletes the children: every one of them gets a goroutine that removes it. -/
theorem eachChild_delete (hids : ids ⊆ kids) (hfamily : Family R kids core)
    (hpending : ∀ x ∈ kids, x ∈ core.devices → core.Doomed x ∨ x ∈ ids ∧ InState Tame core x)
    (err : Option Err) :
    ∃ err' core', eachChild .deleteDevice ids err true core = (err', true, core') ∧
      Quiet R (Removes R kids) core core' ∧ ∀ x ∈ kids, x ∈ core'.devices → core'.Doomed x := by
  induction ids generalizing core err with
  | nil =>
    refine ⟨err, core, rfl, .refl R _ core, fun x hx hstored => ?_⟩
    exact (hpending x hx hstored).resolve_right fun h => by simpa using h.1
  | cons id ids ih =>
    obtain ⟨hid, hids⟩ := cons_subset.mp hids
    rw [eachChild, forEachChild]
    by_cases hstored : id ∈ core.devices
    · rw [if_pos hstored, onDevice_delete hstored]
      obtain ⟨hne, hkin⟩ := hfamily.kin id hid
      have hq : Quiet R (Removes R kids) core (after (onDevice id .deleteDevice) core) := by
        refine .onDevice (by simp [assigns]) (by simp [assigns])
          fun a ha t ht => ?_
        obtain ⟨haid, haroot, haparent, haproxy⟩ := hkin a ha
        obtain ⟨hdevice, hhandlers⟩ := processUpdate_delete_child haroot ht
        obtain ⟨htid, -, htparent, htproxy⟩ := storedDevice_delete a
        rw [← hdevice, haid] at htid
        rw [← hdevice, haparent] at htparent
        rw [← hdevice] at htproxy
        exact ⟨hhandlers, htid ▸ hid, htid ▸ hne, htparent, htproxy ▸ haproxy⟩
      have hpending' : ∀ x ∈ kids, x ∈ (after (onDevice id .deleteDevice) core).devices →
          (after (onDevice id .deleteDevice) core).Doomed x ∨
            x ∈ ids ∧ InState Tame (after (onDevice id .deleteDevice) core) x := by
        intro x hx hx'
        rw [Core.Doomed, tasks_onDevice]
        rcases hpending x hx ((hq.stored x).mp hx') with ⟨t, ht, h⟩ | ⟨hmem, htame⟩
        · exact .inl ⟨t, mem_append_left _ ht, h⟩
        · by_cases hxid : x = id
          · -- its turn has come
            subst hxid
            obtain ⟨a, ha⟩ := mem_iff_exists_lookup.mp hstored
            obtain ⟨haid, haroot, -, -⟩ := hkin a ha
            obtain ⟨handlers, hmem, hpost⟩ := processUpdate_delete_tame haroot (htame a ha)
            rw [ha]
            exact .inl
              ⟨_, mem_append_right _ hmem, (storedDevice_delete a).1.trans haid, hpost⟩
          · refine .inr ⟨(mem_cons.mp hmem).resolve_left hxid, fun a ha => ?_⟩
            rw [lookup_onDevice, if_neg hxid] at ha
            exact htame a ha
      obtain ⟨err', core', heq, hq', h⟩ := ih hids (hfamily.quiet hq) hpending' none
      exact ⟨err', core', heq, hq.trans hq', h⟩
    · rw [if_neg hstored]
      refine ih hids hfamily (fun x hx hx' => ?_) err
      refine (hpending x hx hx').imp_right fun h => ⟨?_, h.2⟩
      exact (mem_cons.mp h.1).resolve_left fun heq => hstored (heq ▸ hx')

def ManagedDevice.listed (D : ManagedDevice) : List String := getAllChildDeviceIds D.toDevice

/-- The device and its listed children. -/
def Dying (R : String) (D : ManagedDevice) (x : String) : Prop := x = R ∨ x ∈ D.listed

/-- The stages of the deletion of a disabled root device: its children are disabled, they are
deleted, and everything is removed. -/
inductive Stage (R : String) (D : ManagedDevice) (core : Core) : Prop where
  | disabling (htasks : core.tasks = [⟨D, rootHandlers⟩]) (hfamily : Family R D.listed core)
      (halive : ∀ x ∈ D.listed, InState (· ≠ .deleted) core x)
      (hlast : ∀ x, (D.listed.filter (· ∈ core.devices)).getLast? = some x →
        InState (· ≠ .preprovisioned) core x)
  | deleting (rest : List Task) (htasks : core.tasks = ⟨D, rootHandlers.tail⟩ :: rest)
      (hrest : ∀ t ∈ rest, Notifies t) (hfamily : Family R D.listed core)
      (htame : ∀ x ∈ D.listed, InState Tame core x)
  | settling (h : Settling R (Dying R D) core)

theorem Stage.disable (htasks : core.tasks = [⟨D, rootHandlers⟩]) (hfamily : Family R D.listed core)
    (halive : ∀ x ∈ D.listed, InState (· ≠ .deleted) core x)
    (hlast : ∀ x, (D.listed.filter (· ∈ core.devices)).getLast? = some x →
      InState (· ≠ .preprovisioned) core x) : Stage R D (core.step setup 0) := by
  obtain ⟨allDone, core', hloop, hq, htame⟩ :=
    eachChild_disable (List.Subset.refl _) hfamily halive none true (fun _ => rfl) hlast
  have hrun : runHandler setup .disableAllChildDevices D core = .ok () core' := by
    change allChildDevices .disableDevice D core = _
    rw [allChildDevices, ← listed, hloop]
  have hstep : core.step setup 0 = core'.setTask 0 ⟨D, rootHandlers.tail⟩ := by
    rw [Core.step, htasks]
    simp [rootHandlers, hrun]
  obtain ⟨new, hnew, hnotifies⟩ := hq.tasks
  have hfamily' := hfamily.quiet hq
  rw [hstep]
  refine .deleting new ?_ hnotifies ⟨hfamily'.stored, hfamily'.registered, hfamily'.kin⟩
    fun x hx => htame x hx (.inl hx)
  rw [Core.setTask, hnew, htasks]
  rfl

theorem Stage.delete (hid : D.id = R) (hroot : D.root = true) {rest : List Task}
    (htasks : core.tasks = ⟨D, rootHandlers.tail⟩ :: rest) (hrest : ∀ t ∈ rest, Notifies t)
    (hfamily : Family R D.listed core) (htame : ∀ x ∈ D.listed, InState Tame core x) :
    Settling R (Dying R D) (core.step setup 0) := by
  obtain ⟨err, core', hloop, hq, hdoomed⟩ := eachChild_delete (List.Subset.refl _) hfamily
    (fun x hx _ => .inr ⟨hx, htame x hx⟩) none
  have hrun : runHandler setup .deleteAllChildDevices D core = .ok () core' := by
    change allChildDevices .deleteDevice D core = _
    rw [allChildDevices, ← listed, hloop]
    cases err <;> rfl
  have hstep : core.step setup 0 =
      core'.setTask 0 ⟨D, [.deleteLogicalDevice, .runPostDeviceDelete]⟩ := by
    rw [Core.step, htasks]
    simp [rootHandlers, hrun]
  obtain ⟨new, hnew, hremoves⟩ := hq.tasks
  have hfamily' := hfamily.quiet hq
  have htasks' : (core'.setTask 0 ⟨D, [.deleteLogicalDevice, .runPostDeviceDelete]⟩).tasks =
      ⟨D, [.deleteLogicalDevice, .runPostDeviceDelete]⟩ :: (rest ++ new) := by
    rw [Core.setTask, hnew, htasks]
    rfl
  rw [hstep]
  refine ⟨?_, ?_, ?_, fun _ _ => hfamily'.registered, fun _ hgone => absurd hfamily'.stored hgone⟩
  · intro t ht
    rw [htasks', mem_cons, mem_append] at ht
    rcases ht with rfl | ht | ht
    · exact .inr (.inr ⟨suffix_refl _, hid, hroot⟩)
    · exact .inl fun h hh => .inl (hrest t ht h hh)
    · obtain ⟨hsuffix, -, hne, hkin⟩ := hremoves t ht
      exact .inr (.inl ⟨hsuffix, hne, fun _ => hkin⟩)
  · intro t ht hneeds
    refine ⟨hfamily'.stored, fun a ha => ?_⟩
    rw [htasks', mem_cons, mem_append] at ht
    rcases ht with rfl | ht | ht
    · rcases hneeds with h | h <;> simp at h
    · have hharmless : Harmless t := fun h hh => .inl (hrest t ht h hh)
      exact absurd hneeds hharmless.not_needsParent
    · obtain ⟨-, hroot', hparent', -⟩ := (hfamily'.kin _ (hremoves t ht).2.1).2 a ha
      exact ⟨hroot', hparent'⟩
  · intro x hx hstored
    rw [Core.Doomed, htasks']
    by_cases hxR : x = R
    · exact ⟨_, mem_cons_self, hid.trans hxR.symm, by simp⟩
    · obtain ⟨t, ht, htid, hpost⟩ := hdoomed x (hx.resolve_left hxR) hstored
      rw [hnew, htasks, cons_append, mem_cons] at ht
      rcases ht with rfl | ht
      · exact absurd (htid.symm.trans hid) hxR
      · exact ⟨t, mem_cons_of_mem _ ht, htid, hpost⟩

theorem Stage.step (hid : D.id = R) (hroot : D.root = true) (h : Stage R D core)
    (ho : Orderly core i) : Stage R D (core.step setup i) := by
  cases h with
  | disabling htasks hfamily halive hlast =>
    cases i with
    | zero => exact .disable htasks hfamily halive hlast
    | succ i =>
      have hstep : core.step setup (i + 1) = core := by
        rw [Core.step, htasks]
        rfl
      rw [hstep]
      exact .disabling htasks hfamily halive hlast
  | deleting rest htasks hrest hfamily htame =>
    cases i with
    | zero => exact .settling (Stage.delete hid hroot htasks hrest hfamily htame)
    | succ i =>
      unfold Core.step
      split
      case h_2 => exact .deleting rest htasks hrest hfamily htame
      case h_1 device handler handlers hi =>
      rw [htasks, getElem?_cons_succ] at hi
      have hnotifies := hrest _ (mem_of_getElem? hi)
      obtain rfl := hnotifies handler (by simp)
      refine .deleting (rest.set i ⟨device, handlers⟩) ?_ (fun t ht => ?_)
        ⟨hfamily.stored, hfamily.registered, hfamily.kin⟩ htame
      · change core.tasks.set (i + 1) _ = _
        rw [htasks]
        rfl
      · rcases mem_or_eq_of_mem_set ht with ht | rfl
        · exact hrest t ht
        · exact fun h hh => hnotifies h (mem_cons_of_mem _ hh)
  | settling h => exact .settling (h.step ho)

/-! ### What is left of a deleted device -/

/-- Nothing is left of the device, nor of the children and logical devices of a root device. -/
def Cleaned (before core : Core) (id : String) (a : ManagedAgent) : Prop :=
  id ∉ core.devices ∧ (a.device.root = true →
    (∀ e ∈ before.devices.entries, e.2.ChildOf id → e.1 ∉ core.devices) ∧
      ∀ e ∈ core.logicalDevices.entries, e.2.rootDeviceID ≠ id)

/-- A root device is preprovisioned and has no children, or it is disabled, its ports list its
children and nothing else, none of them is deleted and the last one was enabled before. A child is
preprovisioned, or it is enabled or disabled and its parent is stored. -/
def Deletable (core : Core) (id : String) (a : ManagedAgent) : Prop :=
  if a.device.root then
    core.rootDevices.lookup id = some true ∧
      (a.device.adminState = .preprovisioned ∧ (∀ e ∈ core.devices.entries, ¬ e.2.ChildOf id) ∨
        a.device.adminState = .disabled ∧
          (∀ e ∈ core.devices.entries, e.2.ChildOf id → e.1 ∈ getAllChildDeviceIds a.device) ∧
          (∀ e ∈ core.devices.entries, e.1 ∈ getAllChildDeviceIds a.device →
            e.2.ChildOf id ∧ e.2.origin.proxyAddress ≠ none ∧ e.2.device.adminState ≠ .deleted) ∧
          ∀ e ∈ core.devices.entries,
            ((getAllChildDeviceIds a.device).filter (· ∈ core.devices)).getLast? = some e.1 →
              e.2.device.adminState ≠ .preprovisioned)
  else
    a.device.adminState = .preprovisioned ∨
      (a.device.adminState = .enabled ∨ a.device.adminState = .disabled) ∧
        a.device.parentId ∈ core.devices ∧ a.device.parentId ≠ id ∧ a.origin.proxyAddress ≠ none

instance (core : Core) (id : String) (a : ManagedAgent) : Decidable (Deletable core id a) :=
  inferInstanceAs (Decidable (if a.device.root then _ ∧ _ else _ ∨ _))

/-- Where the goroutine of the deletion starts. -/
theorem tasks_delete (ha : core.devices.lookup id = some a) (hidle : core.tasks = [])
    (hstate : a.device.adminState ≠ .deleted)
    (hhandlers : deletionHandlers a.device.root a.device.adminState = some handlers) :
    (after (onDevice id .deleteDevice) core).tasks =
      [⟨(a.perform .deleteDevice).storedDevice, handlers⟩] := by
  rw [tasks_onDevice, hidle, ha]
  simp only [nil_append]
  rw [processUpdate_delete, if_neg hstate, hhandlers]

theorem tasks_delete_preprovisioned (ha : core.devices.lookup id = some a) (hidle : core.tasks = [])
    (hstate : a.device.adminState = .preprovisioned) :
    (after (onDevice id .deleteDevice) core).tasks =
      [⟨(a.perform .deleteDevice).storedDevice, [.runPostDeviceDelete]⟩] :=
  tasks_delete ha hidle (by simp [hstate]) (by simp [hstate, deletionHandlers])

theorem Settling.of_child (hid : device.id = id) (htasks : core.tasks = [⟨device, handlers⟩])
    (hhandlers : handlers <:+ childHandlers) (hpost : .runPostDeviceDelete ∈ handlers)
    (hne : R ≠ id)
    (hneeds : NeedsParent ⟨device, handlers⟩ → R ∈ core.devices ∧ device.parentId = R ∧
      device.proxyAddress ≠ none ∧ ∀ a, core.devices.lookup id = some a → a.ChildOf R) :
    Settling R (· = id) core := by
  subst hid
  refine ⟨?_, ?_, ?_, fun hR => absurd hR hne, fun hR => absurd hR hne⟩
  · intro t ht
    rw [htasks, mem_singleton] at ht
    rw [ht]
    refine .inr (.inl ⟨hhandlers, hne.symm, fun h => ?_⟩)
    obtain ⟨-, hparent, hproxy, -⟩ := hneeds h
    exact ⟨hparent, hproxy⟩
  · intro t ht h
    rw [htasks, mem_singleton] at ht
    subst ht
    obtain ⟨hstored, -, -, hkin⟩ := hneeds h
    exact ⟨hstored, hkin⟩
  · rintro x rfl -
    exact ⟨_, by rw [htasks]; exact mem_singleton_self _, rfl, hpost⟩

section

variable (ha : core.devices.lookup id = some a) (hid : a.device.id = id) (hidle : core.tasks = [])
include ha hid hidle

/-- The deletion of a child with its parent stored, or of one that was never enabled. -/
theorem settling_child (hroot : a.device.root = false) (hdel : Deletable core id a) :
    ∃ R, Settling R (· = id) (after (onDevice id .deleteDevice) core) := by
  rw [Deletable, if_neg (by simp [hroot])] at hdel
  obtain ⟨hDid, -, hDparent, hDproxy⟩ := storedDevice_delete a
  rcases hdel with hstate | ⟨hstate, hparent, hne, hproxy⟩
  · have htasks := tasks_delete_preprovisioned ha hidle hstate
    -- its goroutine needs no parent, so any other id will do
    refine ⟨id ++ "/", .of_child (hDid.trans hid) htasks
      (by simp [childHandlers, suffix_cons_iff]) (by simp) (by simp) fun hneeds => ?_⟩
    simp [NeedsParent] at hneeds
  · have hhandlers : deletionHandlers a.device.root a.device.adminState = some childHandlers := by
      rcases hstate with hstate | hstate <;> simp [hroot, hstate, deletionHandlers]
    have htasks := tasks_delete ha hidle (by rcases hstate with h | h <;> simp [h]) hhandlers
    refine ⟨a.device.parentId, .of_child (hDid.trans hid) htasks (suffix_refl _)
      (by simp [childHandlers]) hne fun _ => ?_⟩
    refine ⟨(mem_onDevice ..).mpr hparent, hDparent, by rwa [hDproxy], fun b hb => ?_⟩
    rw [lookup_onDevice, if_pos rfl, ha, map_some] at hb
    cases hb
    have hkin : (a.perform .deleteDevice).kin = a.kin :=
      kin_perform (by simp [assigns]) (by simp [assigns]) a
    exact ⟨(congrArg Kin.root hkin).trans hroot, congrArg Kin.parentId hkin⟩

/-- The deletion of a root device that was never enabled. -/
theorem settling_root (hroot : a.device.root = true)
    (hregistered : core.rootDevices.lookup id = some true)
    (hstate : a.device.adminState = .preprovisioned) :
    Settling id (· = id) (after (onDevice id .deleteDevice) core) := by
  have hstored : id ∈ (after (onDevice id .deleteDevice) core).devices :=
    (mem_onDevice ..).mpr (mem_iff_exists_lookup.mpr ⟨a, ha⟩)
  have htasks := tasks_delete_preprovisioned ha hidle hstate
  obtain ⟨hDid, hDroot, -, -⟩ := storedDevice_delete a
  refine ⟨?_, ?_, ?_, ?_, fun _ hgone => absurd hstored hgone⟩
  · intro t ht
    rw [htasks, mem_singleton] at ht
    rw [ht]
    exact .inr (.inr ⟨suffix_cons _ _, hDid.trans hid, hDroot.trans hroot⟩)
  · intro t ht hneeds
    rw [htasks, mem_singleton] at ht
    rw [ht] at hneeds
    simp [NeedsParent] at hneeds
  · rintro x rfl -
    exact ⟨_, by rw [htasks]; exact mem_singleton_self _, hDid.trans hid, by simp⟩
  · intro _ _
    rw [(onDevice_frame core id .deleteDevice).1]
    exact hregistered

end

theorem listed_delete (a : ManagedAgent) :
    (a.perform .deleteDevice).storedDevice.listed = getAllChildDeviceIds a.device := by
  have hports : (a.perform .deleteDevice).stored.ports = a.device.ports := by
    rw [(a.perform .deleteDevice).agree]
    exact (same_perform (φ := .ports) (by simp [assigns]) a).symm
  unfold listed getAllChildDeviceIds
  rw [show (a.perform .deleteDevice).storedDevice.toDevice.ports = _ from hports]

/-- The deletion of a disabled root device. -/
theorem stage_root (ha : core.devices.lookup id = some a)
    (hkeyed : ∀ e ∈ core.devices.entries, e.2.device.id = e.1)
    (hidle : core.tasks = []) (hroot : a.device.root = true)
    (hregistered : core.rootDevices.lookup id = some true)
    (hstate : a.device.adminState = .disabled)
    (hlisted : ∀ e ∈ core.devices.entries, e.1 ∈ getAllChildDeviceIds a.device →
      e.2.ChildOf id ∧ e.2.origin.proxyAddress ≠ none ∧ e.2.device.adminState ≠ .deleted)
    (hlast : ∀ e ∈ core.devices.entries,
      ((getAllChildDeviceIds a.device).filter (· ∈ core.devices)).getLast? = some e.1 →
        e.2.device.adminState ≠ .preprovisioned) :
    Stage id (a.perform .deleteDevice).storedDevice (after (onDevice id .deleteDevice) core) := by
  have hne : ∀ x ∈ getAllChildDeviceIds a.device, x ≠ id := by
    rintro x hx rfl
    have hchild := (hlisted _ (mem_entries_iff.mpr ha) hx).1.1
    rw [hroot] at hchild
    cases hchild
  have hlookup : ∀ x ∈ getAllChildDeviceIds a.device, ∀ b,
      (after (onDevice id .deleteDevice) core).devices.lookup x = some b →
        (⟨x, b⟩ : Σ _ : String, ManagedAgent) ∈ core.devices.entries := by
    intro x hx b hb
    rw [lookup_onDevice, if_neg (hne x hx)] at hb
    exact mem_entries_iff.mpr hb
  refine .disabling ?_ ⟨?_, ?_, ?_⟩ ?_ ?_
  · exact tasks_delete ha hidle (by simp [hstate]) (by rw [hroot, hstate]; rfl)
  · exact (mem_onDevice ..).mpr (mem_iff_exists_lookup.mpr ⟨a, ha⟩)
  · rw [(onDevice_frame core id .deleteDevice).1]
    exact hregistered
  · intro x hx
    rw [listed_delete] at hx
    refine ⟨hne x hx, fun b hb => ?_⟩
    have hmem := hlookup x hx b hb
    obtain ⟨⟨hbroot, hbparent⟩, hbproxy, -⟩ := hlisted _ hmem hx
    exact ⟨hkeyed _ hmem, hbroot, hbparent, hbproxy⟩
  · intro x hx b hb
    rw [listed_delete] at hx
    exact (hlisted _ (hlookup x hx b hb) hx).2.2
  · intro x hx b hb
    simp only [listed_delete, mem_onDevice] at hx
    have hmem := hlookup x (mem_filter.mp (mem_of_getLast? hx)).1 b hb
    exact hlast _ hmem hx

/-- A finished deletion of a disabled root device has removed it and its listed children. -/
theorem Stage.done (h : Stage R D core) (hdone : core.Done) :
    (∀ x, Dying R D x → x ∉ core.devices) ∧
      ∀ l ld, core.logicalDevices.lookup l = some ld → ld.rootDeviceID ≠ R := by
  cases h with
  | disabling htasks =>
    have hempty := hdone ⟨D, rootHandlers⟩ (by rw [htasks]; exact mem_singleton_self _)
    cases hempty
  | deleting rest htasks =>
    have hempty := hdone ⟨D, rootHandlers.tail⟩ (by rw [htasks]; exact mem_cons_self)
    cases hempty
  | settling h =>
    obtain ⟨hgone, hlogical⟩ := h.done hdone
    exact ⟨hgone, hlogical (.inl rfl)⟩

def onuOf (parentId id : String) (adminState : AdminState) : ManagedDevice where
  id := id
  parentId := parentId
  adminState := adminState
  proxyAddress := some { deviceId := parentId, deviceType := "onu", channelId := 1, onuId := 1 }

def disabledOlt : Core where
  devices := addDevice (onuOf "olt" "onu1" .enabled) (addDevice (onuOf "olt" "onu2" .disabled)
    (addDevice
      { id := "olt", root := true, parentId := "logical", adminState := .disabled
        ports := [{ portNo := 1, type := .ponOlt, peers := [⟨"onu1", 1⟩, ⟨"onu2", 1⟩] }] } ∅))
  rootDevices := (∅ : GoMap String Bool).insert "olt" true
  logicalDevices :=
    (∅ : GoMap String ManagedLogicalDevice).insert "logical" { rootDeviceID := "olt" }
  tasks := []

def enabledOlt : Core :=
  after (onDevice "olt" .enableDevice)
    { devices := addDevice (startDevice "" { id := "olt", root := true }) ∅
      rootDevices := (∅ : GoMap String Bool).insert "olt" true
      logicalDevices := ∅
      tasks := [] }

end VolthaCore.Manager
