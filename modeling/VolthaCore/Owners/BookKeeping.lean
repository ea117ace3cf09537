import VolthaCore.Lib.Runs
import VolthaCore.Owners.DeviceOwnership

/-! The book-keeping of one `DeviceOwnership` over its calls. `Stop` closes the channels of all
monitors and leaves their keys in `deviceMap`, so that a later call closes one of them again; and
the value that it leaves in the exit channel ends a monitor that is started later. As long as
`Stop` finds no key and no call asks for ownership after it, the maps fit together. -/

namespace VolthaCore.Owners

open Outcome Runs AList

/-- The calls, each with what the rest of the core answers, and a monitor that takes the value in
the exit channel. -/
inductive Call where
  | ownedByMe (managers : Managers) (id : AnyId) (reservedByMe : Bool)
  | abandonDevice (id : String)
  | stop (order : VisitOrder (Σ _ : String, Ownership))
  | monitorExits (chnl : ℕ)

namespace DeviceOwnership

def takeExit (chnl : ℕ) (da : DeviceOwnership) : DeviceOwnership :=
  if da.exitChannel = true ∧ chnl < da.channels then
    { da with exitChannel := false, exited := Function.update da.exited chnl true }
  else
    da

/-- `Stop` does not get on while the exit channel is full. -/
def step (da : DeviceOwnership) : Call → DeviceOwnership
  | .ownedByMe managers id reservedByMe => after (ownedByMe managers id reservedByMe) da
  | .abandonDevice id => after (abandonDevice id) da
  | .stop order => if da.exitChannel then da else after (stop order) da
  | .monitorExits chnl => da.takeExit chnl

/-! ### Clean bookkeeping -/

/-- No channel is closed twice, and the cached ownership keys are recorded. -/
structure Sound (da : DeviceOwnership) : Prop where
  once : ∀ chnl, da.closes chnl ≤ 1
  keyed : ∀ {id key}, da.deviceToKeyMap.lookup id = some key → key ∈ da.deviceMap

/-- No recorded key has a monitor that was stopped. -/
def NoneStopped (da : DeviceOwnership) : Prop :=
  ∀ {key o}, da.deviceMap.lookup key = some o → da.closes o.chnl = 0 ∧ da.exited o.chnl = false

/-- What a call has cleaned up when it is done. -/
def Cleaned (da da' : DeviceOwnership) : Call → Prop
  | .abandonDevice key => key ∈ da.deviceMap →
      (∀ id, da'.deviceToKeyMap.lookup id ≠ some key) ∧ da'.NoneStopped
  | .stop _ => da.exitChannel = false →
      (∀ id key, da'.deviceToKeyMap.lookup id ≠ some key) ∧ da'.NoneStopped
  | _ => True

/-- `Stop` finds no key, and nothing asks for ownership after it; the empty text, which
`AbandonDevice` refuses, is not abandoned while it is an ownership key. -/
def Orderly (da : DeviceOwnership) : Call → Prop
  | .ownedByMe _ _ _ => da.exitChannel = false
  | .abandonDevice id => id = "" → "" ∉ da.deviceMap
  | .stop _ => da.deviceMap.keys = []
  | .monitorExits _ => True

instance (da : DeviceOwnership) : ∀ call, Decidable (da.Orderly call)
  | .ownedByMe _ _ _ => inferInstanceAs (Decidable (_ = _))
  | .abandonDevice _ => inferInstanceAs (Decidable (_ → _))
  | .stop _ => inferInstanceAs (Decidable (_ = _))
  | .monitorExits _ => inferInstanceAs (Decidable True)

/-! ### The invariant -/

/-- The maps and the monitors fit together. While the exit channel is full no key is recorded. -/
structure Kept (da : DeviceOwnership) : Prop extends da.Sound where
  running : da.NoneStopped
  made : ∀ {key o}, da.deviceMap.lookup key = some o → o.chnl < da.channels
  distinct : ∀ {key key' o o'}, da.deviceMap.lookup key = some o →
    da.deviceMap.lookup key' = some o' → o.chnl = o'.chnl → key = key'
  unused : ∀ {chnl}, da.channels ≤ chnl → da.closes chnl = 0 ∧ da.exited chnl = false
  exit : da.exitChannel = true → da.deviceMap = ∅

variable {da : DeviceOwnership}

theorem kept_newDeviceOwnership : newDeviceOwnership.Kept := by
  refine ⟨⟨?_, ?_⟩, ?_, ?_, ?_, ?_, ?_⟩ <;> simp [newDeviceOwnership, NoneStopped]

/-! ### Asking for ownership -/

/-- A key that is not recorded gets an entry and a new channel. -/
@[simps]
def record (da : DeviceOwnership) (key : String) (owned : Bool) : DeviceOwnership :=
  { da with
    deviceMap := da.deviceMap.insert key ⟨key, owned, da.channels⟩
    channels := da.channels + 1 }

theorem after_ownedByMe_cases (managers : Managers) (id : AnyId) (reservedByMe : Bool)
    (da : DeviceOwnership) :
    after (ownedByMe managers id reservedByMe) da = da ∨
      ∃ key m, da.CachesOnly m key ∧
        (key ∈ da.deviceMap ∧
            after (ownedByMe managers id reservedByMe) da = { da with deviceToKeyMap := m } ∨
          key ∉ da.deviceMap ∧ after (ownedByMe managers id reservedByMe) da =
            record { da with deviceToKeyMap := m } key reservedByMe) := by
  rcases cacheOwnershipKey_cases managers id da with ⟨e, he⟩ | ⟨key, m, hok, hm⟩
  · refine .inl (after_of_error (e := e) ?_)
    rw [ownedByMe, bind_apply, he]
  · refine .inr ⟨key, m, hm, ?_⟩
    cases hkey : da.deviceMap.lookup key with
    | some o =>
      refine .inl ⟨GoMap.mem_iff_exists_lookup.mpr ⟨o, hkey⟩, after_of_ok (a := o.owned) ?_⟩
      rw [ownedByMe, bind_of_ok hok]
      change (if ((getOwnership _ key).1) = true then _ else _ :
        EStateM Err DeviceOwnership Bool) _ = _
      simp [getOwnership, hkey]
    | none =>
      refine .inr ⟨lookup_eq_none.mp hkey, after_of_ok (a := reservedByMe) ?_⟩
      rw [ownedByMe, bind_of_ok hok]
      change (if ((getOwnership _ key).1) = true then _ else _ :
        EStateM Err DeviceOwnership Bool) _ = _
      simp only [getOwnership, hkey, Bool.false_eq_true, if_false]
      rfl

variable {m : GoMap String String} {key : String} {o : Ownership} {call : Call}

theorem Kept.cache (hk : da.Kept) (hm : da.CachesOnly m key) (hkey : key ∈ da.deviceMap) :
    Kept { da with deviceToKeyMap := m } :=
  { hk with
    keyed := fun h => by
      rcases hm h with h | rfl
      · exact hk.keyed h
      · exact hkey }

theorem lookup_record (da : DeviceOwnership) (key key' : String) (owned : Bool) :
    (da.record key owned).deviceMap.lookup key' =
      if key' = key then some ⟨key, owned, da.channels⟩ else da.deviceMap.lookup key' :=
  GoMap.lookup_insert_eq ..

theorem Kept.record (hk : da.Kept) (hm : da.CachesOnly m key) (hexit : da.exitChannel = false)
    (owned : Bool) : (DeviceOwnership.record { da with deviceToKeyMap := m } key owned).Kept where
  once := hk.once
  keyed h := by
    rw [record_deviceMap, mem_insert]
    rcases hm h with h | rfl
    · exact .inr (hk.keyed h)
    · exact .inl rfl
  running h := by
    rw [lookup_record] at h
    split_ifs at h
    · cases h
      exact hk.unused le_rfl
    · exact hk.running h
  made h := by
    rw [lookup_record] at h
    split_ifs at h
    · cases h
      exact Nat.lt_succ_self _
    · exact Nat.lt_succ_of_lt (hk.made h)
  distinct h h' he := by
    rw [lookup_record] at h h'
    split_ifs at h h' with h1 h2 h2
    · rw [h1, h2]
    · cases h
      exact absurd he (Nat.ne_of_gt (hk.made h'))
    · cases h'
      exact absurd he (Nat.ne_of_lt (hk.made h))
    · exact hk.distinct h h' he
  unused h := hk.unused (Nat.le_of_succ_le h)
  exit h := by
    rw [record_exitChannel, hexit] at h
    cases h

theorem Kept.ownedByMe (hk : da.Kept) (hexit : da.exitChannel = false) (managers : Managers)
    (id : AnyId) (reservedByMe : Bool) :
    (after (ownedByMe managers id reservedByMe) da).Kept := by
  rcases after_ownedByMe_cases managers id reservedByMe da with
    h | ⟨key, m, hm, ⟨hkey, h⟩ | ⟨-, h⟩⟩
  · rwa [h]
  · rw [h]
    exact hk.cache hm hkey
  · rw [h]
    exact hk.record hm hexit reservedByMe

/-! ### Abandoning -/

/-- The memory without a key and the ids that are cached for it, its channel being closed. -/
@[simps]
def abandoned (da : DeviceOwnership) (key : String) (o : Ownership) : DeviceOwnership :=
  { da with
    deviceToKeyMap := da.deviceToKeyMap.filter fun _ key' => key ≠ key'
    deviceMap := da.deviceMap.erase key
    closes := Function.update da.closes o.chnl (da.closes o.chnl + 1) }

theorem after_abandonDevice_of_key (hne : key ≠ "") (ho : da.deviceMap.lookup key = some o) :
    after (abandonDevice key) da = da.abandoned key o := by
  have hrun : abandonDevice key da = closeChannel o.chnl
      { da with
        deviceToKeyMap := da.deviceToKeyMap.filter fun _ key' => key ≠ key'
        deviceMap := da.deviceMap.erase key } := by
    rw [abandonDevice, if_neg hne, bind_of_ok (x := get) (a := da) rfl, ho]
    rfl
  by_cases hclosed : da.closes o.chnl = 0
  · refine after_of_ok (a := ()) ?_
    rw [hrun, closeChannel, if_pos hclosed]
    rfl
  · refine after_of_error (e := .crash "close of closed channel") ?_
    rw [hrun, closeChannel, if_neg hclosed]
    rfl

theorem after_abandonDevice_of_id {id : String} (hne : id ≠ "") (hid : id ∉ da.deviceMap) :
    after (abandonDevice id) da =
      { da with deviceToKeyMap := da.deviceToKeyMap.erase id } := by
  refine after_of_ok (a := ()) ?_
  rw [abandonDevice, if_neg hne, bind_of_ok (x := get) (a := da) rfl, lookup_eq_none.mpr hid]
  rfl

theorem after_abandonDevice_empty : after (abandonDevice "") da = da := rfl

theorem lookup_abandoned (da : DeviceOwnership) (key key' : String) (o : Ownership) :
    (da.abandoned key o).deviceMap.lookup key' =
      if key' = key then none else da.deviceMap.lookup key' := by
  rw [abandoned_deviceMap]
  split_ifs with h
  · rw [h, lookup_erase]
  · rw [lookup_erase_ne h]

theorem abandoned_uncached (da : DeviceOwnership) (key id : String) (o : Ownership) :
    (da.abandoned key o).deviceToKeyMap.lookup id ≠ some key := by
  intro h
  rw [abandoned_deviceToKeyMap, GoMap.lookup_filter, Option.filter_eq_some_iff] at h
  simp at h

theorem Kept.abandoned (hk : da.Kept) (ho : da.deviceMap.lookup key = some o) :
    (da.abandoned key o).Kept := by
  -- the channel of the key is not the one of another key
  have hother : ∀ {key' o'}, (da.abandoned key o).deviceMap.lookup key' = some o' →
      da.deviceMap.lookup key' = some o' ∧ o'.chnl ≠ o.chnl := by
    intro key' o' h
    rw [lookup_abandoned] at h
    split_ifs at h with hne
    exact ⟨h, fun he => hne (hk.distinct h ho he)⟩
  have hcloses : ∀ {chnl}, chnl ≠ o.chnl →
      (da.abandoned key o).closes chnl = da.closes chnl := fun hne => Function.update_of_ne hne ..
  exact
    { once := fun chnl => by
        by_cases he : chnl = o.chnl
        · rw [he, abandoned_closes, Function.update_self, (hk.running ho).1]
        · rw [hcloses he]
          exact hk.once chnl
      keyed := fun {id key'} h => by
        have hne : key' ≠ key := fun he => da.abandoned_uncached key id o (he ▸ h)
        rw [abandoned_deviceToKeyMap, GoMap.lookup_filter, Option.filter_eq_some_iff] at h
        exact (mem_erase).mpr ⟨hne, hk.keyed h.1⟩
      running := fun h => by
        obtain ⟨h, hne⟩ := hother h
        rw [hcloses hne]
        exact hk.running h
      made := fun h => hk.made (hother h).1
      distinct := fun h h' he => hk.distinct (hother h).1 (hother h').1 he
      unused := fun {chnl} hle => by
        have hne : chnl ≠ o.chnl := fun he => absurd (hk.made ho) (Nat.not_lt.mpr (he ▸ hle))
        rw [hcloses hne]
        exact hk.unused hle
      exit := fun h => by
        rw [hk.exit h] at ho
        simp at ho }

theorem Kept.abandonDevice (hk : da.Kept) (id : String) :
    (after (abandonDevice id) da).Kept := by
  by_cases hne : id = ""
  · rw [hne, after_abandonDevice_empty]
    exact hk
  · cases ho : da.deviceMap.lookup id with
    | some o =>
      rw [after_abandonDevice_of_key hne ho]
      exact hk.abandoned ho
    | none =>
      rw [after_abandonDevice_of_id hne (lookup_eq_none.mp ho)]
      refine { hk with keyed := fun {id' key} h => ?_ }
      by_cases he : id' = id
      · rw [he, lookup_erase] at h
        cases h
      · rw [lookup_erase_ne he] at h
        exact hk.keyed h

/-! ### Stopping -/

theorem deviceMap_eq_empty {order : VisitOrder (Σ _ : String, Ownership)}
    (h : da.Orderly (.stop order)) : da.deviceMap = ∅ :=
  GoMap.eq_empty_of_length (List.length_eq_zero_iff.mpr h)

theorem after_stop_of_empty (hempty : da.deviceMap = ∅)
    (order : VisitOrder (Σ _ : String, Ownership)) :
    after (stop order) da = { da with exitChannel := true, deviceToKeyMap := ∅ } := by
  have hvisit : order.visit da.deviceMap.entries = [] := by
    rw [hempty]
    exact List.perm_nil.mp (order.perm [])
  refine after_of_ok (a := ()) ?_
  change (order.visit da.deviceMap.entries).forM (fun e => closeChannel e.2.chnl) _ = _
  rw [hvisit]
  rfl

theorem Kept.stop (hk : da.Kept) (hempty : da.deviceMap = ∅)
    (order : VisitOrder (Σ _ : String, Ownership)) : (after (stop order) da).Kept := by
  rw [after_stop_of_empty hempty]
  exact { hk with
    keyed := fun h => by simp at h
    exit := fun _ => hempty }

theorem Kept.takeExit (hk : da.Kept) (chnl : ℕ) : (da.takeExit chnl).Kept := by
  unfold DeviceOwnership.takeExit
  split_ifs with h
  · have hempty := hk.exit h.1
    exact { hk with
      running := fun ho => by
        rw [hempty] at ho
        simp at ho
      unused := fun {chnl'} hle => by
        have hne : chnl' ≠ chnl := fun he => absurd h.2 (Nat.not_lt.mpr (he ▸ hle))
        exact ⟨(hk.unused hle).1, (Function.update_of_ne hne ..).trans (hk.unused hle).2⟩
      exit := fun he => by simp at he }
  · exact hk

/-! ### Runs -/

theorem Kept.step (hk : da.Kept) (hcall : da.Orderly call) : (da.step call).Kept := by
  cases call with
  | ownedByMe managers id reservedByMe => exact hk.ownedByMe hcall managers id reservedByMe
  | abandonDevice id => exact hk.abandonDevice id
  | stop order =>
    unfold DeviceOwnership.step
    split_ifs
    · exact hk
    · exact hk.stop (deviceMap_eq_empty hcall) order
  | monitorExits chnl => exact hk.takeExit chnl

theorem Kept.cleaned (hk : da.Kept) (hcall : da.Orderly call) : da.Cleaned (da.step call) call := by
  cases call with
  | ownedByMe managers id reservedByMe => trivial
  | abandonDevice key =>
    intro hkey
    obtain ⟨o, ho⟩ := GoMap.mem_iff_exists_lookup.mp hkey
    have hne : key ≠ "" := fun he => hcall he (he ▸ hkey)
    have hrun : da.step (.abandonDevice key) = da.abandoned key o :=
      after_abandonDevice_of_key hne ho
    rw [hrun]
    exact ⟨fun id => da.abandoned_uncached key id o, (hk.abandoned ho).running⟩
  | stop order =>
    intro hexit
    have hempty := deviceMap_eq_empty hcall
    have hrun : da.step (.stop order) = after (DeviceOwnership.stop order) da := by
      rw [DeviceOwnership.step, if_neg (by simp [hexit])]
    refine ⟨fun id key h => ?_, ?_⟩
    · rw [hrun, after_stop_of_empty hempty] at h
      simp at h
    · exact (hk.step hcall).running
  | monitorExits chnl => trivial

/-- In every orderly run no channel is closed twice and the cached keys are recorded, and every
call has cleaned up what it is to clean up when it is done. -/
theorem ownership_kept {calls : List Call} (hcalls : Along step Orderly calls newDeviceOwnership) :
    (run step calls newDeviceOwnership).Sound ∧
      ∀ before call later, calls = before ++ call :: later →
        (run step before newDeviceOwnership).Cleaned
          ((run step before newDeviceOwnership).step call) call := by
  have hkept : ∀ {calls}, Along step Orderly calls newDeviceOwnership →
      (run step calls newDeviceOwnership).Kept := fun h =>
    run_invariant (P := Kept) (fun _ _ hcall hk => hk.step hcall) h kept_newDeviceOwnership
  refine ⟨(hkept hcalls).toSound, fun before call later he => ?_⟩
  rw [he, along_append] at hcalls
  exact (hkept hcalls.1).cleaned hcalls.2.1

/-! ### Calls for an OLT and its ONU -/

def oltManagers : Managers where
  getDevice id :=
    if id = "olt" then some { id, root := true }
    else if id = "onu" then some { id, parentId := "olt" }
    else none
  rootDeviceId id := if id = "switch" then some "olt" else none

def abandonCalls : List Call :=
  [.ownedByMe oltManagers (.device "onu") true,
    .ownedByMe oltManagers (.logicalDevice "switch") true, .abandonDevice "switch",
    .abandonDevice "olt", .stop .listed]

theorem ownership_kept_by_abandoning :
    (run step abandonCalls newDeviceOwnership).Sound ∧
      ∀ before call later, abandonCalls = before ++ call :: later →
        (run step before newDeviceOwnership).Cleaned
          ((run step before newDeviceOwnership).step call) call :=
  ownership_kept (by decide +kernel)

def stoppedOlt : DeviceOwnership :=
  run step [.ownedByMe oltManagers (.device "olt") true, .stop .listed] newDeviceOwnership

/-- `Stop` leaves the key of the OLT, whose monitor it stopped, and its channel is closed again
when the key is abandoned. -/
theorem stop_leaves_keys :
    ¬ stoppedOlt.NoneStopped ∧ ¬ (stoppedOlt.step (.abandonDevice "olt")).Sound := by
  refine ⟨fun h => ?_, fun h => ?_⟩
  · have hkey : stoppedOlt.deviceMap.lookup "olt" = some ⟨"olt", true, 0⟩ := by decide +kernel
    exact absurd (h hkey).1 (by decide +kernel)
  · exact absurd (h.once 0) (by decide +kernel)

end DeviceOwnership

end VolthaCore.Owners
