import VolthaCore.Lib.Runs
import VolthaCore.Owners.DeviceOwnership

/-! Several cores with one key-value store. The key of a device holds the id of the core that has
reserved it until the lease of that core expires. `OwnedByMe` and each tick of a monitor look at
what the core records, access the store and record the outcome; the steps of different cores and
keys interleave.

A tick that fails to renew a reservation leaves the record as it is. So a core goes on to report
ownership after its lease has expired, also when another core holds the key by then. As long as
no lease expires that its holder relies on, every tick confirms what the core records. -/

namespace VolthaCore.Owners

open Outcome Runs Function DeviceOwnership

def kvKey (ownershipPrefix id : String) : String := ownershipPrefix ++ "_" ++ id

theorem kvKey_injective (ownershipPrefix : String) :
    Function.Injective (kvKey ownershipPrefix) := by
  intro id id' h
  have hchars := congrArg String.toList h
  simp only [kvKey, String.toList_append, List.append_cancel_left_eq] at hchars
  exact String.toList_inj.mp hchars

/-- `tryToReserveKey`: a free key is taken, and a taken one is mine when it holds my id. -/
def tryToReserveKey (ownershipPrefix instanceID id : String) (ok : Bool)
    (holder : String → Option String) : Bool × (String → Option String) :=
  if ok then
    match holder (kvKey ownershipPrefix id) with
    | none => (true, Function.update holder (kvKey ownershipPrefix id) (some instanceID))
    | some currOwner => (currOwner = instanceID, holder)
  else
    (false, holder)

/-- How far the monitor of a key has come in a tick. `held` tells whether the key held the id of
the core when the tick accessed the store. -/
inductive Tick where
  | waiting
  | renewing
  | retrying
  | renewed (held : Bool)
  | reserved (mine held : Bool)
  deriving DecidableEq

def Tick.held : Tick → Option Bool
  | .renewed held => some held
  | .reserved _ held => some held
  | _ => none

/-- How far a core has come in a call of `OwnedByMe`, of which it makes one at a time. -/
inductive Asking where
  | idle
  | checked (key : String)
  | reserved (key : String) (mine : Bool)
  deriving DecidableEq

def Asking.key : Asking → Option String
  | .idle => none
  | .checked key => some key
  | .reserved key _ => some key

/-- The cores by their instance ids. -/
structure Cluster where
  holder : String → Option String
  core : String → DeviceOwnership
  tick : String → String → Tick
  asking : String → Asking

def Cluster.initial : Cluster where
  holder _ := none
  core _ := newDeviceOwnership
  tick _ _ := .waiting
  asking _ := .idle

/-- The steps of the cores. The flags tell whether the store answers. -/
inductive Move where
  | ask (c : String) (managers : Managers) (id : AnyId)
  | askReserve (c : String) (ok : Bool)
  | askRecord (c : String)
  | tick (c key : String)
  | access (c key : String) (ok : Bool)
  | finish (c key : String)
  | expire (key : String)

namespace Cluster

variable (w : Cluster) (ownershipPrefix : String)

@[simps]
def setTick (c key : String) (t : Tick) : Cluster :=
  { w with tick := Function.update w.tick c (Function.update (w.tick c) key t) }

@[simps]
def setAsking (c : String) (a : Asking) : Cluster :=
  { w with asking := Function.update w.asking c a }

@[simps]
def setCore (c : String) (da : DeviceOwnership) : Cluster :=
  { w with core := Function.update w.core c da }

def records (c key : String) : Bool := ((w.core c).getOwnership key).2

def step (w : Cluster) : Move → Cluster
  | .ask c managers id =>
    match w.asking c, DeviceOwnership.cacheOwnershipKey managers id (w.core c) with
    | .idle, .ok key da =>
      if (da.getOwnership key).1 then w.setCore c da
      else (w.setCore c da).setAsking c (.checked key)
    | _, _ => w
  | .askReserve c ok =>
    match w.asking c with
    | .checked key =>
      let reserved := tryToReserveKey ownershipPrefix c key ok w.holder
      { w with holder := reserved.2 }.setAsking c (.reserved key reserved.1)
    | _ => w
  | .askRecord c =>
    match w.asking c with
    | .reserved key mine =>
      (w.setCore c (after (DeviceOwnership.setNewOwnership key mine) (w.core c))).setAsking c .idle
    | _ => w
  | .tick c key =>
    if w.tick c key = .waiting ∧ key ∈ (w.core c).deviceMap then
      -- the key is recorded, as it has a monitor
      w.setTick c key (if w.records c key then .renewing else .retrying)
    else
      w
  | .access c key ok =>
    match w.tick c key with
    | .renewing =>
      -- the reservation is renewed or not, which is only logged
      w.setTick c key (.renewed (w.holder (kvKey ownershipPrefix key) = some c))
    | .retrying =>
      let reserved := tryToReserveKey ownershipPrefix c key ok w.holder
      { w with holder := reserved.2 }.setTick c key
        (.reserved reserved.1 (reserved.2 (kvKey ownershipPrefix key) = some c))
    | _ => w
  | .finish c key =>
    match w.tick c key with
    | .renewed _ => w.setTick c key .waiting
    | .reserved mine _ =>
      (w.setCore c (after (DeviceOwnership.setOwnership key mine) (w.core c))).setTick c key
        .waiting
    | _ => w
  | .expire key =>
    { w with holder := Function.update w.holder (kvKey ownershipPrefix key) none }

/-! ### Confirmed and sole owners -/

/-- A tick that is about to end leaves the key recorded as owned only if the key held the id of
the core when the tick accessed the store. -/
def TicksConfirm : Prop :=
  ∀ {c key held}, (w.tick c key).held = some held →
    (step ownershipPrefix w (.finish c key)).records c key = true → held = true

/-- At most one core records a key as owned. -/
def OneOwner : Prop :=
  ∀ {c c' key}, w.records c key = true → w.records c' key = true → c = c'

/-- The core records the key as owned, or has reserved it and is about to record that. -/
def ReliesOn (c key : String) : Prop :=
  w.records c key = true ∨ w.asking c = .reserved key true ∨
    w.tick c key = .reserved true true

instance (c key : String) : Decidable (w.ReliesOn c key) := inferInstanceAs (Decidable (_ ∨ _))

/-- No lease expires on which its holder relies. -/
def Timely : Move → Prop
  | .expire key => ∀ c ∈ w.holder (kvKey ownershipPrefix key), ¬ w.ReliesOn c key
  | _ => True

/-! ### The invariant -/

/-- What a core relies on is in the store, and what is recorded stays so until its tick is done. -/
structure CoreBacked (c : String) : Prop where
  relied : ∀ {key}, w.ReliesOn c key → w.holder (kvKey ownershipPrefix key) = some c
  renewing : ∀ {key}, w.tick c key = .renewing → w.records c key = true
  renewed : ∀ {key held}, w.tick c key = .renewed held → held = true
  reserved : ∀ {key held}, w.tick c key = .reserved true held → held = true
  monitored : ∀ {key}, w.tick c key ≠ .waiting → key ∈ (w.core c).deviceMap
  asked : ∀ {key}, (w.asking c).key = some key → key ∉ (w.core c).deviceMap

def Backed : Prop := ∀ c, w.CoreBacked ownershipPrefix c

theorem backed_initial : initial.Backed ownershipPrefix := fun c => by
  constructor <;>
    simp [ReliesOn, initial, records, getOwnership, newDeviceOwnership, Asking.key]

variable {w ownershipPrefix} {c key : String}
  {instanceID id : String} {ok : Bool} {holder : String → Option String}
  {da da' : DeviceOwnership} {o : Ownership}

/-- Reserving does not take a key from its holder, and a key that is mine then holds my id. -/
theorem tryToReserveKey_keeps {key : String} (h : holder key = some c) :
    (tryToReserveKey ownershipPrefix instanceID id ok holder).2 key = some c := by
  unfold tryToReserveKey
  split_ifs
  · split
    · rename_i hfree
      have hne : key ≠ kvKey ownershipPrefix id := by
        rintro rfl
        rw [hfree] at h
        cases h
      exact (update_of_ne hne ..).trans h
    · exact h
  · exact h

theorem tryToReserveKey_mine
    (h : (tryToReserveKey ownershipPrefix instanceID id ok holder).1 = true) :
    (tryToReserveKey ownershipPrefix instanceID id ok holder).2 (kvKey ownershipPrefix id) =
      some instanceID := by
  unfold tryToReserveKey at h ⊢
  split_ifs at h ⊢ with hok
  · split at h
    · exact update_self ..
    · rename_i currOwner htaken
      exact htaken.trans (congrArg some (of_decide_eq_true h))

section

variable {w' : Cluster} (hw : w.Backed ownershipPrefix)
include hw

/-- A core sees of the others only that they reserve keys. -/
theorem Backed.of_core
    (hgrow : ∀ {key c'}, w.holder key = some c' → w'.holder key = some c')
    (hother : ∀ c', c' ≠ c → (w'.core c').deviceMap = (w.core c').deviceMap ∧
      w'.tick c' = w.tick c' ∧ w'.asking c' = w.asking c')
    (hc : w'.CoreBacked ownershipPrefix c) : w'.Backed ownershipPrefix := by
  intro c'
  by_cases h : c' = c
  · rwa [h]
  obtain ⟨hcore, htick, hasking⟩ := hother c' h
  obtain ⟨hrelied, hrenewing, hrenewed, hreserved, hmonitored, hasked⟩ := hw c'
  constructor <;> simp only [ReliesOn, records, getOwnership, hcore, htick, hasking] <;>
    first | assumption | exact fun h => hgrow (hrelied h)

theorem Backed.grow (hgrow : ∀ {key c}, w.holder key = some c → holder key = some c) :
    Backed { w with holder } ownershipPrefix :=
  fun c => { hw c with relied := fun h => hgrow ((hw c).relied h) }

theorem Backed.setAsking {a : Asking}
    (hrelied : ∀ {key}, a = .reserved key true → w.holder (kvKey ownershipPrefix key) = some c)
    (habsent : ∀ {key}, a.key = some key → key ∉ (w.core c).deviceMap) :
    (w.setAsking c a).Backed ownershipPrefix := by
  have hself : (w.setAsking c a).asking c = a := update_self ..
  refine hw.of_core id (fun c' hc => ⟨rfl, rfl, update_of_ne hc ..⟩) { hw c with
    relied := fun {key} h => ?_
    asked := fun h => habsent (hself ▸ h) }
  rcases h with h | h | h
  · exact (hw c).relied (.inl h)
  · exact hrelied (hself ▸ h)
  · exact (hw c).relied (.inr (.inr h))

theorem Backed.setTick (hkey : key ∈ (w.core c).deviceMap) {t : Tick}
    (hrenewing : t = .renewing → w.records c key = true)
    (hrenewed : ∀ {held}, t = .renewed held → held = true)
    (hreserved : ∀ {held}, t = .reserved true held →
      held = true ∧ w.holder (kvKey ownershipPrefix key) = some c) :
    (w.setTick c key t).Backed ownershipPrefix := by
  have hold : ∀ key', (w.setTick c key t).tick c key' = w.tick c key' ∨
      key' = key ∧ (w.setTick c key t).tick c key' = t := by
    intro key'
    rw [setTick_tick, update_self, update_apply]
    split_ifs with h
    · exact .inr ⟨h, rfl⟩
    · exact .inl rfl
  refine hw.of_core id (fun c' hc => ⟨rfl, update_of_ne hc .., rfl⟩) { hw c with
    relied := fun {key'} h => ?_
    renewing := fun {key'} h => ?_
    renewed := fun {key' held} h => ?_
    reserved := fun {key' held} h => ?_
    monitored := fun {key'} h => ?_ }
  · unfold ReliesOn at h
    obtain hsame | ⟨rfl, ht⟩ := hold key'
    · rw [hsame] at h
      exact (hw c).relied h
    · rcases h with h | h | h
      · exact (hw c).relied (.inl h)
      · exact (hw c).relied (.inr (.inl h))
      · exact (hreserved (ht ▸ h)).2
  all_goals obtain hsame | ⟨rfl, ht⟩ := hold key'
  · exact (hw c).renewing (hsame ▸ h)
  · exact hrenewing (ht ▸ h)
  · exact (hw c).renewed (hsame ▸ h)
  · exact hrenewed (ht ▸ h)
  · exact (hw c).reserved (hsame ▸ h)
  · exact (hreserved (ht ▸ h)).1
  · exact (hw c).monitored (hsame ▸ h)
  · exact hkey

theorem Backed.cache (m : GoMap String String) :
    (w.setCore c { w.core c with deviceToKeyMap := m }).Backed ownershipPrefix := by
  have hself := update_self c { w.core c with deviceToKeyMap := m } w.core
  refine hw.of_core id (fun c' hc => ⟨by rw [setCore_core, update_of_ne hc], rfl, rfl⟩) ?_
  obtain ⟨hrelied, hrenewing, hrenewed, hreserved, hmonitored, hasked⟩ := hw c
  constructor <;> simp only [ReliesOn, records, setCore_core, hself] <;> assumption

/-- A record that agrees with the store is written while no tick of the key is under way. -/
theorem Backed.setOwned {mine : Bool}
    (howned : ∀ key', (da.getOwnership key').2 =
      if key' = key then mine else ((w.core c).getOwnership key').2)
    (hmem : ∀ {key'}, key' ∈ da.deviceMap ↔ key' = key ∨ key' ∈ (w.core c).deviceMap)
    (hmine : mine = true → w.holder (kvKey ownershipPrefix key) = some c)
    (htick : w.tick c key = .waiting) (hasking : w.asking c = .idle ∨ key ∈ (w.core c).deviceMap) :
    (w.setCore c da).Backed ownershipPrefix := by
  have hself : (w.setCore c da).core c = da := update_self ..
  have hrecords : ∀ key', (w.setCore c da).records c key' =
      if key' = key then mine else w.records c key' := by
    intro key'
    rw [records, hself, howned]
    rfl
  refine hw.of_core id (fun c' hc => ⟨by rw [setCore_core, update_of_ne hc], rfl, rfl⟩) { hw c with
    relied := fun {key'} h => ?_
    renewing := fun {key'} h => ?_
    monitored := fun h => by
      rw [hself]
      exact hmem.mpr (.inr ((hw c).monitored h))
    asked := fun {key'} h => ?_ }
  · unfold ReliesOn at h
    rw [hrecords] at h
    split_ifs at h with hkey
    · subst hkey
      rcases h with h | h
      · exact hmine h
      · exact (hw c).relied (.inr h)
    · exact (hw c).relied h
  · have hne : key' ≠ key := by
      rintro rfl
      cases htick.symm.trans h
    rw [hrecords, if_neg hne]
    exact (hw c).renewing h
  · rw [hself, hmem]
    rintro (rfl | hkey')
    · -- a call of the core is about a key that is not recorded
      rcases hasking with hidle | hkey
      · rw [setCore_asking, hidle] at h
        cases h
      · exact (hw c).asked h hkey
    · exact (hw c).asked h hkey'

end

/-! ### Steps -/

theorem getOwnership_fst_iff (da : DeviceOwnership) (key : String) :
    (da.getOwnership key).1 = true ↔ key ∈ da.deviceMap := by
  unfold getOwnership
  rw [GoMap.mem_iff_exists_lookup]
  cases da.deviceMap.lookup key <;> simp

theorem Backed.ask (hw : w.Backed ownershipPrefix) (c : String) (managers : Managers)
    (id : AnyId) : (step ownershipPrefix w (.ask c managers id)).Backed ownershipPrefix := by
  simp only [step]
  rcases cacheOwnershipKey_cases managers id (w.core c) with
    ⟨e, he⟩ | ⟨key, m, hok, -⟩
  · rw [he]
    cases w.asking c <;> exact hw
  · rw [hok]
    cases hidle : w.asking c with
    | idle =>
      have hcached := hw.cache (c := c) m
      dsimp only
      split_ifs with hkey
      · exact hcached
      · refine hcached.setAsking nofun fun {key'} h hmem => ?_
        cases h
        rw [setCore_core, update_self] at hmem
        exact hkey ((getOwnership_fst_iff _ _).mpr hmem)
    | checked key' | reserved key' mine => exact hw

theorem Backed.askReserve (hw : w.Backed ownershipPrefix) (c : String) (ok : Bool) :
    (step ownershipPrefix w (.askReserve c ok)).Backed ownershipPrefix := by
  simp only [step]
  cases ha : w.asking c with
  | idle => exact hw
  | checked key =>
    refine (hw.grow tryToReserveKey_keeps).setAsking (fun h => ?_) (fun h => ?_)
    · obtain ⟨rfl, hmine⟩ := Asking.reserved.inj h
      exact tryToReserveKey_mine hmine
    · cases h
      exact (hw _).asked (by rw [ha]; rfl)
  | reserved key mine => exact hw

theorem getOwnership_of_insert (h : da'.deviceMap = da.deviceMap.insert key o) (key' : String) :
    (da'.getOwnership key').2 = if key' = key then o.owned else (da.getOwnership key').2 := by
  unfold getOwnership
  rw [h, GoMap.lookup_insert_eq]
  split_ifs <;> rfl

theorem mem_of_insert (h : da'.deviceMap = da.deviceMap.insert key o) {key' : String} :
    key' ∈ da'.deviceMap ↔ key' = key ∨ key' ∈ da.deviceMap := by
  rw [h, AList.mem_insert]

section

variable (hw : w.Backed ownershipPrefix)
include hw

theorem Backed.askRecord (c : String) :
    (step ownershipPrefix w (.askRecord c)).Backed ownershipPrefix := by
  simp only [step]
  cases ha : w.asking c with
  | idle | checked key => exact hw
  | reserved key mine =>
    have habsent : key ∉ (w.core c).deviceMap := (hw _).asked (by rw [ha]; rfl)
    have hwaiting : w.tick c key = .waiting := by
      by_contra h
      exact habsent ((hw _).monitored h)
    -- the call ends, and then the key is recorded
    have hidle : (w.setAsking c .idle).Backed ownershipPrefix := hw.setAsking nofun nofun
    refine hidle.setOwned (c := c) (getOwnership_of_insert rfl) (mem_of_insert rfl) ?_ hwaiting
      (.inl (update_self ..))
    rintro rfl
    exact (hw _).relied (.inr (.inl ha))

theorem Backed.startTick (c key : String) :
    (step ownershipPrefix w (.tick c key)).Backed ownershipPrefix := by
  simp only [step]
  split_ifs with h howned
  · exact hw.setTick h.2 (fun _ => howned) nofun nofun
  · exact hw.setTick h.2 nofun nofun nofun
  · exact hw

theorem Backed.access (c key : String) (ok : Bool) :
    (step ownershipPrefix w (.access c key ok)).Backed ownershipPrefix := by
  simp only [step]
  cases ht : w.tick c key with
  | waiting => exact hw
  | renewing =>
    have hholds := (hw _).relied (.inl ((hw _).renewing ht))
    refine hw.setTick ((hw _).monitored (by simp [ht])) nofun (fun h => ?_) nofun
    rw [← Tick.renewed.inj h]
    exact decide_eq_true hholds
  | retrying =>
    refine (hw.grow tryToReserveKey_keeps).setTick ((hw _).monitored (by simp [ht])) nofun nofun
      fun h => ?_
    obtain ⟨hmine, hheld⟩ := Tick.reserved.inj h
    have hholds := tryToReserveKey_mine hmine
    exact ⟨by rw [← hheld]; exact decide_eq_true hholds, hholds⟩
  | renewed held | reserved mine held => exact hw

theorem Backed.finish (c key : String) :
    (step ownershipPrefix w (.finish c key)).Backed ownershipPrefix := by
  simp only [step]
  cases ht : w.tick c key with
  | waiting | renewing | retrying => exact hw
  | renewed held => exact hw.setTick ((hw _).monitored (by simp [ht])) nofun nofun nofun
  | reserved mine held =>
    have hkey : key ∈ (w.core c).deviceMap := (hw _).monitored (by simp [ht])
    have hwaiting : (w.setTick c key .waiting).Backed ownershipPrefix :=
      hw.setTick hkey nofun nofun nofun
    obtain ⟨o, ho⟩ := GoMap.mem_iff_exists_lookup.mp hkey
    have hmap : (after (setOwnership key mine) (w.core c)).deviceMap =
        (w.core c).deviceMap.insert key { o with owned := mine } := by
      simp only [after, setOwnership, ho]
    refine hwaiting.setOwned (c := c) (getOwnership_of_insert hmap) (mem_of_insert hmap) ?_
      (by simp) (.inr hkey)
    rintro rfl
    refine (hw _).relied (.inr (.inr ?_))
    rw [ht, (hw _).reserved ht]

theorem Backed.expire {key : String} (htimely : w.Timely ownershipPrefix (.expire key)) :
    (step ownershipPrefix w (.expire key)).Backed ownershipPrefix := by
  refine fun c' => { hw c' with relied := fun {key'} h => ?_ }
  have hholds := (hw _).relied h
  have hne : key' ≠ key := by
    rintro rfl
    exact htimely c' hholds h
  exact (update_of_ne (fun he => hne (kvKey_injective _ he)) ..).trans hholds

theorem Backed.step {move : Move} (htimely : w.Timely ownershipPrefix move) :
    (step ownershipPrefix w move).Backed ownershipPrefix := by
  cases move with
  | ask c managers id => exact hw.ask c managers id
  | askReserve c ok => exact hw.askReserve c ok
  | askRecord c => exact hw.askRecord c
  | tick c key => exact hw.startTick c key
  | access c key ok => exact hw.access c key ok
  | finish c key => exact hw.finish c key
  | expire key => exact hw.expire htimely

/-! ### Runs -/

theorem Backed.ticksConfirm : w.TicksConfirm ownershipPrefix := by
  intro c key held hheld hrecords
  cases ht : w.tick c key with
  | waiting | renewing | retrying => simp [ht, Tick.held] at hheld
  | renewed held' =>
    rw [ht, Tick.held, Option.some_inj] at hheld
    rw [← hheld]
    exact (hw _).renewed ht
  | reserved mine held' =>
    rw [ht, Tick.held, Option.some_inj] at hheld
    have hkey : key ∈ (w.core c).deviceMap := (hw _).monitored (by simp [ht])
    obtain ⟨o, ho⟩ := GoMap.mem_iff_exists_lookup.mp hkey
    -- the key is recorded as it was reserved
    have hmine : mine = true := by
      simpa [Cluster.step, ht, records, setTick, setCore, after, setOwnership, ho,
        getOwnership] using hrecords
    subst hmine
    rw [← hheld]
    exact (hw _).reserved ht

theorem Backed.oneOwner : w.OneOwner := by
  intro c c' key h h'
  have hc := (hw _).relied (.inl h)
  rw [(hw _).relied (.inl h')] at hc
  exact (Option.some_inj.mp hc).symm

end

/-- As long as no lease expires on which its holder relies, every tick that leaves a key recorded
as owned has found the key with the id of the core, and no two cores record one key as owned. -/
theorem no_split_brain {moves : List Move}
    (hmoves : Along (step ownershipPrefix) (fun w => w.Timely ownershipPrefix) moves initial) :
    (run (step ownershipPrefix) moves initial).TicksConfirm ownershipPrefix ∧
      (run (step ownershipPrefix) moves initial).OneOwner := by
  have hbacked : (run (step ownershipPrefix) moves initial).Backed ownershipPrefix :=
    run_invariant (P := fun w => w.Backed ownershipPrefix) (fun _ _ htimely hw => hw.step htimely)
      hmoves (backed_initial ownershipPrefix)
  exact ⟨hbacked.ticksConfirm, hbacked.oneOwner⟩

/-! ### Two cores and an OLT -/

instance (w : Cluster) (ownershipPrefix : String) :
    ∀ move, Decidable (w.Timely ownershipPrefix move)
  | .expire _ => inferInstanceAs (Decidable (∀ _ ∈ _, _))
  | .ask _ _ _ | .askReserve _ _ | .askRecord _ | .tick _ _ | .access _ _ _ | .finish _ _ =>
    .isTrue trivial

def askForOlt (c : String) : List Move :=
  [.ask c ⟨fun id => some { id, root := true }, fun _ => none⟩ (.device "olt"),
    .askReserve c true, .askRecord c]

def oltTick (c : String) : List Move := [.tick c "olt", .access c "olt" true, .finish c "olt"]

/-- The lease of another device, which nobody holds, ends in between. -/
theorem no_split_brain_in_time :
    let w := run (step "voltha") (askForOlt "a" ++ [.expire "onu"] ++ askForOlt "b" ++
      oltTick "b" ++ oltTick "a") initial
    w.TicksConfirm "voltha" ∧ w.OneOwner :=
  no_split_brain (by decide +kernel)

/-- The lease of the first core expires, the second one takes the key, and a tick of the first one
fails to renew the reservation. -/
def lostLease : Cluster :=
  run (step "voltha") (askForOlt "a" ++ [.expire "olt"] ++ askForOlt "b" ++
    [.tick "a" "olt", .access "a" "olt" true]) initial

theorem both_cores_own_after_expiry :
    ¬ lostLease.TicksConfirm "voltha" ∧
      ¬ (step "voltha" lostLease (.finish "a" "olt")).OneOwner := by
  refine ⟨fun h => ?_, fun h => ?_⟩
  · have hheld : (lostLease.tick "a" "olt").held = some false := by decide +kernel
    exact Bool.false_ne_true (h hheld (by decide +kernel))
  · have hfirst : (step "voltha" lostLease (.finish "a" "olt")).records "a" "olt" = true := by
      decide +kernel
    exact absurd (h hfirst (by decide +kernel : records _ "b" "olt" = true)) (by decide)

end Cluster

end VolthaCore.Owners
