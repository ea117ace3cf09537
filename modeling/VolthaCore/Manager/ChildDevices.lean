import Mathlib.Data.List.TakeWhile
import VolthaCore.Manager.DeviceManager
import VolthaCore.Owners.DeviceOwnership

/-! The children of a root device: how one of them is looked up, and which of them are reconciled
when their adapter restarts. -/

namespace VolthaCore.Manager

open Devices List

/-! ### Looking up a child -/

/-- The children of which the manager has an agent, in the order of the ports of the parent. -/
def childDevices (m : DeviceManager) (parent : Device) : List ManagedDevice :=
  (getAllChildDeviceIds parent).filterMap fun id => (m.lookup id).map ManagedAgent.getDevice

/-- The child meets each criterion that is given: its number with the port of its parent, and its
serial number. -/
def Meets (serialNumber : String) (onuID parentPortNo : Int64) (d : ManagedDevice) : Bool :=
  (0 < onuID → d.proxyAddress.any (·.onuId.toUInt64.toInt64 = onuID) ∧
      d.parentPortNo.toUInt64.toInt64 = parentPortNo) ∧
    (serialNumber ≠ "" → d.serialNumber = serialNumber)

/-- What a child that does not meet the criteria passes by: the low 32 bits of the numbers, or the
value that stands for a criterion that is not given. -/
def Mistaken (serialNumber : String) (onuID parentPortNo : Int64) (d : ManagedDevice) : Bool :=
  d.proxyAddress.any (·.onuId = onuID.toUInt64.toUInt32) ∧
      d.parentPortNo = parentPortNo.toUInt64.toUInt32 ∧
      (0 < onuID → serialNumber = "" ∨ d.serialNumber = serialNumber) ∨
    serialNumber = "" ∧ d.serialNumber = ""

section Lookup

variable {m : DeviceManager} {parentDeviceID serialNumber : String} {onuID parentPortNo : Int64}
  {d : ManagedDevice}

/-- The search among the devices themselves. -/
def searchChild (parentDeviceID serialNumber : String) (onuID parentPortNo : Int64) :
    List ManagedDevice → Except Err ManagedDevice
  | [] => .error (.status .notFound parentDeviceID)
  | d :: ds =>
    match isChild serialNumber onuID parentPortNo d with
    | .error e => .error e
    | .ok true => .ok d
    | .ok false => searchChild parentDeviceID serialNumber onuID parentPortNo ds

theorem getChildDevice_eq {parent : ManagedAgent}
    (hparent : m.lookup parentDeviceID = some parent) :
    getChildDevice m parentDeviceID serialNumber onuID parentPortNo =
      searchChild parentDeviceID serialNumber onuID parentPortNo
        (childDevices m parent.device) := by
  have hfind : ∀ ids, (findChild m serialNumber onuID parentPortNo ids >>= fun found =>
      found.elim (.error (.status .notFound parentDeviceID)) .ok) =
        searchChild parentDeviceID serialNumber onuID parentPortNo
          (ids.filterMap fun id => (m.lookup id).map ManagedAgent.getDevice) := by
    intro ids
    induction ids with
    | nil => rfl
    | cons id ids ih =>
      rw [findChild]
      cases hid : m.lookup id with
      | none => simpa [hid] using ih
      | some a =>
        dsimp only
        rw [filterMap_cons_some (by rw [hid]; rfl), searchChild]
        cases isChild serialNumber onuID parentPortNo a.getDevice with
        | error e => rfl
        | ok found =>
          cases found with
          | true => rfl
          | false => exact ih
  rw [childDevices, ← hfind, getChildDevice, hparent]
  by_cases hids : getAllChildDeviceIds parent.device = []
  · simp [hids, findChild, bind, Except.bind]
  · refine (if_neg (by simpa using hids)).trans (bind_congr fun found => ?_)
    cases found <;> rfl

/-- The comparison accepts what meets the criteria and what is mistaken for it. -/
theorem isChild_eq (hgiven : 0 < onuID ∨ serialNumber ≠ "") (hproxy : d.proxyAddress.isSome) :
    isChild serialNumber onuID parentPortNo d = .ok (Meets serialNumber onuID parentPortNo d ||
      Mistaken serialNumber onuID parentPortNo d) := by
  obtain ⟨proxyAddress, hp⟩ := Option.isSome_iff_exists.mp hproxy
  have hlow : proxyAddress.onuId.toUInt64.toInt64 = onuID →
      proxyAddress.onuId = onuID.toUInt64.toUInt32 := by rintro rfl; simp
  have hport : d.parentPortNo.toUInt64.toInt64 = parentPortNo →
      d.parentPortNo = parentPortNo.toUInt64.toUInt32 := by rintro rfl; simp
  unfold isChild Meets Mistaken
  rw [hp, Except.ok.injEq, Bool.eq_iff_iff]
  by_cases h0 : 0 < onuID
  · by_cases hs : serialNumber = ""
    · simp [h0, hs]
      tauto
    · simp [h0, hs]
      tauto
  · simp [h0, hgiven.resolve_left h0]
    tauto

theorem isChild_nilPointer (hproxy : d.proxyAddress = none) :
    isChild serialNumber onuID parentPortNo d = .error nilPointer := by rw [isChild, hproxy]

end Lookup

/-- The first child that meets the given criteria is returned exactly when it and those listed
before it have a proxy address and none of these is mistaken for it. -/
theorem getChildDevice_first_match_iff {m : DeviceManager} {parentDeviceID serialNumber : String}
    {onuID parentPortNo : Int64} {parent : ManagedAgent}
    (hparent : m.lookup parentDeviceID = some parent) (hgiven : 0 < onuID ∨ serialNumber ≠ "") :
    let children := childDevices m parent.device
    let meets := Meets serialNumber onuID parentPortNo
    getChildDevice m parentDeviceID serialNumber onuID parentPortNo =
        ((children.find? meets).elim (.error (.status .notFound parentDeviceID)) .ok) ↔
      (∀ d, children.find? meets = some d → d.proxyAddress.isSome) ∧
        ∀ d ∈ children.takeWhile (!meets ·), d.proxyAddress.isSome ∧
          Mistaken serialNumber onuID parentPortNo d = false := by
  intro children meets
  rw [getChildDevice_eq hparent]
  change searchChild _ _ _ _ children = _ ↔ _
  induction children with
  | nil => simp [searchChild]
  | cons d ds ih =>
    rw [searchChild, find?_cons, takeWhile_cons]
    cases hproxy : d.proxyAddress with
    | none =>
      rw [isChild_nilPointer hproxy]
      cases hmeets : meets d with
      | true => simp [hproxy]
      | false =>
        have hne : ∀ found : Option ManagedDevice, Except.error nilPointer ≠
            found.elim (.error (.status .notFound parentDeviceID)) Except.ok := by
          rintro (_ | d) <;> simp [nilPointer]
        simp [hproxy, hne]
    | some proxyAddress =>
      rw [isChild_eq hgiven (by rw [hproxy]; rfl)]
      cases hmeets : meets d with
      | true =>
        rw [show Meets serialNumber onuID parentPortNo d = true from hmeets]
        simp [hproxy]
      | false =>
        rw [show Meets serialNumber onuID parentPortNo d = false from hmeets]
        cases hmistaken : Mistaken serialNumber onuID parentPortNo d with
        | false => simpa [hproxy, hmistaken] using ih
        | true =>
          have hne : Except.ok d ≠ (ds.find? meets).elim
              (.error (Err.status .notFound parentDeviceID)) Except.ok := by
            cases hfind : ds.find? meets with
            | none => simp
            | some x =>
              have hx := find?_some hfind
              rintro ⟨⟩
              simp [hmeets] at hx
          simp [hmistaken, hne]

def oneChild (id serialNumber : String) (onuId : UInt32) : ManagedAgent :=
  { SyncedAgent.wrote { id, serialNumber } with
    origin := { parentPortNo := 1, proxyAddress := some ⟨"olt", id, 1, onuId⟩ } }

/-- A parent with two children, of which the second one has no serial number. -/
def unnamedChild : DeviceManager :=
  (((∅ : DeviceManager).insert "olt" { SyncedAgent.wrote { id := "olt", ports :=
      [{ portNo := 1, type := .ponOlt, peers := [⟨"onu1", 1⟩, ⟨"onu2", 1⟩] }] } with
        origin := {} }).insert "onu1" (oneChild "onu1" "A" 6)).insert "onu2" (oneChild "onu2" "" 7)

theorem getChildDevice_by_number :
    (getChildDevice unnamedChild "olt" "" 7 1).toOption.map (·.id) = some "onu2" := by
  rw [(getChildDevice_first_match_iff (m := unnamedChild) rfl (.inl (by decide))).mpr
    (by decide)]
  decide

/-- The child passes for any number, since no serial number was given. -/
theorem getChildDevice_by_wrong_number :
    (getChildDevice unnamedChild "olt" "" 5 1).toOption.map (·.proxyAddress.map (·.onuId)) =
      some (some 7) := by
  decide

/-! ### Reconciling the devices of an adapter -/

def isOkToReconcile (device : Device) : Bool :=
  device.adminState ≠ .preprovisioned ∧ device.adminState ≠ .deleted

/-- The loop over the peers of all ports of a root device, which ends at the first child of another
adapter. -/
def reconcileChildren (getDeviceFromModel : String → Option Device) (adapterID : String) :
    List String → List Device
  | [] => []
  | deviceID :: ids =>
    match getDeviceFromModel deviceID with
    | none => reconcileChildren getDeviceFromModel adapterID ids
    | some childDevice =>
      if childDevice.adapter = adapterID then
        (if isOkToReconcile childDevice then [childDevice] else []) ++
          reconcileChildren getDeviceFromModel adapterID ids
      else []

def reconcileRoot (getDeviceFromModel : String → Option Device) (adapterID rootDeviceID : String) :
    List Device :=
  match getDeviceFromModel rootDeviceID with
  | none => []
  | some rootDevice =>
    if rootDevice.adapter = adapterID then
      if isOkToReconcile rootDevice then [rootDevice] else []
    else reconcileChildren getDeviceFromModel adapterID (getAllChildDeviceIds rootDevice)

/-- The devices to which a reconcile request is sent, and the error that is returned after `answer`
has come for each of them. -/
def adapterRestarted (getDeviceFromModel : String → Option Device)
    (order : VisitOrder (Σ _ : String, Owners.Ownership)) (da : Owners.DeviceOwnership)
    (adapterID : String) (answer : Device → Option Err) : List Device × Except Err Unit :=
  let requests := (da.getAllDeviceIdsOwnedByMe order).flatMap
    (reconcileRoot getDeviceFromModel adapterID)
  (requests, awaitResponses (requests.map answer))

section Restart

variable (getDeviceFromModel : String → Option Device) (a : String)

def childrenOf (root : Device) : List Device :=
  (getAllChildDeviceIds root).filterMap getDeviceFromModel

/-- The devices that are looked at for a root: itself when it is of the adapter, and otherwise its
children up to the first one of another adapter. -/
def reached (root : Device) : List Device :=
  if root.adapter = a then [root]
  else (childrenOf getDeviceFromModel root).takeWhile (·.adapter = a)

theorem reconcileRoot_eq (id : String) : reconcileRoot getDeviceFromModel a id =
    ((getDeviceFromModel id).elim [] (reached getDeviceFromModel a)).filter isOkToReconcile := by
  have hchildren : ∀ ids, reconcileChildren getDeviceFromModel a ids =
      ((ids.filterMap getDeviceFromModel).takeWhile (·.adapter = a)).filter isOkToReconcile := by
    intro ids
    induction ids with
    | nil => rfl
    | cons id ids ih =>
      rw [reconcileChildren]
      cases hid : getDeviceFromModel id with
      | none => simpa [hid] using ih
      | some c =>
        rw [filterMap_cons_some hid, takeWhile_cons]
        by_cases hc : c.adapter = a <;> by_cases hok : isOkToReconcile c <;> simp [hc, hok, ih]
  rw [reconcileRoot]
  cases getDeviceFromModel id with
  | none => rfl
  | some root =>
    by_cases hroot : root.adapter = a
    · by_cases hok : isOkToReconcile root <;> simp [reached, hroot, hok]
    · simp [reached, hroot, hchildren, childrenOf]

end Restart

/-- Each device of the adapter gets one request exactly when no device is reached twice and every
child of the adapter is reached. -/
theorem adapterRestarted_exact_iff {getDeviceFromModel : String → Option Device}
    (hmodel : ∀ id d, getDeviceFromModel id = some d → d.id = id)
    (order : VisitOrder (Σ _ : String, Owners.Ownership)) {da : Owners.DeviceOwnership}
    (hda : ∀ e ∈ da.deviceMap.entries, e.2.id = e.1) (a : String) (answer : Device → Option Err) :
    let requests := (adapterRestarted getDeviceFromModel order da a answer).1
    let roots := (da.getAllDeviceIdsOwnedByMe order).filterMap getDeviceFromModel
    let asked := fun root => (reached getDeviceFromModel a root).filter isOkToReconcile
    (requests.Nodup ∧ ∀ d, d ∈ requests ↔ d.adapter = a ∧ isOkToReconcile d ∧
        (d ∈ roots ∨ ∃ root ∈ roots, d ∈ childrenOf getDeviceFromModel root)) ↔
      (∀ root ∈ roots, (asked root).Nodup ∧
        ∀ root' ∈ roots, root ≠ root' → ∀ d ∈ asked root, d ∉ asked root') ∧
      ∀ root ∈ roots, ∀ c ∈ childrenOf getDeviceFromModel root, c.adapter = a →
        isOkToReconcile c → ∃ root' ∈ roots, c ∈ asked root' := by
  intro requests roots asked
  have hrequests : requests = roots.flatMap asked := by
    change (da.getAllDeviceIdsOwnedByMe order).flatMap (reconcileRoot getDeviceFromModel a) = _
    simp only [roots]
    induction da.getAllDeviceIdsOwnedByMe order with
    | nil => rfl
    | cons id ids ih =>
      rw [flatMap_cons, ih, reconcileRoot_eq]
      cases hid : getDeviceFromModel id with
      | none => simp [hid]
      | some root => simp [hid, asked]
  have hroots : roots.Nodup := by
    have hkeys : ((order.visit da.deviceMap.entries).map fun e => e.2.id).Nodup := by
      rw [map_congr_left fun e he => hda e ((order.perm _).mem_iff.mp he)]
      exact ((order.perm _).map _).nodup_iff.mpr da.deviceMap.nodupKeys
    refine (hkeys.sublist (filter_sublist.map _)).filterMap fun id id' d hd hd' => ?_
    exact (hmodel id d hd).symm.trans (hmodel id' d hd')
  have hsound : ∀ d, d ∈ requests → d.adapter = a ∧ isOkToReconcile d ∧
      (d ∈ roots ∨ ∃ root ∈ roots, d ∈ childrenOf getDeviceFromModel root) := by
    intro d hd
    obtain ⟨root, hroot, hd⟩ := mem_flatMap.mp (hrequests ▸ hd)
    obtain ⟨hd, hok⟩ := mem_filter.mp hd
    unfold reached at hd
    split_ifs at hd with hadapter
    · obtain rfl := mem_singleton.mp hd
      exact ⟨hadapter, hok, .inl hroot⟩
    · exact ⟨by simpa using mem_takeWhile_imp hd, hok, .inr ⟨root, hroot,
        (takeWhile_sublist _).subset hd⟩⟩
  have hnodup : requests.Nodup ↔ ∀ root ∈ roots, (asked root).Nodup ∧
      ∀ root' ∈ roots, root ≠ root' → ∀ d ∈ asked root, d ∉ asked root' := by
    rw [hrequests, nodup_flatMap]
    constructor
    · rintro ⟨hself, hpair⟩ root hroot
      have hsymm : Std.Symm (Function.onFun Disjoint asked) := ⟨fun _ _ h _ hd hd' => h hd' hd⟩
      exact ⟨hself root hroot, fun root' hroot' hne => hpair.forall hroot hroot' hne⟩
    · intro h
      exact ⟨fun root hroot => (h root hroot).1,
        hroots.pairwise_of_forall_ne fun root hroot root' hroot' => (h root hroot).2 root' hroot'⟩
  rw [hnodup]
  refine and_congr_right fun _ => ⟨fun h root hroot c hc hca hok => ?_, fun h d => ⟨hsound d, ?_⟩⟩
  · exact mem_flatMap.mp (hrequests ▸ (h c).mpr ⟨hca, hok, .inr ⟨root, hroot, hc⟩⟩)
  · rintro ⟨hadapter, hok, hd | ⟨root, hroot, hd⟩⟩ <;> rw [hrequests, mem_flatMap]
    · exact ⟨d, hd, by simp [asked, reached, hadapter, hok]⟩
    · exact h root hroot d hd hadapter hok

/-- A root device with two children of different adapters. -/
def mixedModel (id : String) : Option Device :=
  if id = "olt" then some { id, adapter := "olt", adminState := .enabled, ports :=
    [{ portNo := 1, type := .ponOlt, peers := [⟨"onu1", 1⟩, ⟨"onu2", 1⟩] }] }
  else if id = "onu1" then some { id, adapter := "onu", adminState := .enabled }
  else if id = "onu2" then some { id, adapter := "other", adminState := .enabled }
  else none

def oneRoot : Owners.DeviceOwnership :=
  { deviceMap := (∅ : GoMap String Owners.Ownership).insert "olt" ⟨"olt", true, 0⟩ }

theorem adapterRestarted_first_child :
    (adapterRestarted mixedModel .listed oneRoot "onu" fun _ => none).1.Nodup := by
  have hmodel : ∀ id d, mixedModel id = some d → d.id = id := by
    intro id d h
    unfold mixedModel at h
    grind
  have hroot : ∀ e ∈ oneRoot.deviceMap.entries, e.2.id = e.1 := by decide
  exact ((adapterRestarted_exact_iff hmodel .listed hroot "onu" fun _ => none).mpr (by decide)).1

/-- The second child is of the restarted adapter, and no request is sent to it. -/
theorem adapterRestarted_skips_child :
    let second : Device := { id := "onu2", adapter := "other", adminState := .enabled }
    mixedModel "onu2" = some second ∧ isOkToReconcile second ∧
      (adapterRestarted mixedModel .listed oneRoot "other" fun _ => none).1 = [] := by
  decide

end VolthaCore.Manager
