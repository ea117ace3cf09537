import VolthaCore.Lib.Runs
import VolthaCore.Manager.DeviceManager

/-! Requests to create root devices. A request looks for a stored root device with one of its
addresses and creates its device afterwards, so two requests with one address that both look
before either creates leave two devices with this address. -/

namespace VolthaCore.Manager

open Outcome Runs

/-- The devices, and the requests that have passed their check and have not created their device
yet. -/
structure Requests where
  devices : DeviceManager
  checked : GoMap ℕ ManagedDevice

/-- The two steps of a request; requests are told apart by a number. -/
inductive RequestStep where
  | check (request : ℕ) (device : ManagedDevice)
  | create (request : ℕ) (createDeviceID : String)

def Requests.step (s : Requests) : RequestStep → Requests
  | .check request device =>
    if request ∈ s.checked ∨ isParentDeviceExist s.devices device then s
    else { s with checked := s.checked.insert request device }
  | .create request createDeviceID =>
    match s.checked.lookup request with
    | none => s
    | some device =>
      { devices := createRootDevice createDeviceID device s.devices
        checked := s.checked.erase request }

/-- A request whose steps follow each other is a call of `createDevice`. -/
theorem run_request (m : DeviceManager) (request : ℕ) (createDeviceID : String)
    (device : ManagedDevice) :
    (run Requests.step [.check request device, .create request createDeviceID] ⟨m, ∅⟩).devices =
      after (createDevice createDeviceID device) m := by
  rw [after, createDevice_eq, run_cons, run_cons, run_nil]
  by_cases hexist : isParentDeviceExist m device = true
  · simp [Requests.step, hexist]
  · have hcheck : Requests.step ⟨m, ∅⟩ (.check request device) =
        ⟨m, AList.insert request device ∅⟩ := by
      rw [Requests.step, if_neg (by simpa using hexist)]
    rw [hcheck, if_neg hexist]
    simp only [Requests.step, AList.lookup_insert]

structure Address where
  hostAndPort : String
  macAddress : String
  deriving DecidableEq

def Address.clash (x y : Address) : Bool :=
  x.hostAndPort ≠ "" && x.hostAndPort = y.hostAndPort ||
    x.macAddress ≠ "" && x.macAddress = y.macAddress

def ManagedDevice.address (d : ManagedDevice) : Address := ⟨d.hostAndPort, d.macAddress⟩

def ManagedAgent.address (a : ManagedAgent) : Address := ⟨a.origin.hostAndPort, a.stored.macAddress⟩

/-- No two stored root devices share an address. -/
def OneRoot (m : DeviceManager) : Prop :=
  ∀ id a id' a', m.lookup id = some a → m.lookup id' = some a' → a.stored.root = true →
    a'.stored.root = true → a.address.clash a'.address = true → id = id'

/-- A request makes its check when no other one with one of its addresses is between its check and
its creation. -/
def Alone (s : Requests) : RequestStep → Prop
  | .check _ device => ∀ e ∈ s.checked.entries, device.address.clash e.2.address = false
  | .create _ _ => True

instance (s : Requests) : ∀ move, Decidable (Alone s move)
  | .check _ _ => inferInstanceAs (Decidable (∀ e ∈ s.checked.entries, _))
  | .create _ _ => .isTrue trivial

theorem Address.clash_comm (x y : Address) : x.clash y = y.clash x := by
  rw [Bool.eq_iff_iff]
  simp only [clash, Bool.or_eq_true, Bool.and_eq_true, decide_eq_true_eq]
  constructor
  · rintro (⟨hne, heq⟩ | ⟨hne, heq⟩)
    · exact .inl ⟨heq ▸ hne, heq.symm⟩
    · exact .inr ⟨heq ▸ hne, heq.symm⟩
  · rintro (⟨hne, heq⟩ | ⟨hne, heq⟩)
    · exact .inl ⟨heq ▸ hne, heq.symm⟩
    · exact .inr ⟨heq ▸ hne, heq.symm⟩

variable {m : DeviceManager} {device : ManagedDevice} {id createDeviceID : String}
  {a : ManagedAgent} {request : ℕ}

theorem isParentDeviceExist_eq_false (h : isParentDeviceExist m device = false)
    (ha : m.lookup id = some a) (hroot : a.stored.root = true) :
    device.address.clash a.address = false := by
  have hnone : ¬ (a.stored.root && device.address.clash a.address) = true :=
    List.any_eq_false.mp h ⟨id, a⟩ (GoMap.mem_entries_iff.mpr ha)
  simpa [hroot] using hnone

/-- The stored root devices and the requests between check and creation have different
addresses. -/
structure Requests.Apart (s : Requests) : Prop where
  oneRoot : OneRoot s.devices
  stored : ∀ request device, s.checked.lookup request = some device → ∀ id a,
    s.devices.lookup id = some a → a.stored.root = true → device.address.clash a.address = false
  checked : ∀ request device, s.checked.lookup request = some device → ∀ request' device',
    s.checked.lookup request' = some device' → request ≠ request' →
      device.address.clash device'.address = false

variable {s : Requests}

theorem Requests.Apart.check (h : s.Apart) (halone : Alone s (.check request device)) :
    (s.step (.check request device)).Apart := by
  unfold Requests.step
  dsimp only
  split_ifs with hno
  · exact h
  rw [not_or, Bool.not_eq_true] at hno
  have hother : ∀ r d, s.checked.lookup r = some d → device.address.clash d.address = false :=
    fun r d hd => halone ⟨r, d⟩ (GoMap.mem_entries_iff.mpr hd)
  refine ⟨h.oneRoot, ?_, ?_⟩
  · intro r d hd id a ha hroot
    rw [GoMap.lookup_insert_eq] at hd
    split_ifs at hd with hr
    · cases hd
      exact isParentDeviceExist_eq_false hno.2 ha hroot
    · exact h.stored r d hd id a ha hroot
  · intro r d hd r' d' hd' hne
    rw [GoMap.lookup_insert_eq] at hd hd'
    split_ifs at hd hd' with hr hr' hr'
    · exact absurd (hr.trans hr'.symm) hne
    · cases hd
      exact hother r' d' hd'
    · cases hd'
      rw [Address.clash_comm]
      exact hother r d hd
    · exact h.checked r d hd r' d' hd' hne

theorem lookup_createRootDevice
    (h : (createRootDevice createDeviceID device m).lookup id = some a) :
    m.lookup id = some a ∨
      id = (startDevice createDeviceID { device with root := true }).id ∧ id ∉ m ∧
        a.address = device.address := by
  rw [createRootDevice, lookup_addDevice] at h
  split_ifs at h with hid
  · cases h
    exact .inr ⟨hid.1, hid.2, rfl⟩
  · exact .inl h

theorem Requests.Apart.create (h : s.Apart) : (s.step (.create request createDeviceID)).Apart := by
  unfold Requests.step
  dsimp only
  cases hdevice : s.checked.lookup request with
  | none => exact h
  | some device =>
    have hlookup : ∀ {r d}, (s.checked.erase request).lookup r = some d →
        r ≠ request ∧ s.checked.lookup r = some d := by
      intro r d hd
      by_cases hr : r = request
      · rw [hr, AList.lookup_erase] at hd
        cases hd
      · rw [AList.lookup_erase_ne hr] at hd
        exact ⟨hr, hd⟩
    refine ⟨?_, ?_, ?_⟩
    · intro id a id' a' ha ha' hroot hroot' hclash
      rcases lookup_createRootDevice ha with ha | ⟨hid, -, haddr⟩
      · rcases lookup_createRootDevice ha' with ha' | ⟨-, -, haddr'⟩
        · exact h.oneRoot id a id' a' ha ha' hroot hroot' hclash
        · rw [haddr', Address.clash_comm, h.stored request device hdevice id a ha hroot] at hclash
          cases hclash
      · rcases lookup_createRootDevice ha' with ha' | ⟨hid', -, -⟩
        · rw [haddr, h.stored request device hdevice id' a' ha' hroot'] at hclash
          cases hclash
        · exact hid.trans hid'.symm
    · intro r d hd id a ha hroot
      obtain ⟨hne, hd⟩ := hlookup hd
      rcases lookup_createRootDevice ha with ha | ⟨-, -, haddr⟩
      · exact h.stored r d hd id a ha hroot
      · rw [haddr]
        exact h.checked r d hd request device hdevice hne
    · intro r d hd r' d' hd'
      exact h.checked r d (hlookup hd).2 r' d' (hlookup hd').2

theorem Requests.Apart.step {move : RequestStep} (h : s.Apart) (halone : Alone s move) :
    (s.step move).Apart := by
  cases move with
  | check request device => exact h.check halone
  | create request createDeviceID => exact h.create

/-- In a run in which no two requests with a common address are between check and creation at the
same time, no two stored root devices share an address. -/
theorem one_root {m : DeviceManager} (hstart : OneRoot m) {moves : List RequestStep}
    (hmoves : Along Requests.step Alone moves ⟨m, ∅⟩) :
    OneRoot (run Requests.step moves ⟨m, ∅⟩).devices :=
  (run_invariant (P := Requests.Apart) (fun _ _ hc h => h.step hc) hmoves
    ⟨hstart, fun _ _ h => (by cases h), fun _ _ h => (by cases h)⟩).oneRoot

def oltAt (hostAndPort : String) : ManagedDevice := { id := "", hostAndPort := hostAndPort }

theorem oneRoot_empty : OneRoot ∅ := by
  intro _ _ _ _ h
  cases h

/-- The second request with an address looks when the first one has created its device. -/
theorem one_root_of_three :
    OneRoot (run Requests.step [.check 0 (oltAt "10.0.0.1:9191"), .check 1 (oltAt "10.0.0.2:9191"),
      .create 0 "olt", .check 2 (oltAt "10.0.0.1:9191"), .create 1 "other", .create 2 "third"]
      ⟨∅, ∅⟩).devices :=
  one_root oneRoot_empty (by decide +kernel)

/-- Both requests look before either creates its device. -/
theorem two_roots :
    ¬ OneRoot (run Requests.step [.check 0 (oltAt "10.0.0.1:9191"),
      .check 1 (oltAt "10.0.0.1:9191"), .create 0 "olt", .create 1 "other"] ⟨∅, ∅⟩).devices := by
  intro h
  have hroot : ∀ id ∈ ["olt", "other"], ((run Requests.step [.check 0 (oltAt "10.0.0.1:9191"),
      .check 1 (oltAt "10.0.0.1:9191"), .create 0 "olt", .create 1 "other"]
      ⟨∅, ∅⟩).devices.lookup id).map (fun a => (a.stored.root, a.address)) =
        some (true, ⟨"10.0.0.1:9191", ""⟩) := by
    decide +kernel
  obtain ⟨a, ha, haroot⟩ := Option.map_eq_some_iff.mp (hroot "olt" (by simp))
  obtain ⟨b, hb, hbroot⟩ := Option.map_eq_some_iff.mp (hroot "other" (by simp))
  obtain ⟨haroot, haddr⟩ := Prod.mk.inj haroot
  obtain ⟨hbroot, hbaddr⟩ := Prod.mk.inj hbroot
  have hid := h _ a _ b ha hb haroot hbroot (by rw [haddr, hbaddr]; decide)
  exact absurd hid (by decide)

end VolthaCore.Manager
