import VolthaCore.Devices.NoLostUpdates
import VolthaCore.Manager.PeerPorts

/-! The children that an OLT detects. Whether a child exists is looked up among the peers of the
ports of its parent, where it is entered when it adds its own port. A child that is detected again
before that is created again. -/

namespace VolthaCore.Manager

open Devices Outcome Runs DeviceCall

/-- A detection with the registered device types and the id for a new device, an added port, and
the activation of a device that a detection leaves to a goroutine. -/
inductive Message where
  | childDeviceDetected (deviceTypes : List RegisteredType) (createDeviceID : String)
      (d : Detection)
  | addPort (call : AddPort)
  | enableDevice (env : DeviceEnv) (deviceID : String)

def Message.step (m : DeviceManager) : Message → DeviceManager
  | .childDeviceDetected deviceTypes createDeviceID d =>
    after (Manager.childDeviceDetected deviceTypes createDeviceID d) m
  | .addPort call => call.step m
  | .enableDevice env deviceID => after (onAgent deviceID (DeviceCall.enableDevice.run env)) m

structure Onu where
  parentId : String
  parentPortNo : UInt32
  onuId : UInt32
  serialNumber : String
  deriving DecidableEq

/-- The ONU for which a child device is stored. -/
def ManagedAgent.onu (a : ManagedAgent) : Option Onu :=
  a.origin.proxyAddress.map fun proxyAddress =>
    ⟨a.stored.parentId, a.origin.parentPortNo, proxyAddress.onuId, a.stored.serialNumber⟩

def Detection.onu (d : Detection) : Onu :=
  ⟨d.parentDeviceID, d.parentPortNo.toUInt64.toUInt32, d.onuID.toUInt64.toUInt32, d.serialNumber⟩

/-- No two child devices are stored for one ONU. -/
def OneChild (m : DeviceManager) : Prop :=
  ∀ id a id' a', m.lookup id = some a → m.lookup id' = some a' → a.onu ≠ none → a.onu = a'.onu →
    id = id'

/-- A child that is detected again is among the peers of the ports of its parent. -/
def Listed (m : DeviceManager) : Message → Prop
  | .childDeviceDetected _ _ d => ∀ e ∈ m.entries, e.2.onu = some d.onu →
      ∃ port ∈ storedPorts m d.parentDeviceID, ∃ peer ∈ port.peers, peer.deviceId = e.1
  | _ => True

instance (m : DeviceManager) : ∀ message, Decidable (Listed m message)
  | .childDeviceDetected _ _ _ => inferInstanceAs (Decidable (∀ e ∈ m.entries, _))
  | .addPort _ | .enableDevice _ _ => .isTrue trivial

variable {m : DeviceManager}

/-! ### Operations of agents -/

variable {call : DeviceCall} {m' : DeviceManager} {a : ManagedAgent} {d : Detection} {id : String}

/-- An operation that assigns neither the parent nor the serial number leaves the ONU the same. -/
theorem onu_after_run (hparent : .parentId ∉ call.assigns) (hserial : .serialNumber ∉ call.assigns)
    (env : DeviceEnv) (a : ManagedAgent) :
    ({ a with toSyncedAgent := after (call.run env) a.toSyncedAgent } : ManagedAgent).onu =
      a.onu := by
  have hedits := (plan_sound env call a.device).edits
  have hfields : (after (call.run env) a.toSyncedAgent).stored.parentId = a.stored.parentId ∧
      (after (call.run env) a.toSyncedAgent).stored.serialNumber = a.stored.serialNumber := by
    change (after ((call.plan env a.device).execute env) a.toSyncedAgent).stored.parentId = _ ∧
      (after ((call.plan env a.device).execute env) a.toSyncedAgent).stored.serialNumber = _
    rw [a.agree]
    obtain h | ⟨_, ⟨edited, storeFailure, answer, hplan, rfl⟩ | ⟨pm, -, rfl⟩, h⟩ :=
      after_execute env (call.plan env a.device) a.toSyncedAgent <;> rw [h]
    · rw [a.agree]
      exact ⟨rfl, rfl⟩
    · rw [hplan] at hedits
      exact ⟨(hedits.same hparent).symm, (hedits.same hserial).symm⟩
    · exact ⟨rfl, rfl⟩
  unfold ManagedAgent.onu
  rw [hfields.1, hfields.2]

/-- The devices are the same, each for the same ONU. -/
def SameOnus (m m' : DeviceManager) : Prop :=
  ∀ id, (m'.lookup id).map ManagedAgent.onu = (m.lookup id).map ManagedAgent.onu

theorem SameOnus.onAgent (h : SameOnus m m') (hparent : .parentId ∉ call.assigns)
    (hserial : .serialNumber ∉ call.assigns) (env : DeviceEnv) (deviceID : String) :
    SameOnus m (after (onAgent deviceID (call.run env)) m') := by
  intro id
  rw [lookup_onAgent, ← h id]
  split_ifs
  · rw [Option.map_map]
    congr 1
    funext a
    exact onu_after_run hparent hserial env a
  · rfl

theorem SameOnus.addPort (c : AddPort) : SameOnus m (c.step m) := by
  refine Triple.after (P := SameOnus m) (R := SameOnus m) ?_ fun _ => rfl
  refine Triple.bind (Q := fun _ => SameOnus m) ?_ fun _ => Triple.bind (Q := fun _ => SameOnus m)
    ?_ fun _ => ?_
  · exact triple_onAgent fun m' h => h.onAgent (by simp [assigns])
      (by simp [assigns]) _ _
  · exact triple_addPeers (fun peer _ env m' h => h.onAgent (by simp [assigns])
      (by simp [assigns]) _ _) 1
  · intro m' h
    rw [bind_apply, getDevice]
    cases m'.lookup c.deviceID <;> exact h

theorem OneChild.of_same (h : OneChild m) (hsame : SameOnus m m') : OneChild m' := by
  intro id a id' a' ha ha' hne heq
  have hid := hsame id
  have hid' := hsame id'
  rw [ha, Option.map_some] at hid
  rw [ha', Option.map_some] at hid'
  obtain ⟨b, hb, hbonu⟩ := Option.map_eq_some_iff.mp hid.symm
  obtain ⟨b', hb', hbonu'⟩ := Option.map_eq_some_iff.mp hid'.symm
  exact h id b id' b' hb hb' (hbonu ▸ hne) (hbonu.trans (heq.trans hbonu'.symm))

/-! ### Detections -/

/-- A device of the ONU is found by the search. -/
theorem isChild_of_onu (h : a.onu = some d.onu) :
    isChild d.serialNumber d.onuID d.parentPortNo a.getDevice = .ok true := by
  obtain ⟨proxyAddress, hproxy, honu⟩ := Option.map_eq_some_iff.mp h
  obtain ⟨-, hport, honuId, hserial⟩ := Onu.mk.inj honu
  rw [a.agree] at hserial
  have hproxy' : a.getDevice.proxyAddress = some proxyAddress := hproxy
  have hport' : a.getDevice.parentPortNo = d.parentPortNo.toUInt64.toUInt32 := hport
  have hserial' : a.getDevice.serialNumber = d.serialNumber := hserial
  simp [isChild, hproxy', hport', hserial', honuId]

/-- A search that meets a device of the ONU ends with a device or panics. -/
theorem findChild_of_mem {ids : List String} (hid : id ∈ ids) (ha : m.lookup id = some a)
    (honu : a.onu = some d.onu) :
    (∃ device, findChild m d.serialNumber d.onuID d.parentPortNo ids = .ok (some device)) ∨
      findChild m d.serialNumber d.onuID d.parentPortNo ids = .error nilPointer := by
  induction ids with
  | nil => simp at hid
  | cons first ids ih =>
    unfold findChild
    rcases List.mem_cons.mp hid with rfl | hid
    · rw [ha]
      dsimp only
      rw [isChild_of_onu honu]
      exact .inl ⟨_, rfl⟩
    · cases hfirst : m.lookup first with
      | none => exact ih hid
      | some b =>
        cases hchild : isChild d.serialNumber d.onuID d.parentPortNo b.getDevice with
        | error e =>
          have he : e = nilPointer := by
            unfold isChild at hchild
            split at hchild
            · exact (Except.error.inj hchild).symm
            · cases hchild
          dsimp only
          rw [hchild, he]
          exact .inr rfl
        | ok found =>
          dsimp only
          rw [hchild]
          cases found with
          | true => exact .inl ⟨_, rfl⟩
          | false => exact ih hid

/-- A search among the peers of a parent, one of which is of the ONU. -/
theorem getChildDevice_of_mem {parent : ManagedAgent}
    (hparent : m.lookup d.parentDeviceID = some parent)
    (hid : id ∈ getAllChildDeviceIds parent.device) (ha : m.lookup id = some a)
    (honu : a.onu = some d.onu) :
    (∃ device, getChildDevice m d.parentDeviceID d.serialNumber d.onuID d.parentPortNo =
        .ok device) ∨
      getChildDevice m d.parentDeviceID d.serialNumber d.onuID d.parentPortNo =
        .error nilPointer := by
  have hne : ¬ (getAllChildDeviceIds parent.device).isEmpty := by
    rw [List.isEmpty_iff]
    exact List.ne_nil_of_mem hid
  unfold getChildDevice
  rw [hparent]
  dsimp only
  rw [if_neg hne]
  rcases findChild_of_mem hid ha honu with ⟨device, h⟩ | h <;> rw [h]
  · exact .inl ⟨device, rfl⟩
  · exact .inr rfl

/-- A detection changes nothing, or it creates a device for an ONU that has none among the peers of
its parent. -/
theorem childDeviceDetected_cases (deviceTypes : List RegisteredType) (createDeviceID : String)
    (d : Detection) (m : DeviceManager) :
    after (childDeviceDetected deviceTypes createDeviceID d) m = m ∨
      ∃ parent deviceType, m.lookup d.parentDeviceID = some parent ∧
        (∀ id ∈ getAllChildDeviceIds parent.device, ∀ a, m.lookup id = some a →
          a.onu ≠ some d.onu) ∧
        after (childDeviceDetected deviceTypes createDeviceID d) m =
          addDevice (startDevice createDeviceID (d.childDevice deviceType parent.device.type))
            m := by
  unfold childDeviceDetected
  dsimp only
  generalize (if d.deviceType = "" ∧ d.vendorID ≠ "" then _ else _) = deviceType
  split_ifs with htype
  · exact .inl rfl
  unfold after detectChild
  cases hparent : m.lookup d.parentDeviceID with
  | none => exact .inl rfl
  | some parent =>
    dsimp only
    cases hfound : getChildDevice m d.parentDeviceID d.serialNumber d.onuID d.parentPortNo with
    | ok device => exact .inl rfl
    | error e =>
      have hnone (hcrash : e ≠ nilPointer) : ∀ id ∈ getAllChildDeviceIds parent.device, ∀ a,
          m.lookup id = some a → a.onu ≠ some d.onu := by
        intro id hid a ha honu
        rcases getChildDevice_of_mem hparent hid ha honu with ⟨device, h⟩ | h
        · rw [hfound] at h
          cases h
        · rw [hfound] at h
          exact hcrash (Except.error.inj h)
      cases e with
      | crash reason => exact .inl rfl
      | status code desc | plain text => exact .inr ⟨parent, deviceType, rfl, hnone nofun, rfl⟩

theorem onu_startDevice (createDeviceID deviceType parentType : String) (d : Detection) :
    ({ SyncedAgent.wrote (startDevice createDeviceID (d.childDevice deviceType parentType)).toDevice
      with origin := (startDevice createDeviceID
        (d.childDevice deviceType parentType)).toOrigin } : ManagedAgent).onu = some d.onu := rfl

/-- A device for an ONU without one is added. -/
theorem OneChild.addDevice {device : ManagedDevice} (h : OneChild m)
    (hnew : ∀ id a, m.lookup id = some a → a.onu ≠ ({ SyncedAgent.wrote device.toDevice with
      origin := device.toOrigin } : ManagedAgent).onu) : OneChild (addDevice device m) := by
  intro id a id' a' ha ha' hne heq
  rw [lookup_addDevice] at ha ha'
  split_ifs at ha ha' with hid hid' hid'
  · exact hid.1.trans hid'.1.symm
  · cases ha
    exact absurd heq.symm (hnew id' a' ha')
  · cases ha'
    exact absurd heq (hnew id a ha)
  · exact h id a id' a' ha ha' hne heq

theorem OneChild.step {message : Message} (h : OneChild m) (hlisted : Listed m message) :
    OneChild (message.step m) := by
  cases message with
  | childDeviceDetected deviceTypes createDeviceID d =>
    change OneChild (after (Manager.childDeviceDetected deviceTypes createDeviceID d) m)
    rcases childDeviceDetected_cases deviceTypes createDeviceID d m with
      hsame | ⟨parent, deviceType, hparent, hnone, hafter⟩
    · rwa [hsame]
    · rw [hafter]
      refine h.addDevice fun id a ha honu => ?_
      rw [onu_startDevice] at honu
      -- a device of the ONU would be among the peers, where the search finds it
      obtain ⟨port, hport, peer, hpeer, rfl⟩ :=
        hlisted ⟨id, a⟩ (GoMap.mem_entries_iff.mpr ha) honu
      rw [storedPorts, hparent, Option.map_some, Option.getD_some, stored_ports] at hport
      exact hnone _ (List.mem_flatMap.mpr ⟨port, hport, List.mem_map_of_mem hpeer⟩) a ha honu
  | addPort call => exact h.of_same (.addPort call)
  | enableDevice env deviceID =>
    exact h.of_same (SameOnus.onAgent (fun _ => rfl) (by simp [assigns])
      (by simp [assigns]) env deviceID)

/-- In a run in which a child is detected again only when its port has been added, there is one
child device for each ONU. -/
theorem one_child {messages : List Message} (hstart : OneChild m)
    (hmessages : Along Message.step Listed messages m) :
    OneChild (run Message.step messages m) :=
  run_invariant (P := OneChild) (fun _ _ hc h => h.step hc) hmessages hstart

def oltWithPort : DeviceManager :=
  addDevice { id := "olt", root := true, ports := [ponPort] } ∅

def detection : Detection where
  parentDeviceID := "olt"
  parentPortNo := 1
  deviceType := "onu"
  serialNumber := "serial"
  onuID := 1

theorem oneChild_oltWithPort : OneChild oltWithPort := by
  intro id a id' a' ha ha' hne heq
  have hid : ∀ {id a}, oltWithPort.lookup id = some a → id = "olt" := by
    intro id a ha
    rw [oltWithPort, lookup_addDevice] at ha
    split_ifs at ha with hid
    · exact hid.1
    · cases ha
  exact (hid ha).trans (hid ha').symm

/-- The ONU is detected again when it has added its port. -/
theorem one_child_detected_twice :
    OneChild (run Message.step [.childDeviceDetected [] "onu" detection,
      .addPort (willingAddPort "onu" onuPort), .childDeviceDetected [] "other" detection]
      oltWithPort) :=
  one_child oneChild_oltWithPort (by decide +kernel)

/-- The ONU is detected again before it has added its port. -/
theorem two_children :
    ¬ OneChild (run Message.step [.childDeviceDetected [] "onu" detection,
      .childDeviceDetected [] "other" detection] oltWithPort) := by
  intro h
  have honu : ∀ id ∈ ["onu", "other"], ((run Message.step
      [.childDeviceDetected [] "onu" detection, .childDeviceDetected [] "other" detection]
      oltWithPort).lookup id).map ManagedAgent.onu = some (some detection.onu) := by
    decide +kernel
  obtain ⟨a, ha, haonu⟩ := Option.map_eq_some_iff.mp (honu "onu" (by simp))
  obtain ⟨b, hb, hbonu⟩ := Option.map_eq_some_iff.mp (honu "other" (by simp))
  have hid := h _ a _ b ha hb (by simp [haonu]) (haonu.trans hbonu.symm)
  exact absurd hid (by decide)

end VolthaCore.Manager
