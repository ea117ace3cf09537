import VolthaCore.Devices.Messages
import VolthaCore.Errors
import VolthaCore.Lib.GoMap
import VolthaCore.Lib.Outcome

/-! The ownership of devices (`device_ownership.go`). An ownership key is the id of a root
device. A core records for each key that it was asked for whether it owns it, and runs a monitor
for the key that renews the reservation in the key-value store or tries again to get it. A monitor
ends when its channel is closed or when it takes the value that `Stop` sends. A second map has the
keys of the ids that were asked for. -/

namespace VolthaCore.Owners

open Devices

structure Ownership where
  id : String
  owned : Bool
  chnl : ℕ
  deriving DecidableEq

/-- The state of a `DeviceOwnership`. A monitor is known by the number of its channel: `channels`
of them were made, `closes` counts how often each was closed, and `exited` has the monitors that
took the value in the exit channel, which holds one at most. -/
structure DeviceOwnership where
  deviceMap : GoMap String Ownership := ∅
  deviceToKeyMap : GoMap String String := ∅
  channels : ℕ := 0
  closes : ℕ → ℕ := fun _ => 0
  exited : ℕ → Bool := fun _ => false
  exitChannel : Bool := false

def newDeviceOwnership : DeviceOwnership := {}

/-- The `id` of a call: a device, a logical device or anything else. -/
inductive AnyId where
  | nil
  | device (id : String)
  | logicalDevice (id : String)
  | other (text : String)
  deriving DecidableEq

/-- What the managers answer when a device or a logical device is looked up; of the latter only
the root device is used. -/
structure Managers where
  getDevice : String → Option Device
  rootDeviceId : String → Option String

namespace DeviceOwnership

/-- Whether the key is recorded, and whether it is recorded as owned. -/
def getOwnership (da : DeviceOwnership) (id : String) : Bool × Bool :=
  match da.deviceMap.lookup id with
  | some val => (true, val.owned)
  | none => (false, false)

def setOwnership (id : String) (owner : Bool) : EStateM Err DeviceOwnership Unit := fun da =>
  match da.deviceMap.lookup id with
  | some val => .ok () { da with deviceMap := da.deviceMap.insert id { val with owned := owner } }
  | none => .error (.status .notFound ("id-inexistent-" ++ id)) da

/-- The root devices that the core owns, in the order in which the map is visited. -/
def getAllDeviceIdsOwnedByMe (da : DeviceOwnership) (order : VisitOrder (Σ _ : String, Ownership)) :
    List String :=
  ((order.visit da.deviceMap.entries).filter (·.2.owned)).map (·.2.id)

/-- The ownership key of an id, the id as a text and whether the key was cached. -/
def getOwnershipKey (da : DeviceOwnership) (managers : Managers) :
    AnyId → Except Err (String × String × Bool)
  | .nil => .error (.status .invalidArgument "nil-id")
  | .device id =>
    match da.deviceToKeyMap.lookup id with
    | some val => .ok (val, id, true)
    | none =>
      match managers.getDevice id with
      | none => .error (.status .notFound ("id-absent-&\x7b" ++ id ++ "\x7d"))
      | some device => .ok (if device.root then device.id else device.parentId, id, false)
  | .logicalDevice id =>
    match da.deviceToKeyMap.lookup id with
    | some val => .ok (val, id, true)
    | none =>
      match managers.rootDeviceId id with
      | none => .error (.status .notFound "id-absent-%!s(*utils.DeviceID=<nil>)")
      | some rootDeviceId => .ok (rootDeviceId, id, false)
  | .other text => .error (.status .notFound ("id-" ++ text))

/-- The first part of `OwnedByMe`: find the ownership key and cache it. -/
def cacheOwnershipKey (managers : Managers) (id : AnyId) : EStateM Err DeviceOwnership String :=
  fun da =>
    match da.getOwnershipKey managers id with
    | .error e => .error e da
    | .ok (ownershipKey, _, true) => .ok ownershipKey da
    | .ok (ownershipKey, idStr, false) =>
      .ok ownershipKey { da with deviceToKeyMap := da.deviceToKeyMap.insert idStr ownershipKey }

/-- The ids are cached as before, or with the key. -/
def CachesOnly (da : DeviceOwnership) (m : GoMap String String) (key : String) : Prop :=
  ∀ {id key'}, m.lookup id = some key' → da.deviceToKeyMap.lookup id = some key' ∨ key' = key

theorem cacheOwnershipKey_cases (managers : Managers) (id : AnyId) (da : DeviceOwnership) :
    (∃ e, cacheOwnershipKey managers id da = .error e da) ∨
      ∃ key m, cacheOwnershipKey managers id da = .ok key { da with deviceToKeyMap := m } ∧
        da.CachesOnly m key := by
  unfold cacheOwnershipKey
  split
  · exact .inl ⟨_, rfl⟩
  · exact .inr ⟨_, da.deviceToKeyMap, rfl, fun h => .inl h⟩
  · rename_i key idStr hkey
    refine .inr ⟨key, _, rfl, fun {id' key'} h => ?_⟩
    rw [GoMap.lookup_insert_eq] at h
    split_ifs at h
    · cases h
      exact .inr rfl
    · exact .inl h

/-- The last part of `OwnedByMe`: record a new key and start its monitor. -/
def setNewOwnership (ownershipKey : String) (reservedByMe : Bool) :
    EStateM Err DeviceOwnership Unit :=
  modify fun da =>
    { da with
      deviceMap := da.deviceMap.insert ownershipKey ⟨ownershipKey, reservedByMe, da.channels⟩
      channels := da.channels + 1 }

/-- `OwnedByMe`, given the answer of `tryToReserveKey`. -/
def ownedByMe (managers : Managers) (id : AnyId) (reservedByMe : Bool) :
    EStateM Err DeviceOwnership Bool := do
  let ownershipKey ← cacheOwnershipKey managers id
  let (deviceOwned, ownedByMe) := (← get).getOwnership ownershipKey
  if deviceOwned then
    return ownedByMe
  else
    setNewOwnership ownershipKey reservedByMe
    return reservedByMe

def closeChannel (chnl : ℕ) : EStateM Err DeviceOwnership Unit := fun da =>
  let closed := { da with closes := Function.update da.closes chnl (da.closes chnl + 1) }
  if da.closes chnl = 0 then .ok () closed else .error (.crash "close of closed channel") closed

def deleteDeviceKey (id : String) : EStateM Err DeviceOwnership Unit :=
  modify fun da => { da with deviceToKeyMap := da.deviceToKeyMap.erase id }

def abandonDevice (id : String) : EStateM Err DeviceOwnership Unit := do
  if id = "" then
    throw (.status .failedPrecondition "id-nil")
  else
    match (← get).deviceMap.lookup id with
    | some o =>
      modify fun da =>
        { da with
          deviceToKeyMap := da.deviceToKeyMap.filter fun _ key => id ≠ key
          deviceMap := da.deviceMap.erase id }
      closeChannel o.chnl
    | none => deleteDeviceKey id

/-- The keys stay in `deviceMap`. -/
def abandonAllDevices (order : VisitOrder (Σ _ : String, Ownership)) :
    EStateM Err DeviceOwnership Unit := do
  modify fun da => { da with deviceToKeyMap := ∅ }
  (order.visit (← get).deviceMap.entries).forM fun e => closeChannel e.2.chnl

/-- `Stop`, which waits before this until the exit channel is empty. -/
def stop (order : VisitOrder (Σ _ : String, Ownership)) : EStateM Err DeviceOwnership Unit := do
  modify fun da => { da with exitChannel := true }
  abandonAllDevices order

end DeviceOwnership

end VolthaCore.Owners
