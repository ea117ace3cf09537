import VolthaCore.Errors
import VolthaCore.Lib.GoMap
import VolthaCore.Lib.Outcome
import VolthaCore.Lib.Runs

/-! The adapter manager: the agents of the adapters, each with the device types it knows, and the
map from device types to adapters. A device type that comes before its adapter makes an agent for
an adapter of which only the id is known. -/

namespace VolthaCore.Adapters

open Outcome Runs GoMap
open List hiding after

/-- The last communication is in nanoseconds and missing before the first message. -/
structure Adapter where
  id : String
  lastCommunication : Option ℕ := none

structure DeviceType where
  id : String
  adapter : String
  acceptsAddRemoveFlowUpdates : Bool := false

def SentinelDevicetypeID : String := "device_type_sentinel"

structure AdapterAgent where
  adapter : Adapter
  deviceTypes : GoMap String DeviceType

def newAdapterAgent (adapter : Adapter) (deviceTypes : List DeviceType) : AdapterAgent :=
  ⟨adapter, writeAll ∅ (deviceTypes.map fun dType => (dType.id, dType))⟩

structure AdapterManager where
  adapterAgents : GoMap String AdapterAgent := ∅
  deviceTypeToAdapterMap : GoMap String String := ∅

section Manager

variable (m : AdapterManager)

namespace AdapterManager

def getAdapter (adapterID : String) : Option Adapter :=
  (m.adapterAgents.lookup adapterID).map AdapterAgent.adapter

def getAdapterName (deviceType : String) : Except Err String :=
  match m.deviceTypeToAdapterMap.lookup deviceType with
  | some adapterID => .ok adapterID
  | none => .error (.plain ("Adapter-not-registered-for-device-type " ++ deviceType))

def getDeviceType (deviceType : String) : Option DeviceType := do
  let adapterID ← m.deviceTypeToAdapterMap.lookup deviceType
  let adapterAgent ← m.adapterAgents.lookup adapterID
  adapterAgent.deviceTypes.lookup deviceType

def listDeviceTypes (order : VisitOrder (Σ _ : String, String)) : List DeviceType :=
  (order.visit m.deviceTypeToAdapterMap.entries).filterMap fun ⟨deviceTypeID, adapterID⟩ => do
    let adapterAgent ← m.adapterAgents.lookup adapterID
    (adapterAgent.deviceTypes.lookup deviceTypeID).filter (·.id ≠ SentinelDevicetypeID)

/-- The agent of an adapter is updated, or made when there is none. -/
def setAgent (id : String) (update : AdapterAgent → AdapterAgent) (new : AdapterAgent) :
    AdapterManager :=
  let agent := (m.adapterAgents.lookup id).elim new update
  { m with adapterAgents := m.adapterAgents.insert id agent }

def updateAdapter (adapter : Adapter) : AdapterManager :=
  m.setAgent adapter.id ({ · with adapter }) (newAdapterAgent adapter [])

/-- One round of `addDeviceTypes`: a new agent gets all the device types of the call, also those of
other adapters. -/
def setDeviceType (deviceTypes : List DeviceType) (dType : DeviceType) : AdapterManager :=
  { m.setAgent dType.adapter
      (fun agent => { agent with deviceTypes := agent.deviceTypes.insert dType.id dType })
      (newAdapterAgent { id := dType.adapter } deviceTypes) with
    deviceTypeToAdapterMap := m.deviceTypeToAdapterMap.insert dType.id dType.adapter }

def updateDeviceType (deviceType : DeviceType) : AdapterManager :=
  m.setDeviceType [deviceType] deviceType

end AdapterManager

/-- What is in memory stays there when saving it fails. -/
def saved : Option Err → EStateM.Result Err AdapterManager Unit
  | none => .ok () m
  | some e => .error e m

end Manager

def addAdapter (failure : Option Err) (adapter : Adapter) : EStateM Err AdapterManager Unit :=
  fun m =>
    if adapter.id ∈ m.adapterAgents then .ok () m
    else saved (m.setAgent adapter.id id (newAdapterAgent adapter [])) failure

def addDeviceTypes (failure : Option Err) :
    Option (List DeviceType) → EStateM Err AdapterManager Unit
  | none => throw (.plain "no-device-type")
  | some items => fun m => saved (items.foldl (·.setDeviceType items ·) m) failure

/-- A call, with the error when saving to the store fails. -/
inductive Call where
  | addAdapter (failure : Option Err) (adapter : Adapter)
  | addDeviceTypes (failure : Option Err) (deviceTypes : Option (List DeviceType))
  | updateAdapter (adapter : Adapter)
  | updateDeviceType (deviceType : DeviceType)

def Call.step (m : AdapterManager) : Call → AdapterManager
  | .addAdapter failure adapter => after (Adapters.addAdapter failure adapter) m
  | .addDeviceTypes failure deviceTypes => after (Adapters.addDeviceTypes failure deviceTypes) m
  | .updateAdapter adapter => m.updateAdapter adapter
  | .updateDeviceType deviceType => m.updateDeviceType deviceType

/-- The definitions that a call gives. -/
def Call.given : Call → List DeviceType
  | .addDeviceTypes _ deviceTypes => deviceTypes.getD []
  | .updateDeviceType deviceType => [deviceType]
  | .addAdapter .. | .updateAdapter _ => []

/-- The definition of a device type that was given last. -/
def latest (given : List DeviceType) (t : String) : Option DeviceType :=
  given.reverse.find? (·.id = t)

/-- The manager finds the definition at the adapter that it names. -/
def Known (t : String) (m : AdapterManager) (known : Option DeviceType) : Prop :=
  m.deviceTypeToAdapterMap.lookup t = known.map DeviceType.adapter ∧ ∀ d ∈ known,
    ∃ agent ∈ m.adapterAgents.lookup d.adapter, agent.deviceTypes.lookup t = some d

section Known

variable {t : String} {m : AdapterManager} {known : Option DeviceType} {d : DeviceType}
  {all ds before later : List DeviceType}

theorem latest_append (xs ys : List DeviceType) (t : String) :
    latest (xs ++ ys) t = (latest ys t).or (latest xs t) := by
  rw [latest, reverse_append, find?_append]
  rfl

theorem Known.setAgent (h : Known t m known) (update : AdapterAgent → AdapterAgent)
    (hupdate : ∀ agent, (update agent).deviceTypes.lookup t = agent.deviceTypes.lookup t)
    (id : String) (new : AdapterAgent) : Known t (m.setAgent id update new) known := by
  refine ⟨h.1, fun d hd => ?_⟩
  obtain ⟨agent, hagent, ht⟩ := h.2 d hd
  rw [AdapterManager.setAgent, lookup_insert_eq]
  by_cases hid : d.adapter = id
  · rw [if_pos hid, ← hid, hagent]
    exact ⟨_, rfl, (hupdate agent).trans ht⟩
  · rw [if_neg hid]
    exact ⟨agent, hagent, ht⟩

theorem Known.setDeviceTypes_ne (h : Known t m known) (hds : ∀ d ∈ ds, d.id ≠ t) :
    Known t (ds.foldl (·.setDeviceType all ·) m) known := by
  refine foldlRecOn (motive := (Known t · known)) ds _ h fun m h d hd => ?_
  have hne : t ≠ d.id := (hds d hd).symm
  exact ⟨(AList.lookup_insert_ne hne).trans h.1,
    (h.setAgent _ (fun _ => AList.lookup_insert_ne hne) _ _).2⟩

/-- The last definition of a list is found, also by an agent that is new. -/
theorem known_setDeviceType (hlater : ∀ x ∈ later, x.id ≠ d.id) :
    Known d.id (m.setDeviceType (before ++ d :: later) d) (some d) := by
  refine ⟨AList.lookup_insert _, ?_⟩
  rintro _ ⟨⟩
  refine ⟨_, AList.lookup_insert _, ?_⟩
  cases m.adapterAgents.lookup d.adapter with
  | none =>
    rw [Option.elim_none, newAdapterAgent, map_append, map_cons, writeAll_append, writeAll_cons,
      lookup_writeAll_of_notMem (by simpa using hlater), AList.lookup_insert]
  | some agent => exact AList.lookup_insert _

theorem Known.setDeviceTypes (h : Known t m known) (all : List DeviceType) :
    Known t (all.foldl (·.setDeviceType all ·) m) ((latest all t).or known) := by
  cases hlatest : latest all t with
  | none => exact h.setDeviceTypes_ne (by simpa [latest] using hlatest)
  | some d =>
    obtain ⟨hd, later, before, hall, hlater⟩ := find?_eq_some_iff_append.mp hlatest
    obtain rfl : d.id = t := of_decide_eq_true hd
    obtain rfl : all = before.reverse ++ d :: later.reverse := by simpa using congrArg reverse hall
    have hlater : ∀ x ∈ later.reverse, x.id ≠ d.id := by simpa using hlater
    rw [foldl_append, foldl_cons]
    exact (known_setDeviceType hlater).setDeviceTypes_ne hlater

theorem after_saved {x : EStateM Err AdapterManager Unit} {m' : AdapterManager}
    {failure : Option Err} (h : x m = saved m' failure) : after x m = m' := by
  rw [after, h]
  cases failure <;> rfl

theorem Known.step (h : Known t m known) (c : Call) :
    Known t (c.step m) ((latest c.given t).or known) := by
  cases c with
  | addAdapter failure a =>
    by_cases ha : a.id ∈ m.adapterAgents
    · rw [Call.step, after, Adapters.addAdapter, if_pos ha]
      exact h
    · rw [Call.step, after_saved (if_neg ha)]
      exact h.setAgent id (fun _ => rfl) _ _
  | addDeviceTypes failure deviceTypes =>
    cases deviceTypes with
    | none => exact h
    | some items =>
      rw [Call.step, after_saved rfl]
      exact h.setDeviceTypes items
  | updateAdapter a => exact h.setAgent ({ · with adapter := a }) (fun _ => rfl) _ _
  | updateDeviceType d => exact h.setDeviceTypes [d]

theorem Known.run (h : Known t m known) (calls : List Call) :
    Known t (run Call.step calls m) ((latest (calls.flatMap Call.given) t).or known) := by
  induction calls generalizing m known with
  | nil => exact h
  | cons c calls ih =>
    rw [flatMap_cons, latest_append, Option.or_assoc]
    exact ih (h.step c)

end Known

/-- After any calls a device type and its adapter are looked up as they were given last. -/
theorem device_type_lookup_latest (calls : List Call) (t : String) :
    let m := run Call.step calls {}
    let known := latest (calls.flatMap Call.given) t
    m.getDeviceType t = known ∧
      m.getAdapterName t = match known with
        | some d => .ok d.adapter
        | none => .error (.plain ("Adapter-not-registered-for-device-type " ++ t)) := by
  intro m known
  have hknown : Known t m (known.or none) := Known.run ⟨rfl, by simp⟩ calls
  rw [Option.or_none] at hknown
  obtain ⟨hadapter, hagent⟩ := hknown
  rw [AdapterManager.getDeviceType, AdapterManager.getAdapterName, hadapter]
  cases hd : known with
  | none => exact ⟨rfl, rfl⟩
  | some d =>
    obtain ⟨agent, hlookup, ht⟩ := hagent d hd
    exact ⟨(congrArg (Option.bind · _) hlookup).trans ht, rfl⟩

/-- The listing has the definitions that were given last, without the sentinel. -/
theorem mem_listDeviceTypes (calls : List Call) (order : VisitOrder _) (d : DeviceType) :
    let known := latest (calls.flatMap Call.given)
    d ∈ (run Call.step calls {}).listDeviceTypes order ↔
      known d.id = some d ∧ d.id ≠ SentinelDevicetypeID := by
  intro known
  have hknown (t : String) : Known t (run Call.step calls {}) (known t) := by
    rw [← Option.or_none (o := known t)]
    exact Known.run ⟨rfl, by simp⟩ calls
  simp only [AdapterManager.listDeviceTypes, mem_filterMap, (order.perm _).mem_iff, Sigma.exists,
    mem_entries_iff, (hknown _).1, Option.map_eq_some_iff]
  constructor
  · rintro ⟨t, _, ⟨d', hd', rfl⟩, hd⟩
    obtain ⟨_, hagent, ht⟩ := (hknown t).2 d' hd'
    obtain rfl : d'.id = t := by simpa using find?_some hd'
    obtain ⟨rfl, hne⟩ : d' = d ∧ _ := by simpa [Option.mem_def.mp hagent, ht] using hd
    exact ⟨hd', hne⟩
  · rintro ⟨hd, hne⟩
    obtain ⟨_, hagent, ht⟩ := (hknown d.id).2 d hd
    exact ⟨d.id, _, ⟨d, hd, rfl⟩, by simp [Option.mem_def.mp hagent, ht, hne]⟩

end VolthaCore.Adapters
