import VolthaCore.Lib.Runs
import VolthaCore.Devices.Agent
import VolthaCore.Routes.DeviceRoutes

/-! Adding ports to a logical device, after `logical_device_agent.go`. A call
checks under the lock whether the port is there, asks the adapter for the
capability of the port without the lock, and checks again under the lock before
it inserts. The check compares the identifier of a logical port with the label
of the device port, while the identifier of an NNI port is made from its number.
So two calls for one device port do not see each other when the identifier that
the first one gives is not the label that the second one has. -/

namespace VolthaCore.Ports

open Devices Routes Outcome Runs
open List hiding after

/-- The ports of the logical device that the agent has cached, and the numbers of ports that it
has recorded, marked when they are NNI ports. -/
structure PortAgent where
  logicalDeviceID : String
  ports : List LogicalPort := []
  logicalPortsNo : GoMap UInt32 Bool := ∅
  deriving DecidableEq

abbrev PortM := EStateM Err PortAgent

/-- Write the ports to the store; the cached ones follow. -/
def updateLogicalDeviceWithoutLock (store : StoreResult) (ports : List LogicalPort) :
    PortM Unit := do
  let agent ← get
  match store with
  | .failed e => throw e
  | .missing =>
    throw (.status .internal ("failed-updating-logical-device:" ++ agent.logicalDeviceID))
  | .written => set { agent with ports }

def portExist (ports : List LogicalPort) (device : Device) (port : Port) : Bool :=
  ports.any fun lPort =>
    lPort.deviceId = device.id && lPort.devicePortNo = port.portNo && lPort.id = port.label

inductive Kind where
  | nni | uni
  deriving DecidableEq

structure AddCall where
  kind : Kind
  device : Device
  port : Port
  deriving DecidableEq

/-- What a call meets: the error of the adapter, if any, and the answer of the store. -/
structure Answers where
  capability : Option Err := none
  store : StoreResult := .written
  deriving DecidableEq

namespace AddCall

def ready (c : AddCall) : Bool :=
  c.device.adminState = .enabled && c.device.operStatus = .active

def key (c : AddCall) : String × UInt32 := (c.device.id, c.port.portNo)

def logicalPort (c : AddCall) : LogicalPort where
  id := match c.kind with
    | .nni => "nni-" ++ toString c.port.portNo
    | .uni => c.port.label
  portNo := c.port.portNo
  deviceId := c.device.id
  devicePortNo := c.port.portNo
  rootPort := c.kind = .nni

end AddCall

/-- The part before the request to the adapter: whether the call goes on. -/
def checkPort (ports : List LogicalPort) (c : AddCall) : Bool :=
  c.ready && !portExist ports c.device c.port

/-- The part after it, under the lock. -/
def insertLogicalPort (c : AddCall) (store : StoreResult) : PortM Bool := do
  let agent ← get
  if portExist agent.ports c.device c.port then return false
  else do
    updateLogicalDeviceWithoutLock store (agent.ports ++ [c.logicalPort])
    return true

def addLogicalPort (c : AddCall) (answers : Answers) : PortM Bool := do
  let agent ← get
  if checkPort agent.ports c then
    match answers.capability with
    | some e => throw e
    | none => insertLogicalPort c answers.store
  else return false

def addNNILogicalPort (device : Device) (port : Port) (answers : Answers) : PortM Bool :=
  addLogicalPort ⟨.nni, device, port⟩ answers

def addUNILogicalPort (device : Device) (port : Port) (answers : Answers) : PortM Bool :=
  addLogicalPort ⟨.uni, device, port⟩ answers

/-! ### What a call leaves behind -/

theorem portExist_iff {ports : List LogicalPort} {device : Device} {port : Port} :
    portExist ports device port = true ↔ ∃ lp ∈ ports,
      lp.deviceId = device.id ∧ lp.devicePortNo = port.portNo ∧ lp.id = port.label := by
  simp [portExist, and_assoc]

theorem insertLogicalPort_apply (c : AddCall) (store : StoreResult) (a : PortAgent) :
    insertLogicalPort c store a =
      if portExist a.ports c.device c.port then .ok false a
      else match store with
        | .failed e => .error e a
        | .missing => .error (.status .internal
            ("failed-updating-logical-device:" ++ a.logicalDeviceID)) a
        | .written => .ok true { a with ports := a.ports ++ [c.logicalPort] } := by
  change (ite (portExist a.ports c.device c.port = true) (pure false) (do
    updateLogicalDeviceWithoutLock store (a.ports ++ [c.logicalPort])
    return true) : PortM Bool) a = _
  split_ifs
  · rfl
  · cases store <;> rfl

/-- A port is inserted when no port passes for it and the store is written. -/
theorem after_insertLogicalPort (c : AddCall) (store : StoreResult) (a : PortAgent) :
    after (insertLogicalPort c store) a =
      if portExist a.ports c.device c.port = false ∧ store = .written then
        { a with ports := a.ports ++ [c.logicalPort] } else a := by
  unfold after
  rw [insertLogicalPort_apply]
  cases portExist a.ports c.device c.port <;> cases store <;> simp

section

variable (c : AddCall) (answers : Answers) (a : PortAgent)
include c answers a

theorem addLogicalPort_apply :
    addLogicalPort c answers a =
      if checkPort a.ports c then
        match answers.capability with
        | some e => .error e a
        | none => insertLogicalPort c answers.store a
      else .ok false a := by
  obtain ⟨capability, store⟩ := answers
  change (ite (checkPort a.ports c = true) _ (pure false) : PortM Bool) a = _
  split_ifs
  · cases capability <;> rfl
  · rfl

theorem addLogicalPort_cases :
    (checkPort a.ports c = false ∧ addLogicalPort c answers a = .ok false a) ∨
    (checkPort a.ports c = true ∧ answers = {} ∧
      addLogicalPort c answers a = .ok true { a with ports := a.ports ++ [c.logicalPort] }) ∨
    (checkPort a.ports c = true ∧ answers ≠ {} ∧ ∃ e, addLogicalPort c answers a = .error e a) := by
  obtain ⟨capability, store⟩ := answers
  have hexist : checkPort a.ports c = true → portExist a.ports c.device c.port = false := by
    simp only [checkPort, Bool.and_eq_true, Bool.not_eq_true']
    exact And.right
  rw [addLogicalPort_apply]
  cases hcheck : checkPort a.ports c with
  | false => simp
  | true =>
    cases capability with
    | some e => simp
    | none =>
      rw [insertLogicalPort_apply]
      cases store <;> simp [hexist hcheck]

theorem after_addLogicalPort :
    after (addLogicalPort c answers) a =
      if checkPort a.ports c = true ∧ answers = {} then
        { a with ports := a.ports ++ [c.logicalPort] } else a := by
  obtain ⟨hcheck, h⟩ | ⟨hcheck, hanswers, h⟩ | ⟨hcheck, hanswers, e, h⟩ :=
    addLogicalPort_cases c answers a
  · rw [after_of_ok h, if_neg (by simp [hcheck])]
  · rw [after_of_ok h, if_pos ⟨hcheck, hanswers⟩]
  · rw [after_of_error h, if_neg (by simp [hanswers])]

end

/-! ### Interleavings -/

/-- The agent with the calls that wait for the adapter and those that have its answer, by the
number of the call. -/
structure Adding where
  agent : PortAgent
  asked : GoMap ℕ AddCall := ∅
  answered : GoMap ℕ AddCall := ∅
  deriving DecidableEq

inductive Part where
  | check (i : ℕ) (c : AddCall)
  | capability (i : ℕ) (e : Option Err)
  | insert (i : ℕ) (store : StoreResult)
  deriving DecidableEq

/-- One part of one call; the number of a new call is not in use. -/
def Adding.step (s : Adding) : Part → Adding
  | .check i c =>
    if i ∈ s.asked ∨ i ∈ s.answered then s
    else if checkPort s.agent.ports c then { s with asked := s.asked.insert i c } else s
  | .capability i e =>
    match s.asked.lookup i with
    | none => s
    | some c =>
      { s with
        asked := s.asked.erase i
        answered := if e = none then s.answered.insert i c else s.answered }
  | .insert i store =>
    match s.answered.lookup i with
    | none => s
    | some c =>
      { s with
        agent := after (insertLogicalPort c store) s.agent
        answered := s.answered.erase i }

theorem run_alone (i : ℕ) (c : AddCall) (answers : Answers) {s : Adding} (hasked : i ∉ s.asked)
    (hanswered : i ∉ s.answered) :
    let s' := run Adding.step
      [.check i c, .capability i answers.capability, .insert i answers.store] s
    s'.agent = after (addLogicalPort c answers) s.agent ∧ (∀ j, j ∈ s'.asked ↔ j ∈ s.asked) ∧
      ∀ j, j ∈ s'.answered ↔ j ∈ s.answered := by
  have hlookup : s.answered.lookup i = none := AList.lookup_eq_none.mpr hanswered
  have hnone : s.asked.lookup i = none := AList.lookup_eq_none.mpr hasked
  have hother : ∀ {m : GoMap ℕ AddCall}, i ∉ m → ∀ j, j ∈ (m.insert i c).erase i ↔ j ∈ m := by
    intro m hm j
    by_cases hj : j = i
    · subst hj
      simp [hm]
    · simp [hj]
  have hstep : s.step (.check i c) =
      if checkPort s.agent.ports c then { s with asked := s.asked.insert i c } else s := by
    unfold Adding.step
    simp [hasked, hanswered]
  unfold after
  simp only [run_cons, run_nil, hstep, addLogicalPort_apply]
  cases hcheck : checkPort s.agent.ports c with
  | false => simp [Adding.step, hnone, hlookup]
  | true =>
    cases answers.capability with
    | none => simp [Adding.step, hother hasked, hother hanswered, after]
    | some e => simp [Adding.step, hlookup, hother hasked]

/-- A part starts a call of a kind only. -/
def Part.Starts (S : AddCall → Prop) : Part → Prop
  | .check _ c => S c
  | _ => True

/-- The ports and the calls under way come from ready devices and calls of a kind. -/
structure Adding.From (S : AddCall → Prop) (s : Adding) : Prop where
  ports : ∀ lp ∈ s.agent.ports, ∃ c, S c ∧ c.ready = true ∧ lp = c.logicalPort
  asked : ∀ i c, s.asked.lookup i = some c → S c ∧ c.ready = true
  answered : ∀ i c, s.answered.lookup i = some c → S c ∧ c.ready = true

def portKey (lp : LogicalPort) : String × UInt32 := (lp.deviceId, lp.devicePortNo)

/-- No two logical ports stand for the same device port. -/
def NoDuplicates (ports : List LogicalPort) : Prop := (ports.map portKey).Nodup

instance (ports : List LogicalPort) : Decidable (NoDuplicates ports) :=
  inferInstanceAs (Decidable (ports.map portKey).Nodup)

/-- The identifier that a call gives to a device port is the label that any call for the same
device port has. -/
def LabelsFit (S : AddCall → Prop) : Prop :=
  ∀ c c', S c → S c' → c.ready = true → c'.ready = true → c.key = c'.key →
    c.logicalPort.id = c'.port.label

variable {S : AddCall → Prop} {s : Adding}

theorem lookup_erase_some {κ ν : Type} [DecidableEq κ] {m : GoMap κ ν} {i j : κ} {v : ν}
    (h : (m.erase j).lookup i = some v) : m.lookup i = some v := by
  by_cases hij : i = j
  · subst hij
    simp at h
  · rwa [AList.lookup_erase_ne hij] at h

theorem Adding.From.step {e : Part} (h : s.From S) (he : e.Starts S) : (s.step e).From S := by
  cases e with
  | check i c =>
    unfold Adding.step
    dsimp only
    split_ifs with hused hcheck
    · exact h
    · refine ⟨h.ports, fun j c' hj => ?_, h.answered⟩
      rw [GoMap.lookup_insert_eq] at hj
      split_ifs at hj
      · cases hj
        exact ⟨he, (Bool.and_eq_true _ _ ▸ hcheck).1⟩
      · exact h.asked j c' hj
    · exact h
  | capability i e =>
    unfold Adding.step
    dsimp only
    split
    · exact h
    · next c hc =>
      refine ⟨h.ports, fun j c' hj => h.asked j c' (lookup_erase_some hj), fun j c' hj => ?_⟩
      dsimp only at hj
      split_ifs at hj
      · rw [GoMap.lookup_insert_eq] at hj
        split_ifs at hj
        · cases hj
          exact h.asked i c hc
        · exact h.answered j c' hj
      · exact h.answered j c' hj
  | insert i store =>
    unfold Adding.step
    dsimp only
    split
    · exact h
    · next c hc =>
      refine ⟨fun lp hlp => ?_, h.asked, fun j c' hj => h.answered j c' (lookup_erase_some hj)⟩
      rw [after_insertLogicalPort] at hlp
      split_ifs at hlp
      · rcases mem_append.mp hlp with hlp | hlp
        · exact h.ports lp hlp
        · exact ⟨c, (h.answered i c hc).1, (h.answered i c hc).2, mem_singleton.mp hlp⟩
      · exact h.ports lp hlp

/-- With fitting labels a port of the same device port passes for the new one. -/
theorem Adding.From.noDuplicates_step {e : Part} (hS : LabelsFit S) (h : s.From S)
    (hs : NoDuplicates s.agent.ports) : NoDuplicates (s.step e).agent.ports := by
  cases e with
  | check i c =>
    unfold Adding.step
    dsimp only
    split_ifs <;> exact hs
  | capability i e =>
    unfold Adding.step
    dsimp only
    split <;> exact hs
  | insert i store =>
    unfold Adding.step
    dsimp only
    split
    · exact hs
    · next c hc =>
      rw [after_insertLogicalPort]
      split_ifs with hnew
      · unfold NoDuplicates
        rw [map_append, nodup_append]
        refine ⟨hs, by simp, fun x hx y hy hxy => ?_⟩
        obtain ⟨lp, hlp, rfl⟩ := mem_map.mp hx
        rw [map_singleton, mem_singleton] at hy
        obtain ⟨c', hSc', hready', rfl⟩ := h.ports lp hlp
        obtain ⟨hSc, hready⟩ := h.answered i c hc
        have hkey : c'.key = c.key := hxy.trans hy
        have hexist : portExist s.agent.ports c.device c.port = true :=
          portExist_iff.mpr ⟨_, hlp, congrArg Prod.fst hkey, congrArg Prod.snd hkey,
            hS c' c hSc' hSc hready' hready hkey⟩
        rw [hexist] at hnew
        cases hnew.1
      · exact hs

/-- Two calls, one after the other, that nothing hinders. -/
def twice (c c' : AddCall) : List Part :=
  [.check 0 c, .capability 0 none, .insert 0 .written] ++
    [.check 1 c', .capability 1 none, .insert 1 .written]

theorem run_twice {c c' : AddCall} {id : String} (hc : c.ready = true) (hc' : c'.ready = true)
    (hid : c.logicalPort.id ≠ c'.port.label) :
    (run Adding.step (twice c c') { agent := { logicalDeviceID := id } }).agent.ports =
      [c.logicalPort, c'.logicalPort] := by
  have hexist : portExist [c.logicalPort] c'.device c'.port = false := by
    simp [portExist, hid]
  obtain ⟨hagent, hasked, hanswered⟩ := run_alone 0 c {}
    (s := { agent := { logicalDeviceID := id } }) (by simp) (by simp)
  have hfirst : checkPort [] c = true := by simp [checkPort, hc, portExist]
  have hsecond : checkPort [c.logicalPort] c' = true := by simp [checkPort, hc', hexist]
  have hsecondRun := run_alone 1 c' {} (fun h => by simpa using (hasked 1).mp h)
    (fun h => by simpa using (hanswered 1).mp h)
  rw [twice, run_append, hsecondRun.1, hagent]
  simp [after_addLogicalPort, hfirst, hsecond]

/-- Whatever the calls are that may be made, no interleaving of them duplicates a port exactly
when their labels fit. -/
theorem no_duplicates_iff (S : AddCall → Prop) (id : String) :
    (∀ parts : List Part, (∀ e ∈ parts, e.Starts S) →
      NoDuplicates (Runs.run Adding.step parts
        { agent := { logicalDeviceID := id } }).agent.ports) ↔ LabelsFit S := by
  constructor
  · intro hall c c' hc hc' hready hready' hkey
    by_contra hid
    have hnodup := hall (twice c c') (by simp [twice, Part.Starts, hc, hc'])
    rw [run_twice hready hready' hid] at hnodup
    have hsame : portKey c.logicalPort = portKey c'.logicalPort := hkey
    simp [NoDuplicates, hsame] at hnodup
  · intro hS parts hparts
    have hkept : ∀ (s : Adding) (e : Part), e.Starts S → s.From S ∧ NoDuplicates s.agent.ports →
        (s.step e).From S ∧ NoDuplicates (s.step e).agent.ports :=
      fun s e he hs => ⟨hs.1.step he, hs.1.noDuplicates_step hS hs.2⟩
    have hrun := run_invariant hkept (along_of_forall hparts _)
      (s := { agent := { logicalDeviceID := id } })
      ⟨⟨by simp, by simp, by simp⟩, by simp [NoDuplicates]⟩
    exact hrun.2

/-- An NNI port whose label is not made from its number is added once more by a second call. -/
theorem nni_port_added_twice :
    let olt : Device := { id := "olt", adminState := .enabled, operStatus := .active }
    let c : AddCall := ⟨.nni, olt, { portNo := 10, label := "uplink", type := .ethernetNni }⟩
    let s := Runs.run Adding.step (twice c c) { agent := { logicalDeviceID := "ld" } }
    s.agent.ports.map portKey = [("olt", 10), ("olt", 10)] ∧ ¬NoDuplicates s.agent.ports := by
  decide +kernel

end VolthaCore.Ports
