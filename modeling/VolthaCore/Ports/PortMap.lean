import VolthaCore.Ports.LogicalPorts

/-! The map of port numbers that a logical device agent keeps beside its ports, and
the calls that add to it. The map is marked for an NNI port also when no port was
added: in an update because the device was not ready or another port passes for
it, in the set-up of all ports also because the adapter or the store failed. -/

namespace VolthaCore.Ports

open Devices Routes Outcome Runs AddCall
open List hiding after

/-! ### The map -/

/-- A number that is marked stays marked. -/
def addLogicalPortToMap (portNo : UInt32) (nniPort : Bool) (a : PortAgent) : PortAgent :=
  if (a.logicalPortsNo.lookup portNo).getD false then a
  else { a with logicalPortsNo := a.logicalPortsNo.insert portNo nniPort }

def deleteLogicalPortsFromMap (portsNo : List UInt32) (a : PortAgent) : PortAgent :=
  { a with logicalPortsNo := portsNo.foldl (fun m portNo => m.erase portNo) a.logicalPortsNo }

def isNNIPort (a : PortAgent) (portNo : UInt32) : Bool :=
  (a.logicalPortsNo.lookup portNo).getD false

/-! ### The operations -/

/-- Run a computation and hand on how it ended. -/
def attempt {α : Type} (x : PortM α) : PortM (Except Err α) := fun a =>
  match x a with
  | .ok v a' => .ok (.ok v) a'
  | .error e a' => .ok (.error e) a'

def updateLogicalPort (device : Device) (port : Port) (answers : Answers) : PortM Unit :=
  match port.type with
  | .ethernetNni => do
    let _ ← addNNILogicalPort device port answers
    modify (addLogicalPortToMap port.portNo true)
  | .ethernetUni => do
    let _ ← addUNILogicalPort device port answers
    modify (addLogicalPortToMap port.portNo false)
  -- the routes are built again, which changes neither the ports nor the map
  | _ => pure ()

/-- The error of the last port is returned. -/
def setupPorts (setup : Port → PortM (Except Err Bool)) (ports : List Port) : PortM Unit := do
  let last ← ports.foldlM (fun _ port => setup port) (.ok false)
  match last with
  | .ok _ => pure ()
  | .error e => throw e

def setupNNIPort (device : Device) (answers : UInt32 → Answers) (port : Port) :
    PortM (Except Err Bool) := do
  let added ← attempt (addNNILogicalPort device port (answers port.portNo))
  modify (addLogicalPortToMap port.portNo true)
  return added

def setupUNIPort (device : Device) (answers : UInt32 → Answers) (port : Port) :
    PortM (Except Err Bool) := do
  let added ← attempt (addUNILogicalPort device port (answers port.portNo))
  match added with
  | .ok true => modify (addLogicalPortToMap port.portNo false)
  | _ => pure ()
  return added

def setupNNILogicalPorts (device : Except Err Device) (answers : UInt32 → Answers) : PortM Unit :=
  match device with
  | .error e => throw e
  | .ok device => setupPorts (setupNNIPort device answers)
      (device.ports.filter (·.type = .ethernetNni))

def setupUNILogicalPorts (childDevice : Device) (answers : UInt32 → Answers) : PortM Unit :=
  setupPorts (setupUNIPort childDevice answers)
    (childDevice.ports.filter (·.type = .ethernetUni))

def deleteLogicalPort (lPort : LogicalPort) (store : StoreResult) : PortM Unit := do
  let agent ← get
  if agent.ports.any (·.id = lPort.id) then do
    updateLogicalDeviceWithoutLock store (agent.ports.eraseP (·.id = lPort.id))
    modify (deleteLogicalPortsFromMap [lPort.devicePortNo])
  else pure ()

def deleteLogicalPorts (deviceID : String) (store : StoreResult) : PortM Unit := do
  let agent ← get
  updateLogicalDeviceWithoutLock store (agent.ports.filter (·.deviceId ≠ deviceID))
  modify (deleteLogicalPortsFromMap
    ((agent.ports.filter (·.deviceId = deviceID)).map (·.devicePortNo)))

def deleteAllLogicalPorts (device : Device) (store : StoreResult) : PortM Unit := do
  let agent ← get
  let updated := agent.ports.filter (·.deviceId ≠ device.id)
  if updated.length < agent.ports.length then updateLogicalDeviceWithoutLock store updated
  else pure ()

/-- A call with the answers that it meets. -/
inductive PortCall where
  | updateLogicalPort (device : Device) (port : Port) (answers : Answers)
  | setupNNILogicalPorts (device : Except Err Device) (answers : UInt32 → Answers)
  | setupUNILogicalPorts (childDevice : Device) (answers : UInt32 → Answers)
  | deleteLogicalPort (lPort : LogicalPort) (store : StoreResult)
  | deleteLogicalPorts (deviceID : String) (store : StoreResult)
  | deleteAllLogicalPorts (device : Device) (store : StoreResult)

def PortCall.exec : PortCall → PortM Unit
  | .updateLogicalPort device port answers => Ports.updateLogicalPort device port answers
  | .setupNNILogicalPorts device answers => Ports.setupNNILogicalPorts device answers
  | .setupUNILogicalPorts childDevice answers => Ports.setupUNILogicalPorts childDevice answers
  | .deleteLogicalPort lPort store => Ports.deleteLogicalPort lPort store
  | .deleteLogicalPorts deviceID store => Ports.deleteLogicalPorts deviceID store
  | .deleteAllLogicalPorts device store => Ports.deleteAllLogicalPorts device store

def PortCall.step (a : PortAgent) (c : PortCall) : PortAgent := after c.exec a

/-! ### Marked numbers and root ports -/

def hasRootPort (ports : List LogicalPort) (portNo : UInt32) : Bool :=
  ports.any fun lp => lp.rootPort && lp.devicePortNo = portNo

/-- The marked numbers are those of the root ports. -/
def Mirrors (a : PortAgent) : Prop := ∀ p, isNNIPort a p = hasRootPort a.ports p

variable {a : PortAgent}

theorem isNNIPort_addLogicalPortToMap (n : UInt32) (nni : Bool) (p : UInt32) :
    isNNIPort (addLogicalPortToMap n nni a) p = (isNNIPort a p || (decide (p = n) && nni)) := by
  unfold addLogicalPortToMap isNNIPort
  split_ifs with hmarked
  · by_cases hp : p = n
    · subst hp
      simp [hmarked]
    · simp [hp]
  · by_cases hp : p = n
    · subst hp
      simp [hmarked]
    · simp [hp, AList.lookup_insert_ne hp]

@[simp] theorem ports_addLogicalPortToMap (n : UInt32) (nni : Bool) :
    (addLogicalPortToMap n nni a).ports = a.ports := by
  unfold addLogicalPortToMap
  split_ifs <;> rfl

theorem isNNIPort_deleteLogicalPortsFromMap (ns : List UInt32) (p : UInt32) :
    isNNIPort (deleteLogicalPortsFromMap ns a) p = (isNNIPort a p && !decide (p ∈ ns)) := by
  unfold deleteLogicalPortsFromMap isNNIPort
  dsimp only
  generalize a.logicalPortsNo = m
  induction ns generalizing m with
  | nil => simp
  | cons n ns ih =>
    rw [foldl_cons, ih]
    by_cases hp : p = n
    · subst hp
      simp
    · simp [hp, AList.lookup_erase_ne hp]

variable {ports : List LogicalPort} {n : UInt32} {device : Device} {port : Port}

theorem hasRootPort_iff {p : UInt32} :
    hasRootPort ports p = true ↔ ∃ lp ∈ ports, lp.rootPort = true ∧ lp.devicePortNo = p := by
  simp [hasRootPort]

theorem hasRootPort_append (ports : List LogicalPort) (c : AddCall) (p : UInt32) :
    hasRootPort (ports ++ [c.logicalPort]) p =
      (hasRootPort ports p || (decide (c.kind = .nni) && decide (p = c.port.portNo))) := by
  simp [hasRootPort, logicalPort, eq_comm]

/-! ### Loading -/

/-- What an agent that is loaded from the store records. -/
def addLogicalPortsToMap (lps : List LogicalPort) (a : PortAgent) : PortAgent :=
  lps.foldl (fun a lp => addLogicalPortToMap lp.devicePortNo lp.rootPort a) a

theorem isNNIPort_addLogicalPortsToMap (lps : List LogicalPort) (p : UInt32) :
    isNNIPort (addLogicalPortsToMap lps a) p = (isNNIPort a p || hasRootPort lps p) ∧
      (addLogicalPortsToMap lps a).ports = a.ports := by
  unfold addLogicalPortsToMap
  induction lps generalizing a with
  | nil => simp [hasRootPort]
  | cons lp lps ih =>
    rw [foldl_cons, ih.1, ih.2, isNNIPort_addLogicalPortToMap]
    simp [hasRootPort, Bool.or_assoc, Bool.and_comm, eq_comm]

/-- The map of an agent that is loaded marks the root ports. -/
theorem mirrors_loaded (logicalDeviceID : String) (ports : List LogicalPort) :
    Mirrors (addLogicalPortsToMap ports { logicalDeviceID, ports }) := by
  intro p
  obtain ⟨hmarked, hports⟩ := isNNIPort_addLogicalPortsToMap ports p
  rw [hmarked, hports]
  simp [isNNIPort]

/-! ### Adding -/

theorem mirrors_addLogicalPortToMap_iff (ha : Mirrors a) {nni : Bool} :
    Mirrors (addLogicalPortToMap n nni { a with ports }) ↔
      ∀ p, (hasRootPort a.ports p || (decide (p = n) && nni)) = hasRootPort ports p := by
  refine forall_congr' fun p => ?_
  rw [isNNIPort_addLogicalPortToMap, ports_addLogicalPortToMap, ← ha p]
  rfl

/-- Add a port and mark its number, as an update for an NNI or a UNI port does. -/
def addAndMark (c : AddCall) (answers : Answers) : PortM Unit := do
  let _ ← addLogicalPort c answers
  modify (addLogicalPortToMap c.port.portNo (c.kind = .nni))

theorem updateLogicalPort_cases (device : Device) (port : Port) (answers : Answers) :
    (∃ kind, updateLogicalPort device port answers = addAndMark ⟨kind, device, port⟩ answers ∧
      (kind = .nni ↔ port.type = .ethernetNni)) ∨
    (port.type ≠ .ethernetNni ∧ updateLogicalPort device port answers = pure ()) := by
  unfold updateLogicalPort
  split
  · exact .inl ⟨.nni, rfl, by simp [*]⟩
  · exact .inl ⟨.uni, rfl, by simp [*]⟩
  · exact .inr ⟨by assumption, rfl⟩

theorem after_addAndMark (c : AddCall) (answers : Answers) (a : PortAgent) :
    after (addAndMark c answers) a =
      if checkPort a.ports c = true then
        if answers = {} then
          addLogicalPortToMap c.port.portNo (c.kind = .nni)
            { a with ports := a.ports ++ [c.logicalPort] }
        else a
      else addLogicalPortToMap c.port.portNo (c.kind = .nni) a := by
  obtain ⟨hcheck, h⟩ | ⟨hcheck, hanswers, h⟩ | ⟨hcheck, hanswers, e, h⟩ :=
    addLogicalPort_cases c answers a
  · rw [if_neg (by simp [hcheck]), after, addAndMark, bind_of_ok h]
    rfl
  · rw [if_pos hcheck, if_pos hanswers, after, addAndMark, bind_of_ok h]
    rfl
  · rw [if_pos hcheck, if_neg hanswers, after, addAndMark, bind_apply, h]

/-- Whether an NNI port keeps the map right: it has its root port, or a call for it goes on and
so either fails or adds one. -/
theorem mirrors_updateLogicalPort_iff {answers : Answers} (ha : Mirrors a) :
    Mirrors (after (updateLogicalPort device port answers) a) ↔ (port.type = .ethernetNni →
      hasRootPort a.ports port.portNo = true ∨
        checkPort a.ports ⟨.nni, device, port⟩ = true) := by
  obtain ⟨kind, h, hkind⟩ | ⟨hport, h⟩ := updateLogicalPort_cases device port answers
  · rw [h, ← hkind, after_addAndMark]
    split_ifs with hcheck hanswers
    · refine iff_of_true ((mirrors_addLogicalPortToMap_iff ha).mpr fun p => ?_) ?_
      · rw [hasRootPort_append, Bool.and_comm]
      · rintro rfl
        exact .inr hcheck
    · exact iff_of_true ha (by rintro rfl; exact .inr hcheck)
    · refine (mirrors_addLogicalPortToMap_iff ha).trans ⟨?_, fun h p => ?_⟩
      · rintro h rfl
        exact .inl (by simpa using (h port.portNo).symm)
      · by_cases hp : p = port.portNo ∧ kind = .nni
        · obtain ⟨rfl, rfl⟩ := hp
          simp [(h rfl).resolve_right hcheck]
        · have hnone : (decide (p = port.portNo) && decide (kind = .nni)) = false := by
            simpa using hp
          rw [hnone, Bool.or_false]
  · rw [h]
    exact iff_of_true ha fun hnni => absurd hnni hport

/-! ### Setting up all ports -/

/-- A set-up goes through all ports, since the error of a port is only kept. -/
theorem after_setupPorts {setup : Port → PortM (Except Err Bool)} {f : PortAgent → Port → PortAgent}
    (hsetup : ∀ port a, ∃ r, setup port a = .ok r (f a port)) (ports : List Port)
    (a : PortAgent) : after (setupPorts setup ports) a = run f ports a := by
  have hfold : ∀ last, ∃ r, ports.foldlM (fun _ port => setup port) last a =
      .ok r (run f ports a) := by
    induction ports generalizing a with
    | nil => exact fun last => ⟨last, rfl⟩
    | cons port ports ih =>
      intro last
      obtain ⟨r, h⟩ := hsetup port a
      obtain ⟨r', h'⟩ := ih (f a port) r
      exact ⟨r', by rw [foldlM_cons, bind_of_ok h, h', run_cons]⟩
  obtain ⟨r, h⟩ := hfold (.ok false)
  unfold setupPorts after
  rw [bind_of_ok h]
  cases r <;> rfl

theorem attempt_ok {α : Type} (x : PortM α) (a : PortAgent) :
    ∃ r, attempt x a = .ok r (after x a) := by
  unfold attempt after
  cases x a with
  | ok v a' => exact ⟨.ok v, rfl⟩
  | error e a' => exact ⟨.error e, rfl⟩

section

variable (device : Device) (answers : UInt32 → Answers) (port : Port)

/-- One NNI port: its number is marked, and it gets its root port when a call for it goes on and
meets no error. -/
def NNIStep (device : Device) (answers : UInt32 → Answers) (a : PortAgent) (port : Port) :
    PortAgent :=
  addLogicalPortToMap port.portNo true
    (after (addNNILogicalPort device port (answers port.portNo)) a)

theorem setupNNIPort_ok (a : PortAgent) :
    ∃ r, setupNNIPort device answers port a = .ok r (NNIStep device answers a port) := by
  obtain ⟨r, h⟩ := attempt_ok (addNNILogicalPort device port (answers port.portNo)) a
  exact ⟨r, by rw [setupNNIPort, bind_of_ok h]; rfl⟩

theorem isNNIPort_NNIStep (p : UInt32) :
    isNNIPort (NNIStep device answers a port) p =
      (isNNIPort a p || decide (p = port.portNo)) := by
  rw [NNIStep, isNNIPort_addLogicalPortToMap, addNNILogicalPort, after_addLogicalPort,
    Bool.and_true]
  split_ifs <;> rfl

theorem ports_NNIStep :
    (NNIStep device answers a port).ports =
      if checkPort a.ports ⟨.nni, device, port⟩ = true ∧ answers port.portNo = {} then
        a.ports ++ [logicalPort ⟨.nni, device, port⟩] else a.ports := by
  rw [NNIStep, ports_addLogicalPortToMap, addNNILogicalPort, after_addLogicalPort]
  split_ifs <;> rfl

end

/-- Some of the ports has this number, and a call for it goes on and meets no error. -/
def GetsRootPort (device : Device) (answers : UInt32 → Answers) (ports : List LogicalPort)
    (nnis : List Port) (p : UInt32) : Prop :=
  ∃ port ∈ nnis, port.portNo = p ∧ checkPort ports ⟨.nni, device, port⟩ = true ∧ answers p = {}

theorem checkPort_append {c c' : AddCall} (hno : c'.port.portNo ≠ c.port.portNo)
    (ports : List LogicalPort) :
    checkPort (ports ++ [c.logicalPort]) c' = checkPort ports c' := by
  simp [checkPort, portExist, logicalPort, hno.symm]

section

variable (device : Device) (answers : UInt32 → Answers)

theorem isNNIPort_runNNI (nnis : List Port) (p : UInt32) :
    isNNIPort (run (NNIStep device answers) nnis a) p = true ↔
      isNNIPort a p = true ∨ ∃ port ∈ nnis, port.portNo = p := by
  induction nnis generalizing a with
  | nil => simp
  | cons port nnis ih =>
    rw [run_cons, ih, isNNIPort_NNIStep]
    simp only [Bool.or_eq_true, decide_eq_true_eq, mem_cons, exists_eq_or_imp, or_assoc,
      eq_comm (a := p)]

-- the ports that are added for other numbers do not change whether a call for this one goes on
theorem hasRootPort_runNNI (nnis : List Port) (p : UInt32) :
    hasRootPort (run (NNIStep device answers) nnis a).ports p = true ↔
      hasRootPort a.ports p = true ∨ GetsRootPort device answers a.ports nnis p := by
  induction nnis generalizing a with
  | nil => simp [GetsRootPort]
  | cons port nnis ih =>
    rw [run_cons, ih, ports_NNIStep]
    split_ifs with hadds
    · rw [hasRootPort_append]
      by_cases hp : port.portNo = p
      · subst hp
        simp [GetsRootPort, hadds]
      · have hsame : ∀ port' : Port, port'.portNo = p →
            checkPort (a.ports ++ [logicalPort ⟨.nni, device, port⟩])
              ⟨.nni, device, port'⟩ = checkPort a.ports ⟨.nni, device, port'⟩ :=
          fun port' hport' => checkPort_append (fun h => hp (h.symm.trans hport')) _
        have hgets : GetsRootPort device answers
              (a.ports ++ [logicalPort ⟨.nni, device, port⟩]) nnis p ↔
            GetsRootPort device answers a.ports nnis p := by
          refine exists_congr fun port' => and_congr_right fun _ => and_congr_right fun h => ?_
          rw [hsame port' h]
        rw [hgets]
        simp [GetsRootPort, hp, Ne.symm hp]
    · have hgets : GetsRootPort device answers a.ports (port :: nnis) p ↔
          GetsRootPort device answers a.ports nnis p := by
        unfold GetsRootPort
        simp only [mem_cons, exists_eq_or_imp, or_iff_right_iff_imp]
        rintro ⟨rfl, hport⟩
        exact absurd hport hadds
      rw [hgets]

theorem after_setupNNI (a : PortAgent) :
    after (setupNNILogicalPorts (.ok device) answers) a =
      run (NNIStep device answers) (device.ports.filter (·.type = .ethernetNni)) a :=
  after_setupPorts (setupNNIPort_ok device answers) _ a

end

theorem mirrors_setupNNI_iff (ha : Mirrors a) :
    Mirrors (after (setupNNILogicalPorts (.ok device) answers) a) ↔
      ∀ port ∈ device.ports.filter (·.type = .ethernetNni),
        hasRootPort a.ports port.portNo = true ∨ GetsRootPort device answers a.ports
          (device.ports.filter (·.type = .ethernetNni)) port.portNo := by
  rw [after_setupNNI]
  constructor
  · intro h port hport
    rw [← hasRootPort_runNNI, ← h port.portNo, isNNIPort_runNNI]
    exact .inr ⟨port, hport, rfl⟩
  · intro h p
    rw [Bool.eq_iff_iff, isNNIPort_runNNI, hasRootPort_runNNI, ha p]
    constructor
    · rintro (hroot | ⟨port, hport, rfl⟩)
      · exact .inl hroot
      · exact h port hport
    · rintro (hroot | ⟨port, hport, rfl, -⟩)
      · exact .inl hroot
      · exact .inr ⟨port, hport, rfl⟩

theorem setupUNIPort_ok (device : Device) (answers : UInt32 → Answers) (port : Port)
    (a : PortAgent) :
    ∃ r, setupUNIPort device answers port a = .ok r
      (if checkPort a.ports ⟨.uni, device, port⟩ = true ∧ answers port.portNo = {} then
        addLogicalPortToMap port.portNo false
          { a with ports := a.ports ++ [logicalPort ⟨.uni, device, port⟩] }
      else a) := by
  obtain ⟨hcheck, h⟩ | ⟨hcheck, hanswers, h⟩ | ⟨hcheck, hanswers, e, h⟩ :=
    addLogicalPort_cases ⟨.uni, device, port⟩ (answers port.portNo) a
  · refine ⟨.ok false, ?_⟩
    rw [if_neg (by simp [hcheck]), setupUNIPort, bind_apply, attempt, addUNILogicalPort, h]
    rfl
  · refine ⟨.ok true, ?_⟩
    rw [if_pos ⟨hcheck, hanswers⟩, setupUNIPort, bind_apply, attempt, addUNILogicalPort, h]
    rfl
  · refine ⟨.error e, ?_⟩
    rw [if_neg (by simp [hanswers]), setupUNIPort, bind_apply, attempt, addUNILogicalPort, h]
    rfl

/-- The set-up of UNI ports keeps what each port keeps. -/
theorem setupUNI_invariant {P : PortAgent → Prop}
    (hadd : ∀ a, ∀ port ∈ device.ports, P a → P (addLogicalPortToMap port.portNo false
      { a with ports := a.ports ++ [logicalPort ⟨.uni, device, port⟩] })) (ha : P a) :
    P (after (setupUNILogicalPorts device answers) a) := by
  rw [setupUNILogicalPorts, after_setupPorts (setupUNIPort_ok device answers)]
  refine run_invariant (C := fun _ port => port ∈ device.ports) (fun a port hport hP => ?_)
    (along_of_forall (fun port hport => mem_of_mem_filter hport) a) ha
  split_ifs
  · exact hadd a port hport hP
  · exact hP

theorem Mirrors.setupUNI (ha : Mirrors a) :
    Mirrors (after (setupUNILogicalPorts device answers) a) :=
  setupUNI_invariant (fun _ _ _ h => (mirrors_addLogicalPortToMap_iff h).mpr fun p => by
    simp [hasRootPort_append]) ha

end VolthaCore.Ports
