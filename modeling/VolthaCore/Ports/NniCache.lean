import VolthaCore.Ports.PortMap

/-! The marked port numbers over runs of the six operations that change the ports of
a logical device or the map. Deleting the ports of a device erases their numbers,
deleting all of them leaves the map alone, and deleting one port erases the
number that the caller names. Every operation keeps the marked numbers those of
the root ports exactly under a condition on the state in which it is called. -/

namespace VolthaCore.Ports

open Devices Routes Outcome List

variable {a : PortAgent}

/-! ### Deleting -/

theorem after_update (store : StoreResult) (ports : List LogicalPort) (a : PortAgent) :
    after (updateLogicalDeviceWithoutLock store ports) a =
      if store = .written then { a with ports } else a := by
  cases store <;> rfl

theorem after_updateThen (store : StoreResult) (ports : List LogicalPort)
    (f : PortAgent → PortAgent) (a : PortAgent) :
    after (do
      updateLogicalDeviceWithoutLock store ports
      modify f : PortM Unit) a = if store = .written then f { a with ports } else a := by
  cases store <;> rfl

theorem after_deleteLogicalPort (lPort : LogicalPort) (store : StoreResult) (a : PortAgent) :
    after (deleteLogicalPort lPort store) a =
      if a.ports.any (·.id = lPort.id) = true ∧ store = .written then
        deleteLogicalPortsFromMap [lPort.devicePortNo]
          { a with ports := a.ports.eraseP (·.id = lPort.id) }
      else a := by
  change after (ite (a.ports.any (·.id = lPort.id) = true) (do
    updateLogicalDeviceWithoutLock store (a.ports.eraseP (·.id = lPort.id))
    modify (deleteLogicalPortsFromMap [lPort.devicePortNo])) (pure ()) : PortM Unit) a = _
  by_cases hfound : a.ports.any (·.id = lPort.id) = true
  · rw [if_pos hfound, after_updateThen]
    simp [hfound]
  · rw [if_neg hfound, if_neg (fun h => hfound h.1)]
    rfl

theorem after_deleteLogicalPorts (deviceID : String) (store : StoreResult) (a : PortAgent) :
    after (deleteLogicalPorts deviceID store) a =
      if store = .written then
        deleteLogicalPortsFromMap ((a.ports.filter (·.deviceId = deviceID)).map (·.devicePortNo))
          { a with ports := a.ports.filter (·.deviceId ≠ deviceID) }
      else a :=
  after_updateThen store _ _ a

/-- The store is not asked when nothing is deleted, which makes no difference to the agent. -/
theorem after_deleteAllLogicalPorts (device : Device) (store : StoreResult) (a : PortAgent) :
    after (deleteAllLogicalPorts device store) a =
      if store = .written then { a with ports := a.ports.filter (·.deviceId ≠ device.id) }
      else a := by
  change after (ite ((a.ports.filter (·.deviceId ≠ device.id)).length < a.ports.length)
    (updateLogicalDeviceWithoutLock store (a.ports.filter (·.deviceId ≠ device.id)))
    (pure ()) : PortM Unit) a = _
  split_ifs with hfewer hwritten hwritten
  · rw [after_update, if_pos hwritten]
  · rw [after_update, if_neg hwritten]
  · have hall : a.ports.filter (·.deviceId ≠ device.id) = a.ports :=
      filter_eq_self.mpr (length_filter_eq_length_iff.mp
        (le_antisymm (length_filter_le _ _) (not_lt.mp hfewer)))
    rw [hall]
    rfl
  · rfl

theorem isNNIPort_ports (ports : List LogicalPort) (p : UInt32) :
    isNNIPort { a with ports } p = isNNIPort a p := rfl

theorem exists_of_any_id {ports : List LogicalPort} {id : String}
    (h : ports.any (·.id = id) = true) :
    ∃ e, ports.find? (·.id = id) = some e ∧
      ∀ p, hasRootPort ports p =
        (hasRootPort (ports.eraseP (·.id = id)) p ||
          (e.rootPort && decide (e.devicePortNo = p))) := by
  obtain ⟨x, hx, hxid⟩ := any_eq_true.mp h
  obtain ⟨e, before, rest, hbefore, he, hports, herase⟩ :=
    exists_of_eraseP (p := fun lp => decide (lp.id = id)) hx hxid
  refine ⟨e, ?_, fun p => ?_⟩
  · rw [hports, find?_append, find?_eq_none.mpr hbefore]
    simp [he]
  · rw [herase, hports]
    simp only [hasRootPort, any_append, any_cons]
    ac_rfl

/-- What is needed to delete one port: no root port with the number that the caller names is left,
and the number of a root port that goes is the one that the caller names, if none is left. -/
def Deletes (ports : List LogicalPort) (lPort : LogicalPort) : Prop :=
  ∀ e, ports.find? (·.id = lPort.id) = some e →
    hasRootPort (ports.eraseP (·.id = lPort.id)) lPort.devicePortNo = false ∧
      (e.rootPort = true → e.devicePortNo = lPort.devicePortNo ∨
        hasRootPort (ports.eraseP (·.id = lPort.id)) e.devicePortNo = true)

/-- Erasing a number after one port has gone. -/
theorem mirrors_erase_iff {n : UInt32} {rest : List LogicalPort} {e : LogicalPort} (ha : Mirrors a)
    (hroot : ∀ p, hasRootPort a.ports p =
      (hasRootPort rest p || (e.rootPort && decide (e.devicePortNo = p)))) :
    Mirrors (deleteLogicalPortsFromMap [n] { a with ports := rest }) ↔
      hasRootPort rest n = false ∧ (e.rootPort = true →
        e.devicePortNo = n ∨ hasRootPort rest e.devicePortNo = true) := by
  have hmarked : ∀ p, isNNIPort (deleteLogicalPortsFromMap [n] { a with ports := rest }) p =
      ((hasRootPort rest p || (e.rootPort && decide (e.devicePortNo = p))) && !decide (p = n)) := by
    intro p
    rw [isNNIPort_deleteLogicalPortsFromMap, isNNIPort_ports, ha p, hroot p]
    simp
  have hiff : Mirrors (deleteLogicalPortsFromMap [n] { a with ports := rest }) ↔
      ∀ p, ((hasRootPort rest p || (e.rootPort && decide (e.devicePortNo = p))) &&
        !decide (p = n)) = hasRootPort rest p :=
    forall_congr' fun p => by rw [hmarked p]; rfl
  rw [hiff]
  constructor
  · intro h
    refine ⟨by simpa using h n, fun he => ?_⟩
    by_cases hno : e.devicePortNo = n
    · exact .inl hno
    · exact .inr (by simpa [he, hno] using h e.devicePortNo)
  · rintro ⟨hleft, he⟩ p
    by_cases hno : p = n
    · simp [hno, hleft]
    · by_cases hp : e.rootPort = true ∧ e.devicePortNo = p
      · obtain ⟨hrootPort, rfl⟩ := hp
        simp [hno, (he hrootPort).resolve_left hno]
      · have hgone : (e.rootPort && decide (e.devicePortNo = p)) = false := by simpa using hp
        rw [hgone]
        simp [hno]

variable {store : StoreResult} {device : Device} {c : PortCall} {a' : PortAgent}

theorem mirrors_deleteLogicalPort_iff {lPort : LogicalPort} (ha : Mirrors a) :
    Mirrors (after (deleteLogicalPort lPort store) a) ↔
      (store = .written → Deletes a.ports lPort) := by
  rw [after_deleteLogicalPort]
  by_cases hfound : a.ports.any (·.id = lPort.id) = true
  · obtain ⟨e, hfind, hroot⟩ := exists_of_any_id hfound
    by_cases hstore : store = .written
    · rw [if_pos ⟨hfound, hstore⟩, mirrors_erase_iff ha hroot]
      simp [hstore, Deletes, hfind]
    · simp [hstore, ha]
  · have hnone : a.ports.find? (·.id = lPort.id) = none := by
      simpa using hfound
    simp [hfound, ha, Deletes, hnone]

/-- Every port number belongs to one device. -/
def Owned (owner : UInt32 → String) (a : PortAgent) : Prop :=
  ∀ lp ∈ a.ports, lp.deviceId = owner lp.devicePortNo

variable {owner : UInt32 → String}

theorem hasRootPort_filter (ha : Owned owner a) (deviceID : String) (p : UInt32) :
    hasRootPort (a.ports.filter (·.deviceId ≠ deviceID)) p =
      (hasRootPort a.ports p && decide (owner p ≠ deviceID)) := by
  rw [Bool.eq_iff_iff, Bool.and_eq_true, hasRootPort_iff, hasRootPort_iff, decide_eq_true_eq]
  constructor
  · rintro ⟨lp, hlp, hroot, rfl⟩
    obtain ⟨hmem, hdevice⟩ := mem_filter.mp hlp
    exact ⟨⟨lp, hmem, hroot, rfl⟩, ha lp hmem ▸ of_decide_eq_true hdevice⟩
  · rintro ⟨⟨lp, hmem, hroot, rfl⟩, hdevice⟩
    exact ⟨lp, mem_filter.mpr ⟨hmem, decide_eq_true (ha lp hmem ▸ hdevice)⟩, hroot, rfl⟩

section

variable (howned : Owned owner a)
include howned

theorem Mirrors.deleteLogicalPorts {deviceID : String} (ha : Mirrors a) :
    Mirrors (after (deleteLogicalPorts deviceID store) a) := by
  rw [after_deleteLogicalPorts]
  split_ifs
  · intro p
    rw [isNNIPort_deleteLogicalPortsFromMap, isNNIPort_ports, ha p]
    change _ = hasRootPort (a.ports.filter _) p
    rw [hasRootPort_filter howned, Bool.eq_iff_iff, Bool.and_eq_true, Bool.and_eq_true]
    refine and_congr_right fun hroot => ?_
    obtain ⟨lp, hlp, -, rfl⟩ := hasRootPort_iff.mp hroot
    rw [Bool.not_eq_true', decide_eq_false_iff_not, decide_eq_true_eq, not_iff_not, mem_map]
    constructor
    · rintro ⟨lp', hlp', hno⟩
      obtain ⟨hmem, hdevice⟩ := mem_filter.mp hlp'
      rw [← hno, ← howned lp' hmem]
      exact of_decide_eq_true hdevice
    · intro hdevice
      exact ⟨lp, mem_filter.mpr ⟨hlp, decide_eq_true ((howned lp hlp).trans hdevice)⟩, rfl⟩
  · exact ha

theorem mirrors_deleteAll_iff (ha : Mirrors a) :
    Mirrors (after (deleteAllLogicalPorts device store) a) ↔
      (store = .written → ∀ lp ∈ a.ports, lp.rootPort = true → lp.deviceId ≠ device.id) := by
  rw [after_deleteAllLogicalPorts]
  split_ifs with hwritten
  · simp only [hwritten, forall_const]
    constructor
    · intro h lp hlp hroot
      have hmarked : hasRootPort a.ports lp.devicePortNo = true :=
        hasRootPort_iff.mpr ⟨lp, hlp, hroot, rfl⟩
      have hkept := h lp.devicePortNo
      rw [isNNIPort_ports, ha lp.devicePortNo, hasRootPort_filter howned, hmarked] at hkept
      rw [howned lp hlp]
      simpa using hkept
    · intro h p
      rw [isNNIPort_ports, ha p, hasRootPort_filter howned]
      cases hroot : hasRootPort a.ports p with
      | false => rfl
      | true =>
        obtain ⟨lp, hlp, hrootPort, rfl⟩ := hasRootPort_iff.mp hroot
        simp [← howned lp hlp, h lp hlp hrootPort]
  · simp [ha, hwritten]

/-! ### Runs -/

/-- The call is about ports of devices that own their numbers. -/
def PortCall.Fits (owner : UInt32 → String) : PortCall → Prop
  | .updateLogicalPort device port _ => owner port.portNo = device.id
  | .setupNNILogicalPorts (.ok device) _ | .setupUNILogicalPorts device _ =>
    ∀ port ∈ device.ports, owner port.portNo = device.id
  | _ => True

/-- What a call needs to leave the map right. -/
def PortCall.Keeps (a : PortAgent) : PortCall → Prop
  | .updateLogicalPort device port _ =>
    port.type = .ethernetNni →
      hasRootPort a.ports port.portNo = true ∨ checkPort a.ports ⟨.nni, device, port⟩ = true
  | .setupNNILogicalPorts (.ok device) answers =>
    ∀ port ∈ device.ports.filter (·.type = .ethernetNni),
      hasRootPort a.ports port.portNo = true ∨ GetsRootPort device answers a.ports
        (device.ports.filter (·.type = .ethernetNni)) port.portNo
  | .setupNNILogicalPorts (.error _) _ => True
  | .setupUNILogicalPorts _ _ => True
  | .deleteLogicalPort lPort store => store = .written → Deletes a.ports lPort
  | .deleteLogicalPorts _ _ => True
  | .deleteAllLogicalPorts device store =>
    store = .written → ∀ lp ∈ a.ports, lp.rootPort = true → lp.deviceId ≠ device.id

theorem mirrors_step_iff (ha : Mirrors a) :
    Mirrors (c.step a) ↔ c.Keeps a := by
  unfold PortCall.step PortCall.exec
  cases c with
  | updateLogicalPort device port answers =>
    exact mirrors_updateLogicalPort_iff ha
  | setupNNILogicalPorts device answers =>
    cases device with
    | ok device => exact mirrors_setupNNI_iff ha
    | error e => exact iff_of_true ha trivial
  | setupUNILogicalPorts device answers => exact iff_of_true ha.setupUNI trivial
  | deleteLogicalPort lPort store => exact mirrors_deleteLogicalPort_iff ha
  | deleteLogicalPorts deviceID store => exact iff_of_true (ha.deleteLogicalPorts howned) trivial
  | deleteAllLogicalPorts device store => exact mirrors_deleteAll_iff howned ha

theorem Owned.append {c : AddCall} (hc : owner c.port.portNo = c.device.id)
    (hports : a'.ports = a.ports ++ [c.logicalPort]) : Owned owner a' := by
  intro lp hlp
  rw [hports] at hlp
  rcases mem_append.mp hlp with hlp | hlp
  · exact howned lp hlp
  · rw [mem_singleton.mp hlp]
    exact hc.symm

theorem Owned.of_subset (hports : a'.ports ⊆ a.ports) : Owned owner a' :=
  fun lp hlp => howned lp (hports hlp)

theorem Owned.addAndMark {c : AddCall} {answers : Answers}
    (hc : owner c.port.portNo = c.device.id) :
    Owned owner (after (addAndMark c answers) a) := by
  rw [after_addAndMark]
  split_ifs
  · exact howned.append hc (ports_addLogicalPortToMap _ _)
  · exact howned
  · exact howned.of_subset (by simp)

theorem Owned.setupNNI {answers : UInt32 → Answers}
    (hdevice : ∀ port ∈ device.ports, owner port.portNo = device.id) :
    Owned owner (after (setupNNILogicalPorts (.ok device) answers) a) := by
  rw [after_setupNNI]
  refine Runs.run_invariant (C := fun _ port => port ∈ device.ports) (fun a port hport h => ?_)
    (Runs.along_of_forall (fun port hport => mem_of_mem_filter hport) a) howned
  have hports := ports_NNIStep (a := a) device answers port
  split_ifs at hports
  · exact h.append (c := ⟨.nni, device, port⟩) (hdevice port hport) hports
  · exact h.of_subset (by simp [hports])

end

theorem Owned.step (hc : c.Fits owner) (howned : Owned owner a) : Owned owner (c.step a) := by
  unfold PortCall.step PortCall.exec
  cases c with
  | updateLogicalPort device port answers =>
    dsimp only
    obtain ⟨kind, h, -⟩ | ⟨-, h⟩ := updateLogicalPort_cases device port answers <;> rw [h]
    · exact howned.addAndMark hc
    · exact howned
  | setupNNILogicalPorts device answers =>
    cases device with
    | ok device => exact howned.setupNNI hc
    | error e => exact howned
  | setupUNILogicalPorts device answers =>
    exact setupUNI_invariant (fun a port hport h => h.append (c := ⟨.uni, device, port⟩)
      (hc port hport) (ports_addLogicalPortToMap _ _)) howned
  | deleteLogicalPort lPort store =>
    dsimp only
    rw [after_deleteLogicalPort]
    split_ifs
    · exact howned.of_subset eraseP_subset
    · exact howned
  | deleteLogicalPorts deviceID store =>
    dsimp only
    rw [after_deleteLogicalPorts]
    split_ifs
    · exact howned.of_subset (filter_subset_self _)
    · exact howned
  | deleteAllLogicalPorts device store =>
    dsimp only
    rw [after_deleteAllLogicalPorts]
    split_ifs
    · exact howned.of_subset (filter_subset_self _)
    · exact howned

/-- After every call of a run, the numbers that pass for NNI ports are those of the root ports,
exactly when every call of the run meets what it needs. -/
theorem nni_cache_mirrors_iff {owner : UInt32 → String} {calls : List PortCall} {a : PortAgent}
    (hcalls : ∀ c ∈ calls, c.Fits owner) (howned : Owned owner a) (ha : Mirrors a) :
    (∀ before, before <+: calls → ∀ p,
      isNNIPort (Runs.run PortCall.step before a) p = true ↔
        ∃ lp ∈ (Runs.run PortCall.step before a).ports,
          lp.rootPort = true ∧ lp.devicePortNo = p) ↔
      Runs.Along PortCall.step PortCall.Keeps calls a := by
  have hmirrors : ∀ a : PortAgent, (∀ p, isNNIPort a p = true ↔
      ∃ lp ∈ a.ports, lp.rootPort = true ∧ lp.devicePortNo = p) ↔ Mirrors a := by
    intro a
    refine forall_congr' fun p => ?_
    rw [← hasRootPort_iff]
    exact Bool.eq_iff_iff.symm
  have hstep : ∀ (a : PortAgent) (c : PortCall), c.Fits owner → Owned owner a →
      Owned owner (c.step a) := fun a c hc h => h.step hc
  have hkeeps : ∀ (a : PortAgent) (c : PortCall), c.Fits owner → Owned owner a → Mirrors a →
      (Mirrors (c.step a) ↔ c.Keeps a) := fun a c _ h ha => mirrors_step_iff h ha
  simp only [hmirrors]
  exact Runs.forall_prefix_iff_along hstep hkeeps hcalls howned ha

/-- The numbers of a device that comes up are marked with its ports and erased with them. -/
theorem nni_cache_up_and_down :
    let olt : Device := { id := "olt", adminState := .enabled, operStatus := .active }
    let port : Port := { portNo := 1, label := "nni-1", type := .ethernetNni }
    let calls : List PortCall :=
      [.updateLogicalPort olt port {}, .deleteLogicalPorts "olt" .written]
    let a : PortAgent := { logicalDeviceID := "ld" }
    Runs.Along PortCall.step PortCall.Keeps calls a ∧
      ∀ before, before <+: calls → ∀ p,
        isNNIPort (Runs.run PortCall.step before a) p = true ↔
          ∃ lp ∈ (Runs.run PortCall.step before a).ports,
            lp.rootPort = true ∧ lp.devicePortNo = p := by
  intro olt port calls a
  have hkeeps : Runs.Along PortCall.step PortCall.Keeps calls a :=
    ⟨fun _ => .inr (by decide), trivial, trivial⟩
  have hfits : ∀ c ∈ calls, c.Fits fun _ => "olt" := by simp [calls, PortCall.Fits, olt]
  have howned : Owned (fun _ => "olt") a := by simp [Owned, a]
  have hmirrors : Mirrors a := fun p => rfl
  exact ⟨hkeeps, (nni_cache_mirrors_iff hfits howned hmirrors).mpr hkeeps⟩

/-- An NNI port of a device that is not ready is marked, and no port is added. -/
theorem marked_before_device_is_ready :
    let olt : Device := { id := "olt", adminState := .enabled, operStatus := .activating }
    let port : Port := { portNo := 1, label := "nni-1", type := .ethernetNni }
    let a := PortCall.step { logicalDeviceID := "ld" } (.updateLogicalPort olt port {})
    isNNIPort a 1 = true ∧ a.ports = [] := by
  decide

end VolthaCore.Ports
