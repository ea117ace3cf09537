import VolthaCore.Manager.Handlers
import VolthaCore.Ports.PortMap

/-! The errors of the operations on all children or all ports of a device. The loops perform every
operation and return the error of the last one. -/

namespace VolthaCore.Manager

open Devices Outcome Ports
open List hiding after

/-- The operation on one child, which is not performed without an agent. Store and adapter answer
one operation after the other. -/
def onChild (env : ℕ → DeviceEnv) (call : DeviceCall) (childDeviceID : String)
    (s : ℕ × DeviceManager) : Option (Option Err) × ℕ × DeviceManager :=
  if childDeviceID ∈ s.2 then
    match onAgent childDeviceID (call.run (env s.1)) s.2 with
    | .ok () m => (some none, s.1 + 1, m)
    | .error e m => (some (some e), s.1 + 1, m)
  else (none, s)

/-- The error of `DisableAllChildDevices` and `DeleteAllChildDevices`, whatever store and adapters
answer. -/
def allChildDevicesError (env : ℕ → DeviceEnv) (call : DeviceCall) (parentDevice : ManagedDevice)
    (m : DeviceManager) : Option Err :=
  match forEachChild (onChild env call) (getAllChildDeviceIds parentDevice.toDevice) none true
    (0, m) with
  | (err, false, _) => err
  | (_, true, _) => none

def errorOf : Except Err Bool → Option Err
  | .ok _ => none
  | .error e => some e

def onPort (setup : Port → PortM (Except Err Bool)) (port : Port) (a : PortAgent) :
    Option (Option Err) × PortAgent :=
  match setup port a with
  | .ok added a' => (some (errorOf added), a')
  | .error e a' => (some (some e), a')

/-- How the operations of a loop ended, of those that were performed. -/
def outcomes {α σ : Type} (op : α → σ → Option (Option Err) × σ) : List α → σ → List (Option Err)
  | [], _ => []
  | x :: xs, s => (op x s).1.toList ++ outcomes op xs (op x s).2

/-- A failure is returned exactly when one of the operations failed. -/
def Reports (failed : Bool) (outs : List (Option Err)) : Prop :=
  failed = true ↔ ∃ e, some e ∈ outs

/-- No operation failed, or the last one did. -/
def LastFails (outs : List (Option Err)) : Prop := (∃ e, some e ∈ outs) → outs.getLast? ≠ some none

section Loops

variable {outs : List (Option Err)}

/-- A failure of the last operation is the one that is returned. -/
theorem reports_iff {failed : Bool} (h : failed = (outs.getLast?.getD none).isSome) :
    Reports failed outs ↔ LastFails outs := by
  rw [Reports, LastFails, h]
  cases hlast : outs.getLast? with
  | none => simp [getLast?_eq_none_iff.mp hlast]
  | some last =>
    cases last with
    | none => simp
    | some e => simpa using ⟨e, mem_of_getLast? hlast⟩

theorem forEachChild_eq {σ : Type} (op : String → σ → Option (Option Err) × σ) (ids : List String)
    (err : Option Err) (allDone : Bool) (s : σ) :
    (forEachChild op ids err allDone s).1 = (outcomes op ids s).getLast?.getD err ∧
      (forEachChild op ids err allDone s).2.1 =
        (allDone && (outcomes op ids s).all Option.isNone) := by
  induction ids generalizing err allDone s with
  | nil => simp [forEachChild, outcomes]
  | cons id ids ih =>
    rw [forEachChild, outcomes]
    obtain ⟨_ | _ | e, s'⟩ := op id s
    · simpa using ih err allDone s'
    · simpa [getLast?_cons] using ih none allDone s'
    · simpa [getLast?_cons] using ih (some e) false s'

theorem allChildDevicesError_eq (env : ℕ → DeviceEnv) (call : DeviceCall)
    (parentDevice : ManagedDevice) (m : DeviceManager) :
    allChildDevicesError env call parentDevice m = (outcomes (onChild env call)
      (getAllChildDeviceIds parentDevice.toDevice) (0, m)).getLast?.getD none := by
  obtain ⟨herr, hall⟩ := forEachChild_eq (onChild env call)
    (getAllChildDeviceIds parentDevice.toDevice) none true (0, m)
  rw [allChildDevicesError]
  generalize forEachChild _ _ none true _ = r at herr hall
  generalize outcomes _ _ _ = outs at herr hall
  obtain ⟨err, allDone, s⟩ := r
  obtain rfl : err = outs.getLast?.getD none := herr
  cases allDone with
  | false => rfl
  | true =>
    cases hlast : outs.getLast? with
    | none => rfl
    | some last =>
      have hnone := all_eq_true.mp (show outs.all Option.isNone = true from hall.symm) last
        (mem_of_getLast? hlast)
      exact (Option.isNone_iff_eq_none.mp hnone).symm

theorem returns_setupPorts {setup : Port → PortM (Except Err Bool)}
    (hsetup : ∀ port a, ∃ r a', setup port a = .ok r a') (ports : List Port) (a : PortAgent) :
    (!returns (setupPorts setup ports) a) =
      ((outcomes (onPort setup) ports a).getLast?.getD none).isSome := by
  have hloop : ∀ init, ∃ last a',
      (ports.foldlM (fun _ port => setup port) init : PortM (Except Err Bool)) a = .ok last a' ∧
        errorOf last = (outcomes (onPort setup) ports a).getLast?.getD (errorOf init) := by
    induction ports generalizing a with
    | nil => exact fun init => ⟨init, a, rfl, rfl⟩
    | cons port ports ih =>
      intro init
      obtain ⟨r, a', hr⟩ := hsetup port a
      obtain ⟨last, a'', hlast, herr⟩ := ih a' r
      rw [foldlM_cons, outcomes, onPort, hr]
      exact ⟨last, a'', (bind_of_ok hr).trans hlast, by simpa [getLast?_cons] using herr⟩
  obtain ⟨last, a', hlast, herr⟩ := hloop (.ok false)
  rw [returns, setupPorts, bind_of_ok hlast, show none = errorOf (.ok false) from rfl, ← herr]
  cases last <;> rfl

end Loops

/-- The failures of the individual operations are reported exactly when none of them failed or the
last one did. -/
theorem batch_failures_reported_iff (env : ℕ → DeviceEnv) (call : DeviceCall)
    (parentDevice : ManagedDevice) (m : DeviceManager) (found : Except Err Device)
    (device : Device) (answers : UInt32 → Answers) (a : PortAgent) :
    let children := outcomes (onChild env call) (getAllChildDeviceIds parentDevice.toDevice) (0, m)
    let nnis := match found with
      | .error e => [some e]
      | .ok device => outcomes (onPort (setupNNIPort device answers))
        (device.ports.filter (·.type = .ethernetNni)) a
    let unis := outcomes (onPort (setupUNIPort device answers))
      (device.ports.filter (·.type = .ethernetUni)) a
    (Reports (allChildDevicesError env call parentDevice m).isSome children ↔
        LastFails children) ∧
      (Reports (!returns (setupNNILogicalPorts found answers) a) nnis ↔ LastFails nnis) ∧
      (Reports (!returns (setupUNILogicalPorts device answers) a) unis ↔ LastFails unis) := by
  refine ⟨?_, ?_, ?_⟩
  · exact reports_iff (by rw [allChildDevicesError_eq])
  · cases found with
    | error e => exact reports_iff rfl
    | ok device => exact reports_iff (returns_setupPorts (fun port a =>
        (setupNNIPort_ok device answers port a).imp fun _ h => ⟨_, h⟩) _ a)
  · exact reports_iff (returns_setupPorts (fun port a =>
      (setupUNIPort_ok device answers port a).imp fun _ h => ⟨_, h⟩) _ a)

/-- The first of two children cannot be disabled, the second one can, and nothing is reported. -/
theorem first_failure_is_lost :
    let parent : ManagedDevice := { id := "olt", ports :=
      [{ portNo := 1, type := .ponOlt, peers := [⟨"onu1", 1⟩, ⟨"onu2", 1⟩] }] }
    let m := ((∅ : DeviceManager).insert "onu1"
      { SyncedAgent.wrote { id := "onu1", adminState := .preprovisioned } with
        origin := {} }).insert "onu2"
      { SyncedAgent.wrote { id := "onu2", adminState := .enabled } with origin := {} }
    let env := fun _ => willingEnv false
    (outcomes (onChild env .disableDevice) (getAllChildDeviceIds parent.toDevice) (0, m)).map
        Option.isSome = [true, false] ∧
      allChildDevicesError env .disableDevice parent m = none := by
  decide

end VolthaCore.Manager
