import VolthaCore.Devices.FlowUpdates
import VolthaCore.Lib.DistinctKeys

/-! The change sets of an addition of flows and groups, with every access by index
checked. The source removes an entry from a slice by moving the last one into its
place and panics where the index is not in the slice; it only ever uses an index
that a search of the same slice has returned. -/

namespace VolthaCore.Devices

open OpenFlow Table

/-! ### Indexed accesses -/

namespace Indexed

variable {α : Type} [DecidableEq α]

def entryAt (xs : List α) (index : ℕ) : Except Err α :=
  match xs[index]? with
  | some x => .ok x
  | none => .error (.crash "index out of range")

def deleteWithoutPreservingOrder (xs : List α) (index : ℕ) : Except Err (List α) :=
  if index < xs.length then .ok (Table.swapRemove xs index)
  else .error (.crash "index out of range")

def deleteFlowWithoutPreservingOrder (flows : List OfpFlowStats) (index : ℕ) :
    Except Err (List OfpFlowStats) := deleteWithoutPreservingOrder flows index

def deleteGroupWithoutPreservingOrder (groups : List OfpGroupEntry) (index : ℕ) :
    Except Err (List OfpGroupEntry) := deleteWithoutPreservingOrder groups index

/-- The loop over the existing entries, with the search and the removal of its kind
of entry. -/
def toUpdateToDeleteLoop (find : List α → α → Option ℕ)
    (delete : List α → ℕ → Except Err (List α)) :
    List α → Table.Merge α → Except Err (Table.Merge α)
  | [], m => .ok m
  | e :: rest, m =>
    match find m.fresh e with
    | none => toUpdateToDeleteLoop find delete rest { m with all := m.all ++ [e] }
    | some idx => do
      if (← entryAt m.fresh idx) = e then
        let fresh ← delete m.fresh idx
        toUpdateToDeleteLoop find delete rest { m with fresh := fresh, all := m.all ++ [e] }
      else toUpdateToDeleteLoop find delete rest { m with dropped := m.dropped ++ [e] }

def toUpdateToDelete (find : List α → α → Option ℕ)
    (delete : List α → ℕ → Except Err (List α)) (new existing : List α) :
    Except Err (Table.Merge α) := do
  let m ← toUpdateToDeleteLoop find delete existing ⟨new, [], []⟩
  return { m with all := m.all ++ m.fresh }

def flowsToUpdateToDelete (newFlows existingFlows : List OfpFlowStats) :
    Except Err (Table.Merge OfpFlowStats) :=
  toUpdateToDelete findFlows deleteFlowWithoutPreservingOrder newFlows existingFlows

def groupsToUpdateToDelete (newGroups existingGroups : List OfpGroupEntry) :
    Except Err (Table.Merge OfpGroupEntry) :=
  toUpdateToDelete (fun groups group => findGroup groups group.desc.groupId)
    deleteGroupWithoutPreservingOrder newGroups existingGroups

/-! ### No index is out of range -/

variable {κ : Type} [DecidableEq κ] {key : α → κ} {find : List α → α → Option ℕ}

theorem toUpdateToDeleteLoop_eq (hfind : ∀ xs x, find xs x = indexOf key xs (key x))
    (existing : List α) (m : Table.Merge α) :
    toUpdateToDeleteLoop find deleteWithoutPreservingOrder existing m =
      .ok (mergeLoop key existing m) := by
  induction existing generalizing m with
  | nil => rfl
  | cons e rest ih =>
    rw [toUpdateToDeleteLoop, mergeLoop, hfind]
    cases hidx : indexOf key m.fresh (key e) with
    | none => exact ih _
    | some idx =>
      obtain ⟨hi, -⟩ := indexOf_eq_some key hidx
      have hget : m.fresh[idx]? = some m.fresh[idx] := List.getElem?_eq_getElem hi
      simp only [entryAt, hget, deleteWithoutPreservingOrder, if_pos hi, Option.some.injEq]
      by_cases heq : m.fresh[idx] = e
      · rw [if_pos heq]
        exact (if_pos heq).trans (ih _)
      · rw [if_neg heq]
        exact (if_neg heq).trans (ih _)

theorem toUpdateToDelete_eq (hfind : ∀ xs x, find xs x = indexOf key xs (key x))
    (new existing : List α) :
    toUpdateToDelete find deleteWithoutPreservingOrder new existing =
      .ok (merge key new existing) := by
  unfold toUpdateToDelete
  rw [toUpdateToDeleteLoop_eq hfind]
  rfl

theorem flowsToUpdateToDelete_eq (newFlows existingFlows : List OfpFlowStats) :
    flowsToUpdateToDelete newFlows existingFlows =
      .ok (Devices.flowsToUpdateToDelete newFlows existingFlows) :=
  toUpdateToDelete_eq findFlows_eq newFlows existingFlows

theorem groupsToUpdateToDelete_eq (newGroups existingGroups : List OfpGroupEntry) :
    groupsToUpdateToDelete newGroups existingGroups =
      .ok (Devices.groupsToUpdateToDelete newGroups existingGroups) :=
  toUpdateToDelete_eq (fun _ _ => rfl) newGroups existingGroups

end Indexed

/-! ### Adding flows and groups -/

/-- With distinct keys the change sets are exact, and an addition that is made again
changes nothing. -/
theorem addition_change_sets {newFlows existingFlows : List OfpFlowStats}
    {newGroups existingGroups : List OfpGroupEntry}
    (hnewFlows : (newFlows.map flowKey).Nodup) (hflows : (existingFlows.map flowKey).Nodup)
    (hnewGroups : (newGroups.map groupId).Nodup) (hgroups : (existingGroups.map groupId).Nodup) :
    ∃ flows groups,
      Indexed.flowsToUpdateToDelete newFlows existingFlows = .ok flows ∧
      flows.Exact flowKey newFlows existingFlows ∧
      Indexed.flowsToUpdateToDelete newFlows flows.all = .ok ⟨[], [], flows.all⟩ ∧
      Indexed.groupsToUpdateToDelete newGroups existingGroups = .ok groups ∧
      groups.Exact groupId newGroups existingGroups ∧
      Indexed.groupsToUpdateToDelete newGroups groups.all = .ok ⟨[], [], groups.all⟩ := by
  refine ⟨_, _, Indexed.flowsToUpdateToDelete_eq _ _, merge_exact hnewFlows hflows, ?_,
    Indexed.groupsToUpdateToDelete_eq _ _, merge_exact hnewGroups hgroups, ?_⟩
  · rw [Indexed.flowsToUpdateToDelete_eq]
    exact congrArg _ (merge_merge hnewFlows hflows)
  · rw [Indexed.groupsToUpdateToDelete_eq]
    exact congrArg _ (merge_merge hnewGroups hgroups)

/-- One flow is redefined, one repeated, one new; the stored group stays. -/
theorem addition_change_sets_three :
    let f : UInt64 → UInt64 → OfpFlowStats := fun cookie id => { cookie := cookie, id := id }
    let g : UInt32 → OfpGroupEntry := fun id =>
      { desc := { groupId := id }, stats := { groupId := id } }
    ∃ flows groups,
      Indexed.flowsToUpdateToDelete [f 2 9, f 3 3, f 1 1] [f 1 1, f 2 2] = .ok flows ∧
      flows.Exact flowKey [f 2 9, f 3 3, f 1 1] [f 1 1, f 2 2] ∧
      Indexed.flowsToUpdateToDelete [f 2 9, f 3 3, f 1 1] flows.all = .ok ⟨[], [], flows.all⟩ ∧
      Indexed.groupsToUpdateToDelete [g 2] [g 1] = .ok groups ∧
      groups.Exact groupId [g 2] [g 1] ∧
      Indexed.groupsToUpdateToDelete [g 2] groups.all = .ok ⟨[], [], groups.all⟩ :=
  addition_change_sets (by decide) (by decide) (by decide) (by decide)

end VolthaCore.Devices
