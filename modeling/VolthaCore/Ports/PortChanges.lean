import VolthaCore.Lib.DistinctKeys

/-! The changes of the logical ports that a logical device agent announces to the controller. Ports
are known by their ids; of their other fields it only matters whether two ports agree in all. -/

namespace VolthaCore.Ports

open Table
open List hiding lookup

variable {ρ : Type} [DecidableEq ρ] {id : ρ → String} {oldList newList : List ρ}

structure PortDiff (ρ : Type) where
  newPorts : List ρ
  changedPorts : List ρ
  deletedPorts : List ρ

/-- The first old port with the id of a new one decides whether the latter has changed. -/
def diff (id : ρ → String) (oldList newList : List ρ) : PortDiff ρ where
  newPorts := newList.filter fun n => (lookup id oldList (id n)).isNone
  changedPorts := newList.filter fun n => (lookup id oldList (id n)).any (· ≠ n)
  deletedPorts := oldList.filter fun o => (lookup id newList (id o)).isNone

inductive PortReason where
  | add | modify | delete
  deriving DecidableEq

/-- The events that are sent, each with the port that it describes. -/
def portUpdated (id : ρ → String) (oldPorts newPorts : List ρ) : List (PortReason × ρ) :=
  if oldPorts = newPorts then []
  else
    let d := diff id oldPorts newPorts
    d.newPorts.map (.add, ·) ++ d.changedPorts.map (.modify, ·) ++ d.deletedPorts.map (.delete, ·)

/-- Remove the deleted ports, replace the changed ones and add the new ones. -/
def PortDiff.patch (id : ρ → String) (d : PortDiff ρ) (ports : List ρ) : List ρ :=
  (ports.filter (· ∉ d.deletedPorts)).map (fun o => (lookup id d.changedPorts (id o)).getD o) ++
    d.newPorts

/-- The event for what has become of a port. -/
def announced : Option ρ → Option ρ → List (PortReason × ρ)
  | none, none => []
  | none, some n => [(.add, n)]
  | some o, some n => if o = n then [] else [(.modify, n)]
  | some o, none => [(.delete, o)]

omit [DecidableEq ρ] in
theorem filter_key_eq {xs : List ρ} (hxs : (xs.map id).Nodup) (p : String) :
    xs.filter (id · = p) = (lookup id xs p).toList := by
  induction xs with
  | nil => rfl
  | cons x xs ih =>
    rw [map_cons, nodup_cons] at hxs
    rw [lookup, find?_cons, filter_cons]
    by_cases hx : id x = p
    · have hnone : xs.filter (id · = p) = [] := by
        rw [filter_eq_nil_iff]
        exact fun y hy hyp => hxs.1 (mem_map.mpr ⟨y, hy, (of_decide_eq_true hyp).trans hx.symm⟩)
      simp [hx, hnone]
    · simpa [hx, lookup] using ih hxs.2

omit [DecidableEq ρ] in
theorem lookup_filter {xs : List ρ} (hxs : (xs.map id).Nodup) (keep : ρ → Bool) (p : String) :
    lookup id (xs.filter keep) p = (lookup id xs p).filter keep := by
  ext x
  rw [Option.filter_eq_some_iff, lookup_eq_some_iff hxs,
    lookup_eq_some_iff (hxs.sublist (filter_sublist.map id)), mem_filter]
  tauto

section Distinct

variable (hold : (oldList.map id).Nodup) (hnew : (newList.map id).Nodup)
include hold hnew

theorem filter_portUpdated (p : String) : (portUpdated id oldList newList).filter (id ·.2 = p) =
    announced (lookup id oldList p) (lookup id newList p) := by
  -- the events of one port come from at most one old and one new port
  have hpart : ∀ (xs : List ρ) (keep : ρ → Bool) (reason : PortReason), (xs.map id).Nodup →
      ((xs.filter keep).map (reason, ·)).filter (id ·.2 = p) =
        ((lookup id xs p).toList.filter keep).map (reason, ·) := by
    intro xs keep reason hxs
    rw [filter_map, ← filter_key_eq hxs, filter_filter, filter_filter]
    simp only [Function.comp_def, Bool.and_comm]
  unfold portUpdated
  split_ifs with heq
  · subst heq
    cases lookup id oldList p <;> simp [announced]
  · rw [diff, filter_append, filter_append, hpart _ _ _ hnew, hpart _ _ _ hnew, hpart _ _ _ hold]
    cases ho : lookup id oldList p with
    | none =>
      cases hn : lookup id newList p with
      | none => rfl
      | some n =>
        obtain ⟨-, rfl⟩ := (lookup_eq_some_iff hnew).mp hn
        simp [announced, ho]
    | some o =>
      obtain ⟨-, rfl⟩ := (lookup_eq_some_iff hold).mp ho
      cases hn : lookup id newList (id o) with
      | none => simp [announced, hn]
      | some n =>
        have hid := ((lookup_eq_some_iff hnew).mp hn).2
        by_cases hon : o = n <;> simp [announced, hid, ho, hn, hon]

theorem replace_eq {o n : ρ} (ho : o ∈ oldList) (hn : lookup id newList (id o) = some n) :
    (lookup id (diff id oldList newList).changedPorts (id o)).getD o = n := by
  have hid := ((lookup_eq_some_iff hnew).mp hn).2
  have hold' := (lookup_eq_some_iff hold).mpr ⟨ho, rfl⟩
  rw [diff, lookup_filter hnew, hn, Option.filter_some, hid, hold']
  by_cases hon : o = n <;> simp [hon]

theorem patch_diff : ((diff id oldList newList).patch id oldList).Perm newList := by
  have hkept : ∀ o, o ∈ oldList.filter (· ∉ (diff id oldList newList).deletedPorts) ↔
      o ∈ oldList ∧ ∃ n, lookup id newList (id o) = some n := by
    simp +contextual [diff, ← Option.isSome_iff_exists, Option.isSome_iff_ne_none]
  have hids : ∀ o ∈ oldList.filter (· ∉ (diff id oldList newList).deletedPorts),
      id ((lookup id (diff id oldList newList).changedPorts (id o)).getD o) = id o := by
    intro o ho
    obtain ⟨hmem, n, hn⟩ := (hkept o).mp ho
    rw [replace_eq hold hnew hmem hn, ((lookup_eq_some_iff hnew).mp hn).2]
  refine ((perm_ext_iff_of_nodup ?_ ?_).mpr fun x => ?_ : Perm _
    (newList.filter fun n => !(lookup id oldList (id n)).isNone)).append_right _ |>.trans ?_
  · refine Nodup.of_map id ?_
    rw [map_map]
    refine (map_congr_left hids : map (id ∘ _) _ = _) ▸ ?_
    exact hold.sublist (filter_sublist.map id)
  · exact (hnew.of_map).filter _
  · rw [mem_map, mem_filter]
    constructor
    · rintro ⟨o, ho, rfl⟩
      obtain ⟨hmem, n, hn⟩ := (hkept o).mp ho
      obtain ⟨hnmem, hid⟩ := (lookup_eq_some_iff hnew).mp hn
      rw [replace_eq hold hnew hmem hn, hid, (lookup_eq_some_iff hold).mpr ⟨hmem, rfl⟩]
      exact ⟨hnmem, rfl⟩
    · rintro ⟨hx, hsome⟩
      cases ho : lookup id oldList (id x) with
      | none => simp [ho] at hsome
      | some o =>
        obtain ⟨hmem, hid⟩ := (lookup_eq_some_iff hold).mp ho
        have hn := (lookup_eq_some_iff hnew).mpr ⟨hx, hid.symm⟩
        exact ⟨o, (hkept o).mpr ⟨hmem, x, hn⟩, replace_eq hold hnew hmem hn⟩
  · exact perm_append_comm.trans (filter_append_perm _ _)

theorem diff_empty_iff : (let d := diff id oldList newList
    d.newPorts = [] ∧ d.changedPorts = [] ∧ d.deletedPorts = []) ↔ oldList.Perm newList := by
  constructor
  · rintro ⟨hn, hc, hd⟩
    simpa [PortDiff.patch, hn, hc, hd, lookup] using patch_diff hold hnew
  · intro hperm
    have hself : ∀ xs : List ρ, (xs.map id).Nodup → ∀ x ∈ xs, lookup id xs (id x) = some x :=
      fun xs hxs x hx => (lookup_eq_some_iff hxs).mpr ⟨hx, rfl⟩
    refine ⟨filter_eq_nil_iff.mpr fun x hx => ?_, filter_eq_nil_iff.mpr fun x hx => ?_,
      filter_eq_nil_iff.mpr fun x hx => ?_⟩
    · simp [hself oldList hold x (hperm.mem_iff.mpr hx)]
    · simp [hself oldList hold x (hperm.mem_iff.mpr hx)]
    · simp [hself newList hnew x (hperm.mem_iff.mp hx)]

end Distinct

/-- The three lists describe the change from the old ports to the new ones, and each port is
announced as what it has become. -/
theorem diff_describes_change (hold : (oldList.map id).Nodup) (hnew : (newList.map id).Nodup) :
    let d := diff id oldList newList
    (∀ n ∈ d.newPorts, ∀ c ∈ d.changedPorts, id n ≠ id c) ∧
      (∀ x ∈ d.deletedPorts, ∀ n ∈ d.newPorts ++ d.changedPorts, id n ≠ id x) ∧
      (d.patch id oldList).Perm newList ∧
      (d.newPorts = [] ∧ d.changedPorts = [] ∧ d.deletedPorts = [] ↔ oldList.Perm newList) ∧
      ∀ p, (portUpdated id oldList newList).filter (id ·.2 = p) =
        announced (lookup id oldList p) (lookup id newList p) := by
  intro d
  refine ⟨fun n hn c hc hid => ?_, fun x hx n hn hid => ?_, patch_diff hold hnew,
    diff_empty_iff hold hnew, filter_portUpdated hold hnew⟩
  · have hnone := (mem_filter.mp hn).2
    have hany := (mem_filter.mp hc).2
    rw [hid, Option.isNone_iff_eq_none] at hnone
    simp [hnone] at hany
  · have hnone := (mem_filter.mp hx).2
    have hmem : n ∈ newList :=
      (mem_append.mp hn).elim (fun h => (mem_filter.mp h).1) fun h => (mem_filter.mp h).1
    simp [(lookup_eq_some_iff hnew).mpr ⟨hmem, hid⟩] at hnone

theorem diff_describes_one_change :
    announced (lookup Prod.fst [("a", 1), ("b", 2)] "a") (lookup Prod.fst [("a", 3)] "a") =
      [(.modify, ("a", 3))] ∧
    ((diff Prod.fst [("a", 1), ("b", 2)] [("a", 3)]).patch Prod.fst [("a", 1), ("b", 2)]).Perm
      [("a", 3)] :=
  ⟨by decide, (diff_describes_change (by decide) (by decide)).2.2.1⟩

end VolthaCore.Ports
