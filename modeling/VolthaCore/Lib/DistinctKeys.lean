import VolthaCore.Lib.Table

/-! Merging tables whose keys are distinct. What the merge loop returns is then
known in closed form: the new entries that are not there yet, the existing
entries they redefine, and the other existing entries with the new ones after
them. The merged table is the one that a lookup in the new entries and then in
the existing ones describes, and merging the same entries again changes nothing. -/

namespace VolthaCore.Table

open List

variable {α κ : Type} [DecidableEq κ] [DecidableEq α] {key : α → κ} {new existing : List α} {x : α}

omit [DecidableEq α] in
theorem lookup_eq_some_iff {xs : List α} (hxs : (xs.map key).Nodup) {k : κ} :
    lookup key xs k = some x ↔ x ∈ xs ∧ key x = k := by
  constructor
  · intro h
    exact ⟨mem_of_find?_eq_some h, by simpa using find?_some h⟩
  · rintro ⟨hx, rfl⟩
    cases h : lookup key xs (key x) with
    | none =>
      rw [lookup, find?_eq_none] at h
      exact absurd (h x hx) (by simp)
    | some y =>
      have hy : key y = key x := by simpa using find?_some h
      rw [inj_on_of_nodup_map hxs (mem_of_find?_eq_some h) hx hy]

omit [DecidableEq κ] [DecidableEq α] in
theorem mem_swapRemove_iff {xs : List α} (hxs : (xs.map key).Nodup) {i : ℕ}
    (hi : i < xs.length) :
    x ∈ swapRemove xs i ↔ x ∈ xs ∧ key x ≠ key xs[i] := by
  have hperm := swapRemove_perm hi
  have hnodup := (hperm.map key).nodup_iff.mpr hxs
  rw [map_cons, nodup_cons] at hnodup
  rw [← hperm.mem_iff, mem_cons]
  constructor
  · intro hx
    exact ⟨.inr hx, fun hk => hnodup.1 (hk ▸ mem_map_of_mem hx)⟩
  · rintro ⟨rfl | hx, hk⟩
    · exact absurd rfl hk
    · exact hx

/-- The list has another entry with the key of this one. -/
def redefines (key : α → κ) (new : List α) (e : α) : Bool := key e ∈ new.map key ∧ e ∉ new

theorem not_redefines_iff {e : α} :
    redefines key new e = false ↔ (key e ∈ new.map key → e ∈ new) := by
  simp [redefines]

theorem redefines_swapRemove (hnew : (new.map key).Nodup) {i : ℕ} (hi : i < new.length) {e : α}
    (he : key e ≠ key new[i]) : redefines key (swapRemove new i) e = redefines key new e := by
  have hkeys : key e ∈ (swapRemove new i).map key ↔ key e ∈ new.map key := by
    rw [← ((swapRemove_perm hi).map key).mem_iff]
    simp [he]
  simp only [redefines, decide_eq_decide, hkeys, mem_swapRemove_iff hnew hi]
  tauto

theorem mergeLoop_of_nodup (hexisting : (existing.map key).Nodup) (m : Merge α)
    (hm : (m.fresh.map key).Nodup) :
    (mergeLoop key existing m).fresh.Perm (m.fresh.filter (· ∉ existing)) ∧
      (mergeLoop key existing m).dropped =
        m.dropped ++ existing.filter (redefines key m.fresh) ∧
      (mergeLoop key existing m).all =
        m.all ++ existing.filter (fun e => !redefines key m.fresh e) := by
  induction existing generalizing m with
  | nil => simp [mergeLoop]
  | cons e rest ih =>
    obtain ⟨he, hrest⟩ := nodup_cons.mp hexisting
    have hne : ∀ x ∈ rest, key x ≠ key e := fun x hx hk => he (hk ▸ mem_map_of_mem hx)
    rw [mergeLoop]
    split
    next hnone =>
      have hkey : key e ∉ m.fresh.map key := (indexOf_eq_none_iff key _ _).mp hnone
      have hmem : e ∉ m.fresh := fun h => hkey (mem_map_of_mem h)
      have hkept : redefines key m.fresh e = false := not_redefines_iff.mpr fun h => absurd h hkey
      obtain ⟨hfresh, hdropped, hall⟩ := ih hrest { m with all := m.all ++ [e] } hm
      refine ⟨hfresh.trans (.of_eq (filter_congr fun x hx => ?_)), ?_, ?_⟩
      · have hx : x ≠ e := fun h => hmem (h ▸ hx)
        simp [hx]
      · simpa [hkept] using hdropped
      · simpa [hkept] using hall
    next i hsome =>
      obtain ⟨hi, hk⟩ := indexOf_eq_some key hsome
      split_ifs with heq
      · -- the entry is there already: it stays, and the rest sees the list without it
        obtain rfl : m.fresh[i] = e := by simpa [getElem?_eq_getElem hi] using heq
        have hkept : redefines key m.fresh m.fresh[i] = false :=
          not_redefines_iff.mpr fun _ => getElem_mem hi
        have hsame : ∀ x ∈ rest, redefines key (swapRemove m.fresh i) x =
            redefines key m.fresh x := fun x hx => redefines_swapRemove hm hi (hne x hx)
        have hperm := swapRemove_perm hi
        have hnodup := (hperm.map key).nodup_iff.mpr hm
        rw [map_cons, nodup_cons] at hnodup
        obtain ⟨hfresh, hdropped, hall⟩ :=
          ih hrest { m with fresh := swapRemove m.fresh i, all := m.all ++ [m.fresh[i]] } hnodup.2
        refine ⟨?_, ?_, ?_⟩
        · have hfilter : (m.fresh.filter (· ∉ m.fresh[i] :: rest)).Perm
              ((swapRemove m.fresh i).filter (· ∉ m.fresh[i] :: rest)) := by
            simpa using (hperm.filter (· ∉ m.fresh[i] :: rest)).symm
          refine hfresh.trans (.trans (.of_eq (filter_congr fun x hx => ?_)) hfilter.symm)
          have hx : x ≠ m.fresh[i] := fun h => hnodup.1 (h ▸ mem_map_of_mem hx)
          simp [hx]
        · simpa [hkept, filter_congr hsame] using hdropped
        · have hsame' : ∀ x ∈ rest, (!redefines key (swapRemove m.fresh i) x) =
              !redefines key m.fresh x := fun x hx => by rw [hsame x hx]
          simpa [hkept, filter_congr hsame'] using hall
      · -- another entry with this key is in the list
        have hmem : e ∉ m.fresh := fun h => heq (by
          rw [getElem?_eq_getElem hi, inj_on_of_nodup_map hm (getElem_mem hi) h hk])
        have hdrop : redefines key m.fresh e = true := by
          simp only [redefines, decide_eq_true_eq]
          exact ⟨mem_keys_of_indexOf key hsome, hmem⟩
        obtain ⟨hfresh, hdropped, hall⟩ := ih hrest { m with dropped := m.dropped ++ [e] } hm
        refine ⟨hfresh.trans (.of_eq (filter_congr fun x hx => ?_)), ?_, ?_⟩
        · have hx : x ≠ e := fun h => hmem (h ▸ hx)
          simp [hx]
        · simpa [hdrop] using hdropped
        · simpa [hdrop] using hall

section Results

variable (hnew : (new.map key).Nodup) (hexisting : (existing.map key).Nodup)
include hnew hexisting

/-- The new entries that are left are those that are not there yet. -/
theorem fresh_merge : (merge key new existing).fresh.Perm (new.filter (· ∉ existing)) :=
  (mergeLoop_of_nodup hexisting ⟨new, [], []⟩ hnew).1

theorem dropped_merge :
    (merge key new existing).dropped = existing.filter (redefines key new) := by
  have h := (mergeLoop_of_nodup hexisting ⟨new, [], []⟩ hnew).2.1
  rw [nil_append] at h
  exact h

theorem all_merge : (merge key new existing).all =
    existing.filter (fun e => !redefines key new e) ++ (merge key new existing).fresh := by
  have h := (mergeLoop_of_nodup hexisting ⟨new, [], []⟩ hnew).2.2
  simp only [nil_append] at h
  unfold merge
  rw [← h]

theorem mem_fresh_merge :
    x ∈ (merge key new existing).fresh ↔ x ∈ new ∧ x ∉ existing := by
  simp [(fresh_merge hnew hexisting).mem_iff]

/-- Removing what is dropped and adding what is left gives the merged table. -/
theorem mem_all_merge_iff :
    x ∈ (merge key new existing).all ↔
      (x ∈ existing ∧ x ∉ (merge key new existing).dropped) ∨
        x ∈ (merge key new existing).fresh := by
  rw [all_merge hnew hexisting, dropped_merge hnew hexisting, mem_append, mem_filter, mem_filter]
  simp only [Bool.not_eq_true', not_and, Bool.not_eq_true]
  tauto

/-- A new entry is in the merged table, and an old one is unless its key is new. -/
theorem mem_all_merge :
    x ∈ (merge key new existing).all ↔ x ∈ new ∨ (x ∈ existing ∧ key x ∉ new.map key) := by
  rw [mem_all_merge_iff hnew hexisting, mem_fresh_merge hnew hexisting,
    dropped_merge hnew hexisting, mem_filter]
  have hkey : x ∈ new → key x ∈ new.map key := mem_map_of_mem
  simp only [redefines, decide_eq_true_eq]
  tauto

theorem nodup_keys_merge : ((merge key new existing).all.map key).Nodup := by
  rw [all_merge hnew hexisting, map_append, nodup_append]
  refine ⟨hexisting.sublist (filter_sublist.map key),
    ((fresh_merge hnew hexisting).map key).nodup_iff.mpr
      (hnew.sublist (filter_sublist.map key)), ?_⟩
  intro k hk k' hk' hkk
  obtain ⟨x, hx, rfl⟩ := mem_map.mp hk
  obtain ⟨y, hy, rfl⟩ := mem_map.mp hk'
  obtain ⟨hynew, hyold⟩ := (mem_fresh_merge hnew hexisting).mp hy
  obtain ⟨hxold, hxkept⟩ := mem_filter.mp hx
  -- an existing entry with the key of a new one is that entry
  have hkey : key x ∈ new.map key := by
    rw [hkk]
    exact mem_map_of_mem hynew
  have hxnew : x ∈ new := not_redefines_iff.mp (by simpa using hxkept) hkey
  exact hyold (inj_on_of_nodup_map hnew hxnew hynew hkk ▸ hxold)

/-- A lookup finds the new entry with a key, and the old one where there is none. -/
theorem lookup_merge (k : κ) : lookup key (merge key new existing).all k =
    (lookup key new k).or (lookup key existing k) := by
  ext x
  rw [lookup_eq_some_iff (nodup_keys_merge hnew hexisting), mem_all_merge hnew hexisting,
    Option.or_eq_some_iff, lookup_eq_some_iff hnew, lookup_eq_some_iff hexisting]
  have hnone : lookup key new k = none ↔ k ∉ new.map key := by
    simp [lookup, find?_eq_none]
  rw [hnone]
  constructor
  · rintro ⟨hx | ⟨hx, hk⟩, rfl⟩
    · exact .inl ⟨hx, rfl⟩
    · exact .inr ⟨hk, hx, rfl⟩
  · rintro (⟨hx, rfl⟩ | ⟨hk, hx, rfl⟩)
    · exact ⟨.inl hx, rfl⟩
    · exact ⟨.inr ⟨hx, hk⟩, rfl⟩

/-- Every key of either list once, with the new entry where there is one, and the
changes that lead there: nothing that is there already is added. -/
structure Merge.Exact (key : α → κ) (new existing : List α) (m : Merge α) : Prop where
  distinct : (m.all.map key).Nodup
  keys : ∀ k, k ∈ m.all.map key ↔ k ∈ existing.map key ∨ k ∈ new.map key
  found : ∀ k, lookup key m.all k = (lookup key new k).or (lookup key existing k)
  changes : SameEntries (existing.filter (· ∉ m.dropped) ++ m.fresh) m.all
  fresh : m.fresh.Perm (new.filter (· ∉ existing))

theorem merge_exact : (merge key new existing).Exact key new existing where
  distinct := nodup_keys_merge hnew hexisting
  keys := mem_keys_merge key new existing
  found := lookup_merge hnew hexisting
  changes x := by
    rw [mem_all_merge_iff hnew hexisting, mem_append, mem_filter, decide_eq_true_eq]
  fresh := fresh_merge hnew hexisting

/-- Merging the same entries again leaves nothing to change. -/
theorem merge_merge : merge key new (merge key new existing).all =
    ⟨[], [], (merge key new existing).all⟩ := by
  have hall := nodup_keys_merge hnew hexisting
  have hkept : ∀ x ∈ (merge key new existing).all, redefines key new x = false := by
    intro x hx
    rw [not_redefines_iff]
    intro hk
    exact ((mem_all_merge hnew hexisting).mp hx).resolve_right fun h => h.2 hk
  have hfresh : (merge key new (merge key new existing).all).fresh = [] := by
    rw [eq_nil_iff_forall_not_mem]
    intro x hx
    obtain ⟨hxnew, hxold⟩ := (mem_fresh_merge hnew hall).mp hx
    exact hxold ((mem_all_merge hnew hexisting).mpr (.inl hxnew))
  have hdropped := dropped_merge hnew hall
  have hmerged := all_merge hnew hall
  rw [filter_eq_nil_iff.mpr fun x hx => by simp [hkept x hx]] at hdropped
  rw [filter_eq_self.mpr fun x hx => by simp [hkept x hx], hfresh, append_nil] at hmerged
  generalize merge key new (merge key new existing).all = m at hfresh hdropped hmerged ⊢
  cases m
  simp_all

end Results

end VolthaCore.Table
