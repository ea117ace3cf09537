import Mathlib.Data.List.Nodup
import Mathlib.Data.List.Perm.Basic

/-! Lists read as tables: every entry has a key, and an entry is found by the
first position that carries its key. Keys may repeat, so the lemmas speak about
the set of keys and about lookups and need no distinctness. The merge loop
walks the entries a table already has against a list of new ones: an entry
whose key is new to the list stays, one that the list repeats exactly stays and
leaves the list, and one that the list redefines is dropped. -/

namespace VolthaCore.Table

open List

variable {α : Type} {xs : List α} {x : α} {κ : Type} [DecidableEq κ] (key : α → κ)

def indexOf (xs : List α) (k : κ) : Option ℕ := xs.findIdx? fun x => decide (key x = k)

def lookup (xs : List α) (k : κ) : Option α := xs.find? fun x => decide (key x = k)

theorem eraseP_congr {p q : α → Bool} (h : ∀ x ∈ xs, p x = q x) : xs.eraseP p = xs.eraseP q := by
  induction xs with
  | nil => rfl
  | cons x xs ih =>
    rw [eraseP_cons, eraseP_cons, h x (by simp), ih fun y hy => h y (mem_cons_of_mem _ hy)]

theorem indexOf_eq_none_iff (xs : List α) (k : κ) : indexOf key xs k = none ↔ k ∉ xs.map key := by
  simp [indexOf, findIdx?_eq_none_iff]

variable {k : κ} {i : ℕ}

theorem indexOf_eq_some (h : indexOf key xs k = some i) : ∃ hi : i < xs.length, key xs[i] = k := by
  obtain ⟨hi, hk, -⟩ := findIdx?_eq_some_iff_getElem.mp h
  exact ⟨hi, by simpa using hk⟩

theorem mem_keys_of_indexOf (h : indexOf key xs k = some i) : k ∈ xs.map key := by
  obtain ⟨hi, rfl⟩ := indexOf_eq_some key h
  exact mem_map_of_mem (getElem_mem hi)

theorem key_of_lookup (h : lookup key xs k = some x) : key x = k := by
  simpa using find?_some h

theorem mem_keys_of_lookup (h : lookup key xs k = some x) : k ∈ xs.map key := by
  exact key_of_lookup key h ▸ mem_map_of_mem (mem_of_find?_eq_some h)

omit [DecidableEq κ] in
theorem keys_set_of_key_eq (hi : i < xs.length) (hx : key x = key xs[i]) :
    (xs.set i x).map key = xs.map key := by
  rw [map_set, hx]
  apply ext_getElem
  · simp
  · intro j h1 h2
    rw [getElem_set]
    split_ifs with hij
    · subst hij
      simp
    · rfl

omit [DecidableEq κ] in
theorem nodup_keys_concat (h : (xs.map key).Nodup) (hx : key x ∉ xs.map key) :
    ((xs ++ [x]).map key).Nodup := by
  rw [map_append, map_singleton, ← concat_eq_append, nodup_concat]
  exact ⟨hx, h⟩

section SwapRemove

/-- Remove entry `i` by moving the last entry into its place. -/
def swapRemove (xs : List α) (i : ℕ) : List α :=
  match xs.getLast? with
  | none => xs
  | some l => (xs.set i l).dropLast

/-- Only the entry at `i` leaves; the order of the others may change. -/
theorem swapRemove_perm {xs : List α} {i : ℕ} (hi : i < xs.length) :
    (xs[i] :: swapRemove xs i).Perm xs := by
  obtain ⟨ys, l, rfl⟩ : ∃ ys l, xs = ys ++ [l] := by
    rcases eq_nil_or_concat xs with h | ⟨ys, l, h⟩
    · subst h; simp at hi
    · exact ⟨ys, l, by simpa using h⟩
  simp only [swapRemove, getLast?_append, getLast?_singleton, Option.some_or]
  rcases Nat.lt_or_ge i ys.length with h | h
  · rw [set_append_left _ _ h, dropLast_concat, getElem_append_left h]
    have hset : (ys[i] :: ys.set i l).Perm (ys[i] :: l :: ys.eraseIdx i) :=
      (set_perm_cons_eraseIdx h l).cons _
    have hback : (l :: ys[i] :: ys.eraseIdx i).Perm (l :: ys) :=
      (getElem_cons_eraseIdx_perm h).cons _
    exact hset.trans ((List.Perm.swap _ _ _).trans
      (hback.trans (perm_append_singleton l ys).symm))
  · have he : i = ys.length := by simp at hi; omega
    subst he
    simp [perm_append_singleton l ys |>.symm]

end SwapRemove

section Merge
variable [DecidableEq α]

/-- The three lists the merge loop carries: the new entries still to be added,
the existing entries they replace, and the entries of the merged table. -/
structure Merge (α : Type) where
  fresh : List α
  dropped : List α
  all : List α

def mergeLoop : List α → Merge α → Merge α
  | [], m => m
  | e :: rest, m =>
    match indexOf key m.fresh (key e) with
    | none => mergeLoop rest { m with all := m.all ++ [e] }
    | some i =>
      if m.fresh[i]? = some e then
        mergeLoop rest { m with fresh := swapRemove m.fresh i, all := m.all ++ [e] }
      else mergeLoop rest { m with dropped := m.dropped ++ [e] }

/-- Merge `new` into `existing`; the new entries that are left go last. -/
def merge (new existing : List α) : Merge α :=
  let m := mergeLoop key existing ⟨new, [], []⟩
  { m with all := m.all ++ m.fresh }

/-- Every entry processed by the loop leaves its key in the merged table or in
the new entries still to be added. -/
theorem mergeLoop_keys (existing : List α) (m : Merge α) (k : κ) :
    (k ∈ (mergeLoop key existing m).all.map key ∨ k ∈ (mergeLoop key existing m).fresh.map key) ↔
      k ∈ m.all.map key ∨ k ∈ m.fresh.map key ∨ k ∈ existing.map key := by
  induction existing generalizing m with
  | nil => simp [mergeLoop]
  | cons e rest ih =>
    rw [mergeLoop]
    split
    next hnone =>
      rw [ih]
      simp only [map_append, mem_append, map_cons, map_nil, mem_cons, not_mem_nil, or_false]
      tauto
    next i hsome =>
      obtain ⟨hi, hk⟩ := indexOf_eq_some key hsome
      split_ifs with heq
      · -- the new entry that leaves has the key of the one that stays
        have hkeys := ((swapRemove_perm hi).map key).mem_iff (a := k)
        rw [ih]
        simp only [map_cons, mem_cons, hk] at hkeys
        simp only [map_append, mem_append, map_cons, map_nil, mem_cons, not_mem_nil, or_false]
        rw [← hkeys]
        tauto
      · have hmem := mem_keys_of_indexOf key hsome
        rw [ih]
        simp only [map_cons, mem_cons]
        constructor
        · tauto
        · rintro (h | h | rfl | h)
          · exact .inl h
          · exact .inr (.inl h)
          · exact .inr (.inl hmem)
          · exact .inr (.inr h)

theorem mem_keys_merge (new existing : List α) (k : κ) :
    k ∈ (merge key new existing).all.map key ↔ k ∈ existing.map key ∨ k ∈ new.map key := by
  have h := mergeLoop_keys key existing ⟨new, [], []⟩ k
  simp only [merge, map_append, mem_append]
  rw [h]
  simp [or_comm]

/-- A merged table is empty only if nothing was there before. -/
theorem eq_nil_of_merge_all_eq_nil {new existing : List α}
    (h : (merge key new existing).all = []) : existing = [] := by
  rw [eq_nil_iff_forall_not_mem]
  intro x hx
  have hmem := (mem_keys_merge key new existing (key x)).mpr (.inl (mem_map_of_mem hx))
  simp [h] at hmem

theorem mergeLoop_nil (existing : List α) (m : Merge α) (hm : m.fresh = []) :
    mergeLoop key existing m = { m with all := m.all ++ existing } := by
  induction existing generalizing m with
  | nil => simp [mergeLoop]
  | cons e rest ih =>
    have hnone : indexOf key m.fresh (key e) = none := by
      rw [indexOf_eq_none_iff, hm]
      simp
    rw [mergeLoop, hnone]
    simp only
    rw [ih { m with all := m.all ++ [e] } hm]
    simp

@[simp] theorem merge_nil (existing : List α) :
    merge key [] existing = ⟨[], [], existing⟩ := by
  simp [merge, mergeLoop_nil]

/-- Entries under a key that the new entries do not use pass through the loop. -/
theorem mergeLoop_filter (existing : List α) (m : Merge α) (k : κ)
    (hm : ∀ x ∈ m.fresh, key x = k) :
    (mergeLoop key existing m).all.filter (fun x => key x ≠ k) =
        m.all.filter (fun x => key x ≠ k) ++ existing.filter (fun x => key x ≠ k) ∧
      ∀ x ∈ (mergeLoop key existing m).fresh, key x = k := by
  induction existing generalizing m with
  | nil => simpa [mergeLoop] using hm
  | cons e rest ih =>
    rw [mergeLoop]
    split
    next hnone =>
      have := ih { m with all := m.all ++ [e] } hm
      by_cases hek : key e = k <;>
        simpa [filter_append, filter_cons, hek] using this
    next i hsome =>
      obtain ⟨hi, hk⟩ := indexOf_eq_some key hsome
      have hek : key e = k := hk ▸ hm _ (getElem_mem hi)
      split_ifs with heq
      · have hsub : ∀ x ∈ swapRemove m.fresh i, key x = k := fun x hx =>
          hm x ((swapRemove_perm hi).subset (mem_cons_of_mem _ hx))
        have := ih { m with fresh := swapRemove m.fresh i, all := m.all ++ [e] } hsub
        simpa [filter_append, filter_cons, hek] using this
      · have := ih { m with dropped := m.dropped ++ [e] } hm
        simpa [filter_cons, hek] using this

theorem merge_singleton_filter (x : α) (existing : List α) :
    (merge key [x] existing).all.filter (fun y => key y ≠ key x) =
      existing.filter (fun y => key y ≠ key x) := by
  obtain ⟨hall, hfresh⟩ := mergeLoop_filter key existing ⟨[x], [], []⟩ (key x) (by simp)
  have hnil : (mergeLoop key existing ⟨[x], [], []⟩).fresh.filter (fun y => key y ≠ key x) = [] :=
    filter_eq_nil_iff.mpr fun y hy => by simp [hfresh y hy]
  simp only [merge, filter_append, hall, hnil]
  simp

/-- Inside the loop either the new entry `x` is still to be added and its key is
free, or `x` is the entry found under its key. -/
theorem lookup_mergeLoop (x : α) (existing : List α) (m : Merge α)
    (hm : (m.fresh = [x] ∧ lookup key m.all (key x) = none) ∨
      (m.fresh = [] ∧ lookup key m.all (key x) = some x)) :
    lookup key ((mergeLoop key existing m).all ++ (mergeLoop key existing m).fresh) (key x) =
      some x := by
  induction existing generalizing m with
  | nil =>
    obtain ⟨hf, hl⟩ | ⟨hf, hl⟩ := hm
    · simp only [lookup] at hl
      simp [mergeLoop, lookup, find?_append, hf, hl]
    · simp [mergeLoop, hf, hl]
  | cons e rest ih =>
    obtain ⟨hf, hl⟩ | ⟨hf, hl⟩ := hm
    · rw [mergeLoop]
      split
      next hnone =>
        rw [indexOf_eq_none_iff, hf] at hnone
        have hne : key e ≠ key x := by simpa using hnone
        refine ih _ (.inl ⟨hf, ?_⟩)
        simp only [lookup] at hl
        simp [lookup, find?_append, hl, hne]
      next i hsome =>
        obtain ⟨hi, -⟩ := indexOf_eq_some key hsome
        obtain rfl : i = 0 := by simp [hf] at hi; omega
        split_ifs with heq
        · obtain rfl : x = e := by simpa [hf] using heq
          refine ih _ (.inr ⟨by simp [hf, swapRemove], ?_⟩)
          simp only [lookup] at hl
          simp [lookup, find?_append, hl]
        · exact ih _ (.inl ⟨hf, hl⟩)
    · rw [mergeLoop_nil key _ _ hf]
      simp only [lookup] at hl
      simp [lookup, find?_append, hl]

theorem lookup_merge_singleton (x : α) (existing : List α) :
    lookup key (merge key [x] existing).all (key x) = some x :=
  lookup_mergeLoop key x existing ⟨[x], [], []⟩ (.inl ⟨rfl, rfl⟩)

end Merge

/-- Edit the first entry that satisfies a condition. -/
def editFirst {α : Type} (p : α → Bool) (edit : α → α) : List α → List α
  | [] => []
  | x :: rest => if p x then edit x :: rest else x :: editFirst p edit rest

section EditFirst
variable {β : Type} {p : α → Bool} {edit : α → α}

theorem map_editFirst {g : α → β} (h : ∀ x, p x = true → g (edit x) = g x) (xs : List α) :
    (editFirst p edit xs).map g = xs.map g := by
  induction xs with
  | nil => rfl
  | cons x rest ih =>
    rw [editFirst]
    split_ifs with hp
    · simp [h x hp]
    · simp [ih]

theorem editFirst_ne {xs : List α} (hmem : ∃ x ∈ xs, p x = true) (hne : ∀ x, edit x ≠ x) :
    editFirst p edit xs ≠ xs := by
  induction xs with
  | nil => simp at hmem
  | cons x rest ih =>
    rw [editFirst]
    split_ifs with hp
    · simp [hne x]
    · obtain ⟨y, hy, hyp⟩ := hmem
      rcases mem_cons.mp hy with rfl | hy
      · exact absurd hyp hp
      · simpa using ih ⟨y, hy, hyp⟩

end EditFirst

/-- An entry of a table with distinct keys is edited or has another key. -/
theorem mem_editFirst (hxs : (xs.map key).Nodup) {edit : α → α} {y : α}
    (hy : y ∈ editFirst (fun x => key x = k) edit xs) :
    (y ∈ xs ∧ key y ≠ k) ∨ ∃ x ∈ xs, key x = k ∧ y = edit x := by
  induction xs with
  | nil => cases hy
  | cons x rest ih =>
    rw [map_cons, nodup_cons] at hxs
    rw [editFirst] at hy
    split_ifs at hy with hk
    · have hkx : key x = k := by simpa using hk
      rcases mem_cons.mp hy with rfl | hy
      · exact .inr ⟨x, by simp, hkx, rfl⟩
      · refine .inl ⟨mem_cons_of_mem _ hy, fun hky => hxs.1 ?_⟩
        rw [hkx, ← hky]
        exact mem_map_of_mem hy
    · rcases mem_cons.mp hy with rfl | hy
      · exact .inl ⟨by simp, by simpa using hk⟩
      · rcases ih hxs.2 hy with ⟨hy, hne⟩ | ⟨z, hz, hkz, rfl⟩
        · exact .inl ⟨mem_cons_of_mem _ hy, hne⟩
        · exact .inr ⟨z, mem_cons_of_mem _ hz, hkz, rfl⟩

/-! ### Changes by key -/

section Changes

/-- The same entries, in any order and number. -/
def SameEntries {α : Type} (xs ys : List α) : Prop := ∀ x, x ∈ xs ↔ x ∈ ys

instance {α : Type} [DecidableEq α] (xs ys : List α) : Decidable (SameEntries xs ys) :=
  decidable_of_iff ((∀ x ∈ xs, x ∈ ys) ∧ ∀ x ∈ ys, x ∈ xs)
    ⟨fun h x => ⟨h.1 x, h.2 x⟩, fun h => ⟨fun x => (h x).mp, fun x => (h x).mpr⟩⟩

variable {ys old new : List α} {k : κ}

/-- Removing the first entry with a key removes all of them if there is just one. -/
theorem sameEntries_eraseIdx_iff {i : ℕ} (h : indexOf key xs k = some i) :
    SameEntries (xs.eraseIdx i) (xs.filter fun x => key x ≠ k) ↔ (xs.map key).count k = 1 := by
  obtain ⟨hi, hk⟩ := indexOf_eq_some key h
  have hperm := getElem_cons_eraseIdx_perm hi
  have hcount : (xs.map key).count k = ((xs.eraseIdx i).map key).count k + 1 := by
    rw [← (hperm.map key).count_eq, map_cons, hk, count_cons_self]
  rw [hcount, Nat.add_eq_right, count_eq_zero]
  constructor
  · intro hsame hmem
    obtain ⟨x, hx, hxk⟩ := mem_map.mp hmem
    have hne := (mem_filter.mp ((hsame x).mp hx)).2
    simp [hxk] at hne
  · intro hnot x
    rw [mem_filter, decide_eq_true_eq]
    constructor
    · intro hx
      exact ⟨mem_of_mem_eraseIdx hx, fun hxk => hnot (hxk ▸ mem_map_of_mem hx)⟩
    · rintro ⟨hx, hne⟩
      rcases mem_cons.mp (hperm.mem_iff.mpr hx) with rfl | hx
      · exact absurd hk hne
      · exact hx

def removeAll (xs ys : List α) : List α := xs.filter fun x => key x ∉ ys.map key

/-- Put entries into a table one after the other, each in place of the one that
has its key. -/
def putAll (xs ys : List α) : List α :=
  ys.foldl (fun t y => t.filter (fun x => key x ≠ key y) ++ [y]) xs

theorem mem_removeAll : x ∈ removeAll key xs ys ↔ x ∈ xs ∧ key x ∉ ys.map key := by
  simp [removeAll]

theorem mem_keys_removeAll :
    k ∈ (removeAll key xs ys).map key ↔ k ∈ xs.map key ∧ k ∉ ys.map key := by
  change k ∈ (xs.filter ((fun k => decide (k ∉ ys.map key)) ∘ key)).map key ↔ _
  rw [← filter_map, mem_filter, decide_eq_true_eq]

theorem nodup_keys_removeAll (ys : List α) (h : (xs.map key).Nodup) :
    ((removeAll key xs ys).map key).Nodup :=
  h.sublist (filter_sublist.map key)

theorem mem_putAll (hys : (ys.map key).Nodup) :
    x ∈ putAll key xs ys ↔ (x ∈ xs ∧ key x ∉ ys.map key) ∨ x ∈ ys := by
  induction ys generalizing xs with
  | nil => simp [putAll]
  | cons y ys ih =>
    rw [map_cons, nodup_cons] at hys
    have hstep : putAll key xs (y :: ys) =
        putAll key (xs.filter (fun x => key x ≠ key y) ++ [y]) ys := rfl
    rw [hstep, ih hys.2]
    have hkey : x = y → key x ∉ ys.map key := fun h => h ▸ hys.1
    simp only [mem_append, mem_filter, map_cons, mem_cons, decide_eq_true_eq]
    tauto

/-- The entries of `xs` that have the key of some entry of `ys`. -/
def sharedKeys (xs ys : List α) : List α := xs.filter fun x => key x ∈ ys.map key

theorem mem_keys_sharedKeys :
    k ∈ (sharedKeys key xs ys).map key ↔ k ∈ xs.map key ∧ k ∈ ys.map key := by
  change k ∈ (xs.filter ((fun k => decide (k ∈ ys.map key)) ∘ key)).map key ↔ _
  rw [← filter_map, mem_filter, decide_eq_true_eq]

/-- Removing from `old` the entries that `new` repeats, instead of those it lacks,
keeps all others: what is left has no key of `new`. -/
theorem mem_removeAll_sharedKeys :
    x ∈ removeAll key old (sharedKeys key old new) ↔ x ∈ old ∧ key x ∉ new.map key := by
  rw [mem_removeAll, mem_keys_sharedKeys]
  exact and_congr_right fun hx => by simp [mem_map_of_mem hx]

/-- Such changes turn `old` into `new` only when there was nothing to change. -/
theorem changes_sameEntries_iff (hnew : (new.map key).Nodup) :
    SameEntries (putAll key (removeAll key old (sharedKeys key old new)) (removeAll key new old))
        new ↔ old = [] := by
  have hmem : ∀ x, x ∈ putAll key (removeAll key old (sharedKeys key old new))
      (removeAll key new old) ↔
        (x ∈ old ∧ key x ∉ new.map key) ∨ (x ∈ new ∧ key x ∉ old.map key) := by
    intro x
    rw [mem_putAll key (nodup_keys_removeAll key old hnew), mem_removeAll_sharedKeys, mem_removeAll]
    have hsub : key x ∈ (removeAll key new old).map key → key x ∈ new.map key := fun h =>
      (filter_sublist.map key).subset h
    tauto
  constructor
  · intro h
    rw [eq_nil_iff_forall_not_mem]
    intro x hx
    by_cases hk : key x ∈ new.map key
    · -- the entry of `new` with this key is removed and not added again
      obtain ⟨y, hy, hyk⟩ := mem_map.mp hk
      rcases (hmem y).mp ((h y).mpr hy) with ⟨-, hn⟩ | ⟨-, ho⟩
      · exact hn (hyk ▸ hk)
      · exact ho (hyk ▸ mem_map_of_mem hx)
    · exact hk (mem_map_of_mem ((h x).mp ((hmem x).mpr (.inl ⟨hx, hk⟩))))
  · rintro rfl x
    rw [hmem]
    simp

/-- Overwriting with all of `new` afterwards brings the removed entries back, so
only the entries that `new` lacks are in the way. -/
theorem changes_overwrite_sameEntries_iff (hnew : (new.map key).Nodup) :
    SameEntries (putAll key (putAll key (removeAll key old (sharedKeys key old new))
        (removeAll key new old)) new) new ↔ ∀ x ∈ old, key x ∈ new.map key := by
  constructor
  · intro h x hx
    by_contra hk
    refine hk (mem_map_of_mem ((h x).mp ?_))
    rw [mem_putAll key hnew, mem_putAll key (nodup_keys_removeAll key old hnew),
      mem_removeAll_sharedKeys]
    have hsub : key x ∉ (removeAll key new old).map key := fun hm =>
      hk ((filter_sublist.map key).subset hm)
    exact .inl ⟨.inl ⟨⟨hx, hk⟩, hsub⟩, hk⟩
  · intro h x
    rw [mem_putAll key hnew, mem_putAll key (nodup_keys_removeAll key old hnew),
      mem_removeAll_sharedKeys, mem_removeAll]
    constructor
    · rintro (⟨⟨⟨hx, hk⟩, -⟩ | ⟨hx, -⟩, -⟩ | hx)
      · exact absurd (h x hx) hk
      · exact hx
      · exact hx
    · exact .inr

end Changes

end VolthaCore.Table
