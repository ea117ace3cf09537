import Mathlib.Data.List.AList
import Mathlib.Data.List.Induction

/-! Go maps as association lists with distinct keys. The order of the entries
carries no meaning: two maps are the same when they answer every lookup alike,
and a loop over a map visits its entries in any order. A loop that fills a map is
a list of writes, of which the last one to a key counts. -/

namespace VolthaCore

open List AList

abbrev GoMap (κ ν : Type) := AList (fun _ : κ => ν)

instance {κ ν : Type} [DecidableEq κ] [DecidableEq ν] : DecidableEq (GoMap κ ν) :=
  fun m n => decidable_of_iff (m.entries = n.entries) AList.ext_iff.symm

/-- The order in which Go visits the entries of each map. -/
structure VisitOrder (α : Type) where
  visit : List α → List α
  perm : ∀ l, (visit l).Perm l

def VisitOrder.listed {α : Type} : VisitOrder α := ⟨id, fun _ => .refl _⟩

def VisitOrder.reversed {α : Type} : VisitOrder α := ⟨List.reverse, reverse_perm⟩

def VisitOrder.ascending {α : Type} (f : α → ℕ) : VisitOrder α :=
  ⟨fun l => l.mergeSort (f · ≤ f ·), fun l => mergeSort_perm l _⟩

theorem VisitOrder.pairwise_ascending {α : Type} (f : α → ℕ) (l : List α) :
    ((VisitOrder.ascending f).visit l).Pairwise (f · ≤ f ·) := by
  refine (pairwise_mergeSort (fun a b c hab hbc => ?_) (fun a b => ?_) l).imp fun h => by
    simpa using h
  · simp only [decide_eq_true_eq] at hab hbc ⊢
    omega
  · simp only [Bool.or_eq_true, decide_eq_true_eq]
    omega

namespace GoMap

variable {κ ν : Type} {m : GoMap κ ν} {a : κ} {v : ν} {ws : List (κ × ν)}

theorem eq_empty_of_length (h : m.keys.length = 0) : m = ∅ := by
  apply AList.ext
  simpa [AList.keys, List.keys] using h

theorem eq_empty_of_forall_notMem (h : ∀ a, a ∉ m) : m = ∅ :=
  eq_empty_of_length (by
    rw [length_eq_zero_iff, eq_nil_iff_forall_not_mem]
    exact h)

variable [DecidableEq κ]

theorem erase_of_notMem {k : κ} (hk : k ∉ m) : m.erase k = m :=
  AList.ext (kerase_of_notMem_keys hk)

/-- The maps answer every lookup alike. -/
def Same (m n : GoMap κ ν) : Prop := ∀ a, m.lookup a = n.lookup a

theorem lookup_insert_eq (m : GoMap κ ν) (a b : κ) (v : ν) :
    (m.insert b v).lookup a = if a = b then some v else m.lookup a := by
  by_cases h : a = b
  · subst h
    rw [if_pos rfl, lookup_insert]
  · rw [if_neg h, lookup_insert_ne h]

theorem mem_iff_exists_lookup : a ∈ m ↔ ∃ v, m.lookup a = some v := by
  rw [← lookup_isSome, Option.isSome_iff_exists]

theorem mem_entries_iff : (⟨a, v⟩ : Σ _ : κ, ν) ∈ m.entries ↔ m.lookup a = some v :=
  (mem_lookup_iff (s := m)).symm

def filter (m : GoMap κ ν) (keep : κ → ν → Bool) : GoMap κ ν :=
  ⟨m.entries.filter fun e => keep e.1 e.2, m.nodupKeys.sublist filter_sublist⟩

theorem lookup_filter (m : GoMap κ ν) (keep : κ → ν → Bool) (a : κ) :
    (m.filter keep).lookup a = (m.lookup a).filter (keep a) := by
  ext v
  rw [← mem_entries_iff, Option.filter_eq_some_iff, ← mem_entries_iff, filter, mem_filter]

/-! ### Sequences of writes -/

def writeAll (m : GoMap κ ν) (writes : List (κ × ν)) : GoMap κ ν :=
  writes.foldl (fun m w => m.insert w.1 w.2) m

@[simp] theorem writeAll_nil (m : GoMap κ ν) : writeAll m [] = m := rfl

@[simp] theorem writeAll_cons (m : GoMap κ ν) (w : κ × ν) (ws : List (κ × ν)) :
    writeAll m (w :: ws) = writeAll (m.insert w.1 w.2) ws := rfl

theorem writeAll_append (m : GoMap κ ν) (ws vs : List (κ × ν)) :
    writeAll m (ws ++ vs) = writeAll (writeAll m ws) vs := foldl_append

/-- The last write to a key counts. -/
theorem lookup_writeAll (m : GoMap κ ν) (ws : List (κ × ν)) (a : κ) :
    (writeAll m ws).lookup a = ((ws.reverse.find? (·.1 = a)).map Prod.snd).or (m.lookup a) := by
  induction ws using List.reverseRecOn with
  | nil => rfl
  | append_singleton ws w ih =>
    rw [writeAll_append, writeAll_cons, writeAll_nil, lookup_insert_eq, ih, reverse_concat,
      find?_cons]
    by_cases h : w.1 = a
    · simp [h]
    · simp [h, Ne.symm h]

theorem lookup_writeAll_of_notMem (h : ∀ w ∈ ws, w.1 ≠ a) :
    (writeAll m ws).lookup a = m.lookup a := by
  rw [lookup_writeAll, find?_eq_none.mpr (by simpa using h)]
  rfl

theorem mem_writeAll : a ∈ writeAll m ws ↔ (∃ w ∈ ws, w.1 = a) ∨ a ∈ m := by
  rw [← lookup_isSome, lookup_writeAll, Option.isSome_or, Option.isSome_map, Bool.or_eq_true,
    lookup_isSome, find?_isSome]
  simp

/-- An entry comes from the map before or from one of the writes. -/
theorem lookup_writeAll_cases (h : (writeAll m ws).lookup a = some v) :
    (a, v) ∈ ws ∨ (∀ w ∈ ws, w.1 ≠ a) ∧ m.lookup a = some v := by
  rw [lookup_writeAll] at h
  cases hfind : ws.reverse.find? (·.1 = a) with
  | none =>
    rw [hfind] at h
    exact .inr ⟨by simpa using hfind, h⟩
  | some w =>
    rw [hfind] at h
    cases h
    obtain rfl : w.1 = a := by simpa using find?_some hfind
    exact .inl (mem_reverse.mp (mem_of_find?_eq_some hfind))

/-- A key whose writes all carry one value has that value in the end. -/
theorem lookup_writeAll_of_agree (hmem : ∃ w ∈ ws, w.1 = a) (h : ∀ w ∈ ws, w.1 = a → w.2 = v) :
    (writeAll m ws).lookup a = some v := by
  obtain ⟨u, hu⟩ := mem_iff_exists_lookup.mp (mem_writeAll (m := m) |>.mpr (.inl hmem))
  rcases lookup_writeAll_cases hu with hw | ⟨hno, -⟩
  · rw [hu, ← h _ hw rfl]
  · obtain ⟨w, hw, he⟩ := hmem
    exact absurd he (hno w hw)

end GoMap

end VolthaCore
