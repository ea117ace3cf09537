import VolthaCore.Lib.Table

/-! Maps that remember the order of insertion and are filled only with absent
keys. The key of an entry is computed from the entry, and no two entries of a
map share it, which the structure carries as a field. Adding the entries of one
map to another keeps the earlier entry of every clash, so a clash between
different entries loses one of them; membership after a sequence of additions is
stated both ways, with the lost entries covered by one that has their key. -/

namespace VolthaCore

open List

variable {α κ : Type}

/-- The entries of a map in insertion order. -/
structure OrderedMap (key : α → κ) where
  items : List α
  nodup : (items.map key).Nodup

namespace OrderedMap

variable {key : α → κ}

def empty : OrderedMap key := ⟨[], by simp⟩

instance : Inhabited (OrderedMap key) := ⟨empty⟩

@[simp] theorem items_empty : (empty : OrderedMap key).items = [] := rfl

@[ext] theorem ext {m n : OrderedMap key} (h : m.items = n.items) : m = n := by
  cases m
  cases n
  simpa using h

variable [DecidableEq κ] {y : α}

def addIfAbsent (m : OrderedMap key) (x : α) : OrderedMap key :=
  if h : key x ∈ m.items.map key then m
  else ⟨m.items ++ [x], Table.nodup_keys_concat key m.nodup h⟩

def addAll (m : OrderedMap key) (xs : List α) : OrderedMap key := xs.foldl addIfAbsent m

theorem items_addIfAbsent (m : OrderedMap key) (x : α) :
    (m.addIfAbsent x).items = if key x ∈ m.items.map key then m.items else m.items ++ [x] := by
  unfold addIfAbsent
  split_ifs <;> rfl

theorem addIfAbsent_empty (x : α) : ((empty : OrderedMap key).addIfAbsent x).items = [x] := by
  simp [items_addIfAbsent]

section

variable (m : OrderedMap key)
include m

theorem subset_addIfAbsent (x : α) (hy : y ∈ m.items) :
    y ∈ (m.addIfAbsent x).items := by
  rw [items_addIfAbsent]
  split_ifs
  · exact hy
  · exact mem_append_left _ hy

theorem mem_addIfAbsent (x : α) (hy : y ∈ (m.addIfAbsent x).items) :
    y ∈ m.items ∨ y = x := by
  rw [items_addIfAbsent] at hy
  split_ifs at hy
  · exact .inl hy
  · simpa using hy

/-- The entry itself or an earlier one with its key is there afterwards. -/
theorem exists_key_addIfAbsent (x : α) :
    ∃ y ∈ (m.addIfAbsent x).items, key y = key x := by
  rw [items_addIfAbsent]
  split_ifs with h
  · simpa using h
  · exact ⟨x, by simp, rfl⟩

theorem subset_addAll (xs : List α) (hy : y ∈ m.items) :
    y ∈ (m.addAll xs).items := by
  induction xs generalizing m with
  | nil => exact hy
  | cons x xs ih => exact ih _ (m.subset_addIfAbsent x hy)

theorem mem_addAll (xs : List α) (hy : y ∈ (m.addAll xs).items) :
    y ∈ m.items ∨ y ∈ xs := by
  induction xs generalizing m with
  | nil => exact .inl hy
  | cons x xs ih =>
    rcases ih _ hy with h | h
    · rcases m.mem_addIfAbsent x h with h | rfl
      · exact .inl h
      · exact .inr (by simp)
    · exact .inr (mem_cons_of_mem _ h)

theorem exists_key_addAll (xs : List α) {x : α} (hx : x ∈ xs) :
    ∃ y ∈ (m.addAll xs).items, key y = key x := by
  induction xs generalizing m with
  | nil => simp at hx
  | cons z xs ih =>
    rcases mem_cons.mp hx with rfl | h
    · obtain ⟨y, hy, hk⟩ := m.exists_key_addIfAbsent x
      exact ⟨y, subset_addAll _ xs hy, hk⟩
    · exact ih _ h

end

theorem addIfAbsent_of_mem {m : OrderedMap key} {x : α} (h : key x ∈ m.items.map key) :
    m.addIfAbsent x = m := by
  ext1
  rw [items_addIfAbsent, if_pos h]

theorem mem_keys_addAll (m : OrderedMap key) (xs : List α) (k : κ) :
    k ∈ (m.addAll xs).items.map key ↔ k ∈ m.items.map key ∨ k ∈ xs.map key := by
  simp only [mem_map]
  constructor
  · rintro ⟨y, hy, rfl⟩
    rcases m.mem_addAll xs hy with h | h
    · exact .inl ⟨y, h, rfl⟩
    · exact .inr ⟨y, h, rfl⟩
  · rintro (⟨y, hy, rfl⟩ | ⟨y, hy, rfl⟩)
    · exact ⟨y, m.subset_addAll xs hy, rfl⟩
    · exact m.exists_key_addAll xs hy

/-- Adding a map and then more entries is adding the map with these entries. -/
theorem addAll_addAll (m n : OrderedMap key) (ys : List α) :
    (m.addAll n.items).addAll ys = m.addAll (n.addAll ys).items := by
  induction ys generalizing n with
  | nil => rfl
  | cons y ys ih =>
    change ((m.addAll n.items).addIfAbsent y).addAll ys =
      m.addAll ((n.addIfAbsent y).addAll ys).items
    rw [← ih]
    congr 1
    by_cases hy : key y ∈ n.items.map key
    · rw [addIfAbsent_of_mem hy, addIfAbsent_of_mem ((mem_keys_addAll m _ _).mpr (.inr hy))]
    · rw [items_addIfAbsent, if_neg hy, addAll, addAll, foldl_append]
      rfl

end OrderedMap

end VolthaCore
