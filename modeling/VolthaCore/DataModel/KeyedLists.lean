import VolthaCore.DataModel.Merge

/-! Lists of children by key: the positions of keys, the sets of added, removed and
changed keys, and the loop that merges children in place. Nothing here needs the
keys of a list to be distinct: a key then stands for its last position. -/

namespace VolthaCore.DataModel

open Logged List Option AList

variable {k : String} {α ω : Type} {fork : List α} {r : α} {A : Access α} {Q : ω → Prop}
  {log : List ω} {orders : KeyOrders}

/-! ### Positions -/

section Positions

variable {keys : List String}

theorem mem_keyMap : k ∈ keyMap keys ↔ k ∈ keys := by
  unfold keyMap
  rw [GoMap.mem_writeAll]
  simp only [notMem_empty, or_false]
  constructor
  · rintro ⟨⟨a, i⟩, h, rfl⟩
    exact fst_mem_of_mem_zipIdx h
  · intro h
    obtain ⟨i, hi, rfl⟩ := getElem_of_mem h
    exact ⟨(keys[i], i), mem_zipIdx_iff_getElem?.mpr (by simp), rfl⟩

theorem getElem?_position (hk : k ∈ keys) : keys[position (keyMap keys) k]? = some k := by
  obtain ⟨i, hi⟩ := GoMap.mem_iff_exists_lookup.mp (mem_keyMap.mpr hk)
  have hpos : position (keyMap keys) k = i := by simp [position, hi]
  rw [hpos]
  rcases GoMap.lookup_writeAll_cases hi with h | ⟨-, h⟩
  · exact mem_zipIdx_iff_getElem?.mp h
  · simp at h

theorem position_lt (hk : k ∈ keys) : position (keyMap keys) k < keys.length :=
  (List.getElem?_eq_some_iff.mp (getElem?_position hk)).1

theorem position_injective {k' : String} (hk : k ∈ keys) (hk' : k' ∈ keys)
    (h : position (keyMap keys) k = position (keyMap keys) k') : k = k' := by
  have hat := getElem?_position hk
  rw [h, getElem?_position hk'] at hat
  exact (Option.some.inj hat).symm

end Positions

/-! ### Children by key -/

section Children

variable (A : Access α) (keyName : String)

def childKeys (l : List α) : List String := l.map (A.key keyName)

def childOf (l : List α) (k : String) : Option α := l.find? (A.key keyName · = k)

def Touches (fork l : List α) (k : String) : Prop :=
  (childOf A keyName fork k).map A.hash ≠ (childOf A keyName l k).map A.hash

variable {A keyName} {l : List α}

theorem childOf_eq_none_iff : childOf A keyName l k = none ↔ k ∉ childKeys A keyName l := by
  simp [childOf, childKeys]

theorem exists_childOf (h : k ∈ childKeys A keyName l) : ∃ r, childOf A keyName l k = some r := by
  rw [← isSome_iff_exists, isSome_iff_ne_none, Ne, childOf_eq_none_iff]
  simpa using h

section

variable (h : childOf A keyName l k = some r)
include h

theorem key_of_childOf : A.key keyName r = k := by
  simpa using find?_some h

theorem mem_of_childOf : r ∈ l := mem_of_find?_eq_some h

theorem mem_childKeys_of_childOf :
    k ∈ childKeys A keyName l :=
  key_of_childOf h ▸ List.mem_map_of_mem (mem_of_childOf h)

end

section

variable (hnodup : (childKeys A keyName l).Nodup)
include hnodup

theorem childOf_eq_some_iff :
    childOf A keyName l k = some r ↔ r ∈ l ∧ A.key keyName r = k := by
  constructor
  · exact fun h => ⟨mem_of_childOf h, key_of_childOf h⟩
  · rintro ⟨hr, rfl⟩
    obtain ⟨r', hr'⟩ := exists_childOf (k := A.key keyName r) (List.mem_map_of_mem hr)
    rw [hr', inj_on_of_nodup_map hnodup (mem_of_childOf hr') hr (key_of_childOf hr')]

variable (hk : k ∈ childKeys A keyName l)
include hk

theorem getElem?_childPosition :
    l[position (keyMap (childKeys A keyName l)) k]? = childOf A keyName l k := by
  have hat := getElem?_position hk
  rw [childKeys, getElem?_map, map_eq_some_iff] at hat
  obtain ⟨r, hr, hkey⟩ := hat
  exact hr.trans ((childOf_eq_some_iff hnodup).mpr ⟨mem_of_getElem? hr, hkey⟩).symm

theorem getElem?_eq_childOf_iff {i : ℕ} (hi : l[i]? = some r) :
    i = position (keyMap (childKeys A keyName l)) k ↔ A.key keyName r = k := by
  have hkeys : (childKeys A keyName l)[i]? = some (A.key keyName r) := by
    simp [childKeys, hi]
  constructor
  · rintro rfl
    rw [getElem?_position hk] at hkeys
    exact (Option.some.inj hkeys).symm
  · rintro rfl
    exact (getElem?_inj (position_lt hk) hnodup).mp
      ((getElem?_position hk).trans hkeys.symm) |>.symm

variable {β : Type}

theorem map_set_childPosition (f : α → β) (x : β) :
    (l.map f).set (position (keyMap (childKeys A keyName l)) k) x =
      l.map fun r => if A.key keyName r = k then x else f r := by
  have hlt : position (keyMap (childKeys A keyName l)) k < l.length := by
    simpa [childKeys] using position_lt hk
  apply ext_getElem?
  intro i
  rw [getElem?_set, getElem?_map, getElem?_map, length_map]
  cases hi : l[i]? with
  | none =>
    have hne : position (keyMap (childKeys A keyName l)) k ≠ i := by
      rintro rfl
      rw [List.getElem?_eq_none_iff] at hi
      omega
    simp [hne]
  | some r =>
    rw [if_pos hlt]
    by_cases hkey : A.key keyName r = k
    · simp [hkey, (getElem?_eq_childOf_iff hnodup hk hi).mpr hkey]
    · have hne : position (keyMap (childKeys A keyName l)) k ≠ i :=
        fun h => hkey ((getElem?_eq_childOf_iff hnodup hk hi).mp h.symm)
      simp [hkey, hne]

theorem map_eraseIdx_childPosition (f : α → β) :
    (l.map f).eraseIdx (position (keyMap (childKeys A keyName l)) k) =
      (l.filter (A.key keyName · ≠ k)).map f := by
  obtain ⟨r, hr⟩ := exists_childOf hk
  have hkey : A.key keyName r = k := key_of_childOf hr
  obtain ⟨hlt, hat⟩ := List.getElem?_eq_some_iff.mp ((getElem?_childPosition hnodup hk).trans hr)
  generalize position (keyMap (childKeys A keyName l)) k = p at hlt hat ⊢
  have hsplit : l = l.take p ++ r :: l.drop (p + 1) := by
    rw [← hat, getElem_cons_drop, take_append_drop]
  rw [hsplit, childKeys, map_append, map_cons, nodup_middle, hkey,
    nodup_cons, mem_append, not_or] at hnodup
  have hothers : ∀ l' : List α, k ∉ l'.map (A.key keyName) →
      l'.filter (A.key keyName · ≠ k) = l' := fun l' hl' =>
    filter_eq_self.mpr fun x hx => by
      simpa using fun h : A.key keyName x = k => hl' (List.mem_map.mpr ⟨x, hx, h⟩)
  have hfilter : l.filter (A.key keyName · ≠ k) = l.take p ++ l.drop (p + 1) := by
    conv_lhs => rw [hsplit]
    rw [filter_append, filter_cons_of_neg (by simp [hkey]), hothers _ hnodup.1.1,
      hothers _ hnodup.1.2]
  rw [eraseIdx_eq_take_drop_succ, ← map_take, ← map_drop, ← map_append, hfilter]

end

theorem childOf_map {g : α → α} (hg : ∀ r, A.key keyName (g r) = A.key keyName r) :
    childOf A keyName (l.map g) k = (childOf A keyName l k).map g := by
  simp only [childOf, find?_map, Function.comp_def, hg]

theorem childOf_append {l' : List α} :
    childOf A keyName (l ++ l') k = (childOf A keyName l k).or (childOf A keyName l' k) :=
  find?_append

theorem childOf_filter (p : String → Bool) :
    childOf A keyName (l.filter fun r => p (A.key keyName r)) k =
      if p k then childOf A keyName l k else none := by
  unfold childOf
  rw [find?_filter]
  by_cases hp : p k
  · rw [if_pos hp]
    congr 1
    funext r
    by_cases hr : A.key keyName r = k <;> simp [hr, hp]
  · rw [if_neg hp, find?_eq_none]
    intro r _ hr
    simp only [decide_eq_true_eq] at hr
    exact hp (hr.2 ▸ hr.1)

/-- The children that a function finds for distinct keys. -/
theorem childOf_filterMap {ks : List String} {f : String → Option α}
    (hf : ∀ k r, f k = some r → A.key keyName r = k) :
    childOf A keyName (ks.filterMap f) k = if k ∈ ks then f k else none := by
  induction ks with
  | nil => rfl
  | cons k' ks ih =>
    cases hk' : f k' with
    | none =>
      rw [filterMap_cons_none hk', ih]
      by_cases hk : k = k'
      · subst hk
        simp [hk']
      · simp [hk]
    | some r =>
      have hkey := hf k' r hk'
      rw [filterMap_cons_some hk', childOf, find?_cons, hkey]
      by_cases hk : k' = k
      · subst hk
        simp [hk']
      · have hk2 : k ≠ k' := fun h => hk h.symm
        simp only [hk, decide_false, mem_cons, hk2, false_or]
        exact ih

/-! ### Analysed changes -/

theorem mem_addedKeys : k ∈ (analyse A keyName fork l).addedKeys ↔
    k ∈ childKeys A keyName l ∧ k ∉ childKeys A keyName fork := by
  simp [analyse, ← AList.mem_keys, mem_keyMap, childKeys]

theorem mem_removedKeys : k ∈ (analyse A keyName fork l).removedKeys ↔
    k ∈ childKeys A keyName fork ∧ k ∉ childKeys A keyName l := by
  simp [analyse, ← AList.mem_keys, mem_keyMap, childKeys]

section

variable (hfork : (childKeys A keyName fork).Nodup) (hl : (childKeys A keyName l).Nodup)
include hfork hl

theorem mem_changedKeys : k ∈ (analyse A keyName fork l).changedKeys ↔
      k ∈ childKeys A keyName fork ∧ k ∈ childKeys A keyName l ∧ Touches A keyName fork l k := by
  unfold analyse Touches
  simp only [mem_filter, ← AList.mem_keys, decide_eq_true_eq, ← childKeys.eq_1, mem_keyMap]
  refine and_congr_right fun hmem => and_congr_right fun hmem' => ?_
  rw [getElem?_childPosition hfork hmem, getElem?_childPosition hl hmem']

/-- A touched key is in exactly one of the three sets. -/
theorem touches_iff : Touches A keyName fork l k ↔
      k ∈ (analyse A keyName fork l).addedKeys ∨ k ∈ (analyse A keyName fork l).removedKeys ∨
        k ∈ (analyse A keyName fork l).changedKeys := by
  rw [mem_addedKeys, mem_removedKeys, mem_changedKeys hfork hl]
  by_cases hk : k ∈ childKeys A keyName fork <;> by_cases hk' : k ∈ childKeys A keyName l
  · simp [hk, hk']
  · obtain ⟨r, hr⟩ := exists_childOf hk
    simp [hk, hk', Touches, hr, childOf_eq_none_iff.mpr hk']
  · obtain ⟨r, hr⟩ := exists_childOf hk'
    simp [hk, hk', Touches, hr, childOf_eq_none_iff.mpr hk]
  · simp [hk, hk', Touches, childOf_eq_none_iff.mpr hk, childOf_eq_none_iff.mpr hk']

end

theorem nodup_addedKeys : (analyse A keyName fork l).addedKeys.Nodup :=
  (keys_nodup _).filter _

theorem nodup_removedKeys : (analyse A keyName fork l).removedKeys.Nodup :=
  (keys_nodup _).filter _

theorem nodup_changedKeys : (analyse A keyName fork l).changedKeys.Nodup :=
  (keys_nodup _).filter _

end Children

def Slice.revisions {α : Type} (s : Slice α) : List α := s.entries.filterMap id

variable {s : Slice α}

theorem Slice.map_revisions (h : none ∉ s.entries) : s.revisions.map some = s.entries := by
  unfold Slice.revisions
  generalize s.entries = l at h
  induction l with
  | nil => rfl
  | cons e l ih =>
    cases e with
    | none => exact absurd mem_cons_self h
    | some r => simpa using ih fun hmem => h (mem_cons_of_mem _ hmem)

theorem Slice.revisions_of_map {revs : List α} (h : s.entries = revs.map some) :
    s.revisions = revs := by
  simp [Slice.revisions, h, filterMap_map]

theorem map_entries_inj {β : Type} {f : α → β} {l l' : List α} :
    (l.map some).map (Option.map f) = (l'.map some).map (Option.map f) ↔ l.map f = l'.map f := by
  have hmap : ∀ l : List α, (l.map some).map (Option.map f) = (l.map f).map some := by
    intro l
    rw [List.map_map, List.map_map]
    rfl
  rw [hmap, hmap, (map_injective_iff.mpr fun _ _ => Option.some.inj).eq_iff]

/-! ### Steps -/

section Steps

variable {keyName : String} {l : List (Option α)} {i : ℕ}

theorem derefRevision_gives {entry : Option α}
    (h : (derefRevision entry : Logged Err ω α).Gives r log) : entry = some r ∧ log = [] := by
  cases entry with
  | none => exact absurd h not_gives_throw
  | some r' =>
    obtain ⟨rfl, rfl⟩ := gives_pure.mp h
    exact ⟨rfl, rfl⟩

theorem yields_derefRevisions (l : List α) :
    Yields Q ((l.map some).mapM derefRevision : Logged Err ω (List α)) l := by
  induction l with
  | nil => exact yields_pure _
  | cons r l ih =>
    rw [map_cons, mapM_cons]
    exact (yields_pure r).bind (ih.bind (yields_pure _))

theorem derefRevisions_gives {revs : List α}
    (h : (l.mapM derefRevision : Logged Err ω (List α)).Gives revs log) :
    l = revs.map some ∧ log = [] := by
  induction l generalizing revs log with
  | nil =>
    obtain ⟨rfl, rfl⟩ := gives_pure.mp h
    exact ⟨rfl, rfl⟩
  | cons entry l ih =>
    rw [mapM_cons] at h
    obtain ⟨r, log1, log2, hr, hrest, rfl⟩ := gives_bind.mp h
    obtain ⟨rs, log3, log4, hrs, hret, rfl⟩ := gives_bind.mp hrest
    obtain ⟨rfl, rfl⟩ := derefRevision_gives hr
    obtain ⟨rfl, rfl⟩ := ih hrs
    obtain ⟨rfl, rfl⟩ := gives_pure.mp hret
    exact ⟨rfl, rfl⟩

theorem yields_newChangeAnalysis (fork l : List α) :
    Yields Q (newChangeAnalysis A keyName (fork.map some) (l.map some) : Logged Err ω _)
      (analyse A keyName fork l) :=
  (yields_derefRevisions fork).bind ((yields_derefRevisions l).bind (yields_pure _))

theorem newChangeAnalysis_gives {lst1 lst2 : List (Option α)} {changes : ChangeAnalysis}
    (h : (newChangeAnalysis A keyName lst1 lst2 : Logged Err ω _).Gives changes log) :
    ∃ revs1 revs2, lst1 = revs1.map some ∧ lst2 = revs2.map some ∧
      changes = analyse A keyName revs1 revs2 ∧ log = [] := by
  obtain ⟨revs1, log1, log2, h1, hrest, rfl⟩ := gives_bind.mp h
  obtain ⟨revs2, log3, log4, h2, hret, rfl⟩ := gives_bind.mp hrest
  obtain ⟨rfl, rfl⟩ := derefRevisions_gives h1
  obtain ⟨rfl, rfl⟩ := derefRevisions_gives h2
  obtain ⟨rfl, rfl⟩ := gives_pure.mp hret
  exact ⟨revs1, revs2, rfl, rfl, rfl, rfl⟩

theorem yields_revisionAt (h : l[i]? = some (some r)) :
    Yields Q (revisionAt l i : Logged Err ω α) r := by
  have hentry : Yields Q (entryAt l i : Logged Err ω (Option α)) (some r) := by
    rw [entryAt, h]
    exact yields_pure _
  exact hentry.bind (yields_pure r)

theorem revisionAt_gives (h : (revisionAt l i : Logged Err ω α).Gives r log) :
    l[i]? = some (some r) ∧ log = [] := by
  obtain ⟨entry, log1, log2, hentry, hr, rfl⟩ := gives_bind.mp h
  obtain ⟨rfl, rfl⟩ := derefRevision_gives hr
  cases hl : l[i]? with
  | none =>
    rw [entryAt, hl] at hentry
    exact absurd hentry not_gives_throw
  | some x =>
    rw [entryAt, hl] at hentry
    obtain ⟨rfl, rfl⟩ := gives_pure.mp hentry
    exact ⟨rfl, rfl⟩

theorem yields_setAt {β : Type} {l : List β} (h : i < l.length) (x : β) :
    Yields Q (setAt l i x : Logged Err ω (List β)) (l.set i x) := by
  rw [setAt, if_pos h]
  exact yields_pure _

/-- The child at the position of a key: the last one that has it. -/
def lastOf (A : Access α) (keyName : String) (l : List α) (k : String) : Option α :=
  l[position (keyMap (childKeys A keyName l)) k]?

theorem exists_lastOf {l : List α} (hk : k ∈ childKeys A keyName l) :
    ∃ r, lastOf A keyName l k = some r ∧ A.key keyName r = k := by
  have hat := getElem?_position hk
  rw [childKeys, getElem?_map, map_eq_some_iff] at hat
  exact hat

theorem yields_lastOf {l : List α} (h : lastOf A keyName l k = some r) :
    Yields Q (revisionAt (l.map some) (position (keyMap (childKeys A keyName l)) k) :
      Logged Err ω α) r := by
  refine yields_revisionAt ?_
  rw [getElem?_map, ← lastOf.eq_1, h]
  rfl

def mergedTo (mergeChild : α → Logged Err ω (Option α)) (r : α) : Option α :=
  (mergeChild r).value?.join

theorem mergedTo_of_gives {mergeChild : α → Logged Err ω (Option α)} {o : Option α}
    (h : (mergeChild r).Gives o log) : mergedTo mergeChild r = o := by
  rw [mergedTo, h.value?]
  rfl

end Steps

/-! ### Fast-forward -/

section FastForward

variable (A : Access α) (keyName : String) (mergeChild : α → Logged Err ω (Option α))

/-- The source list after the children at the positions of some keys have been merged. -/
def mergedAt (src : List α) (ks : List String) : List α :=
  src.mapIdx fun i r => if i ∈ ks.map (position (keyMap (childKeys A keyName src))) then
    (mergedTo mergeChild r).getD r else r

/-- The keys whose children a fast-forward merges, in the order of its loops. -/
def visitedKeys (orders : KeyOrders) (changes : ChangeAnalysis) : List String :=
  orders.added.visit changes.addedKeys ++ orders.changed.visit changes.changedKeys

variable {A keyName mergeChild} {src : List α} {done ks : List String}

theorem mergedAt_nil : mergedAt A keyName mergeChild src [] = src := by
  apply ext_getElem?
  intro i
  simp [mergedAt, getElem?_mapIdx]

theorem length_mergedAt : (mergedAt A keyName mergeChild src ks).length = src.length :=
  length_mapIdx

variable {l : List (Option α)}

theorem mergedAt_concat (mergeChild : α → Logged Err ω (Option α))
    (hdone : ∀ k' ∈ done, k' ∈ childKeys A keyName src) (hk : k ∈ childKeys A keyName src)
    (hnew : k ∉ done) (hr : lastOf A keyName src k = some r) :
    (mergedAt A keyName mergeChild src done)[position (keyMap (childKeys A keyName src)) k]? =
        some r ∧
      (mergedAt A keyName mergeChild src done).set (position (keyMap (childKeys A keyName src)) k)
        ((mergedTo mergeChild r).getD r) = mergedAt A keyName mergeChild src (done ++ [k]) := by
  have hnot : position (keyMap (childKeys A keyName src)) k ∉
      done.map (position (keyMap (childKeys A keyName src))) := by
    intro hmem
    obtain ⟨k', hk', heq⟩ := List.mem_map.mp hmem
    exact hnew (position_injective hk (hdone k' hk') heq.symm ▸ hk')
  unfold lastOf at hr
  constructor
  · rw [mergedAt, getElem?_mapIdx, hr, map_some, if_neg hnot]
  · have hlt := (List.getElem?_eq_some_iff.mp hr).1
    apply ext_getElem?
    intro i
    rw [getElem?_set, length_mergedAt, if_pos hlt]
    by_cases hi : position (keyMap (childKeys A keyName src)) k = i
    · subst hi
      simp [mergedAt, getElem?_mapIdx, hr]
    · have hi' : i ≠ position (keyMap (childKeys A keyName src)) k := fun h => hi h.symm
      simp [mergedAt, getElem?_mapIdx, hi, hi']

section

variable (hdone : ∀ k' ∈ done, k' ∈ childKeys A keyName src) (hk : k ∈ childKeys A keyName src)
  (hnew : k ∉ done) (hr : lastOf A keyName src k = some r)
include hdone hk hnew hr

theorem yields_mergeInPlace {o : Option α} (ho : Yields Q (mergeChild r) o) :
    Yields Q (mergeInPlace mergeChild (keyMap (childKeys A keyName src))
        ((mergedAt A keyName mergeChild src done).map some) k)
      ((mergedAt A keyName mergeChild src (done ++ [k])).map some) := by
  obtain ⟨hat, hset⟩ := mergedAt_concat mergeChild hdone hk hnew hr
  have hto : mergedTo mergeChild r = o := by
    obtain ⟨log, hlog, -⟩ := ho
    exact mergedTo_of_gives hlog
  rw [hto] at hset
  have hentry : ((mergedAt A keyName mergeChild src done).map some)[
      position (keyMap (childKeys A keyName src)) k]? = some (some r) := by
    rw [getElem?_map, hat]
    rfl
  refine (yields_revisionAt hentry).bind (ho.bind ?_)
  cases o with
  | some r' =>
    rw [← hset, map_set]
    exact yields_setAt (List.getElem?_eq_some_iff.mp hentry).1 _
  | none =>
    -- a nil result leaves the child as it was
    obtain ⟨hlt, heq⟩ := List.getElem?_eq_some_iff.mp hat
    have hself := set_getElem_self hlt
    rw [heq] at hself
    rw [← hset, getD_none, hself]
    exact yields_pure _

theorem mergeInPlace_gives
    (h : (mergeInPlace mergeChild (keyMap (childKeys A keyName src))
      ((mergedAt A keyName mergeChild src done).map some) k).Gives l log) :
    l = (mergedAt A keyName mergeChild src (done ++ [k])).map some ∧
      ∃ o log', (mergeChild r).Gives o log' ∧ log' ⊆ log := by
  obtain ⟨r', log1, log2, hr', hrest, rfl⟩ := gives_bind.mp h
  obtain ⟨o, log3, log4, ho, hret, rfl⟩ := gives_bind.mp hrest
  obtain ⟨hat, -⟩ := mergedAt_concat mergeChild hdone hk hnew hr
  have hentry := (revisionAt_gives hr').1
  rw [getElem?_map, hat, map_some, Option.some.injEq, Option.some.injEq] at hentry
  subst hentry
  refine ⟨(yields_mergeInPlace hdone hk hnew hr ho.returns).eq h, o, log3, ho, ?_⟩
  intro w hw
  simp [hw]

end

theorem notMem_of_split {rest : List String} (hnodup : ks.Nodup) (h : ks = done ++ k :: rest) :
    k ∉ done := by
  subst h
  exact fun hk => (nodup_append.mp hnodup).2.2 k hk k (by simp) rfl

section Loop

variable {before : List String} (hbefore : ∀ k ∈ before, k ∈ childKeys A keyName src)
  (hks : ∀ k ∈ ks, k ∈ childKeys A keyName src) (hnodup : ks.Nodup) (hnew : ∀ k ∈ ks, k ∉ before)
include hbefore hks hnodup hnew

theorem fresh_of_split {rest : List String} (h : ks = done ++ k :: rest) :
    (∀ k' ∈ before ++ done, k' ∈ childKeys A keyName src) ∧ k ∈ childKeys A keyName src ∧
      k ∉ before ++ done := by
  have hk : k ∈ ks := by simp [h]
  refine ⟨fun k' hk' => ?_, hks k hk, ?_⟩
  · rcases mem_append.mp hk' with hk' | hk'
    · exact hbefore k' hk'
    · exact hks k' (by simp [h, hk'])
  · rw [mem_append, not_or]
    exact ⟨hnew k hk, notMem_of_split hnodup h⟩

theorem yields_mergeInPlaces
    (hmerge : ∀ k ∈ ks, ∀ r, lastOf A keyName src k = some r → ∃ o, Yields Q (mergeChild r) o) :
    Yields Q (ks.foldlM (mergeInPlace mergeChild (keyMap (childKeys A keyName src)))
        ((mergedAt A keyName mergeChild src before).map some))
      ((mergedAt A keyName mergeChild src (before ++ ks)).map some) := by
  have h : Yields Q (ks.foldlM (mergeInPlace mergeChild (keyMap (childKeys A keyName src)))
      ((mergedAt A keyName mergeChild src (before ++ [])).map some))
      ((mergedAt A keyName mergeChild src (before ++ ks)).map some) :=
    Yields.foldlM (fun done => (mergedAt A keyName mergeChild src (before ++ done)).map some)
      fun done k rest hsplit => by
        obtain ⟨hdone, hk, hfresh⟩ := fresh_of_split hbefore hks hnodup hnew hsplit
        obtain ⟨r, hr, -⟩ := exists_lastOf hk
        obtain ⟨o, ho⟩ := hmerge k (by simp [hsplit]) r hr
        rw [← append_assoc]
        exact yields_mergeInPlace hdone hk hfresh hr ho
  rwa [append_nil] at h

theorem mergeInPlaces_gives {l : List (Option α)} {log : List ω}
    (h : (ks.foldlM (mergeInPlace mergeChild (keyMap (childKeys A keyName src)))
      ((mergedAt A keyName mergeChild src before).map some)).Gives l log) :
    l = (mergedAt A keyName mergeChild src (before ++ ks)).map some ∧
      ∀ k ∈ ks, ∀ r, lastOf A keyName src k = some r →
        ∃ o log', (mergeChild r).Gives o log' ∧ log' ⊆ log := by
  have hstart : before = before ++ [] := (append_nil before).symm
  rw [hstart] at h
  obtain ⟨hl, hrounds⟩ := foldlM_value
    (fun done => (mergedAt A keyName mergeChild src (before ++ done)).map some)
    (fun done k rest c log' hsplit hround => by
      obtain ⟨hdone, hk, hfresh⟩ := fresh_of_split hbefore hks hnodup hnew hsplit
      obtain ⟨r, hr, -⟩ := exists_lastOf hk
      rw [← append_assoc]
      exact (mergeInPlace_gives hdone hk hfresh hr hround).1) h
  refine ⟨hl, fun k hk r hr => ?_⟩
  obtain ⟨done, rest, hsplit⟩ := append_of_mem hk
  obtain ⟨hdone, hk, hfresh⟩ := fresh_of_split hbefore hks hnodup hnew hsplit
  obtain ⟨log', hround, hsub⟩ := hrounds done k rest hsplit
  obtain ⟨-, o, log'', ho, hsub'⟩ := mergeInPlace_gives hdone hk hfresh hr hround
  exact ⟨o, log'', ho, fun w hw => hsub (hsub' hw)⟩

end Loop

theorem mem_changedKeys_last : k ∈ (analyse A keyName fork src).changedKeys ↔
    k ∈ childKeys A keyName fork ∧ k ∈ childKeys A keyName src ∧
      (lastOf A keyName fork k).map A.hash ≠ (lastOf A keyName src k).map A.hash := by
  simp [analyse, ← AList.mem_keys, mem_keyMap, childKeys, lastOf]

theorem visited_facts (A : Access α) (keyName : String) (orders : KeyOrders) (fork src : List α) :
    let changes := analyse A keyName fork src
    (∀ k ∈ orders.added.visit changes.addedKeys, k ∈ childKeys A keyName src) ∧
      (orders.added.visit changes.addedKeys).Nodup ∧
      (∀ k ∈ orders.changed.visit changes.changedKeys, k ∈ childKeys A keyName src) ∧
      (orders.changed.visit changes.changedKeys).Nodup ∧
      ∀ k ∈ orders.changed.visit changes.changedKeys, k ∉ orders.added.visit changes.addedKeys := by
  intro changes
  have hadded := orders.added.perm changes.addedKeys
  have hchanged := orders.changed.perm changes.changedKeys
  refine ⟨fun k hk => (mem_addedKeys.mp (hadded.mem_iff.mp hk)).1,
    hadded.nodup_iff.mpr nodup_addedKeys,
    fun k hk => (mem_changedKeys_last.mp (hchanged.mem_iff.mp hk)).2.1,
    hchanged.nodup_iff.mpr nodup_changedKeys, fun k hk hk' => ?_⟩
  exact (mem_addedKeys.mp (hadded.mem_iff.mp hk')).2
    (mem_changedKeys_last.mp (hchanged.mem_iff.mp hk)).1

theorem yields_fastForward (orders : KeyOrders)
    (hmerge : ∀ k ∈ visitedKeys orders (analyse A keyName fork src), ∀ r,
      lastOf A keyName src k = some r → ∃ o, Yields Q (mergeChild r) o) :
    Yields Q (fastForward A keyName mergeChild orders (fork.map some) (src.map some))
      ((mergedAt A keyName mergeChild src
        (visitedKeys orders (analyse A keyName fork src))).map some) := by
  obtain ⟨hadded, haddedNodup, hchanged, hchangedNodup, hnew⟩ :=
    visited_facts A keyName orders fork src
  have hfirst : Yields Q ((orders.added.visit (analyse A keyName fork src).addedKeys).foldlM
      (mergeInPlace mergeChild (keyMap (childKeys A keyName src)))
      ((mergedAt A keyName mergeChild src []).map some)) _ :=
    yields_mergeInPlaces (by simp) hadded haddedNodup (by simp)
      fun k hk => hmerge k (mem_append_left _ hk)
  rw [mergedAt_nil] at hfirst
  exact (yields_newChangeAnalysis fork src).bind (hfirst.bind
    (yields_mergeInPlaces hadded hchanged hchangedNodup hnew
      fun k hk => hmerge k (mem_append_right _ hk)))

theorem fastForward_gives {forkList srcList : List (Option α)}
    (h : (fastForward A keyName mergeChild orders forkList srcList).Gives l log) :
    ∃ fork src, forkList = fork.map some ∧ srcList = src.map some ∧
      l = (mergedAt A keyName mergeChild src
        (visitedKeys orders (analyse A keyName fork src))).map some ∧
      ∀ k ∈ visitedKeys orders (analyse A keyName fork src), ∀ r,
        lastOf A keyName src k = some r → ∃ o log', (mergeChild r).Gives o log' ∧ log' ⊆ log := by
  obtain ⟨changes, log1, log2, hchanges, hrest, rfl⟩ := gives_bind.mp h
  obtain ⟨fork, src, rfl, rfl, rfl, rfl⟩ := newChangeAnalysis_gives hchanges
  obtain ⟨l1, log3, log4, h1, h2, rfl⟩ := gives_bind.mp hrest
  obtain ⟨hadded, haddedNodup, hchanged, hchangedNodup, hnew⟩ :=
    visited_facts A keyName orders fork src
  have hstart : ((orders.added.visit (analyse A keyName fork src).addedKeys).foldlM
      (mergeInPlace mergeChild (keyMap (childKeys A keyName src)))
      ((mergedAt A keyName mergeChild src []).map some)).Gives l1 log3 := by
    rw [mergedAt_nil]
    exact h1
  obtain ⟨rfl, hfirst⟩ := mergeInPlaces_gives (by simp) hadded haddedNodup (by simp) hstart
  obtain ⟨rfl, hsecond⟩ := mergeInPlaces_gives hadded hchanged hchangedNodup hnew h2
  refine ⟨fork, src, rfl, rfl, rfl, fun k hk r hr => ?_⟩
  rcases mem_append.mp hk with hk | hk
  · obtain ⟨o, log', ho, hsub⟩ := hfirst k hk r hr
    exact ⟨o, log', ho, fun w hw => by simp [hsub hw]⟩
  · obtain ⟨o, log', ho, hsub⟩ := hsecond k hk r hr
    exact ⟨o, log', ho, fun w hw => by simp [hsub hw]⟩

end FastForward

/-! ### The cases of a field -/

section Cases

variable [DecidableEq α] {mergeChild : α → Logged Err ω (Option α)} {field : ChildType}
  {forkList srcList dstList : Slice α}

omit [DecidableEq α] in
theorem yields_mergeEach {e : Option α} {Q : ω → Prop} :
    Yields Q (do let _ ← mergeChild (← derefRevision e) : Logged Err ω PUnit) ⟨⟩ ↔
      ∃ r, e = some r ∧ ∃ o, Yields Q (mergeChild r) o := by
  constructor
  · intro h
    obtain ⟨r, ⟨log, hr, -⟩, hmerge⟩ := yields_bind.mp h
    obtain ⟨o, ho, -⟩ := yields_bind.mp hmerge
    exact ⟨r, (derefRevision_gives hr).1, o, ho⟩
  · rintro ⟨r, rfl, o, ho⟩
    exact (yields_pure r).bind (ho.bind (yields_pure _))

theorem mergeField_alike (h : dstList = srcList) :
    mergeField A mergeChild orders field forkList srcList dstList = (do
      srcList.entries.forM fun rev => do
        let _ ← mergeChild (← derefRevision rev)
      return none) := by
  rw [mergeField, revisionsAreEqual, if_pos (decide_eq_true h)]

theorem mergeField_unkeyed (h : dstList ≠ srcList) (hkey : field.key = "") :
    mergeField A mergeChild orders field forkList srcList dstList = return none := by
  rw [mergeField, revisionsAreEqual, revisionsAreEqual, revisionsAreEqual,
    if_neg (by simpa using h), if_pos hkey]
  by_cases hfork : dstList = forkList
  · subst hfork
    rw [if_pos (by simp), if_pos (by simpa using h.symm)]
  · rw [if_neg (by simpa using hfork)]

theorem mergeField_forward (h : dstList ≠ srcList) (hkey : field.key ≠ "")
    (hfork : dstList = forkList) :
    mergeField A mergeChild orders field forkList srcList dstList = (do
      return some (← fastForward A field.key mergeChild orders forkList.entries
        srcList.entries)) := by
  rw [mergeField, revisionsAreEqual, revisionsAreEqual, if_neg (by simpa using h), if_neg hkey,
    if_pos (decide_eq_true hfork)]

theorem mergeField_threeWay (h : dstList ≠ srcList) (hkey : field.key ≠ "")
    (hfork : dstList ≠ forkList) :
    mergeField A mergeChild orders field forkList srcList dstList = (do
      return some (← threeWay A field.key mergeChild orders forkList.entries srcList.entries
        dstList.entries)) := by
  rw [mergeField, revisionsAreEqual, revisionsAreEqual, if_neg (by simpa using h), if_neg hkey,
    if_neg (by simpa using hfork)]

end Cases

end VolthaCore.DataModel
