import Mathlib.Data.List.Perm.Subperm
import VolthaCore.DataModel.ThreeWay

/-! Merging the lists of a keyed field when the two sides have changed different
keys. The merge edits the destination list at positions that were computed before
the loops. Replacing and appending keep these positions valid, a removal does not:
the second removal already uses a stale position. -/

namespace VolthaCore.DataModel

open Logged List Option

/-! ### Both sides applied -/

/-- Merging a child: whatever it logs, it returns a revision with the same key, or nil. -/
structure ChildMerge {α : Type} (A : Access α) (keyName : String) (ω : Type) where
  run : α → Logged Err ω (Option α)
  returns : ∀ r, ∃ o, Returns (run r) o
  key_eq : ∀ r r', mergedTo run r = some r' → A.key keyName r' = A.key keyName r

section Merge

variable {α ω : Type} {A : Access α} {keyName : String} (M : ChildMerge A keyName ω)
open ChildMerge

def ChildMerge.merge (r : α) : Option α := mergedTo M.run r

theorem ChildMerge.yields (r : α) : Returns (M.run r) (M.merge r) := by
  obtain ⟨o, log, hlog, -⟩ := M.returns r
  rw [ChildMerge.merge, mergedTo_of_gives hlog]
  exact hlog.returns

/-- The child itself or what it is merged to. -/
def ChildMerge.Merged (before after : Option α) : Prop :=
  after = before ∨ ∃ r, before = some r ∧ after = M.merge r ∧ after ≠ none

/-- The list has the children of the fork with the changes of both sides: those of the source
up to the merge of the child. -/
def ChildMerge.Applies (fork src dst result : List α) : Prop :=
  (childKeys A keyName result).Nodup ∧ ∀ k,
    (Touches A keyName fork src k →
      M.Merged (childOf A keyName src k) (childOf A keyName result k)) ∧
    (Touches A keyName fork dst k → childOf A keyName result k = childOf A keyName dst k) ∧
    (¬Touches A keyName fork src k → ¬Touches A keyName fork dst k →
      (childOf A keyName result k).map A.hash = (childOf A keyName fork k).map A.hash)

/-- The keys are distinct in each list, and the two sides have touched different ones. -/
structure DisjointEdits (A : Access α) (keyName : String) (fork src dst : List α) : Prop where
  disjoint : ∀ k, ¬(Touches A keyName fork src k ∧ Touches A keyName fork dst k)
  fork : (childKeys A keyName fork).Nodup
  src : (childKeys A keyName src).Nodup
  dst : (childKeys A keyName dst).Nodup

def ChildMerge.child (r : α) : α := (M.merge r).getD r

theorem ChildMerge.key_child (r : α) : A.key keyName (M.child r) = A.key keyName r := by
  unfold ChildMerge.child
  cases h : M.merge r with
  | none => rfl
  | some r' => exact M.key_eq r r' h

theorem ChildMerge.merged_child (r : α) : M.Merged (some r) (some (M.child r)) := by
  unfold ChildMerge.child
  cases h : M.merge r with
  | none => exact .inl rfl
  | some r' => exact .inr ⟨r, rfl, h.symm, by simp⟩

variable {M} {fork src dst : List α} {orders : KeyOrders}

/-! ### One side applied -/

variable {l newList extra l' : List (Option α)} {k : String} {r : α} {ks : List String}
  {changes : ChangeAnalysis}

theorem lastOf_eq_childOf {l : List α} (hnodup : (childKeys A keyName l).Nodup)
    (hk : k ∈ childKeys A keyName l) : lastOf A keyName l k = childOf A keyName l k :=
  getElem?_childPosition hnodup hk

theorem yields_childRevision {Q : ω → Prop} {l : List α} (hnodup : (childKeys A keyName l).Nodup)
    (h : childOf A keyName l k = some r) :
    Yields Q (revisionAt (l.map some) (position (keyMap (childKeys A keyName l)) k) :
      Logged Err ω α) r :=
  yields_lastOf ((lastOf_eq_childOf hnodup (mem_childKeys_of_childOf h)).trans h)

theorem mergedAt_eq_map (hsrc : (childKeys A keyName src).Nodup)
    (hks : ∀ k ∈ ks, k ∈ childKeys A keyName src) :
    mergedAt A keyName M.run src ks =
      src.map fun r => if A.key keyName r ∈ ks then M.child r else r := by
  apply ext_getElem?
  intro i
  rw [mergedAt, getElem?_mapIdx, getElem?_map]
  cases hi : src[i]? with
  | none => rfl
  | some r =>
    have hiff : i ∈ ks.map (position (keyMap (childKeys A keyName src))) ↔
        A.key keyName r ∈ ks := by
      rw [List.mem_map]
      constructor
      · rintro ⟨k, hk, heq⟩
        rwa [(getElem?_eq_childOf_iff hsrc (hks k hk) hi).mp heq.symm]
      · exact fun hk => ⟨_, hk, ((getElem?_eq_childOf_iff hsrc (hks _ hk) hi).mpr rfl).symm⟩
    simp only [map_some, hiff]
    rfl

theorem mem_visitedKeys (orders : KeyOrders) (hfork : (childKeys A keyName fork).Nodup)
    (hsrc : (childKeys A keyName src).Nodup) (hk : k ∈ childKeys A keyName src) :
    k ∈ visitedKeys orders (analyse A keyName fork src) ↔ Touches A keyName fork src k := by
  rw [visitedKeys, mem_append, (orders.added.perm _).mem_iff, (orders.changed.perm _).mem_iff,
    touches_iff hfork hsrc, mem_removedKeys]
  simp [hk]

theorem visitedKeys_subset (orders : KeyOrders) (fork src : List α) :
    ∀ k ∈ visitedKeys orders (analyse A keyName fork src), k ∈ childKeys A keyName src := by
  obtain ⟨hadded, -, hchanged, -⟩ := visited_facts A keyName orders fork src
  exact fun k hk => (mem_append.mp hk).elim (hadded k) (hchanged k)

theorem childKeys_map {l : List α} {g : α → α}
    (hg : ∀ r, A.key keyName (g r) = A.key keyName r) :
    childKeys A keyName (l.map g) = childKeys A keyName l := by
  simp [childKeys, hg]

/-- When the destination has not changed, the source list takes its place. -/
theorem applies_fastForward (orders : KeyOrders) (hfork : (childKeys A keyName fork).Nodup)
    (hsrc : (childKeys A keyName src).Nodup) :
    M.Applies fork src fork
      (mergedAt A keyName M.run src (visitedKeys orders (analyse A keyName fork src))) := by
  rw [mergedAt_eq_map hsrc (visitedKeys_subset orders fork src)]
  have hg : ∀ r, A.key keyName (if A.key keyName r ∈
      visitedKeys orders (analyse A keyName fork src) then M.child r else r) =
        A.key keyName r := by
    intro r
    split_ifs
    · exact M.key_child r
    · rfl
  refine ⟨by rwa [childKeys_map hg], fun k => ?_⟩
  rw [childOf_map hg]
  cases hr : childOf A keyName src k with
  | none =>
    refine ⟨fun _ => .inl rfl, fun h => absurd rfl h, fun h _ => ?_⟩
    simpa [Touches, hr] using (not_not.mp h).symm
  | some r =>
    have hvisited := mem_visitedKeys orders hfork hsrc (mem_childKeys_of_childOf hr)
    rw [map_some, key_of_childOf hr]
    refine ⟨fun h => ?_, fun h => absurd rfl h, fun h _ => ?_⟩
    · rw [if_pos (hvisited.mpr h)]
      exact M.merged_child r
    · rw [if_neg fun hv => h (hvisited.mp hv), not_not.mp h, hr]

/-! ### Three-way merge -/

def ChildMerge.mergedOf (M : ChildMerge A keyName ω) (src : List α) (k : String) : Option α :=
  (childOf A keyName src k).bind M.merge

/-- The destination list after the children of some keys have been replaced. -/
def ChildMerge.replacedAt (M : ChildMerge A keyName ω) (src dst : List α) (ks : List String) :
    List (Option α) :=
  dst.map fun r => if A.key keyName r ∈ ks then M.mergedOf src (A.key keyName r) else some r

theorem position_lt_replacedAt (M : ChildMerge A keyName ω) (src : List α) (ks : List String)
    (hk : k ∈ childKeys A keyName dst) :
    position (keyMap (childKeys A keyName dst)) k < (M.replacedAt src dst ks).length := by
  simpa [replacedAt, childKeys] using position_lt hk

theorem getElem?_replacedAt (hdst : (childKeys A keyName dst).Nodup)
    (hk : k ∈ childKeys A keyName dst) (hnot : k ∉ ks) :
    (M.replacedAt src dst ks ++ extra)[position (keyMap (childKeys A keyName dst)) k]? =
      (childOf A keyName dst k).map some := by
  rw [getElem?_append_left (position_lt_replacedAt M src ks hk), replacedAt,
    getElem?_map, getElem?_childPosition hdst hk]
  cases hr : childOf A keyName dst k with
  | none => rfl
  | some r => simp [key_of_childOf hr, hnot]

theorem eq_eraseIdx_of_mergeRemoved (hk : k ∉ changes.removedKeys)
    (h : Returns (mergeRemoved changes l k : Logged Err ω _) l') :
    l' = l.eraseIdx (position changes.keyMap2 k) :=
  ((mergeRemoved_yields h).resolve_left fun hremoved => hk hremoved.1).2.2

theorem getElem?_of_mergeRemoveds {i : ℕ} {x : Option α}
    (hks : ∀ k ∈ ks, k ∉ changes.removedKeys ∧ i < position changes.keyMap2 k) (hx : l[i]? = some x)
    (h : Returns (ks.foldlM (mergeRemoved changes) l : Logged Err ω _) l') : l'[i]? = some x := by
  refine h.keeps (I := fun l => l[i]? = some x) hx fun k hk c c' hc hround => ?_
  rw [eq_eraseIdx_of_mergeRemoved (hks k hk).1 hround, getElem?_eraseIdx_of_lt (hks k hk).2]
  exact hc

section

variable (h : DisjointEdits A keyName fork src dst)
include h

/-- What the source has added, the destination has not. -/
theorem DisjointEdits.notMem_of_added (hk : k ∈ (analyse A keyName fork src).addedKeys) :
    k ∉ childKeys A keyName dst := by
  have huntouched : ¬Touches A keyName fork dst k := fun htouch =>
    h.disjoint k ⟨(touches_iff h.fork h.src).mpr (.inl hk), htouch⟩
  rw [Touches, not_not, childOf_eq_none_iff.mpr (mem_addedKeys.mp hk).2] at huntouched
  rw [← childOf_eq_none_iff]
  simpa using huntouched.symm

/-- What the source has removed or changed is in the destination, which has not touched it. -/
theorem DisjointEdits.mem_of_touched
    (hk : k ∈ (analyse A keyName fork src).removedKeys ∨
      k ∈ (analyse A keyName fork src).changedKeys) :
    k ∈ childKeys A keyName dst ∧ k ∉ (analyse A keyName fork dst).removedKeys ∧
      k ∉ (analyse A keyName fork dst).changedKeys := by
  have huntouched : ¬Touches A keyName fork dst k := fun htouch =>
    h.disjoint k ⟨(touches_iff h.fork h.src).mpr (.inr hk), htouch⟩
  have hmem : k ∈ childKeys A keyName fork :=
    hk.elim (fun h => (mem_removedKeys.mp h).1) fun hk => ((mem_changedKeys h.fork h.src).mp hk).1
  rw [touches_iff h.fork h.dst, not_or, not_or] at huntouched
  refine ⟨?_, huntouched.2⟩
  by_contra hno
  exact huntouched.2.1 (mem_removedKeys.mpr ⟨hmem, hno⟩)

theorem yields_mergeAdded (hk : k ∈ (analyse A keyName fork src).addedKeys)
    (hr : M.mergedOf src k = some r) :
    Returns (mergeAdded A M.run (analyse A keyName fork src) (analyse A keyName fork dst)
      (src.map some) (dst.map some) newList k) (newList ++ [some r]) := by
  obtain ⟨x, hx, hmerge⟩ := bind_eq_some_iff.mp hr
  have hno : k ∉ (analyse A keyName fork dst).addedKeys := fun hdst =>
    h.notMem_of_added hk (mem_addedKeys.mp hdst).1
  rw [mergeAdded, if_neg hno]
  refine (yields_childRevision h.src hx).bind ((M.yields x).bind ?_)
  rw [hmerge]
  exact (yields_pure r).bind (yields_pure _)

theorem mergedOf_of_mergeAdded (hk : k ∈ (analyse A keyName fork src).addedKeys)
    (hround : Returns (mergeAdded A M.run (analyse A keyName fork src) (analyse A keyName fork dst)
      (src.map some) (dst.map some) newList k) l) :
    M.mergedOf src k ≠ none := by
  obtain ⟨hdst, -⟩ | ⟨-, r, r', hr, hr', -⟩ := mergeAdded_yields hround
  · exact absurd (mem_addedKeys.mp hdst).1 (h.notMem_of_added hk)
  · rw [lastOf_eq_childOf h.src (mem_addedKeys.mp hk).1] at hr
    rw [mergedOf, hr, bind_some, ChildMerge.merge, hr']
    simp

def ChildMerge.appended (M : ChildMerge A keyName ω) (src : List α) (ks : List String) :
    List (Option α) := (ks.filterMap (M.mergedOf src)).map some

theorem yields_mergeAddeds (hks : ∀ k ∈ ks, k ∈ (analyse A keyName fork src).addedKeys)
    (hmerge : ∀ k ∈ ks, M.mergedOf src k ≠ none) :
    Returns (ks.foldlM (mergeAdded A M.run (analyse A keyName fork src)
      (analyse A keyName fork dst) (src.map some) (dst.map some)) (dst.map some))
      (dst.map some ++ M.appended src ks) := by
  have hfold : Returns (ks.foldlM (mergeAdded A M.run (analyse A keyName fork src)
      (analyse A keyName fork dst) (src.map some) (dst.map some))
        (dst.map some ++ M.appended src [])) (dst.map some ++ M.appended src ks) :=
    Yields.foldlM (fun done => dst.map some ++ M.appended src done) fun done k rest hsplit => by
      have hk : k ∈ ks := by simp [hsplit]
      obtain ⟨r, hr⟩ := ne_none_iff_exists'.mp (hmerge k hk)
      have hone : M.appended src (done ++ [k]) = M.appended src done ++ [some r] := by
        simp [appended, filterMap_append, hr]
      rw [hone, ← append_assoc]
      exact yields_mergeAdded h (hks k hk) hr
  simpa [appended] using hfold

theorem yields_mergeChanged {done : List String}
    (hk : k ∈ (analyse A keyName fork src).changedKeys) :
    Returns (mergeChanged A M.run (analyse A keyName fork src) (analyse A keyName fork dst)
      (src.map some) (dst.map some) (M.replacedAt src dst done ++ extra) k)
      (M.replacedAt src dst (done ++ [k]) ++ extra) := by
  obtain ⟨hmem, hremoved, hchanged⟩ := h.mem_of_touched (.inr hk)
  obtain ⟨x, hx⟩ := exists_childOf ((mem_changedKeys h.fork h.src).mp hk).2.1
  have hlt := position_lt_replacedAt M src done hmem
  have hset : (M.replacedAt src dst done ++ extra).set
      (position (keyMap (childKeys A keyName dst)) k) (M.merge x) =
        M.replacedAt src dst (done ++ [k]) ++ extra := by
    rw [set_append_left _ _ hlt, replacedAt, map_set_childPosition h.dst hmem]
    congr 1
    refine map_congr_left fun r _ => ?_
    by_cases hr : A.key keyName r = k
    · simp [hr, mergedOf, hx]
    · simp [hr]
  rw [mergeChanged, if_neg hremoved, if_neg hchanged, ← hset]
  refine (yields_childRevision h.src hx).bind ((M.yields x).bind (yields_setAt ?_ _))
  rw [length_append]
  exact Nat.lt_add_right _ hlt

theorem yields_mergeChangeds
    (hks : ∀ k ∈ ks, k ∈ (analyse A keyName fork src).changedKeys) :
    Returns (ks.foldlM (mergeChanged A M.run (analyse A keyName fork src)
      (analyse A keyName fork dst) (src.map some) (dst.map some)) (dst.map some ++ extra))
      (M.replacedAt src dst ks ++ extra) := by
  have hfold : Returns (ks.foldlM (mergeChanged A M.run (analyse A keyName fork src)
      (analyse A keyName fork dst) (src.map some) (dst.map some))
        (M.replacedAt src dst [] ++ extra)) (M.replacedAt src dst ks ++ extra) :=
    Yields.foldlM (fun done => M.replacedAt src dst done ++ extra) fun done k rest hsplit =>
      yields_mergeChanged h (hks k (by simp [hsplit]))
  simpa [replacedAt] using hfold

/-! ### Removals -/

theorem yields_mergeRemoved (extra : List (Option α))
    (hk : k ∈ (analyse A keyName fork src).removedKeys) (hnot : k ∉ ks) :
    Returns (mergeRemoved (analyse A keyName fork dst) (M.replacedAt src dst ks ++ extra) k :
      Logged Err ω _) (M.replacedAt src (dst.filter (A.key keyName · ≠ k)) ks ++ extra) := by
  obtain ⟨hmem, hremoved, -⟩ := h.mem_of_touched (.inl hk)
  obtain ⟨r, hr⟩ := exists_childOf hmem
  have hlt := position_lt_replacedAt M src ks hmem
  have herase : (M.replacedAt src dst ks ++ extra).eraseIdx
      (position (keyMap (childKeys A keyName dst)) k) =
        M.replacedAt src (dst.filter (A.key keyName · ≠ k)) ks ++ extra := by
    rw [eraseIdx_append_of_lt_length hlt, replacedAt,
      map_eraseIdx_childPosition h.dst hmem]
    rfl
  rw [mergeRemoved, if_neg hremoved, ← herase]
  refine (yields_revisionAt (r := r) ?_).bind (yields_pure _)
  exact (getElem?_replacedAt h.dst hmem hnot).trans (by rw [hr]; rfl)

/-- Of two removed keys, the one at the later position survives when it is visited second. -/
theorem survives_ascending
    (hperm : ks.Perm (analyse A keyName fork src).removedKeys)
    (hsorted : ks.Pairwise (position (analyse A keyName fork dst).keyMap2 · ≤
      position (analyse A keyName fork dst).keyMap2 ·)) (htwo : 2 ≤ ks.length)
    (hl : ∀ k ∈ ks, l[position (analyse A keyName fork dst).keyMap2 k]? =
      (childOf A keyName dst k).map some)
    (hrun : Returns (ks.foldlM (mergeRemoved (analyse A keyName fork dst)) l : Logged Err ω _)
      l') :
    ∃ k r, k ∈ ks ∧ childOf A keyName dst k = some r ∧ some r ∈ l' := by
  match ks, htwo with
  | a :: b :: rest, _ =>
    have hnodup : (a :: b :: rest).Nodup := hperm.nodup_iff.mpr nodup_removedKeys
    have hin : ∀ k ∈ a :: b :: rest, k ∈ childKeys A keyName dst ∧
        k ∉ (analyse A keyName fork dst).removedKeys := fun k hk =>
      ⟨(h.mem_of_touched (.inl (hperm.mem_iff.mp hk))).1,
        (h.mem_of_touched (.inl (hperm.mem_iff.mp hk))).2.1⟩
    have hne : ∀ k ∈ a :: b :: rest, ∀ k' ∈ a :: b :: rest, k ≠ k' →
        position (analyse A keyName fork dst).keyMap2 k ≠
          position (analyse A keyName fork dst).keyMap2 k' := fun k hk k' hk' hkk' heq =>
      hkk' (position_injective (hin k hk).1 (hin k' hk').1 heq)
    rw [nodup_cons, nodup_cons] at hnodup
    rw [pairwise_cons, pairwise_cons] at hsorted
    have hab : position (analyse A keyName fork dst).keyMap2 a <
        position (analyse A keyName fork dst).keyMap2 b :=
      lt_of_le_of_ne (hsorted.1 b (by simp))
        (hne a (by simp) b (by simp) fun hab => hnodup.1 (by simp [hab]))
    obtain ⟨r, hr⟩ := exists_childOf (hin b (by simp)).1
    have hb := hl b (by simp)
    rw [hr] at hb
    rw [foldlM_cons] at hrun
    obtain ⟨l1, h1, hrun⟩ := yields_bind.mp hrun
    rw [foldlM_cons] at hrun
    obtain ⟨l2, h2, hrun⟩ := yields_bind.mp hrun
    rw [eq_eraseIdx_of_mergeRemoved (hin b (by simp)).2 h2,
      eq_eraseIdx_of_mergeRemoved (hin a (by simp)).2 h1] at hrun
    -- the first removal moves the entry one to the left, out of reach of all later ones
    refine ⟨b, r, by simp, hr, mem_of_getElem? (getElem?_of_mergeRemoveds
      (i := position (analyse A keyName fork dst).keyMap2 b - 1) (fun k hk => ⟨?_, ?_⟩) ?_ hrun)⟩
    · exact (hin k (by simp [hk])).2
    · have hle := hsorted.2.1 k hk
      omega
    · rw [getElem?_eraseIdx_of_lt (by omega), getElem?_eraseIdx_of_ge (by omega),
        Nat.sub_add_cancel (by omega)]
      exact hb

end

/-! ### The merged list -/

def AtMostOneRemoved (A : Access α) (keyName : String) (fork src : List α) : Prop :=
  ∀ k ∈ (analyse A keyName fork src).removedKeys, ∀ k' ∈ (analyse A keyName fork src).removedKeys,
    k = k'

theorem removedKeys_cases (h : AtMostOneRemoved A keyName fork src) :
    (analyse A keyName fork src).removedKeys = [] ∨
      ∃ k, (analyse A keyName fork src).removedKeys = [k] := by
  have hnodup : (analyse A keyName fork src).removedKeys.Nodup := nodup_removedKeys
  unfold AtMostOneRemoved at h
  match hks : (analyse A keyName fork src).removedKeys with
  | [] => exact .inl rfl
  | [k] => exact .inr ⟨k, rfl⟩
  | k :: k' :: rest =>
    rw [hks] at h hnodup
    have heq := h k (by simp) k' (by simp)
    simp [heq] at hnodup

/-- The list that a merge with at most one removal ends with. -/
def ChildMerge.mergedList (M : ChildMerge A keyName ω) (orders : KeyOrders)
    (fork src dst : List α) : List (Option α) :=
  M.replacedAt src (dst.filter fun r =>
      A.key keyName r ∉ (analyse A keyName fork src).removedKeys)
    (orders.changed.visit (analyse A keyName fork src).changedKeys) ++
  M.appended src (orders.added.visit (analyse A keyName fork src).addedKeys)

theorem yields_threeWay (orders : KeyOrders) (h : DisjointEdits A keyName fork src dst)
    (hone : AtMostOneRemoved A keyName fork src)
    (hadded : ∀ k ∈ (analyse A keyName fork src).addedKeys, M.mergedOf src k ≠ none) :
    Returns (threeWay A keyName M.run orders (fork.map some) (src.map some) (dst.map some))
      (M.mergedList orders fork src dst) := by
  have hpa := orders.added.perm (analyse A keyName fork src).addedKeys
  have hpc := orders.changed.perm (analyse A keyName fork src).changedKeys
  have hpr := orders.removed.perm (analyse A keyName fork src).removedKeys
  refine (yields_newChangeAnalysis fork src).bind ((yields_newChangeAnalysis fork dst).bind
    ((yields_mergeAddeds h (fun k hk => hpa.mem_iff.mp hk)
      fun k hk => hadded k (hpa.mem_iff.mp hk)).bind
    ((yields_mergeChangeds h fun k hk => hpc.mem_iff.mp hk).bind ?_)))
  unfold mergedList
  rcases removedKeys_cases hone with hnil | ⟨k, hk⟩
  · rw [hnil, perm_nil] at hpr
    rw [hnil, hpr]
    simpa using yields_pure _
  · rw [hk] at hpr
    rw [hk, perm_singleton.mp hpr]
    have hchanged : k ∉ orders.changed.visit (analyse A keyName fork src).changedKeys := fun hc =>
      (mem_removedKeys.mp (hk ▸ mem_singleton_self k)).2
        ((mem_changedKeys h.fork h.src).mp (hpc.mem_iff.mp hc)).2.1
    have hround := yields_mergeRemoved (M := M) h
      (M.appended src (orders.added.visit (analyse A keyName fork src).addedKeys))
      (hk ▸ mem_singleton_self k) hchanged
    simpa using hround.bind (yields_pure _)

theorem key_of_mergedOf (h : M.mergedOf src k = some r) : A.key keyName r = k := by
  obtain ⟨x, hx, hmerge⟩ := bind_eq_some_iff.mp h
  rw [M.key_eq x r hmerge, key_of_childOf hx]

def ChildMerge.replaced (M : ChildMerge A keyName ω) (src : List α) (ks : List String) (r : α) :
    α :=
  if A.key keyName r ∈ ks then (M.mergedOf src (A.key keyName r)).getD r else r

theorem ChildMerge.key_replaced (ks : List String) (r : α) :
    A.key keyName (M.replaced src ks r) = A.key keyName r := by
  unfold replaced
  split_ifs
  · cases h : M.mergedOf src (A.key keyName r) with
    | none => rfl
    | some r' => exact key_of_mergedOf h
  · rfl

def ChildMerge.result (M : ChildMerge A keyName ω) (orders : KeyOrders) (fork src dst : List α) :
    List α :=
  (dst.filter fun r => A.key keyName r ∉ (analyse A keyName fork src).removedKeys).map
    (M.replaced src (orders.changed.visit (analyse A keyName fork src).changedKeys)) ++
  (orders.added.visit (analyse A keyName fork src).addedKeys).filterMap (M.mergedOf src)

theorem mergedList_eq
    (hchanged : ∀ k ∈ (analyse A keyName fork src).changedKeys, M.mergedOf src k ≠ none) :
    M.mergedList orders fork src dst = (M.result orders fork src dst).map some := by
  unfold mergedList ChildMerge.result replacedAt appended
  rw [map_append, List.map_map]
  congr 1
  refine map_congr_left fun r _ => ?_
  unfold Function.comp replaced
  split_ifs with hr
  · obtain ⟨r', hr'⟩ := ne_none_iff_exists'.mp
      (hchanged _ ((orders.changed.perm _).mem_iff.mp hr))
    simp [hr']
  · rfl

theorem childOf_result : childOf A keyName (M.result orders fork src dst) k =
    ((if k ∉ (analyse A keyName fork src).removedKeys then childOf A keyName dst k else none).map
      (M.replaced src (orders.changed.visit (analyse A keyName fork src).changedKeys))).or
    (if k ∈ (analyse A keyName fork src).addedKeys then M.mergedOf src k else none) := by
  unfold ChildMerge.result
  rw [childOf_append, childOf_map (key_replaced _),
    childOf_filterMap fun k r => key_of_mergedOf,
    childOf_filter fun key => decide (key ∉ (analyse A keyName fork src).removedKeys)]
  simp [(orders.added.perm _).mem_iff]

/-- A list that the changes of both sides were applied to has lost every key that the source
has removed. -/
theorem notMem_of_applies (hfork : (childKeys A keyName fork).Nodup)
    (hsrc : (childKeys A keyName src).Nodup) {result : List α} (h : M.Applies fork src dst result)
    (hk : k ∈ (analyse A keyName fork src).removedKeys) : k ∉ childKeys A keyName result := by
  rw [← childOf_eq_none_iff]
  have hmerged := (h.2 k).1 ((touches_iff hfork hsrc).mpr (.inr (.inl hk)))
  rw [childOf_eq_none_iff.mpr (mem_removedKeys.mp hk).2] at hmerged
  rcases hmerged with heq | ⟨r, hr, -⟩
  · exact heq
  · cases hr

section

variable (h : DisjointEdits A keyName fork src dst)
include h

theorem nodup_result
    (hadded : ∀ k ∈ (analyse A keyName fork src).addedKeys, M.mergedOf src k ≠ none) :
    (childKeys A keyName (M.result orders fork src dst)).Nodup := by
  have hpa := orders.added.perm (analyse A keyName fork src).addedKeys
  have hkeys : childKeys A keyName ((orders.added.visit
      (analyse A keyName fork src).addedKeys).filterMap (M.mergedOf src)) =
        orders.added.visit (analyse A keyName fork src).addedKeys := by
    rw [childKeys, map_filterMap]
    refine (filterMap_congr fun k hk => ?_).trans filterMap_some
    obtain ⟨r, hr⟩ := ne_none_iff_exists'.mp (hadded k (hpa.mem_iff.mp hk))
    simp [hr, key_of_mergedOf hr]
  unfold ChildMerge.result
  rw [childKeys, map_append, ← childKeys.eq_1, ← childKeys.eq_1, hkeys,
    childKeys_map (key_replaced _), nodup_append]
  refine ⟨h.dst.sublist (filter_sublist.map _), hpa.nodup_iff.mpr nodup_addedKeys, ?_⟩
  rintro a ha b hb rfl
  exact h.notMem_of_added (hpa.mem_iff.mp hb) ((filter_sublist.map _).subset ha)

/-- No child that the source has added or changed is merged to nil. -/
def ChildMerge.MergesTouched (M : ChildMerge A keyName ω) (fork src : List α) : Prop :=
  ∀ r ∈ src, Touches A keyName fork src (A.key keyName r) → M.merge r ≠ none

theorem ChildMerge.mergesTouched_iff :
    M.MergesTouched fork src ↔
      (∀ k ∈ (analyse A keyName fork src).addedKeys, M.mergedOf src k ≠ none) ∧
        ∀ k ∈ (analyse A keyName fork src).changedKeys, M.mergedOf src k ≠ none := by
  have hof : ∀ r ∈ src, M.mergedOf src (A.key keyName r) = M.merge r := fun r hr => by
    rw [mergedOf, (childOf_eq_some_iff h.src).mpr ⟨hr, rfl⟩, bind_some]
  constructor
  · intro hmerge
    refine ⟨fun k hk => ?_, fun k hk => ?_⟩
    · obtain ⟨r, hr, rfl⟩ := List.mem_map.mp (mem_addedKeys.mp hk).1
      rw [hof r hr]
      exact hmerge r hr ((touches_iff h.fork h.src).mpr (.inl hk))
    · obtain ⟨r, hr, rfl⟩ := List.mem_map.mp ((mem_changedKeys h.fork h.src).mp hk).2.1
      rw [hof r hr]
      exact hmerge r hr ((touches_iff h.fork h.src).mpr (.inr (.inr hk)))
  · rintro ⟨hadded, hchanged⟩ r hr htouch
    rw [← hof r hr]
    rcases (touches_iff h.fork h.src).mp htouch with hk | hk | hk
    · exact hadded _ hk
    · exact absurd (List.mem_map_of_mem hr) (mem_removedKeys.mp hk).2
    · exact hchanged _ hk

theorem applies_result (hmerge : M.MergesTouched fork src) :
    M.Applies fork src dst (M.result orders fork src dst) := by
  obtain ⟨hadded, hchanged⟩ := (mergesTouched_iff h).mp hmerge
  refine ⟨nodup_result h hadded, fun k => ?_⟩
  -- a key that the source has not touched keeps the destination's entry
  have huntouched : ¬Touches A keyName fork src k →
      childOf A keyName (M.result orders fork src dst) k = childOf A keyName dst k := by
    intro hno
    rw [touches_iff h.fork h.src, not_or, not_or] at hno
    rw [childOf_result, if_pos hno.2.1, if_neg hno.1, or_none]
    cases hr : childOf A keyName dst k with
    | none => rfl
    | some r =>
      have hvisit : k ∉ orders.changed.visit (analyse A keyName fork src).changedKeys := fun hc =>
        hno.2.2 ((orders.changed.perm _).mem_iff.mp hc)
      rw [map_some, replaced, key_of_childOf hr, if_neg hvisit]
  refine ⟨fun htouch => ?_, fun htouch => ?_, fun hsrc hdst => ?_⟩
  · rcases (touches_iff h.fork h.src).mp htouch with hk | hk | hk
    · obtain ⟨x, hx⟩ := exists_childOf (mem_addedKeys.mp hk).1
      have hremoved : k ∉ (analyse A keyName fork src).removedKeys := fun hr =>
        (mem_addedKeys.mp hk).2 (mem_removedKeys.mp hr).1
      rw [childOf_result, if_pos hremoved, if_pos hk,
        childOf_eq_none_iff.mpr (h.notMem_of_added hk)]
      refine .inr ⟨x, hx, ?_, hadded k hk⟩
      simp [mergedOf, hx]
    · have hsrc := (mem_removedKeys.mp hk).2
      have hnot : k ∉ (analyse A keyName fork src).addedKeys := fun ha =>
        hsrc (mem_addedKeys.mp ha).1
      rw [childOf_result, if_neg (not_not.mpr hk), if_neg hnot, childOf_eq_none_iff.mpr hsrc]
      exact .inl rfl
    · obtain ⟨hfork, hsrc, -⟩ := (mem_changedKeys h.fork h.src).mp hk
      obtain ⟨x, hx⟩ := exists_childOf hsrc
      obtain ⟨y, hy⟩ := exists_childOf (h.mem_of_touched (.inr hk)).1
      have hremoved : k ∉ (analyse A keyName fork src).removedKeys := fun hr =>
        (mem_removedKeys.mp hr).2 hsrc
      have hnot : k ∉ (analyse A keyName fork src).addedKeys := fun ha =>
        (mem_addedKeys.mp ha).2 hfork
      obtain ⟨x', hx'⟩ := ne_none_iff_exists'.mp (hchanged k hk)
      rw [childOf_result, if_pos hremoved, if_neg hnot, hy, map_some, replaced,
        key_of_childOf hy, if_pos ((orders.changed.perm _).mem_iff.mpr hk), hx', or_none]
      refine .inr ⟨x, hx, ?_, by simp⟩
      rw [mergedOf, hx, bind_some] at hx'
      exact hx'.symm
  · exact huntouched fun hsrc => h.disjoint k ⟨hsrc, htouch⟩
  · rw [huntouched hsrc]
    exact (not_not.mp hdst).symm

/-- A merge that returns has merged all added children, and its removals start from the list
with the changed and added ones. -/
theorem threeWay_ok
    (hrun : Returns (threeWay A keyName M.run orders (fork.map some) (src.map some)
      (dst.map some)) l) :
    (∀ k ∈ (analyse A keyName fork src).addedKeys, M.mergedOf src k ≠ none) ∧
    Returns ((orders.removed.visit (analyse A keyName fork src).removedKeys).foldlM
      (mergeRemoved (analyse A keyName fork dst))
      (M.replacedAt src dst (orders.changed.visit (analyse A keyName fork src).changedKeys) ++
        M.appended src (orders.added.visit (analyse A keyName fork src).addedKeys)) :
          Logged Err ω _) l := by
  have hpa := orders.added.perm (analyse A keyName fork src).addedKeys
  have hpc := orders.changed.perm (analyse A keyName fork src).changedKeys
  obtain ⟨l1, l2, h1, h2, hrun⟩ := threeWay_rounds hrun
  have hmerged : ∀ k ∈ orders.added.visit (analyse A keyName fork src).addedKeys,
      M.mergedOf src k ≠ none := fun k hk => by
    obtain ⟨_, _, hround⟩ := h1.rounds k hk
    exact mergedOf_of_mergeAdded h (hpa.mem_iff.mp hk) hround
  rw [(yields_mergeAddeds h (fun k hk => hpa.mem_iff.mp hk) hmerged).unique h1] at h2
  rw [(yields_mergeChangeds h fun k hk => hpc.mem_iff.mp hk).unique h2] at hrun
  exact ⟨fun k hk => hmerged k (hpa.mem_iff.mpr hk), hrun⟩

/-- The loops may visit the removed keys in the order of their positions. -/
theorem atMostOneRemoved_of_applies
    (hall : ∀ orders, ∃ result, Returns (threeWay A keyName M.run orders (fork.map some)
      (src.map some) (dst.map some)) (result.map some) ∧ M.Applies fork src dst result) :
    AtMostOneRemoved A keyName fork src := by
  obtain ⟨result, hrun, happ⟩ := hall ⟨.listed, .listed,
    .ascending (position (analyse A keyName fork dst).keyMap2)⟩
  have hremove := (threeWay_ok h hrun).2
  have hperm := (VisitOrder.ascending (position (analyse A keyName fork dst).keyMap2)).perm
    (analyse A keyName fork src).removedKeys
  intro k hk k' hk'
  by_contra hne
  have htwo : 2 ≤ (analyse A keyName fork src).removedKeys.length := by
    have hsub : [k, k'].Subperm (analyse A keyName fork src).removedKeys :=
      List.Nodup.subperm (by simp [hne]) (by simp [hk, hk'])
    exact hsub.length_le
  obtain ⟨b, r, hb, hr, hmem⟩ := survives_ascending h hperm
    (VisitOrder.pairwise_ascending _ _) (by rwa [hperm.length_eq])
    (fun b hb => getElem?_replacedAt h.dst (h.mem_of_touched (.inl (hperm.mem_iff.mp hb))).1
      fun hc => (mem_removedKeys.mp (hperm.mem_iff.mp hb)).2
        ((mem_changedKeys h.fork h.src).mp hc).2.1) hremove
  have hrresult : r ∈ result := by simpa using hmem
  exact notMem_of_applies h.fork h.src happ (hperm.mem_iff.mp hb)
    (List.mem_map.mpr ⟨r, hrresult, key_of_childOf hr⟩)

theorem mergesTouched_of_applies
    (hone : AtMostOneRemoved A keyName fork src) {result : List α}
    (hrun : Returns (threeWay A keyName M.run orders (fork.map some) (src.map some) (dst.map some))
      (result.map some)) : M.MergesTouched fork src := by
  have hadded := (threeWay_ok h hrun).1
  have hlist : result.map some = M.mergedList orders fork src dst :=
    (yields_threeWay orders h hone hadded).unique hrun
  refine (mergesTouched_iff h).mpr ⟨hadded, fun k hk hnone => ?_⟩
  obtain ⟨-, hsrc, -⟩ := (mem_changedKeys h.fork h.src).mp hk
  obtain ⟨y, hy⟩ := exists_childOf (h.mem_of_touched (.inr hk)).1
  have hnil : none ∈ M.mergedList orders fork src dst := by
    refine mem_append_left _ (List.mem_map.mpr ⟨y, mem_filter.mpr
      ⟨mem_of_childOf hy, ?_⟩, ?_⟩)
    · rw [key_of_childOf hy, decide_eq_true_eq]
      exact fun hr => (mem_removedKeys.mp hr).2 hsrc
    · rw [key_of_childOf hy, if_pos ((orders.changed.perm _).mem_iff.mpr hk), hnone]
  rw [← hlist] at hnil
  simp at hnil

end

/-! ### Fields -/

def slice (l : Option (List α)) : Slice α := l.map (List.map some)

theorem entries_slice (l : Option (List α)) : (slice l).entries = (l.getD []).map some := by
  cases l <;> rfl

theorem slice_inj {l l' : Option (List α)} : slice l = slice l' ↔ l = l' :=
  ⟨fun h => map_injective (map_injective_iff.mpr fun _ _ => Option.some.inj) h,
    congrArg _⟩

end Merge

section Field

variable {α ω : Type} [DecidableEq α] {A : Access α}

/-- The merge of a keyed field applies the changes of both sides, whatever the order of its
loops, if and only if one of the lists has not changed, or the source has removed at most one
key and no child that it has added or changed is merged to nil. -/
theorem mergeField_applies_iff (field : ChildType) (M : ChildMerge A field.key ω)
    (hkey : field.key ≠ "") (fork src dst : Option (List α))
    (h : DisjointEdits A field.key (fork.getD []) (src.getD []) (dst.getD [])) :
    (∀ orders, ∃ newList result,
      Returns (mergeField A M.run orders field (slice fork) (slice src) (slice dst)) newList ∧
      newList.getD (slice dst).entries = result.map some ∧
      M.Applies (fork.getD []) (src.getD []) (dst.getD []) result) ↔
    dst = src ∨ dst = fork ∨ AtMostOneRemoved A field.key (fork.getD []) (src.getD []) ∧
      M.MergesTouched (fork.getD []) (src.getD []) := by
  by_cases hds : dst = src
  · subst hds
    simp only [true_or, iff_true]
    intro orders
    have hnone : ∀ k, ¬Touches A field.key (fork.getD []) (dst.getD []) k := fun k hk =>
      h.disjoint k ⟨hk, hk⟩
    have hyields : Returns (mergeField A M.run orders field (slice fork) (slice dst) (slice dst))
        none := by
      rw [mergeField_alike rfl]
      refine (yields_forM.mpr fun rev hrev => ?_).bind (yields_pure _)
      rw [entries_slice] at hrev
      obtain ⟨r, -, rfl⟩ := List.mem_map.mp hrev
      exact (yields_pure r).bind ((M.yields r).bind (yields_pure _))
    exact ⟨none, dst.getD [], hyields, entries_slice dst, h.dst, fun k =>
      ⟨fun hk => absurd hk (hnone k), fun hk => absurd hk (hnone k),
        fun hk _ => (not_not.mp hk).symm⟩⟩
  · by_cases hdf : dst = fork
    · subst hdf
      simp only [true_or, or_true, iff_true]
      intro orders
      refine ⟨some _, _, ?_, rfl, applies_fastForward orders h.fork h.src⟩
      rw [mergeField_forward (by simpa [slice_inj] using hds) hkey rfl, entries_slice,
        entries_slice]
      exact (yields_fastForward orders fun _ _ r _ => M.returns r).passOn some
    · have hfield : ∀ orders, mergeField A M.run orders field (slice fork) (slice src) (slice dst) =
          (do return some (← threeWay A field.key M.run orders ((fork.getD []).map some)
            ((src.getD []).map some) ((dst.getD []).map some))) := by
        intro orders
        rw [mergeField_threeWay (by simpa [slice_inj] using hds) hkey
          (by simpa [slice_inj] using hdf), entries_slice, entries_slice, entries_slice]
      simp only [hds, hdf, false_or, hfield]
      constructor
      · intro hall
        have hthree : ∀ orders, ∃ result, Returns (threeWay A field.key M.run orders
            ((fork.getD []).map some) ((src.getD []).map some) ((dst.getD []).map some))
              (result.map some) ∧
            M.Applies (fork.getD []) (src.getD []) (dst.getD []) result := by
          intro orders
          obtain ⟨newList, result, hrun, heq, happ⟩ := hall orders
          obtain ⟨l, hl, hret⟩ := yields_bind.mp hrun
          rw [eq_of_yields_pure hret, getD_some] at heq
          exact ⟨result, heq ▸ hl, happ⟩
        have hone := atMostOneRemoved_of_applies h hthree
        obtain ⟨result, hrun, -⟩ := hthree ⟨.listed, .listed, .listed⟩
        exact ⟨hone, mergesTouched_of_applies h hone hrun⟩
      · rintro ⟨hone, hmerge⟩ orders
        obtain ⟨hadded, hchanged⟩ := (ChildMerge.mergesTouched_iff h).mp hmerge
        exact ⟨_, _, (yields_threeWay orders h hone hadded).passOn some,
          mergedList_eq hchanged, applies_result h hmerge⟩

end Field

/-! ### Entries with a key and a value -/

/-- A child that is its key and a value, which is also its hash. -/
def pairAccess : Access (String × String) := ⟨fun _ r => r.1, Prod.snd, Prod.snd⟩

/-- No child has a revision of its own in the transaction. -/
def pairMerge : ChildMerge pairAccess "id" Unit where
  run r := pure (some r)
  returns r := ⟨some r, yields_pure _⟩
  key_eq r r' h := by rw [Option.some.inj h]

/-- The source removes `a` and `b` while the destination adds `d`: when `a` is visited first,
`b` stays and `c` is lost. -/
theorem second_removal_takes_another_child :
    mergeField pairAccess pairMerge.run ⟨.listed, .listed, .reversed⟩ ⟨true, "id"⟩
      (slice (some [("a", "1"), ("b", "1"), ("c", "1")])) (slice (some [("c", "1")]))
      (slice (some [("a", "1"), ("b", "1"), ("c", "1"), ("d", "1")])) =
    .ok (some [some ("b", "1"), some ("d", "1")]) [] := by
  rfl

theorem mergeField_applies_iff_one_removal :
    let fork := [("a", "1"), ("b", "1")]
    let src := [("b", "2")]
    let dst := [("a", "1"), ("b", "1"), ("d", "1")]
    DisjointEdits pairAccess "id" fork src dst ∧ ∀ orders, ∃ newList result,
      Returns (mergeField pairAccess pairMerge.run orders ⟨true, "id"⟩ (slice (some fork))
        (slice (some src)) (slice (some dst))) newList ∧
      newList.getD (slice (some dst)).entries = result.map some ∧
      pairMerge.Applies fork src dst result := by
  intro fork src dst
  have hfork : (childKeys pairAccess "id" fork).Nodup := by decide
  have hdst : (childKeys pairAccess "id" dst).Nodup := by decide
  have h : DisjointEdits pairAccess "id" fork src dst := by
    refine ⟨?_, hfork, by decide, hdst⟩
    rintro k ⟨hsrc, htouch⟩
    have hkeys : k ∈ ["d"] ∨ k ∈ [] ∨ k ∈ [] := (touches_iff hfork hdst).mp htouch
    obtain rfl : k = "d" := by simpa using hkeys
    exact hsrc rfl
  have hone : AtMostOneRemoved pairAccess "id" fork src := by
    unfold AtMostOneRemoved
    decide
  exact ⟨h, (mergeField_applies_iff ⟨true, "id"⟩ pairMerge (by decide) (some fork) (some src)
    (some dst) h).mpr (.inr (.inr ⟨hone, fun r _ _ => nofun⟩))⟩

end VolthaCore.DataModel
