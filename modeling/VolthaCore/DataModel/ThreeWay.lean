import VolthaCore.DataModel.KeyedLists

/-! When a three-way merge of keyed lists leaves the destination as it was. Conflicting
changes are only logged, one by one. All others are applied: the merge appends the
children of new keys, replaces those of changed keys and splices out removed ones. It
leaves the list alone only when every change of the source is a conflict or has been
made in the destination too. -/

namespace VolthaCore.DataModel

open Logged List

variable {α ω : Type} {A : Access α} {keyName k : String} {fork src dst : List α}
  {mergeChild : α → Logged Err ω (Option α)} {Q : ω → Prop} {result : List (Option α)}

/-! ### Changes that are not applied -/

section Conditions

variable (A : Access α) (keyName : String) (fork src dst : List α)

/-- A changed key that the destination has removed or changed, in the same way or to another
configuration. -/
def LeavesChanged (k : String) : Prop :=
  k ∈ (analyse A keyName fork dst).removedKeys ∨
    k ∈ (analyse A keyName fork dst).changedKeys ∧ ∀ x r, lastOf A keyName dst k = some x →
      lastOf A keyName src k = some r → A.hash x = A.hash r ∨ A.configHash x ≠ A.configHash r

/-- A changed key whose child the merge replaces. -/
def Replaces (k : String) : Prop :=
  k ∉ (analyse A keyName fork dst).removedKeys ∧
    (k ∈ (analyse A keyName fork dst).changedKeys → ∀ x r, lastOf A keyName dst k = some x →
      lastOf A keyName src k = some r → A.hash x ≠ A.hash r)

/-- The source has no change of its own to apply to the destination. -/
structure NothingToApply : Prop where
  added : ∀ k ∈ (analyse A keyName fork src).addedKeys, k ∈ (analyse A keyName fork dst).addedKeys
  changed : ∀ k ∈ (analyse A keyName fork src).changedKeys, LeavesChanged A keyName fork src dst k
  removed : ∀ k ∈ (analyse A keyName fork src).removedKeys,
    k ∈ (analyse A keyName fork dst).removedKeys

/-- A child that both sides have added or changed alike. It is merged although its place in the
list is not written. -/
def Revisited (x : α) : Prop :=
  (∃ k ∈ (analyse A keyName fork src).addedKeys, k ∈ (analyse A keyName fork dst).addedKeys ∧
    lastOf A keyName dst k = some x ∧
      (lastOf A keyName src k).map A.hash = some (A.hash x)) ∨
  ∃ k ∈ (analyse A keyName fork src).changedKeys,
    k ∉ (analyse A keyName fork dst).removedKeys ∧ lastOf A keyName src k = some x ∧
      (lastOf A keyName dst k).map A.hash = some (A.hash x)

end Conditions

/-! ### The rounds of the loops -/

section Rounds

variable {l l' : List (Option α)}

theorem lastOf_of_yields {list : List α} {r : α}
    (h : Yields Q (revisionAt (list.map some) (position (keyMap (childKeys A keyName list)) k) :
      Logged Err ω α) r) : lastOf A keyName list k = some r := by
  obtain ⟨log, h, -⟩ := h
  have hat := (revisionAt_gives h).1
  rw [getElem?_map, Option.map_eq_some_iff] at hat
  obtain ⟨r', hr', heq⟩ := hat
  cases heq
  exact hr'

theorem mergedTo_of_yields {r : α} {o : Option α} (h : Yields Q (mergeChild r) o) :
    mergedTo mergeChild r = o := by
  obtain ⟨log, h, -⟩ := h
  exact mergedTo_of_gives h

theorem mergeAdded_yields
    (h : Yields Q (mergeAdded A mergeChild (analyse A keyName fork src)
      (analyse A keyName fork dst) (src.map some) (dst.map some) l k) l') :
    (k ∈ (analyse A keyName fork dst).addedKeys ∧ l' = l ∧ ∀ x, lastOf A keyName dst k = some x →
      (lastOf A keyName src k).map A.hash = some (A.hash x) → ∃ o, Yields Q (mergeChild x) o) ∨
    k ∉ (analyse A keyName fork dst).addedKeys ∧ ∃ r r', lastOf A keyName src k = some r ∧
      mergedTo mergeChild r = some r' ∧ l' = l ++ [some r'] := by
  unfold mergeAdded at h
  split_ifs at h with hadded
  · obtain ⟨x, hx, hrest⟩ := yields_bind.mp h
    obtain ⟨r, hr, hmerge⟩ := yields_bind.mp hrest
    rw [lastOf_of_yields hx, lastOf_of_yields hr]
    dsimp only at hmerge
    split_ifs at hmerge with hhash
    · obtain ⟨o, ho, hret⟩ := yields_bind.mp hmerge
      refine .inl ⟨hadded, eq_of_yields_pure hret, fun y hy _ => ⟨o, ?_⟩⟩
      cases hy
      exact ho
    · refine .inl ⟨hadded, eq_of_yields_pure hmerge, fun y hy hsame => absurd ?_ hhash⟩
      cases hy
      exact (Option.some.inj hsame).symm
  · obtain ⟨r, hr, hrest⟩ := yields_bind.mp h
    obtain ⟨o, ho, hderef⟩ := yields_bind.mp hrest
    obtain ⟨r', ⟨log, hr', -⟩, hret⟩ := yields_bind.mp hderef
    obtain ⟨rfl, -⟩ := derefRevision_gives hr'
    exact .inr ⟨hadded, r, r', lastOf_of_yields hr, mergedTo_of_yields ho, eq_of_yields_pure hret⟩

variable {ks : List String} {changes : ChangeAnalysis}

/-- The loop over added keys appends one child for each key that is new to the destination. -/
theorem mergeAddeds_yields
    (h : Yields Q (ks.foldlM (mergeAdded A mergeChild (analyse A keyName fork src)
      (analyse A keyName fork dst) (src.map some) (dst.map some)) l) l') :
    ∃ ext, l' = l ++ ext ∧
      (∀ e ∈ ext, ∃ k ∈ ks, k ∉ (analyse A keyName fork dst).addedKeys ∧ ∃ r r',
        lastOf A keyName src k = some r ∧ mergedTo mergeChild r = some r' ∧ e = some r') ∧
      (ext = [] → ∀ k ∈ ks, k ∈ (analyse A keyName fork dst).addedKeys) := by
  induction ks generalizing l with
  | nil => exact ⟨[], by simp [eq_of_yields_pure h], by simp, by simp⟩
  | cons k ks ih =>
    rw [foldlM_cons] at h
    obtain ⟨l1, hround, hrest⟩ := yields_bind.mp h
    obtain ⟨ext, rfl, hext, hall⟩ := ih hrest
    have hext' : ∀ e ∈ ext, ∃ k' ∈ k :: ks, k' ∉ (analyse A keyName fork dst).addedKeys ∧
        ∃ r r', lastOf A keyName src k' = some r ∧ mergedTo mergeChild r = some r' ∧
          e = some r' := by
      intro e he
      obtain ⟨k', hk', hrest⟩ := hext e he
      exact ⟨k', mem_cons_of_mem _ hk', hrest⟩
    rcases mergeAdded_yields hround with ⟨hadded, rfl, -⟩ | ⟨hadded, r, r', hr, hr', rfl⟩
    · exact ⟨ext, rfl, hext', fun hnil => forall_mem_cons.mpr ⟨hadded, hall hnil⟩⟩
    · exact ⟨some r' :: ext, by simp, forall_mem_cons.mpr
        ⟨⟨k, by simp, hadded, r, r', hr, hr', rfl⟩, hext'⟩, by simp⟩

theorem replaceChild_yields
    (h : Yields Q (replaceChild mergeChild (analyse A keyName fork src)
      (analyse A keyName fork dst) (src.map some) l k) l') :
    ∃ r, lastOf A keyName src k = some r ∧ (∃ o, Yields Q (mergeChild r) o) ∧
      position (keyMap (childKeys A keyName dst)) k < l.length ∧
      l' = l.set (position (keyMap (childKeys A keyName dst)) k) (mergedTo mergeChild r) := by
  obtain ⟨r, hr, hrest⟩ := yields_bind.mp h
  obtain ⟨o, ho, hset⟩ := yields_bind.mp hrest
  rw [← mergedTo_of_yields ho] at hset
  refine ⟨r, lastOf_of_yields hr, ⟨o, ho⟩, ?_⟩
  unfold setAt at hset
  split_ifs at hset with hi
  · exact ⟨hi, eq_of_yields_pure hset⟩
  · exact absurd hset not_yields_throw

/-- The round of a changed key leaves the list alone or replaces the child. Either way it has
merged a child that is changed alike. -/
theorem mergeChanged_yields
    (h : Yields Q (mergeChanged A mergeChild (analyse A keyName fork src)
      (analyse A keyName fork dst) (src.map some) (dst.map some) l k) l') :
    ((l' = l ∧ LeavesChanged A keyName fork src dst k) ∨
      Replaces A keyName fork src dst k ∧ ∃ r, lastOf A keyName src k = some r ∧
        position (keyMap (childKeys A keyName dst)) k < l.length ∧
        l' = l.set (position (keyMap (childKeys A keyName dst)) k) (mergedTo mergeChild r)) ∧
    (k ∉ (analyse A keyName fork dst).removedKeys → ∀ r, lastOf A keyName src k = some r →
      (lastOf A keyName dst k).map A.hash = some (A.hash r) →
        ∃ o, Yields Q (mergeChild r) o) := by
  unfold mergeChanged at h
  split_ifs at h with hremoved hchanged
  · exact ⟨.inl ⟨eq_of_yields_pure h, .inl hremoved⟩, fun hno => absurd hremoved hno⟩
  · obtain ⟨x, hx, hrest⟩ := yields_bind.mp h
    obtain ⟨r, hr, hmerge⟩ := yields_bind.mp hrest
    have hx' := lastOf_of_yields hx
    have hr' := lastOf_of_yields hr
    unfold LeavesChanged Replaces
    rw [hx', hr']
    split_ifs at hmerge with hhash hconfig
    · obtain ⟨o, ho, hret⟩ := yields_bind.mp hmerge
      refine ⟨.inl ⟨eq_of_yields_pure hret, .inr ⟨hchanged, ?_⟩⟩, ?_⟩
      · rintro y t ⟨⟩ ⟨⟩
        exact .inl hhash
      · rintro - t ⟨⟩ -
        exact ⟨o, ho⟩
    · refine ⟨.inl ⟨eq_of_yields_pure hmerge, .inr ⟨hchanged, ?_⟩⟩, ?_⟩
      · rintro y t ⟨⟩ ⟨⟩
        exact .inr hconfig
      · rintro - t ⟨⟩ hsame
        exact absurd (Option.some.inj hsame) hhash
    · obtain ⟨t, ht, hto, hset⟩ := replaceChild_yields hmerge
      rw [hr'] at ht
      cases ht
      refine ⟨.inr ⟨⟨hremoved, ?_⟩, r, rfl, hset⟩, ?_⟩
      · rintro - y t ⟨⟩ ⟨⟩
        exact hhash
      · rintro - t ⟨⟩ -
        exact hto
  · obtain ⟨r, hr, hto, hset⟩ := replaceChild_yields h
    refine ⟨.inr ⟨⟨hremoved, fun h => absurd h hchanged⟩, r, hr, hset⟩, fun _ t ht _ => ?_⟩
    rw [hr] at ht
    cases ht
    exact hto

/-- The loop over changed keys: each is left alone, or its child is replaced. Nothing else
changes. -/
theorem mergeChangeds_yields (hnodup : ks.Nodup)
    (hks : ∀ k ∈ ks, k ∉ (analyse A keyName fork dst).removedKeys → k ∈ childKeys A keyName dst)
    (h : Yields Q (ks.foldlM (mergeChanged A mergeChild (analyse A keyName fork src)
      (analyse A keyName fork dst) (src.map some) (dst.map some)) l) l') :
    l'.length = l.length ∧
    (∀ i, (∀ k ∈ ks, k ∉ (analyse A keyName fork dst).removedKeys →
      position (keyMap (childKeys A keyName dst)) k ≠ i) → l'[i]? = l[i]?) ∧
    ∀ k ∈ ks, LeavesChanged A keyName fork src dst k ∨
      Replaces A keyName fork src dst k ∧ ∃ r, lastOf A keyName src k = some r ∧
        l'[position (keyMap (childKeys A keyName dst)) k]? = some (mergedTo mergeChild r) := by
  induction ks generalizing l with
  | nil =>
    obtain rfl := eq_of_yields_pure h
    exact ⟨rfl, fun _ _ => rfl, by simp⟩
  | cons k ks ih =>
    rw [foldlM_cons] at h
    obtain ⟨l1, hround, hrest⟩ := yields_bind.mp h
    obtain ⟨hk, hnodup⟩ := nodup_cons.mp hnodup
    obtain ⟨hlen, hframe, hkeys⟩ :=
      ih hnodup (fun k' hk' => hks k' (mem_cons_of_mem _ hk')) hrest
    rcases (mergeChanged_yields hround).1 with ⟨rfl, hleave⟩ | ⟨hreplaces, r, hr, hlt, rfl⟩
    · exact ⟨hlen, fun i hi => hframe i fun k' hk' => hi k' (mem_cons_of_mem _ hk'),
        forall_mem_cons.mpr ⟨.inl hleave, hkeys⟩⟩
    · have hmem := hks k (by simp) hreplaces.1
      refine ⟨hlen.trans length_set, fun i hi => ?_, forall_mem_cons.mpr
        ⟨.inr ⟨hreplaces, r, hr, ?_⟩, hkeys⟩⟩
      · rw [hframe i fun k' hk' => hi k' (mem_cons_of_mem _ hk'),
          getElem?_set_ne (hi k (by simp) hreplaces.1)]
      · -- no later round writes at the position of this key
        rw [hframe _ fun k' hk' hremoved heq => hk
          (position_injective hmem (hks k' (mem_cons_of_mem _ hk') hremoved) heq.symm ▸ hk'),
          getElem?_set_self hlt]

theorem mergeRemoved_yields (h : Yields Q (mergeRemoved changes l k : Logged Err ω _) l') :
    k ∈ changes.removedKeys ∧ l' = l ∨ k ∉ changes.removedKeys ∧
      position changes.keyMap2 k < l.length ∧ l' = l.eraseIdx (position changes.keyMap2 k) := by
  unfold mergeRemoved at h
  split_ifs at h with hremoved
  · exact .inl ⟨hremoved, eq_of_yields_pure h⟩
  · obtain ⟨r, ⟨log, hr, -⟩, hret⟩ := yields_bind.mp h
    exact .inr ⟨hremoved, (List.getElem?_eq_some_iff.mp (revisionAt_gives hr).1).1,
      eq_of_yields_pure hret⟩

/-- The loop over removed keys takes out one entry for each key that the destination still has.
The last entry stays as long as the list is longer than the destination. -/
theorem mergeRemoveds_yields (size : ℕ)
    (hks : ∀ k ∈ ks, k ∉ changes.removedKeys → position changes.keyMap2 k < size)
    (h : Yields Q (ks.foldlM (mergeRemoved changes) l : Logged Err ω _) l') :
    l'.length + ks.countP (· ∉ changes.removedKeys) = l.length ∧
      (size ≤ l'.length → l'.getLast? = l.getLast?) ∧
      (l'.length = l.length → l' = l ∧ ∀ k ∈ ks, k ∈ changes.removedKeys) := by
  induction ks generalizing l with
  | nil =>
    obtain rfl := eq_of_yields_pure h
    exact ⟨rfl, fun _ => rfl, fun _ => ⟨rfl, by simp⟩⟩
  | cons k ks ih =>
    rw [foldlM_cons] at h
    obtain ⟨l1, hround, hrest⟩ := yields_bind.mp h
    obtain ⟨hlen, hlast, hall⟩ := ih (fun k' hk' => hks k' (mem_cons_of_mem _ hk')) hrest
    rcases mergeRemoved_yields hround with ⟨hremoved, rfl⟩ | ⟨hremoved, hlt, rfl⟩
    · refine ⟨by simpa [hremoved] using hlen, hlast, fun heq => ?_⟩
      obtain ⟨hl, hks⟩ := hall heq
      exact ⟨hl, forall_mem_cons.mpr ⟨hremoved, hks⟩⟩
    · rw [length_eraseIdx_of_lt hlt] at hlen
      refine ⟨?_, fun hsize => ?_, fun heq => by omega⟩
      · rw [countP_cons_of_pos (by simpa using hremoved)]
        omega
      · have hpos := hks k (by simp) hremoved
        rw [hlast hsize, getLast?_eq_getElem?, getLast?_eq_getElem?,
          length_eraseIdx_of_lt hlt, getElem?_eraseIdx_of_ge (by omega)]
        congr 1
        omega

end Rounds

/-! ### The whole merge -/

section Merge

variable {orders : KeyOrders}

theorem threeWay_lists {forkList srcList dstList : List (Option α)}
    (h : Yields Q (threeWay A keyName mergeChild orders forkList srcList dstList) result) :
    ∃ fork src dst : List α,
      forkList = fork.map some ∧ srcList = src.map some ∧ dstList = dst.map some := by
  obtain ⟨s, ⟨log, hs, -⟩, hrest⟩ := yields_bind.mp h
  obtain ⟨d, ⟨log', hd, -⟩, -⟩ := yields_bind.mp hrest
  obtain ⟨fork, src, hfork, hsrc, -⟩ := newChangeAnalysis_gives hs
  obtain ⟨fork', dst, -, hdst, -⟩ := newChangeAnalysis_gives hd
  exact ⟨fork, src, dst, hfork, hsrc, hdst⟩

theorem threeWay_rounds
    (h : Yields Q (threeWay A keyName mergeChild orders (fork.map some) (src.map some)
      (dst.map some)) result) :
    ∃ l1 l2, Yields Q ((orders.added.visit (analyse A keyName fork src).addedKeys).foldlM
        (mergeAdded A mergeChild (analyse A keyName fork src) (analyse A keyName fork dst)
          (src.map some) (dst.map some)) (dst.map some)) l1 ∧
      Yields Q ((orders.changed.visit (analyse A keyName fork src).changedKeys).foldlM
        (mergeChanged A mergeChild (analyse A keyName fork src) (analyse A keyName fork dst)
          (src.map some) (dst.map some)) l1) l2 ∧
      Yields Q ((orders.removed.visit (analyse A keyName fork src).removedKeys).foldlM
        (mergeRemoved (analyse A keyName fork dst)) l2) result := by
  obtain ⟨s, hs, hrest⟩ := yields_bind.mp h
  obtain ⟨d, hd, hrest⟩ := yields_bind.mp hrest
  obtain rfl := (yields_newChangeAnalysis fork src).unique hs
  obtain rfl := (yields_newChangeAnalysis fork dst).unique hd
  obtain ⟨l1, hadded, hrest⟩ := yields_bind.mp hrest
  obtain ⟨l2, hchanged, hremoved⟩ := yields_bind.mp hrest
  exact ⟨l1, l2, hadded, hchanged, hremoved⟩

theorem mem_childKeys_of_notRemoved {k : String} (hfork : k ∈ childKeys A keyName fork)
    (hremoved : k ∉ (analyse A keyName fork dst).removedKeys) : k ∈ childKeys A keyName dst := by
  by_contra hdst
  exact hremoved (mem_removedKeys.mpr ⟨hfork, hdst⟩)

section Same

variable {ref : α → ℕ} (hmerged : ∀ r ∈ src, ∀ r', mergedTo mergeChild r = some r' → ref r' = ref r)
  (hcoherent : ∀ r ∈ src, ∀ x ∈ dst, ref r = ref x → r = x)
include hmerged hcoherent

theorem appended_ref_ne (hk : k ∈ (analyse A keyName fork src).addedKeys)
    (hnew : k ∉ (analyse A keyName fork dst).addedKeys) {r r' x : α}
    (hr : lastOf A keyName src k = some r) (hr' : mergedTo mergeChild r = some r') (hx : x ∈ dst) :
    ref r' ≠ ref x := by
  intro heq
  have hmem : r ∈ src := mem_of_getElem? hr
  obtain rfl := hcoherent r hmem x hx ((hmerged r hmem r' hr').symm.trans heq)
  obtain ⟨hsrc, hfork⟩ := mem_addedKeys.mp hk
  obtain ⟨r0, hr0, hkey⟩ := exists_lastOf hsrc
  rw [hr] at hr0
  cases hr0
  exact hnew (mem_addedKeys.mpr ⟨hkey ▸ mem_map_of_mem hx, hfork⟩)

theorem replaced_ref_ne (hk : k ∈ (analyse A keyName fork src).changedKeys)
    (hreplaces : Replaces A keyName fork src dst k) {r x : α} (hr : lastOf A keyName src k = some r)
    (hx : lastOf A keyName dst k = some x) : (mergedTo mergeChild r).map ref ≠ some (ref x) := by
  intro heq
  obtain ⟨r', hr', href⟩ := Option.map_eq_some_iff.mp heq
  have hmem : r ∈ src := mem_of_getElem? hr
  obtain rfl := hcoherent r hmem x (mem_of_getElem? hx)
    ((hmerged r hmem r' hr').symm.trans href)
  obtain ⟨hfork, -, hhash⟩ := mem_changedKeys_last.mp hk
  by_cases hchanged : k ∈ (analyse A keyName fork dst).changedKeys
  · exact hreplaces.2 hchanged r r hx hr rfl
  · refine hchanged (mem_changedKeys_last.mpr
      ⟨hfork, mem_childKeys_of_notRemoved hfork hreplaces.1, ?_⟩)
    rwa [hx, ← hr]

/-- A merge that keeps all entries of the destination had nothing to apply. -/
theorem nothingToApply_of_same
    (h : Yields Q (threeWay A keyName mergeChild orders (fork.map some) (src.map some)
      (dst.map some)) result)
    (hsame : result.map (Option.map ref) = (dst.map some).map (Option.map ref)) :
    NothingToApply A keyName fork src dst := by
  obtain ⟨l1, l2, hadded, hchanged, hremoved⟩ := threeWay_rounds h
  have hpos : ∀ {k}, k ∈ childKeys A keyName fork →
      k ∉ (analyse A keyName fork dst).removedKeys →
        position (keyMap (childKeys A keyName dst)) k < dst.length := by
    intro k hfork hno
    simpa [childKeys] using position_lt (mem_childKeys_of_notRemoved hfork hno)
  have hchangedFork : ∀ k ∈ orders.changed.visit (analyse A keyName fork src).changedKeys,
      k ∈ childKeys A keyName fork := fun k hk =>
    (mem_changedKeys_last.mp ((orders.changed.perm _).mem_iff.mp hk)).1
  obtain ⟨ext, rfl, hext, hallAdded⟩ := mergeAddeds_yields hadded
  obtain ⟨hlen2, hframe, hkeys⟩ := mergeChangeds_yields
    ((orders.changed.perm _).nodup_iff.mpr nodup_changedKeys)
    (fun k hk hno => mem_childKeys_of_notRemoved (hchangedFork k hk) hno) hchanged
  obtain ⟨hlen, hlast, hall⟩ := mergeRemoveds_yields dst.length
    (fun k hk hno => hpos (mem_removedKeys.mp ((orders.removed.perm _).mem_iff.mp hk)).1 hno)
    hremoved
  have hsize : result.length = dst.length := by simpa using congrArg List.length hsame
  have hext_nil : ext = [] := by
    by_contra hne
    have hlast2 : l2.getLast? = ext.getLast? := by
      have hpositive := length_pos_iff.mpr hne
      rw [length_append, length_map] at hlen2
      rw [getLast?_eq_getElem?, getLast?_eq_getElem?, hlen2, hframe _ fun k hk hno => ?_,
        getElem?_append_right (by simp; omega)]
      · congr 1
        simp
        omega
      · have := hpos (hchangedFork k hk) hno
        omega
    obtain ⟨e, he⟩ := Option.ne_none_iff_exists'.mp (mt getLast?_eq_none_iff.mp hne)
    obtain ⟨k, hk, hnew, r, r', hr, hr', rfl⟩ := hext e (mem_of_getLast? he)
    have hrefs := congrArg List.getLast? hsame
    rw [getLast?_map, getLast?_map, getLast?_map, hlast hsize.ge, hlast2, he]
      at hrefs
    cases hx : dst.getLast? with
    | none => simp [hx] at hrefs
    | some x =>
      rw [hx] at hrefs
      refine appended_ref_ne hmerged hcoherent ((orders.added.perm _).mem_iff.mp hk) hnew hr hr'
        (mem_of_getLast? hx) ?_
      simpa using hrefs
  subst hext_nil
  rw [append_nil, length_map] at hlen2
  obtain ⟨rfl, hallRemoved⟩ := hall (hsize.trans hlen2.symm)
  refine ⟨fun k hk => hallAdded rfl k ((orders.added.perm _).mem_iff.mpr hk), fun k hk => ?_,
    fun k hk => hallRemoved k ((orders.removed.perm _).mem_iff.mpr hk)⟩
  have hvisit := (orders.changed.perm _).mem_iff.mpr hk
  rcases hkeys k hvisit with hleaves | ⟨hreplaces, r, hr, hat⟩
  · exact hleaves
  · obtain ⟨x, hx, -⟩ :=
      exists_lastOf (mem_childKeys_of_notRemoved (hchangedFork k hvisit) hreplaces.1)
    refine absurd ?_ (replaced_ref_ne hmerged hcoherent hk hreplaces hr hx)
    have hrefs := congrArg (·[position (keyMap (childKeys A keyName dst)) k]?) hsame
    rw [lastOf] at hx
    simpa [hat, hx] using hrefs

end Same

/-- A merge that returns has merged the children that both sides have added or changed alike. -/
theorem yields_of_revisited
    (h : Yields Q (threeWay A keyName mergeChild orders (fork.map some) (src.map some)
      (dst.map some)) result) {x : α} (hx : Revisited A keyName fork src dst x) :
    ∃ o, Yields Q (mergeChild x) o := by
  obtain ⟨l1, l2, hadded, hchanged, -⟩ := threeWay_rounds h
  rcases hx with ⟨k, hk, hdst, hlast, hhash⟩ | ⟨k, hk, hno, hlast, hhash⟩
  · obtain ⟨l, l', hround⟩ := hadded.rounds k ((orders.added.perm _).mem_iff.mpr hk)
    rcases mergeAdded_yields hround with ⟨-, -, hcall⟩ | ⟨hnew, -⟩
    · exact hcall x hlast hhash
    · exact absurd hdst hnew
  · obtain ⟨l, l', hround⟩ := hchanged.rounds k ((orders.changed.perm _).mem_iff.mpr hk)
    exact (mergeChanged_yields hround).2 hno x hlast hhash

/-- With nothing to apply, the destination stays. -/
theorem yields_threeWay_of_nothing (orders : KeyOrders)
    (h : NothingToApply A keyName fork src dst)
    (hcalls : ∀ x, Revisited A keyName fork src dst x → ∃ o, Yields Q (mergeChild x) o) :
    Yields Q (threeWay A keyName mergeChild orders (fork.map some) (src.map some) (dst.map some))
      (dst.map some) := by
  refine (yields_newChangeAnalysis fork src).bind ((yields_newChangeAnalysis fork dst).bind ?_)
  have hloop : ∀ {f : List (Option α) → String → Logged Err ω (List (Option α))} {ks : List String},
      (∀ k ∈ ks, Yields Q (f (dst.map some) k) (dst.map some)) →
        Yields Q (ks.foldlM f (dst.map some)) (dst.map some) := fun {f ks} hf =>
    Yields.foldlM (fun _ => dst.map some) fun done k rest hsplit => hf k (by simp [hsplit])
  refine (hloop fun k hk => ?_).bind ((hloop fun k hk => ?_).bind (hloop fun k hk => ?_))
  · have hk := (orders.added.perm _).mem_iff.mp hk
    have hadded := h.added k hk
    obtain ⟨x, hx, -⟩ := exists_lastOf (mem_addedKeys.mp hadded).1
    obtain ⟨r, hr, -⟩ := exists_lastOf (mem_addedKeys.mp hk).1
    rw [mergeAdded, if_pos hadded]
    refine (yields_lastOf hx).bind ((yields_lastOf hr).bind ?_)
    dsimp only
    split_ifs with hhash
    · obtain ⟨o, ho⟩ := hcalls x (.inl ⟨k, hk, hadded, hx, by simp [hr, hhash]⟩)
      exact ho.bind (yields_pure _)
    · exact yields_pure _
  · have hk := (orders.changed.perm _).mem_iff.mp hk
    by_cases hremoved : k ∈ (analyse A keyName fork dst).removedKeys
    · rw [mergeChanged, if_pos hremoved]
      exact yields_pure _
    · obtain ⟨hchanged, hleaves⟩ := (h.changed k hk).resolve_left hremoved
      obtain ⟨x, hx, -⟩ := exists_lastOf (mem_changedKeys_last.mp hchanged).2.1
      obtain ⟨r, hr, -⟩ := exists_lastOf (mem_changedKeys_last.mp hk).2.1
      rw [mergeChanged, if_neg hremoved, if_pos hchanged]
      refine (yields_lastOf hx).bind ((yields_lastOf hr).bind ?_)
      split_ifs with hhash hconfig
      · obtain ⟨o, ho⟩ := hcalls r (.inr ⟨k, hk, hremoved, hr, by simp [hx, hhash]⟩)
        exact ho.bind (yields_pure _)
      · exact yields_pure _
      · exact absurd ((hleaves x r hx hr).resolve_left hhash) hconfig
  · rw [mergeRemoved, if_pos (h.removed k ((orders.removed.perm _).mem_iff.mp hk))]
    exact yields_pure _

end Merge

end VolthaCore.DataModel
