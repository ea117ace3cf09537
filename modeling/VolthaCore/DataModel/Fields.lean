import VolthaCore.DataModel.KeyedLists

/-! The loop over the child fields in `Merge3Way`. Each field is merged by itself and
writes at most its own list, so the merged revision has the same lists whatever the
order of the loop. -/

namespace VolthaCore.DataModel

open Logged List Option GoMap

variable {α δ ω : Type} {name : String}

/-! ### Maps of slices -/

section Slices

def entriesOf (children : GoMap String (Slice α)) (name : String) : List (Option α) :=
  ((children.lookup name).getD none).entries

theorem lookup_rewrite (f : Slice α → Slice α) (children : GoMap String (Slice α)) (name : String) :
    (writeAll ∅ (children.entries.map fun e => (e.1, f e.2))).lookup name =
      (children.lookup name).map f := by
  cases hname : children.lookup name with
  | none =>
    rw [lookup_writeAll_of_notMem]
    · rfl
    · intro w hw heq
      obtain ⟨⟨name', s⟩, he, rfl⟩ := List.mem_map.mp hw
      obtain rfl : name' = name := heq
      rw [mem_entries_iff, hname] at he
      cases he
  | some s =>
    apply lookup_writeAll_of_agree
    · exact ⟨(name, f s), List.mem_map.mpr ⟨⟨name, s⟩, mem_entries_iff.mpr hname, rfl⟩, rfl⟩
    · intro w hw heq
      obtain ⟨⟨name', s'⟩, he, rfl⟩ := List.mem_map.mp hw
      obtain rfl : name' = name := heq
      rw [mem_entries_iff, hname] at he
      cases he
      rfl

section

variable (children : GoMap String (Slice α)) (name : String)

theorem lookup_copyChildren :
    (copyChildren children).lookup name = (children.lookup name).map fun s => some s.entries :=
  lookup_rewrite (fun s => some s.entries) children name

theorem lookup_appendChildren :
    (appendChildren children).lookup name =
      (children.lookup name).map fun s => if s.entries = [] then none else some s.entries :=
  lookup_rewrite (fun s => if s.entries = [] then none else some s.entries) children name

@[simp] theorem entriesOf_copyChildren :
    entriesOf (copyChildren children) name = entriesOf children name := by
  rw [entriesOf, entriesOf, lookup_copyChildren]
  cases children.lookup name <;> rfl

@[simp] theorem entriesOf_appendChildren :
    entriesOf (appendChildren children) name = entriesOf children name := by
  rw [entriesOf, entriesOf, lookup_appendChildren]
  cases children.lookup name with
  | none => rfl
  | some s =>
    rw [map_some, getD_some, getD_some]
    split_ifs with hs
    · exact hs.symm
    · rfl

end

variable {children : GoMap String (Slice α)}

@[simp] theorem mem_copyChildren : name ∈ copyChildren children ↔ name ∈ children := by
  rw [← AList.lookup_isSome, ← AList.lookup_isSome, lookup_copyChildren, isSome_map]

@[simp] theorem mem_appendChildren : name ∈ appendChildren children ↔ name ∈ children := by
  rw [← AList.lookup_isSome, ← AList.lookup_isSome, lookup_appendChildren, isSome_map]

theorem RevisionOf.entries_getChildren {δ : Type} (rev : RevisionOf δ α) (name : String) :
    (rev.getChildren name).entries = entriesOf rev.children name := rfl

/-- Sorting forgets the order in which the same names are listed. -/
theorem sortedNames_eq {names names' : List String} (hnodup : names.Nodup) (hnodup' : names'.Nodup)
    (h : ∀ name, name ∈ names ↔ name ∈ names') :
    names.insertionSort (· ≤ ·) = names'.insertionSort (· ≤ ·) := by
  have hperm : names.Perm names' := (perm_ext_iff_of_nodup hnodup hnodup').mpr h
  exact ((perm_insertionSort _ _).trans
    (hperm.trans (perm_insertionSort _ _).symm)).eq_of_pairwise'
      (pairwise_insertionSort (· ≤ ·) names) (pairwise_insertionSort (· ≤ ·) names')

end Slices

/-! ### The loop over the fields -/

section Fields

variable [DecidableEq α] (c : Commit δ) (A : Access α) (mergeChild : α → Logged Err ω (Option α))
  (dryRun : Bool) (forkRev srcRev dstRev : RevisionOf δ α)

def fieldMerge (field : Σ _ : String, ChildType) : Logged Err ω (Option (List (Option α))) :=
  mergeField A mergeChild (c.keyOrders dryRun srcRev.ref field.1) field.2
    (forkRev.getChildren field.1) (srcRev.getChildren field.1) (dstRev.getChildren field.1)

def fieldWrite (field : Σ _ : String, ChildType) : Option (List (Option α)) :=
  if dryRun ∧ field.2.key ≠ "" then none
  else (fieldMerge c A mergeChild dryRun forkRev srcRev dstRev field).value?.join

def fieldWrites (fields : List (Σ _ : String, ChildType)) : List (String × Slice α) :=
  fields.filterMap fun field =>
    (fieldWrite c A mergeChild dryRun forkRev srcRev dstRev field).map fun l => (field.1, some l)

def childrenAfter (fields : List (Σ _ : String, ChildType)) : GoMap String (Slice α) :=
  GoMap.writeAll (copyChildren dstRev.children)
    (fieldWrites c A mergeChild dryRun forkRev srcRev dstRev fields)

def visitedFields : List (Σ _ : String, ChildType) :=
  (c.fieldOrder dryRun srcRev.ref).visit (c.schema.childrenFields forkRev.getData).entries

def written (name : String) : Option (List (Option α)) :=
  ((c.schema.childrenFields forkRev.getData).lookup name).bind fun type =>
    fieldWrite c A mergeChild dryRun forkRev srcRev dstRev ⟨name, type⟩

def mergedEntries (name : String) : List (Option α) :=
  (written c A mergeChild dryRun forkRev srcRev dstRev name).getD (entriesOf dstRev.children name)

def Writes (name : String) : Prop := (written c A mergeChild dryRun forkRev srcRev dstRev name).isSome

variable {c A mergeChild dryRun forkRev srcRev dstRev} {Q : ω → Prop}
  {field : Σ _ : String, ChildType} {o : Option (List (Option α))} {log : List ω}

omit [DecidableEq α] in
theorem mem_visitedFields {type : ChildType} :
    ⟨name, type⟩ ∈ visitedFields c dryRun forkRev srcRev ↔
      (c.schema.childrenFields forkRev.getData).lookup name = some type := by
  rw [visitedFields, (VisitOrder.perm _ _).mem_iff, mem_entries_iff]

theorem fieldWrite_of_gives
    (h : (fieldMerge c A mergeChild dryRun forkRev srcRev dstRev field).Gives o log) :
    fieldWrite c A mergeChild dryRun forkRev srcRev dstRev field =
      if dryRun ∧ field.2.key ≠ "" then none else o := by
  rw [fieldWrite, h.value?]
  rfl

theorem yields_fieldRound {done : List (Σ _ : String, ChildType)}
    (h : Yields Q (fieldMerge c A mergeChild dryRun forkRev srcRev dstRev field) o) :
    Yields Q (do
      let newList ← fieldMerge c A mergeChild dryRun forkRev srcRev dstRev field
      match newList with
      | some newList =>
        if dryRun ∧ field.2.key ≠ "" then
          return childrenAfter c A mergeChild dryRun forkRev srcRev dstRev done
        else
          return (childrenAfter c A mergeChild dryRun forkRev srcRev dstRev done).insert field.1
            (some newList)
      | none => return childrenAfter c A mergeChild dryRun forkRev srcRev dstRev done)
      (childrenAfter c A mergeChild dryRun forkRev srcRev dstRev (done ++ [field])) := by
  have hwrite : fieldWrite c A mergeChild dryRun forkRev srcRev dstRev field =
      if dryRun ∧ field.2.key ≠ "" then none else o := by
    obtain ⟨log, hlog, -⟩ := h
    exact fieldWrite_of_gives hlog
  have hafter : childrenAfter c A mergeChild dryRun forkRev srcRev dstRev (done ++ [field]) =
      writeAll (childrenAfter c A mergeChild dryRun forkRev srcRev dstRev done)
        ((if dryRun ∧ field.2.key ≠ "" then none else o).map fun l =>
          (field.1, some l)).toList := by
    rw [childrenAfter, childrenAfter, fieldWrites, filterMap_append, writeAll_append,
      filterMap_cons, hwrite]
    cases (if dryRun ∧ field.2.key ≠ "" then none else o) <;> rfl
  rw [hafter]
  refine h.bind ?_
  cases o with
  | none => simpa using yields_pure _
  | some l =>
    change Yields Q (if dryRun ∧ field.2.key ≠ "" then _ else _) _
    split_ifs <;> exact yields_pure _

theorem yields_mergeChildren
    (h : ∀ field ∈ visitedFields c dryRun forkRev srcRev,
      ∃ o, Yields Q (fieldMerge c A mergeChild dryRun forkRev srcRev dstRev field) o) :
    Yields Q (mergeChildren c A mergeChild dryRun forkRev srcRev dstRev)
      (childrenAfter c A mergeChild dryRun forkRev srcRev dstRev
        (visitedFields c dryRun forkRev srcRev)) :=
  Yields.foldlM (childrenAfter c A mergeChild dryRun forkRev srcRev dstRev)
    fun done field rest hsplit => by
      obtain ⟨o, ho⟩ := h field (by rw [visitedFields, hsplit]; simp)
      exact yields_fieldRound ho

theorem mergeChildren_gives {newChildren : GoMap String (Slice α)}
    (h : (mergeChildren c A mergeChild dryRun forkRev srcRev dstRev).Gives newChildren log) :
    newChildren = childrenAfter c A mergeChild dryRun forkRev srcRev dstRev
        (visitedFields c dryRun forkRev srcRev) ∧
      ∀ field ∈ visitedFields c dryRun forkRev srcRev, ∃ o log',
        (fieldMerge c A mergeChild dryRun forkRev srcRev dstRev field).Gives o log' ∧
          log' ⊆ log := by
  obtain ⟨hchildren, hrounds⟩ := foldlM_value
    (childrenAfter c A mergeChild dryRun forkRev srcRev dstRev)
    (fun done field rest newChildren' log' _ hround => by
      obtain ⟨o, log1, log2, ho, -, -⟩ := gives_bind.mp hround
      exact (yields_fieldRound ho.returns).eq hround) h
  refine ⟨hchildren, fun field hfield => ?_⟩
  obtain ⟨done, rest, hsplit⟩ := append_of_mem hfield
  obtain ⟨log', hround, hsub⟩ := hrounds done field rest hsplit
  obtain ⟨o, log1, log2, ho, -, rfl⟩ := gives_bind.mp hround
  exact ⟨o, log1, ho, fun w hw => hsub (mem_append_left _ hw)⟩

/-! ### The merged revision -/

theorem mem_fieldWrites {w : String × Slice α} :
    w ∈ fieldWrites c A mergeChild dryRun forkRev srcRev dstRev
        (visitedFields c dryRun forkRev srcRev) ↔
      ∃ l, w.2 = some l ∧ written c A mergeChild dryRun forkRev srcRev dstRev w.1 = some l := by
  rw [fieldWrites, mem_filterMap]
  constructor
  · rintro ⟨⟨name, type⟩, hfield, hw⟩
    obtain ⟨l, hl, rfl⟩ := map_eq_some_iff.mp hw
    exact ⟨l, rfl, bind_eq_some_iff.mpr ⟨type, mem_visitedFields.mp hfield, hl⟩⟩
  · rintro ⟨l, hw, hwrite⟩
    obtain ⟨type, htype, hl⟩ := bind_eq_some_iff.mp hwrite
    exact ⟨⟨w.1, type⟩, mem_visitedFields.mpr htype,
      map_eq_some_iff.mpr ⟨l, hl, by rw [← hw]⟩⟩

theorem lookup_childrenAfter (name : String) :
    (childrenAfter c A mergeChild dryRun forkRev srcRev dstRev
        (visitedFields c dryRun forkRev srcRev)).lookup name =
      ((written c A mergeChild dryRun forkRev srcRev dstRev name).map some).or
        ((copyChildren dstRev.children).lookup name) := by
  cases hwrite : written c A mergeChild dryRun forkRev srcRev dstRev name with
  | none =>
    refine lookup_writeAll_of_notMem ?_
    rintro w hw rfl
    obtain ⟨l, -, hl⟩ := mem_fieldWrites.mp hw
    cases hwrite.symm.trans hl
  | some l =>
    refine lookup_writeAll_of_agree ⟨(name, some l), mem_fieldWrites.mpr ⟨l, rfl, hwrite⟩, rfl⟩ ?_
    rintro w hw rfl
    obtain ⟨l', hw', hl'⟩ := mem_fieldWrites.mp hw
    rw [hw', ← hl', hwrite]

theorem entriesOf_childrenAfter (name : String) :
    entriesOf (childrenAfter c A mergeChild dryRun forkRev srcRev dstRev
        (visitedFields c dryRun forkRev srcRev)) name =
      mergedEntries c A mergeChild dryRun forkRev srcRev dstRev name := by
  rw [entriesOf, lookup_childrenAfter, mergedEntries, ← entriesOf_copyChildren]
  cases written c A mergeChild dryRun forkRev srcRev dstRev name <;> rfl

theorem mem_childrenAfter :
    name ∈ childrenAfter c A mergeChild dryRun forkRev srcRev dstRev
        (visitedFields c dryRun forkRev srcRev) ↔
      Writes c A mergeChild dryRun forkRev srcRev dstRev name ∨ name ∈ dstRev.children := by
  rw [← AList.lookup_isSome, lookup_childrenAfter, isSome_or, isSome_map, Bool.or_eq_true,
    AList.lookup_isSome, mem_copyChildren]
  rfl

end Fields

section Branches

variable [DecidableEq δ] [DecidableEq α] (c : Commit δ) (A : Access α)
  (mergeChild : α → Logged Err ω (Option α)) (dryRun : Bool) (b : Branches (RevisionOf δ α))

def branchChildren : GoMap String (Slice α) :=
  childrenAfter c A mergeChild dryRun b.origin b.latest b.none
    (visitedFields c dryRun b.origin b.latest)

def mergedRevision : Option (RevisionOf δ α) :=
  if !dryRun ∧ (branchChildren c A mergeChild dryRun b).keys ≠ [] then
    some { updateAllChildren c.digest A.hash
      (if configChanged b.origin b.latest b.none then b.latest else b.none)
      (branchChildren c A mergeChild dryRun b) with name := b.none.name }
  else
    none

def latestAfter : RevisionOf δ α :=
  (mergedRevision c A mergeChild dryRun b).elim b.none (makeLatest b.none)

variable {c A mergeChild dryRun b} {Q : ω → Prop}

theorem isSome_mergedRevision : (mergedRevision c A mergeChild dryRun b).isSome ↔
    dryRun = false ∧ (branchChildren c A mergeChild dryRun b).keys ≠ [] := by
  by_cases h : !dryRun ∧ (branchChildren c A mergeChild dryRun b).keys ≠ []
  · rw [mergedRevision, if_pos h]
    simpa using h
  · rw [mergedRevision, if_neg h]
    simpa using h

theorem eq_of_mergedRevision {rev : RevisionOf δ α}
    (h : mergedRevision c A mergeChild dryRun b = some rev) :
    rev = { updateAllChildren c.digest A.hash
      (if configChanged b.origin b.latest b.none then b.latest else b.none)
      (branchChildren c A mergeChild dryRun b) with name := b.none.name } := by
  have hsome : !dryRun ∧ (branchChildren c A mergeChild dryRun b).keys ≠ [] := by
    simpa using isSome_mergedRevision.mp (isSome_of_eq_some h)
  rw [mergedRevision, if_pos hsome] at h
  exact (Option.some.inj h).symm

theorem yields_mergeBranchOf
    (h : ∀ field ∈ visitedFields c dryRun b.origin b.latest,
      ∃ o, Yields Q (fieldMerge c A mergeChild dryRun b.origin b.latest b.none field) o) :
    Yields Q (mergeBranchOf c A mergeChild dryRun b)
      (mergedRevision c A mergeChild dryRun b, latestAfter c A mergeChild dryRun b) := by
  have hthree := (yields_mergeChildren h).bind (f := fun newChildren =>
    if !dryRun ∧ newChildren.keys ≠ [] then
      return some (updateAllChildren c.digest A.hash
        (if configChanged b.origin b.latest b.none then b.latest else b.none) newChildren)
    else
      return none) (b := if !dryRun ∧ (branchChildren c A mergeChild dryRun b).keys ≠ [] then
        some (updateAllChildren c.digest A.hash
          (if configChanged b.origin b.latest b.none then b.latest else b.none)
          (branchChildren c A mergeChild dryRun b)) else none) (by
    unfold branchChildren
    split_ifs <;> exact yields_pure _)
  refine Yields.bind hthree ?_
  unfold latestAfter mergedRevision
  split_ifs <;> exact yields_pure _

theorem mergeBranchOf_gives {merged : Option (RevisionOf δ α) × RevisionOf δ α} {log : List ω}
    (h : (mergeBranchOf c A mergeChild dryRun b).Gives merged log) :
    merged = (mergedRevision c A mergeChild dryRun b, latestAfter c A mergeChild dryRun b) ∧
      ∀ field ∈ visitedFields c dryRun b.origin b.latest, ∃ o log',
        (fieldMerge c A mergeChild dryRun b.origin b.latest b.none field).Gives o log' ∧
          log' ⊆ log := by
  obtain ⟨rev, log1, log2, hrev, -, rfl⟩ := gives_bind.mp h
  obtain ⟨newChildren, log3, log4, hchildren, -, rfl⟩ := gives_bind.mp hrev
  obtain ⟨-, hfields⟩ := mergeChildren_gives hchildren
  constructor
  · refine (yields_mergeBranchOf (Q := fun _ => True) fun field hfield => ?_).eq h
    obtain ⟨o, log', ho, -⟩ := hfields field hfield
    exact ⟨o, ho.returns⟩
  · intro field hfield
    obtain ⟨o, log', ho, hsub⟩ := hfields field hfield
    exact ⟨o, log', ho, fun w hw => by simp [hsub hw]⟩

end Branches

/-! ### Trees -/

section Trees

variable [DecidableEq δ] (c : Commit δ)

def leafAccess : Access Empty := ⟨fun _ => nofun, nofun, nofun⟩

def childAccess (n : ℕ) : Access (Child (Revision δ n)) :=
  Child.access (Revision.access c.schema n)

/-- The merge of a child: what is in the transaction is merged with its own branches. -/
def childMerge (dryRun : Bool) (n : ℕ) (child : Child (Revision δ n)) :
    CommitM δ (Option (Child (Revision δ n))) := do
  match child with
  | .plain _ => return some child
  | .inTransaction branches => return (← mergeBranch c dryRun n branches).1.map .plain

variable {c} {dryRun : Bool} {n : ℕ} {Q : Touched δ → Prop}
  {merged : Option (Revision δ (n + 1)) × Revision δ (n + 1)} {log : List (Touched δ)}
  {b : Branches (Revision δ (n + 1))}

omit [DecidableEq δ] in
theorem gives_noted {ρ : Type} (x : CommitM δ (Option ρ × ρ)) (note : ρ → Touched δ)
    {merged : Option ρ × ρ} :
    (do let merged ← x; Logged.note (note merged.2); return merged : CommitM δ _).Gives merged log ↔
      ∃ log', x.Gives merged log' ∧ log = log' ++ [note merged.2] := by
  constructor
  · intro h
    obtain ⟨merged', log1, log2, hmerged, hrest, rfl⟩ := gives_bind.mp h
    obtain ⟨u, log3, log4, hnote, hret, rfl⟩ := gives_bind.mp hrest
    obtain ⟨rfl, rfl⟩ := gives_pure.mp hret
    exact ⟨log1, hmerged, by rw [gives_note.mp hnote, append_nil]⟩
  · rintro ⟨log', hx, rfl⟩
    refine gives_bind.mpr ⟨merged, log', _, hx, ?_, rfl⟩
    exact gives_bind.mpr ⟨(), _, [], gives_note.mpr rfl, gives_pure.mpr ⟨rfl, rfl⟩, by simp⟩

omit [DecidableEq δ] in
theorem yields_noted {ρ : Type} (x : CommitM δ (Option ρ × ρ)) (note : ρ → Touched δ)
    {merged : Option ρ × ρ} :
    Yields Q (do let merged ← x; Logged.note (note merged.2); return merged : CommitM δ _) merged ↔
      Yields Q x merged ∧ Q (note merged.2) := by
  constructor
  · rintro ⟨log, h, hlog⟩
    obtain ⟨log', h', rfl⟩ := (gives_noted x note).mp h
    exact ⟨⟨log', h', fun w hw => hlog w (by simp [hw])⟩, hlog _ (by simp)⟩
  · rintro ⟨⟨log, h, hlog⟩, hnote⟩
    refine ⟨_, (gives_noted x note).mpr ⟨log, h, rfl⟩, fun w hw => ?_⟩
    rcases mem_append.mp hw with hw | hw
    · exact hlog w hw
    · rwa [mem_singleton.mp hw]

theorem mergeBranch_zero_gives {b : Branches (Revision δ 0)}
    {merged : Option (Revision δ 0) × Revision δ 0} :
    (mergeBranch c dryRun 0 b).Gives merged log ↔ ∃ log',
      (mergeBranchOf (α := Empty) c leafAccess nofun dryRun b : CommitM δ _).Gives merged log' ∧
        log = log' ++ [⟨0, b.none, merged.2⟩] :=
  gives_noted _ fun latest => ⟨0, b.none, latest⟩

theorem mergeBranch_succ_gives :
    (mergeBranch c dryRun (n + 1) b).Gives merged log ↔ ∃ log',
      (mergeBranchOf (α := Child (Revision δ n)) c (childAccess c n) (childMerge c dryRun n) dryRun
        b).Gives merged log' ∧ log = log' ++ [⟨n + 1, b.none, merged.2⟩] :=
  gives_noted _ fun latest => ⟨n + 1, b.none, latest⟩

theorem mergeBranch_zero_yields {b : Branches (Revision δ 0)}
    {merged : Option (Revision δ 0) × Revision δ 0} :
    Yields Q (mergeBranch c dryRun 0 b) merged ↔
      Yields Q (mergeBranchOf (α := Empty) c leafAccess nofun dryRun b : CommitM δ _) merged ∧
        Q ⟨0, b.none, merged.2⟩ :=
  yields_noted _ fun latest => ⟨0, b.none, latest⟩

theorem mergeBranch_succ_yields :
    Yields Q (mergeBranch c dryRun (n + 1) b) merged ↔
      Yields Q (mergeBranchOf (α := Child (Revision δ n)) c (childAccess c n)
        (childMerge c dryRun n) dryRun b) merged ∧ Q ⟨n + 1, b.none, merged.2⟩ :=
  yields_noted _ fun latest => ⟨n + 1, b.none, latest⟩

end Trees

end VolthaCore.DataModel
