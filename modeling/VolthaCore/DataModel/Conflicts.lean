import VolthaCore.DataModel.FastForward
import VolthaCore.DataModel.ThreeWay

/-! Committing a transaction that conflicts with the `NONE` branch. A conflict is logged
where it is found, and nothing else comes of it: the dry run reports no error and the
merge goes on with the next key. So the commit leaves the `NONE` branches alone only
when every change of the transaction is itself a conflict, or is no change any more. -/

namespace VolthaCore.DataModel

open Logged Option Slice
open List hiding after

variable {δ α ω : Type} {A : Access α} {mergeChild : α → Logged Err ω (Option α)} {type : ChildType}
  {Q : ω → Prop} {o : Option (List (Option α))} {c : Commit δ}

/-! ### Branches that stay as they are -/

section Same

/-- The same data, and under every name the same child revisions. -/
def SameOf (ref : α → ℕ) (before after : RevisionOf δ α) : Prop :=
  after.getData = before.getData ∧ ∀ name,
    (entriesOf after.children name).map (Option.map ref) =
      (entriesOf before.children name).map (Option.map ref)

def Revision.ref : (n : ℕ) → Revision δ n → ℕ
  | 0, rev => RevisionOf.ref rev
  | _ + 1, rev => RevisionOf.ref rev

def Revision.config : (n : ℕ) → Revision δ n → DataRevision δ
  | 0, rev => RevisionOf.config rev
  | _ + 1, rev => RevisionOf.config rev

def Child.ref {n : ℕ} (child : Child (Revision δ n)) : ℕ := Revision.ref n child.rev

/-- A noted `NONE` branch has the data and the children that it had. -/
def Unchanged : Touched δ → Prop
  | ⟨0, before, after⟩ => SameOf (α := Empty) nofun before after
  | ⟨n + 1, before, after⟩ => SameOf (α := Child (Revision δ n)) Child.ref before after

end Same

/-! ### Nothing to apply -/

section Quiet

variable [DecidableEq α] (schema : Schema δ) (A : Access α)

/-- The merge of a field returns and writes nothing but what the destination has. -/
def QuietField (type : ChildType) (forkList srcList dstList : Slice α) : Prop :=
  if dstList = srcList then none ∉ srcList.entries
  else if type.key = "" then True
  else if dstList = forkList then srcList.entries = dstList.entries
  else none ∉ forkList.entries ∧ none ∉ srcList.entries ∧ none ∉ dstList.entries ∧
    NothingToApply A type.key forkList.revisions srcList.revisions dstList.revisions

/-- A child that is merged although nothing is written for it. -/
def FieldRevisits (type : ChildType) (forkList srcList dstList : Slice α) (x : α) : Prop :=
  if dstList = srcList then some x ∈ srcList.entries
  else type.key ≠ "" ∧ dstList ≠ forkList ∧
    Revisited A type.key forkList.revisions srcList.revisions dstList.revisions x

/-- The merged revision has no children under any name. -/
def Childless (b : Branches (RevisionOf δ α)) : Prop :=
  b.none.children.keys = [] ∧ ∀ name type,
    (schema.childrenFields b.origin.getData).lookup name = some type → type.key ≠ "" →
      b.latest.getChildren name = b.none.getChildren name

/-- The merge of a branch has nothing to apply, nor have the merges of the children that it
revisits. -/
structure QuietOf [DecidableEq δ] (Quiet : α → Prop) (b : Branches (RevisionOf δ α)) : Prop where
  data : configChanged b.origin b.latest b.none →
    b.latest.getData = b.none.getData ∨ Childless schema b
  fields : ∀ name type, (schema.childrenFields b.origin.getData).lookup name = some type →
    QuietField A type (b.origin.getChildren name) (b.latest.getChildren name)
      (b.none.getChildren name)
  children : ∀ name type, (schema.childrenFields b.origin.getData).lookup name = some type →
    ∀ x, FieldRevisits A type (b.origin.getChildren name) (b.latest.getChildren name)
      (b.none.getChildren name) x → Quiet x

end Quiet

section Field

variable [DecidableEq α] {orders : KeyOrders} {forkList srcList dstList : Slice α}

omit [DecidableEq α] in
/-- A fast-forward puts the revisions of the source in place of those of the destination. -/
theorem entries_eq_of_fastForward {ref : α → ℕ} {keyName : String}
    {forkEntries srcEntries result : List (Option α)}
    (hmerged : ∀ r, some r ∈ srcEntries → ∀ r', mergedTo mergeChild r = some r' → ref r' = ref r)
    (hcoherent : ∀ r x, some r ∈ srcEntries → some x ∈ forkEntries → ref r = ref x → r = x)
    (h : Yields Q (fastForward A keyName mergeChild orders forkEntries srcEntries) result)
    (hsame : result.map (Option.map ref) = forkEntries.map (Option.map ref)) :
    srcEntries = forkEntries := by
  obtain ⟨log, h, -⟩ := h
  obtain ⟨fork, src, rfl, rfl, rfl, -⟩ := fastForward_gives h
  have hrefs : (mergedAt A keyName mergeChild src
      (visitedKeys orders (analyse A keyName fork src))).map ref = fork.map ref :=
    map_entries_inj.mp hsame
  congr 1
  apply ext_getElem?
  intro i
  have hat := congrArg (·[i]?) hrefs
  simp only [getElem?_map, getElem?_mergedAt] at hat
  cases hr : src[i]? with
  | none =>
    rw [hr] at hat
    simpa using hat.symm
  | some r =>
    have hmem : some r ∈ src.map some := List.mem_map_of_mem (mem_of_getElem? hr)
    rw [hr, map_some, map_some] at hat
    obtain ⟨x, hx, href⟩ := map_eq_some_iff.mp hat.symm
    rw [hx]
    refine congrArg some (hcoherent r x hmem (List.mem_map_of_mem (mem_of_getElem? hx)) ?_)
    rw [href]
    split_ifs
    · cases hto : mergedTo mergeChild r with
      | none => rfl
      | some r' => exact (hmerged r hmem r' hto).symm
    · rfl

theorem quietField_of_same {ref : α → ℕ}
    (hmerged : ∀ r, some r ∈ srcList.entries → ∀ r', mergedTo mergeChild r = some r' →
      ref r' = ref r)
    (hcoherent : ∀ r x, some r ∈ srcList.entries → some x ∈ dstList.entries → ref r = ref x → r = x)
    (h : Yields Q (mergeField A mergeChild orders type forkList srcList dstList) o)
    (hsame : (o.getD dstList.entries).map (Option.map ref) = dstList.entries.map (Option.map ref)) :
    QuietField A type forkList srcList dstList := by
  unfold QuietField
  split_ifs with hsrc hkey hfork
  · rw [mergeField_alike hsrc] at h
    obtain ⟨u, hloop, -⟩ := yields_bind.mp h
    intro hnil
    obtain ⟨r, hr, -⟩ := yields_mergeEach.mp (yields_forM.mp hloop none hnil)
    cases hr
  · rw [mergeField_forward hsrc hkey hfork] at h
    obtain ⟨l, hl, hret⟩ := yields_bind.mp h
    rw [eq_of_yields_pure hret, getD_some] at hsame
    subst hfork
    exact entries_eq_of_fastForward hmerged hcoherent hl hsame
  · rw [mergeField_threeWay hsrc hkey hfork] at h
    obtain ⟨l, hl, hret⟩ := yields_bind.mp h
    rw [eq_of_yields_pure hret, getD_some] at hsame
    obtain ⟨fork, src, dst, hforkEntries, hsrcEntries, hdstEntries⟩ := threeWay_lists hl
    rw [revisions_of_map hforkEntries, revisions_of_map hsrcEntries,
      revisions_of_map hdstEntries]
    rw [hforkEntries, hsrcEntries, hdstEntries] at hl
    rw [hsrcEntries] at hmerged hcoherent
    rw [hdstEntries] at hcoherent hsame
    exact ⟨by simp [hforkEntries], by simp [hsrcEntries], by simp [hdstEntries],
      nothingToApply_of_same (fun r hr => hmerged r (List.mem_map_of_mem hr))
        (fun r hr x hx => hcoherent r x (List.mem_map_of_mem hr) (List.mem_map_of_mem hx)) hl hsame⟩

/-- The merge of a field that returns has merged the children that it revisits. -/
theorem yields_of_fieldRevisits
    (h : Yields Q (mergeField A mergeChild orders type forkList srcList dstList) o) {x : α}
    (hx : FieldRevisits A type forkList srcList dstList x) : ∃ o, Yields Q (mergeChild x) o := by
  unfold FieldRevisits at hx
  split_ifs at hx with hsrc
  · rw [mergeField_alike hsrc] at h
    obtain ⟨u, hloop, -⟩ := yields_bind.mp h
    obtain ⟨r, hr, ho⟩ := yields_mergeEach.mp (yields_forM.mp hloop _ hx)
    cases hr
    exact ho
  · obtain ⟨hkey, hfork, hx⟩ := hx
    rw [mergeField_threeWay hsrc hkey hfork] at h
    obtain ⟨l, hl, -⟩ := yields_bind.mp h
    obtain ⟨fork, src, dst, hforkEntries, hsrcEntries, hdstEntries⟩ := threeWay_lists hl
    rw [revisions_of_map hforkEntries, revisions_of_map hsrcEntries,
      revisions_of_map hdstEntries] at hx
    rw [hforkEntries, hsrcEntries, hdstEntries] at hl
    exact yields_of_revisited hl hx

theorem mem_of_fieldRevisits {x : α} (h : FieldRevisits A type forkList srcList dstList x) :
    some x ∈ srcList.entries ∨ some x ∈ dstList.entries := by
  have hmem : ∀ {s : Slice α} {k : String}, lastOf A type.key s.revisions k = some x →
      some x ∈ s.entries := by
    intro s k hx
    obtain ⟨e, he, rfl⟩ := mem_filterMap.mp (mem_of_getElem? hx)
    exact he
  unfold FieldRevisits at h
  split_ifs at h
  · exact .inl h
  · rcases h.2.2 with ⟨k, -, -, hx, -⟩ | ⟨k, -, -, hx, -⟩
    · exact .inr (hmem hx)
    · exact .inl (hmem hx)

theorem yields_mergeField_of_quiet (orders : KeyOrders)
    (h : QuietField A type forkList srcList dstList)
    (hcalls : ∀ x, FieldRevisits A type forkList srcList dstList x →
      ∃ o, Yields Q (mergeChild x) o) :
    ∃ o, Yields Q (mergeField A mergeChild orders type forkList srcList dstList) o ∧
      o.getD dstList.entries = dstList.entries := by
  unfold QuietField at h
  unfold FieldRevisits at hcalls
  by_cases hsrc : dstList = srcList
  · rw [if_pos hsrc] at h
    simp only [if_pos hsrc] at hcalls
    rw [mergeField_alike hsrc]
    refine ⟨none, (yields_forM.mpr fun e he => yields_mergeEach.mpr ?_).bind (yields_pure _), rfl⟩
    cases e with
    | none => exact absurd he h
    | some x => exact ⟨x, rfl, hcalls x he⟩
  · rw [if_neg hsrc] at h
    simp only [if_neg hsrc] at hcalls
    split_ifs at h with hkey hfork
    · rw [mergeField_unkeyed hsrc hkey]
      exact ⟨none, yields_pure _, rfl⟩
    · -- one of the slices is nil and the other one is empty
      have hnil : dstList.entries = [] := by
        cases dstList with
        | none => rfl
        | some d =>
          cases srcList with
          | none => exact h.symm
          | some s => exact absurd (congrArg some h.symm) hsrc
      rw [mergeField_forward hsrc hkey hfork, ← hfork, h, hnil]
      refine ⟨some [], Yields.passOn (a := []) ?_ some, rfl⟩
      have hempty : Yields Q (fastForward A type.key mergeChild orders (List.map some [])
          (List.map some [])) _ := yields_fastForward orders fun k hk => by
        obtain ⟨hadded, -, hchanged, -⟩ := visited_facts A type.key orders [] []
        exact absurd ((mem_append.mp hk).elim (hadded k) (hchanged k)) (by simp [childKeys])
      exact hempty
    · obtain ⟨hforkEntries, hsrcEntries, hdstEntries, hnothing⟩ := h
      rw [mergeField_threeWay hsrc hkey hfork, ← map_revisions hforkEntries,
        ← map_revisions hsrcEntries, ← map_revisions hdstEntries]
      exact ⟨_, (yields_threeWay_of_nothing orders hnothing fun x hx =>
        hcalls x ⟨hkey, hfork, hx⟩).passOn some, rfl⟩

end Field

/-! ### The merge of a branch -/

section Branch

variable [DecidableEq δ] [DecidableEq α] {dryRun : Bool} {b : Branches (RevisionOf δ α)}
  {merged : Option (RevisionOf δ α) × RevisionOf δ α} {ref : α → ℕ}
  {name : String} {rev : RevisionOf δ α}

theorem fieldMerge_of_yields (h : Yields Q (mergeBranchOf c A mergeChild dryRun b) merged)
    (htype : (c.schema.childrenFields b.origin.getData).lookup name = some type) :
    ∃ o, Yields Q (fieldMerge c A mergeChild dryRun b.origin b.latest b.none ⟨name, type⟩) o := by
  obtain ⟨log, h, hlog⟩ := h
  obtain ⟨o, log', ho, hsub⟩ := (mergeBranchOf_gives h).2 _ (mem_visitedFields.mpr htype)
  exact ⟨o, log', ho, fun w hw => hlog w (hsub hw)⟩

omit [DecidableEq δ] in
theorem mergedEntries_of_yields
    (htype : (c.schema.childrenFields b.origin.getData).lookup name = some type)
    (ho : Yields Q (fieldMerge c A mergeChild false b.origin b.latest b.none ⟨name, type⟩) o) :
    mergedEntries c A mergeChild false b.origin b.latest b.none name =
      o.getD (b.none.getChildren name).entries := by
  obtain ⟨log, ho, -⟩ := ho
  rw [mergedEntries, written, htype, bind_some, fieldWrite_of_gives ho, if_neg (by simp)]
  rfl

omit [DecidableEq δ] in
theorem writes_of_yields
    (htype : (c.schema.childrenFields b.origin.getData).lookup name = some type)
    (ho : Yields Q (fieldMerge c A mergeChild false b.origin b.latest b.none ⟨name, type⟩) o) :
    Writes c A mergeChild false b.origin b.latest b.none name ↔ o.isSome := by
  obtain ⟨log, ho, -⟩ := ho
  rw [Writes, written, htype, bind_some, fieldWrite_of_gives ho, if_neg (by simp)]

omit [DecidableEq δ] in
theorem isSome_of_fieldMerge
    (ho : Yields Q (fieldMerge c A mergeChild dryRun b.origin b.latest b.none ⟨name, type⟩) o) :
    o.isSome ↔ type.key ≠ "" ∧ b.latest.getChildren name ≠ b.none.getChildren name := by
  unfold fieldMerge at ho
  by_cases hsrc : b.none.getChildren name = b.latest.getChildren name
  · rw [mergeField_alike hsrc] at ho
    obtain ⟨u, -, hret⟩ := yields_bind.mp ho
    simp [eq_of_yields_pure hret, hsrc]
  · have hne : b.latest.getChildren name ≠ b.none.getChildren name := fun h => hsrc h.symm
    by_cases hkey : type.key = ""
    · rw [mergeField_unkeyed hsrc hkey] at ho
      simp [eq_of_yields_pure ho, hkey]
    · by_cases hfork : b.none.getChildren name = b.origin.getChildren name
      · rw [mergeField_forward hsrc hkey hfork] at ho
        obtain ⟨l, -, hret⟩ := yields_bind.mp ho
        simp [eq_of_yields_pure hret, hkey, hne]
      · rw [mergeField_threeWay hsrc hkey hfork] at ho
        obtain ⟨l, -, hret⟩ := yields_bind.mp ho
        simp [eq_of_yields_pure hret, hkey, hne]

/-- The merge returns no revision exactly when there are no children to list. -/
theorem isSome_of_yields (h : Yields Q (mergeBranchOf c A mergeChild false b) merged) :
    (mergedRevision c A mergeChild false b).isSome ↔ ¬Childless c.schema b := by
  rw [isSome_mergedRevision, Childless, not_and_or, or_iff_not_imp_left, not_not]
  simp only [true_and, ne_eq, eq_nil_iff_forall_not_mem, ← AList.mem_keys, branchChildren,
    mem_childrenAfter, not_forall, not_not]
  constructor
  · rintro ⟨name, hwrites | hname⟩ hnone
    · obtain ⟨type, htype⟩ : ∃ type,
          (c.schema.childrenFields b.origin.getData).lookup name = some type := by
        by_contra hno
        rw [not_exists, ← eq_none_iff_forall_ne_some] at hno
        simp [Writes, written, hno] at hwrites
      obtain ⟨o, ho⟩ := fieldMerge_of_yields h htype
      obtain ⟨hkey, hne⟩ := (isSome_of_fieldMerge ho).mp ((writes_of_yields htype ho).mp hwrites)
      exact ⟨name, type, htype, hkey, hne⟩
    · exact absurd hname (hnone name)
  · intro hfields
    by_cases hnone : ∀ name, name ∉ b.none.children
    · obtain ⟨name, type, htype, hkey, hne⟩ := hfields hnone
      obtain ⟨o, ho⟩ := fieldMerge_of_yields h htype
      exact ⟨name, .inl ((writes_of_yields htype ho).mpr ((isSome_of_fieldMerge ho).mpr
        ⟨hkey, hne⟩))⟩
    · rw [not_forall] at hnone
      obtain ⟨name, hname⟩ := hnone
      exact ⟨name, .inr (not_not.mp hname)⟩

theorem config_of_mergedRevision (h : mergedRevision c A mergeChild dryRun b = some rev) :
    rev.config = (if configChanged b.origin b.latest b.none then b.latest else b.none).config ∧
      rev.ref = (if configChanged b.origin b.latest b.none then b.latest else b.none).ref := by
  rw [eq_of_mergedRevision h]
  exact ⟨rfl, rfl⟩

theorem entriesOf_mergedRevision (h : mergedRevision c A mergeChild dryRun b = some rev)
    (name : String) :
    entriesOf rev.children name =
      mergedEntries c A mergeChild dryRun b.origin b.latest b.none name := by
  rw [eq_of_mergedRevision h, ← entriesOf_childrenAfter]
  exact entriesOf_appendChildren _ name

omit [DecidableEq δ] [DecidableEq α] in
theorem SameOf.refl (ref : α → ℕ) (rev : RevisionOf δ α) : SameOf ref rev rev :=
  ⟨rfl, fun _ => rfl⟩

/-- A branch with nothing to apply stays as it is. -/
theorem yields_mergeBranchOf_of_quiet {Quiet : α → Prop}
    (mergeChild : α → Logged Err ω (Option α)) (dryRun : Bool) (ref : α → ℕ)
    (h : QuietOf c.schema A Quiet b) (hcalls : ∀ x, Quiet x → ∃ o, Yields Q (mergeChild x) o) :
    ∃ merged, Yields Q (mergeBranchOf c A mergeChild dryRun b) merged ∧
      SameOf ref b.none merged.2 := by
  have hfield : ∀ name type,
      (c.schema.childrenFields b.origin.getData).lookup name = some type →
      ∃ o, Yields Q (fieldMerge c A mergeChild dryRun b.origin b.latest b.none ⟨name, type⟩) o ∧
        o.getD (b.none.getChildren name).entries = (b.none.getChildren name).entries :=
    fun name type htype => yields_mergeField_of_quiet _ (h.fields name type htype) fun x hx =>
      hcalls x (h.children name type htype x hx)
  have hrun : Yields Q (mergeBranchOf c A mergeChild dryRun b) _ :=
    yields_mergeBranchOf fun field hfield' => by
      obtain ⟨o, ho, -⟩ := hfield field.1 field.2 (mem_visitedFields.mp hfield')
      exact ⟨o, ho⟩
  refine ⟨_, hrun, ?_⟩
  unfold latestAfter
  cases hrev : mergedRevision c A mergeChild dryRun b with
  | none => exact SameOf.refl ref b.none
  | some rev =>
    obtain rfl : dryRun = false := (isSome_mergedRevision.mp (isSome_of_eq_some hrev)).1
    have hchildren : ¬Childless c.schema b :=
      (isSome_of_yields hrun).mp (isSome_of_eq_some hrev)
    have hsame : SameOf ref b.none rev := by
      constructor
      · rw [RevisionOf.getData, (config_of_mergedRevision hrev).1]
        split_ifs with hconfig
        · exact (h.data hconfig).resolve_right hchildren
        · rfl
      · intro name
        rw [entriesOf_mergedRevision hrev]
        cases htype : (c.schema.childrenFields b.origin.getData).lookup name with
        | none => rw [mergedEntries, written, htype, bind_none, getD_none]
        | some type =>
          obtain ⟨o, ho, heq⟩ := hfield name type htype
          rw [mergedEntries_of_yields htype ho, heq]
          rfl
    change SameOf ref b.none (makeLatest b.none rev)
    unfold makeLatest
    split_ifs
    · exact hsame
    · exact SameOf.refl ref b.none

/-- A branch that stays as it is had nothing to apply, if its merged revision can be told from
the one before by its hash. -/
theorem quiet_of_same (hfresh : ∀ s, c.digest s ≠ b.none.hash)
    (hmerged : ∀ name r, some r ∈ entriesOf b.latest.children name → ∀ r',
      mergedTo mergeChild r = some r' → ref r' = ref r)
    (hcoherent : ∀ name r x, some r ∈ entriesOf b.latest.children name →
      some x ∈ entriesOf b.none.children name → ref r = ref x → r = x)
    (h : Yields Q (mergeBranchOf c A mergeChild false b) merged)
    (hsame : SameOf ref b.none merged.2) :
    (configChanged b.origin b.latest b.none →
      b.latest.getData = b.none.getData ∨ Childless c.schema b) ∧
    ∀ name type, (c.schema.childrenFields b.origin.getData).lookup name = some type →
      QuietField A type (b.origin.getChildren name) (b.latest.getChildren name)
        (b.none.getChildren name) := by
  have hlatest : merged.2 = latestAfter c A mergeChild false b := by
    obtain ⟨log, h, -⟩ := h
    rw [(mergeBranchOf_gives h).1]
  have hfield : ∀ name type, (c.schema.childrenFields b.origin.getData).lookup name = some type →
      (mergedEntries c A mergeChild false b.origin b.latest b.none name).map (Option.map ref) =
        (entriesOf b.none.children name).map (Option.map ref) →
      QuietField A type (b.origin.getChildren name) (b.latest.getChildren name)
        (b.none.getChildren name) := by
    intro name type htype hentries
    obtain ⟨o, ho⟩ := fieldMerge_of_yields h htype
    rw [mergedEntries_of_yields htype ho] at hentries
    exact quietField_of_same (hmerged name) (hcoherent name) ho hentries
  have hsome := isSome_of_yields h
  rw [hlatest, latestAfter] at hsame
  cases hrev : mergedRevision c A mergeChild false b with
  | none =>
    have hchildless : Childless c.schema b := by
      rw [hrev] at hsome
      simpa using hsome
    refine ⟨fun _ => .inr hchildless, fun name type htype => hfield name type htype ?_⟩
    obtain ⟨o, ho⟩ := fieldMerge_of_yields h htype
    have hno : ¬o.isSome := fun ho' => by
      obtain ⟨hkey, hne⟩ := (isSome_of_fieldMerge ho).mp ho'
      exact hne (hchildless.2 name type htype hkey)
    rw [mergedEntries_of_yields htype ho, not_isSome_iff_eq_none.mp hno]
    rfl
  | some rev =>
    have hhash : rev.hash ≠ b.none.hash := by
      rw [eq_of_mergedRevision hrev]
      exact hfresh _
    rw [hrev, elim_some, makeLatest, if_pos (.inr hhash)] at hsame
    obtain ⟨hdata, hentries⟩ := hsame
    refine ⟨fun hconfig => .inl ?_, fun name type htype => hfield name type htype ?_⟩
    · rw [RevisionOf.getData, (config_of_mergedRevision hrev).1, if_pos hconfig] at hdata
      exact hdata
    · rw [← entriesOf_mergedRevision hrev]
      exact hentries name

end Branch

/-! ### Trees -/

section Trees

variable [DecidableEq δ]

/-- Nothing to apply in the node and in the nodes below it that are merged. -/
def Quiet (schema : Schema δ) : (n : ℕ) → Branches (Revision δ n) → Prop
  | 0, b => QuietOf (α := Empty) schema leafAccess (fun _ => True) b
  | n + 1, b => QuietOf (α := Child (Revision δ n)) schema
      (Child.access (Revision.access schema n)) (Child.InTransaction (Quiet schema n)) b

/-- A number stands for one revision, and a revision that was made in a transaction has a
configuration of its own. -/
def Coherent : (n : ℕ) → Branches (Revision δ n) → Prop
  | 0, _ => True
  | n + 1, b =>
    let src := entriesOf (α := Child (Revision δ n)) (RevisionOf.children b.latest)
    let dst := entriesOf (α := Child (Revision δ n)) (RevisionOf.children b.none)
    (∀ name r x, some r ∈ src name → some x ∈ dst name → r.ref = x.ref → r = x) ∧
      ∀ name child, some child ∈ src name ∨ some child ∈ dst name →
        child.InTransaction fun b' =>
          Revision.config n b'.latest ≠ Revision.config n b'.origin ∧ Coherent n b'

theorem mergeBranch_of_quiet (c : Commit δ) (dryRun : Bool) (n : ℕ) (b : Branches (Revision δ n))
    (h : Quiet c.schema n b) : ∃ merged, Yields Unchanged (mergeBranch c dryRun n b) merged := by
  induction n with
  | zero =>
    obtain ⟨merged, hrun, hsame⟩ := yields_mergeBranchOf_of_quiet (α := Empty) (Q := Unchanged)
      nofun dryRun nofun h nofun
    exact ⟨merged, mergeBranch_zero_yields.mpr ⟨hrun, hsame⟩⟩
  | succ n ih =>
    obtain ⟨merged, hrun, hsame⟩ := yields_mergeBranchOf_of_quiet (Q := Unchanged)
      (childMerge c dryRun n) dryRun Child.ref h fun x hx => by
        cases x with
        | plain rev => exact ⟨_, yields_pure _⟩
        | inTransaction b' =>
          obtain ⟨merged, hmerged⟩ := ih b' hx
          exact ⟨_, hmerged.passOn fun merged => merged.1.map Child.plain⟩
    exact ⟨merged, mergeBranch_succ_yields.mpr ⟨hrun, hsame⟩⟩

variable {n : ℕ} {b : Branches (Revision δ n)} {merged : Option (Revision δ n) × Revision δ n}

theorem unchanged_of_mergeBranch {dryRun : Bool}
    (h : Yields Unchanged (mergeBranch c dryRun n b) merged) : Unchanged ⟨n, b.none, merged.2⟩ := by
  cases n with
  | zero => exact (mergeBranch_zero_yields.mp h).2
  | succ n => exact (mergeBranch_succ_yields.mp h).2

theorem mergeBranch_ref (hconfig : Revision.config n b.latest ≠ Revision.config n b.origin)
    {log : List (Touched δ)} {rev : Revision δ n}
    (hrun : (mergeBranch c false n b).Gives merged log) (hrev : merged.1 = some rev) :
    Revision.ref n rev = Revision.ref n b.latest := by
  have hchanged : ∀ {α : Type} [DecidableEq α] {b : Branches (RevisionOf δ α)},
      b.latest.config ≠ b.origin.config → configChanged b.origin b.latest b.none := by
    intro α _ b hne
    unfold configChanged
    split_ifs with hsame
    · simpa [hsame] using hne.symm
    · rfl
  cases n with
  | zero =>
    obtain ⟨log', hrun, -⟩ := mergeBranch_zero_gives.mp hrun
    rw [(mergeBranchOf_gives (α := Empty) hrun).1] at hrev
    refine (config_of_mergedRevision (α := Empty) hrev).2.trans ?_
    rw [if_pos (hchanged (α := Empty) hconfig)]
    rfl
  | succ n =>
    obtain ⟨log', hrun, -⟩ := mergeBranch_succ_gives.mp hrun
    rw [(mergeBranchOf_gives hrun).1] at hrev
    refine (config_of_mergedRevision hrev).2.trans ?_
    rw [if_pos (hchanged hconfig)]
    rfl

theorem childMerge_ref {r r' : Child (Revision δ n)}
    (hconfig : r.InTransaction fun b => Revision.config n b.latest ≠ Revision.config n b.origin)
    (h : mergedTo (childMerge c false n) r = some r') : r'.ref = r.ref := by
  cases hrun : childMerge c false n r with
  | error e =>
    rw [mergedTo, hrun] at h
    cases h
  | ok o log =>
    rw [mergedTo_of_gives hrun] at h
    subst h
    cases r with
    | plain rev =>
      cases (gives_pure.mp hrun).1
      rfl
    | inTransaction b =>
      obtain ⟨merged, log1, log2, hmerged, hret, -⟩ := gives_bind.mp hrun
      obtain ⟨rev, hrev, rfl⟩ := map_eq_some_iff.mp (gives_pure.mp hret).1.symm
      exact mergeBranch_ref hconfig hmerged hrev

/-- A commit environment whose digests differ from a hash. -/
def freshCommit (schema : Schema δ) (hash : String) : Commit δ :=
  ⟨schema, fun _ => hash ++ "'", fun _ _ => .listed, fun _ _ _ => ⟨.listed, .listed, .listed⟩⟩

omit [DecidableEq δ] in
theorem freshCommit_digest (schema : Schema δ) (hash s : String) :
    (freshCommit schema hash).digest s ≠ hash := by
  intro h
  have hlen := congrArg String.length h
  simp [freshCommit] at hlen

/-- Whatever the digest and the orders of the loops, a branch whose merge leaves all branches as
they are had nothing to apply. -/
theorem quiet_of_unchanged (schema : Schema δ) (n : ℕ) (b : Branches (Revision δ n))
    (hcoherent : Coherent n b)
    (h : ∀ c : Commit δ, c.schema = schema →
      ∃ merged, Yields Unchanged (mergeBranch c false n b) merged) : Quiet schema n b := by
  induction n with
  | zero =>
    obtain ⟨merged, hrun⟩ := h (freshCommit schema (RevisionOf.hash b.none)) rfl
    obtain ⟨hrun, hsame⟩ := mergeBranch_zero_yields.mp hrun
    obtain ⟨hdata, hfields⟩ := quiet_of_same (α := Empty) (freshCommit_digest schema _)
      (fun _ => nofun) (fun _ => nofun) hrun hsame
    exact ⟨hdata, hfields, fun _ _ _ => nofun⟩
  | succ n ih =>
    obtain ⟨hsame, hchildren⟩ := hcoherent
    obtain ⟨merged, hrun⟩ := h (freshCommit schema (RevisionOf.hash b.none)) rfl
    obtain ⟨hrun, hunchanged⟩ := mergeBranch_succ_yields.mp hrun
    obtain ⟨hdata, hfields⟩ := quiet_of_same (freshCommit_digest schema _)
      (fun name r hr r' hr' =>
        childMerge_ref ((hchildren name r (.inl hr)).imp fun _ => And.left) hr')
      hsame hrun hunchanged
    refine ⟨hdata, hfields, fun name type htype x hx => ?_⟩
    have hx' := hchildren name x (mem_of_fieldRevisits hx)
    cases x with
    | plain rev => trivial
    | inTransaction b' =>
      refine ih b' hx'.2 fun c hc => ?_
      subst hc
      obtain ⟨merged, hrun⟩ := h c rfl
      obtain ⟨hrun, -⟩ := mergeBranch_succ_yields.mp hrun
      obtain ⟨o, ho⟩ := fieldMerge_of_yields hrun htype
      obtain ⟨o', ho'⟩ := yields_of_fieldRevisits ho hx
      obtain ⟨merged', hmerged, -⟩ := yields_bind.mp ho'
      exact ⟨merged', hmerged⟩

/-- Whatever the digest and the orders of the loops, a commit returns, deletes the transaction
and leaves the data and the children of all `NONE` branches as they were if and only if the
transaction has nothing to apply: each of its changes is a conflict, or `NONE` has it already. -/
theorem foldTxBranch_leaves_iff (schema : Schema δ) (n : ℕ) (node : Node (Revision δ n))
    (origin latest : Revision δ n) (htx : node.transaction = some (origin, latest))
    (hcoherent : Coherent n ⟨origin, latest, node.none⟩) :
    (∀ c : Commit δ, c.schema = schema → ∃ node',
      Yields Unchanged (foldTxBranch c n node) node' ∧ node'.transaction = none ∧
        Unchanged ⟨n, node.none, node'.none⟩) ↔
    Quiet schema n ⟨origin, latest, node.none⟩ := by
  have hfold : ∀ c : Commit δ, foldTxBranch c n node = (do
      let _ ← mergeBranch c true n ⟨origin, latest, node.none⟩
      let merged ← mergeBranch c false n ⟨origin, latest, node.none⟩
      return { none := merged.2, transaction := none }) := by
    intro c
    rw [foldTxBranch, htx]
  simp only [hfold]
  constructor
  · intro h
    refine quiet_of_unchanged schema n _ hcoherent fun c hc => ?_
    obtain ⟨node', hrun, -⟩ := h c hc
    obtain ⟨_, -, hrest⟩ := yields_bind.mp hrun
    obtain ⟨merged, hmerged, -⟩ := yields_bind.mp hrest
    exact ⟨merged, hmerged⟩
  · intro h c hc
    subst hc
    obtain ⟨_, hdry⟩ := mergeBranch_of_quiet c true n _ h
    obtain ⟨merged, hmerged⟩ := mergeBranch_of_quiet c false n _ h
    exact ⟨_, hdry.bind (hmerged.bind (yields_pure _)), rfl, unchanged_of_mergeBranch hmerged⟩

end Trees

/-! ### A device that both sides have changed -/

/-- A key that the two sides have added, changed or removed differently. -/
def Conflicts {α : Type} (A : Access α) (keyName : String) (fork src dst : List α) (k : String) :
    Prop :=
  Touches A keyName fork src k ∧ Touches A keyName fork dst k ∧
    (childOf A keyName src k).map A.hash ≠ (childOf A keyName dst k).map A.hash

def deviceOrigin : RevisionOf (String × String) Leaf :=
  rootRevision 1 "devices" [.plain (leafRevision 2 "a" "0")]

def deviceNone : RevisionOf (String × String) Leaf :=
  rootRevision 3 "devices" [.plain (leafRevision 4 "a" "1")]

def deviceLatest (others : List Leaf) : RevisionOf (String × String) Leaf :=
  rootRevision 5 "devices" (.inTransaction ⟨leafRevision 2 "a" "0", leafRevision 6 "a" "2",
    leafRevision 4 "a" "1"⟩ :: others)

/-- The conflict on one device does not keep the commit from adding the other. -/
theorem conflicting_commit_adds_device :
    let latest := deviceLatest [.plain (leafRevision 7 "b" "")]
    Conflicts (childAccess rootCommit 0) "id" (listed deviceOrigin "devices")
      (listed latest "devices") (listed deviceNone "devices") "a" ∧
    ∃ node' log, (foldTxBranch rootCommit 1 ⟨deviceNone, some (deviceOrigin, latest)⟩).Gives node'
      log ∧ ¬Unchanged ⟨1, deviceNone, node'.none⟩ := by
  intro latest
  refine ⟨?_, _, _, rfl, fun h => ?_⟩
  · unfold Conflicts Touches
    decide
  · have hdevices := h.2 "devices"
    exact absurd hdevices (by decide)

theorem foldTxBranch_leaves_conflicting_device :
    Coherent 1 ⟨deviceOrigin, deviceLatest [], deviceNone⟩ ∧
    ∀ c : Commit (String × String), c.schema = rootSchema → ∃ node',
      Yields Unchanged (foldTxBranch c 1 ⟨deviceNone, some (deviceOrigin, deviceLatest [])⟩) node' ∧
        node'.transaction = none ∧ Unchanged ⟨1, deviceNone, node'.none⟩ := by
  have hcoherent : Coherent 1 ⟨deviceOrigin, deviceLatest [], deviceNone⟩ := by
    refine ⟨fun name r x hr hx href => ?_, fun name child hchild => ?_⟩
    · obtain rfl := eq_of_mem_rootRevision hr
      obtain rfl := eq_of_mem_rootRevision hx
      exact absurd href (by decide)
    · rcases hchild with hchild | hchild
      · obtain rfl := eq_of_mem_rootRevision hchild
        exact ⟨by decide, trivial⟩
      · obtain rfl := eq_of_mem_rootRevision hchild
        trivial
  refine ⟨hcoherent, (foldTxBranch_leaves_iff rootSchema 1 ⟨deviceNone, _⟩ deviceOrigin
    (deviceLatest []) rfl hcoherent).mpr ⟨fun _ => .inl rfl, ?_, ?_⟩⟩
  · intro name type htype
    rcases lookup_rootSchema htype with ⟨rfl, rfl⟩ | ⟨rfl, rfl⟩
    · refine (if_neg (by decide)).mpr ((if_neg (by decide)).mpr ((if_neg (by decide)).mpr ?_))
      refine ⟨by decide, by decide, by decide, fun k hk => absurd hk not_mem_nil,
        fun k hk => ?_, fun k hk => absurd hk not_mem_nil⟩
      obtain rfl : k = "a" := mem_singleton.mp hk
      refine .inr ⟨by decide, ?_⟩
      rintro x r ⟨⟩ ⟨⟩
      exact .inr (by decide)
    · exact (if_pos rfl).mpr (by decide)
  · intro name type htype x hx
    rcases lookup_rootSchema htype with ⟨rfl, rfl⟩ | ⟨rfl, rfl⟩
    · obtain ⟨-, -, ⟨k, hk, -⟩ | ⟨k, hk, -, hx, hhash⟩⟩ := (if_neg (by decide)).mp hx
      · exact absurd hk not_mem_nil
      · obtain rfl : k = "a" := mem_singleton.mp hk
        cases hx
        exact absurd hhash (by decide)
    · exact absurd ((if_pos rfl).mp hx) not_mem_nil

end VolthaCore.DataModel
