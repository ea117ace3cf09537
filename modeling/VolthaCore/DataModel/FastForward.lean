import Mathlib.Data.List.Dedup
import VolthaCore.DataModel.Fields

/-! Committing a transaction when nothing else has changed. The merge then takes the
data of the transaction and the lists of its keyed fields. Every other list stays the
one of the `NONE` branch, so a change there is lost. The merged revision is also lost
when it has no children at all, or when its hash is the recorded one. -/

namespace VolthaCore.DataModel

open Logged List Option GoMap

variable {δ α ω γ : Type} {name : String} {mergeChild : α → Logged Err ω (Option α)}
  {rev : RevisionOf δ α} {dryRun : Bool}

/-! ### Contents -/

/-- What a revision says: its data and, by name, what the listed children say. -/
structure ContentOf (δ γ : Type) where
  data : δ
  children : String → List (Option γ)

def contentOf {δ α γ : Type} (childContent : α → γ) (rev : RevisionOf δ α) : ContentOf δ γ :=
  ⟨rev.getData, fun name => (entriesOf rev.children name).map (Option.map childContent)⟩

def Content (δ : Type) : ℕ → Type
  | 0 => ContentOf δ Empty
  | n + 1 => ContentOf δ (Content δ n)

def content {δ : Type} : (n : ℕ) → Revision δ n → Content δ n
  | 0, rev => contentOf (α := Empty) id rev
  | n + 1, rev => contentOf (α := Child (Revision δ n)) (fun child => content n child.rev) rev

/-! ### Touched children -/

section Touched

variable (A : Access α) (forkRev srcRev : RevisionOf δ α)

def listed (rev : RevisionOf δ α) (name : String) : List α := (rev.getChildren name).revisions

def touchedKeys (keyName name : String) : List String :=
  let changes := analyse A keyName (listed forkRev name) (listed srcRev name)
  changes.addedKeys ++ changes.changedKeys

/-- The property holds of every child that the transaction has added or changed. -/
def OnTouched (P : α → Prop) (keyName name : String) : Prop :=
  ∀ k ∈ touchedKeys A forkRev srcRev keyName name, ∀ r,
    lastOf A keyName (listed srcRev name) k = some r → P r

variable {A forkRev srcRev} {keyName : String}
  {src : List α} {ks : List String} {β : Type} {f : α → β}

theorem listed_of_notMem (h : none ∉ entriesOf rev.children name) :
    (listed rev name).map some = entriesOf rev.children name :=
  Slice.map_revisions h

theorem listed_of_map {revs : List α} (h : entriesOf rev.children name = revs.map some) :
    listed rev name = revs :=
  Slice.revisions_of_map h

theorem mem_visitedKeys_iff (orders : KeyOrders) {k : String} :
    k ∈ visitedKeys orders (analyse A keyName (listed forkRev name) (listed srcRev name)) ↔
      k ∈ touchedKeys A forkRev srcRev keyName name := by
  simp [visitedKeys, touchedKeys, (orders.added.perm _).mem_iff, (orders.changed.perm _).mem_iff]

theorem mergedAt_congr {ks' : List String} (h : ∀ k, k ∈ ks ↔ k ∈ ks') :
    mergedAt A keyName mergeChild src ks = mergedAt A keyName mergeChild src ks' := by
  simp [mergedAt, h]

theorem getElem?_mergedAt (i : ℕ) :
    (mergedAt A keyName mergeChild src ks)[i]? = src[i]?.map fun r =>
      if i ∈ ks.map (position (keyMap (childKeys A keyName src))) then
        (mergedTo mergeChild r).getD r else r :=
  getElem?_mapIdx

theorem map_mergedAt {g : α → β}
    (h : OnTouched A forkRev srcRev (fun r => f ((mergedTo mergeChild r).getD r) = g r) keyName
      name) :
    (mergedAt A keyName mergeChild (listed srcRev name)
        (touchedKeys A forkRev srcRev keyName name)).map f =
      (listed srcRev name).mapIdx fun i r =>
        if i ∈ (touchedKeys A forkRev srcRev keyName name).map
          (position (keyMap (childKeys A keyName (listed srcRev name)))) then g r else f r := by
  apply ext_getElem?
  intro i
  rw [getElem?_map, getElem?_mergedAt, getElem?_mapIdx]
  cases hr : (listed srcRev name)[i]? with
  | none => rfl
  | some r =>
    rw [map_some, map_some, map_some]
    split_ifs with hi
    · obtain ⟨k, hk, rfl⟩ := List.mem_map.mp hi
      rw [h k hk r hr]
    · rfl

theorem map_mergedAt_eq_iff :
    (mergedAt A keyName mergeChild (listed srcRev name)
        (touchedKeys A forkRev srcRev keyName name)).map f = (listed srcRev name).map f ↔
      OnTouched A forkRev srcRev (fun r => f ((mergedTo mergeChild r).getD r) = f r) keyName
        name := by
  constructor
  · intro h k hk r hr
    have hat := congrArg (·[position (keyMap (childKeys A keyName (listed srcRev name))) k]?) h
    rw [lastOf] at hr
    simp only [getElem?_map, getElem?_mergedAt, hr, map_some, Option.some.injEq,
      if_pos (List.mem_map_of_mem hk)] at hat
    exact hat
  · intro h
    rw [map_mergedAt h]
    apply ext_getElem?
    intro i
    simp

end Touched

/-! ### Fields that are taken from the transaction -/

section Forward

variable [DecidableEq α] (schema : Schema δ) (A : Access α) (forkRev srcRev : RevisionOf δ α)

/-- The key of a keyed field whose list the transaction has changed. -/
def forwardKey (name : String) : Option String :=
  ((schema.childrenFields forkRev.getData).lookup name).bind fun type =>
    if type.key ≠ "" ∧ srcRev.getChildren name ≠ forkRev.getChildren name then some type.key
    else none

def forwardNames : List String :=
  (forkRev.children.keys ++ (schema.childrenFields forkRev.getData).keys.filter fun name =>
    (forwardKey schema forkRev srcRev name).isSome).dedup

/-- No nil entry is met: in lists that have not changed, of which every child is merged, and in
keyed lists that have. -/
def CleanOf (Clean : α → Prop) : Prop :=
  ∀ name ∈ schema.childrenFields forkRev.getData,
    (srcRev.getChildren name = forkRev.getChildren name →
      ∀ e ∈ entriesOf srcRev.children name, ∃ r, e = some r ∧ Clean r) ∧
    ∀ keyName ∈ forwardKey schema forkRev srcRev name,
      none ∉ entriesOf forkRev.children name ∧ none ∉ entriesOf srcRev.children name ∧
        OnTouched A forkRev srcRev Clean keyName name

/-- The merged revision says what the transaction says. -/
def KeepsOf (childContent : α → γ) (Keeps : α → Prop) : Prop :=
  ∀ name, match forwardKey schema forkRev srcRev name with
    | some keyName => OnTouched A forkRev srcRev Keeps keyName name
    | none => (contentOf childContent forkRev).children name =
        (contentOf childContent srcRev).children name

def forwardHashes (hashAfter : α → String) (name : String) : List String :=
  match forwardKey schema forkRev srcRev name with
  | some keyName => (listed srcRev name).mapIdx fun i r =>
      if i ∈ (touchedKeys A forkRev srcRev keyName name).map
        (position (keyMap (childKeys A keyName (listed srcRev name))))
      then hashAfter r else A.hash r
  | none => (entriesOf forkRev.children name).map fun child => (child.map A.hash).getD ""

def forwardHashOf [DecidableEq δ] (digest : String → String) (hashAfter : α → String) : String :=
  digest (srcRev.config.hash ++
    (if configChanged forkRev srcRev forkRev then srcRev.name else forkRev.name) ++
    String.join (((forwardNames schema forkRev srcRev).insertionSort (· ≤ ·)).flatMap
      (forwardHashes schema A forkRev srcRev hashAfter)))

variable {schema A forkRev srcRev} {c : Commit δ} {type : ChildType} {Clean : α → Prop}

/-! ### The merge of a field -/

theorem forwardKey_of_lookup
    (htype : (schema.childrenFields forkRev.getData).lookup name = some type) :
    forwardKey schema forkRev srcRev name =
      if type.key ≠ "" ∧ srcRev.getChildren name ≠ forkRev.getChildren name then some type.key
      else none := by
  rw [forwardKey, htype, bind_some]

theorem fieldMerge_unchanged (hsame : srcRev.getChildren name = forkRev.getChildren name) :
    fieldMerge c A mergeChild dryRun forkRev srcRev forkRev ⟨name, type⟩ = (do
      (entriesOf srcRev.children name).forM fun rev => do
        let _ ← mergeChild (← derefRevision rev)
      return none) :=
  mergeField_alike hsame.symm

theorem fieldMerge_unkeyed (hsame : srcRev.getChildren name ≠ forkRev.getChildren name)
    (hkey : type.key = "") :
    fieldMerge c A mergeChild dryRun forkRev srcRev forkRev ⟨name, type⟩ = return none :=
  mergeField_unkeyed hsame.symm hkey

theorem fieldMerge_keyed (hsame : srcRev.getChildren name ≠ forkRev.getChildren name)
    (hkey : type.key ≠ "") :
    fieldMerge c A mergeChild dryRun forkRev srcRev forkRev ⟨name, type⟩ = (do
      return some (← fastForward A type.key mergeChild (c.keyOrders dryRun srcRev.ref name)
        (entriesOf forkRev.children name) (entriesOf srcRev.children name))) :=
  mergeField_forward hsame.symm hkey rfl

/-- The merge of a field returns exactly when it meets no nil entry. -/
theorem fieldMerge_returns_iff
    (hchild : ∀ r, some r ∈ entriesOf srcRev.children name →
      ((∃ o, Returns (mergeChild r) o) ↔ Clean r))
    (htype : (c.schema.childrenFields forkRev.getData).lookup name = some type) :
    (∃ o, Returns (fieldMerge c A mergeChild dryRun forkRev srcRev forkRev ⟨name, type⟩) o) ↔
      (srcRev.getChildren name = forkRev.getChildren name →
        ∀ e ∈ entriesOf srcRev.children name, ∃ r, e = some r ∧ Clean r) ∧
      ∀ keyName ∈ forwardKey c.schema forkRev srcRev name,
        none ∉ entriesOf forkRev.children name ∧ none ∉ entriesOf srcRev.children name ∧
          OnTouched A forkRev srcRev Clean keyName name := by
  rw [forwardKey_of_lookup htype]
  by_cases hsame : srcRev.getChildren name = forkRev.getChildren name
  · simp only [hsame, ne_eq, not_true_eq_false, and_false, if_false, forall_const]
    rw [fieldMerge_unchanged hsame]
    constructor
    · rintro ⟨o, hrun⟩
      obtain ⟨u, hloop, -⟩ := yields_bind.mp hrun
      refine ⟨fun e he => ?_, by simp⟩
      obtain ⟨r, rfl, ho⟩ := yields_mergeEach.mp (yields_forM.mp hloop e he)
      exact ⟨r, rfl, (hchild r he).mp ho⟩
    · rintro ⟨hclean, -⟩
      refine ⟨none, (yields_forM.mpr fun e he => ?_).bind (yields_pure _)⟩
      obtain ⟨r, rfl, hr⟩ := hclean e he
      exact yields_mergeEach.mpr ⟨r, rfl, (hchild r he).mpr hr⟩
  · by_cases hkey : type.key = ""
    · simp only [hsame, hkey, ne_eq, not_true_eq_false, false_and, if_false, false_imp_iff]
      rw [fieldMerge_unkeyed hsame hkey]
      exact iff_of_true ⟨none, yields_pure _⟩ ⟨trivial, by simp⟩
    · simp only [hsame, hkey, ne_eq, not_false_eq_true, and_true, if_true, false_imp_iff,
        mem_def, Option.some.injEq, forall_eq', true_and]
      rw [fieldMerge_keyed hsame hkey]
      constructor
      · rintro ⟨o, log, hrun, -⟩
        obtain ⟨l, log1, log2, hl, -, -⟩ := gives_bind.mp hrun
        obtain ⟨fork, src, hfork, hsrc, -, hvisited⟩ := fastForward_gives hl
        refine ⟨by simp [hfork], by simp [hsrc], fun k hk r hr => ?_⟩
        rw [← mem_visitedKeys_iff (c.keyOrders dryRun srcRev.ref name), listed_of_map hfork,
          listed_of_map hsrc] at hk
        rw [listed_of_map hsrc] at hr
        obtain ⟨o', log', ho', -⟩ := hvisited k hk r hr
        refine (hchild r ?_).mp ⟨o', ho'.returns⟩
        rw [hsrc]
        exact List.mem_map_of_mem (mem_of_getElem? hr)
      · rintro ⟨hfork, hsrc, htouched⟩
        rw [← listed_of_notMem hfork, ← listed_of_notMem hsrc]
        refine ⟨_, (yields_fastForward _ fun k hk r hr => ?_).passOn some⟩
        refine (hchild r ?_).mpr (htouched k ((mem_visitedKeys_iff _).mp hk) r hr)
        rw [← listed_of_notMem hsrc]
        exact List.mem_map_of_mem (mem_of_getElem? hr)

/-- A merged field writes the list of the transaction with its touched children merged. -/
theorem fieldWrite_forward
    (htype : (c.schema.childrenFields forkRev.getData).lookup name = some type)
    {o : Option (List (Option α))} {log : List ω}
    (hrun : (fieldMerge c A mergeChild false forkRev srcRev forkRev ⟨name, type⟩).Gives o log) :
    fieldWrite c A mergeChild false forkRev srcRev forkRev ⟨name, type⟩ =
      (forwardKey c.schema forkRev srcRev name).map fun keyName =>
        (mergedAt A keyName mergeChild (listed srcRev name)
          (touchedKeys A forkRev srcRev keyName name)).map some := by
  rw [fieldWrite_of_gives hrun, forwardKey_of_lookup htype]
  by_cases hsame : srcRev.getChildren name = forkRev.getChildren name
  · rw [fieldMerge_unchanged hsame] at hrun
    obtain ⟨u, log1, log2, -, hret, -⟩ := gives_bind.mp hrun
    simp [hsame, (gives_pure.mp hret).1]
  · by_cases hkey : type.key = ""
    · rw [fieldMerge_unkeyed hsame hkey] at hrun
      simp [hkey, (gives_pure.mp hrun).1]
    · rw [fieldMerge_keyed hsame hkey] at hrun
      obtain ⟨l, log1, log2, hl, hret, -⟩ := gives_bind.mp hrun
      obtain ⟨fork, src, hfork, hsrc, hlist, -⟩ := fastForward_gives hl
      rw [(gives_pure.mp hret).1, if_neg (by simp), if_pos ⟨hkey, hsame⟩, map_some, hlist,
        ← listed_of_map hfork, ← listed_of_map hsrc, mergedAt_congr fun k => mem_visitedKeys_iff _]

/-- The merged revision does not become the latest one: it has no children, or it is another
object with the recorded hash. -/
def SkippedOf [DecidableEq δ] (schema : Schema δ) (forkRev srcRev : RevisionOf δ α)
    (hash : String) : Prop :=
  ¬forwardNames schema forkRev srcRev ≠ [] ∨ configChanged forkRev srcRev forkRev ∧
    srcRev.ref ≠ forkRev.ref ∧ hash = forkRev.hash

end Forward

/-! ### The merge of a branch -/

section Branch

variable [DecidableEq δ] [DecidableEq α] {c : Commit δ} {A : Access α}
  {b : Branches (RevisionOf δ α)} {Clean : α → Prop}

theorem mergeBranchOf_returns_iff (hfork : b.none = b.origin)
    (hchild : ∀ name r, some r ∈ entriesOf b.latest.children name →
      ((∃ o, Returns (mergeChild r) o) ↔ Clean r)) :
    (∃ merged, Returns (mergeBranchOf c A mergeChild dryRun b) merged) ↔
      CleanOf c.schema A b.origin b.latest Clean := by
  constructor
  · rintro ⟨merged, log, hrun, -⟩ name hname
    obtain ⟨type, htype⟩ := mem_iff_exists_lookup.mp hname
    obtain ⟨-, hfields⟩ := mergeBranchOf_gives hrun
    obtain ⟨o, log', ho, -⟩ := hfields ⟨name, type⟩ (mem_visitedFields.mpr htype)
    rw [hfork] at ho
    exact (fieldMerge_returns_iff (hchild name) htype).mp ⟨o, ho.returns⟩
  · intro hclean
    refine ⟨_, yields_mergeBranchOf fun field hfield => ?_⟩
    have htype := mem_visitedFields.mp hfield
    rw [hfork]
    exact (fieldMerge_returns_iff (hchild field.1) htype).mpr
      (hclean field.1 (mem_iff_exists_lookup.mpr ⟨_, htype⟩))

def forwardEntries (c : Commit δ) (A : Access α) (mergeChild : α → Logged Err ω (Option α))
    (b : Branches (RevisionOf δ α)) (name : String) : List (Option α) :=
  match forwardKey c.schema b.origin b.latest name with
  | some keyName => (mergedAt A keyName mergeChild (listed b.latest name)
      (touchedKeys A b.origin b.latest keyName name)).map some
  | none => entriesOf b.origin.children name

section Run

variable {merged : Option (RevisionOf δ α) × RevisionOf δ α} {log : List ω}
  (hfork : b.none = b.origin) (hrun : (mergeBranchOf c A mergeChild false b).Gives merged log)
include hfork hrun

theorem written_forward (name : String) :
    written c A mergeChild false b.origin b.latest b.none name =
    (forwardKey c.schema b.origin b.latest name).map fun keyName =>
      (mergedAt A keyName mergeChild (listed b.latest name)
        (touchedKeys A b.origin b.latest keyName name)).map some := by
  unfold written
  cases htype : (c.schema.childrenFields b.origin.getData).lookup name with
  | none => simp [forwardKey, htype]
  | some type =>
    obtain ⟨o, log', ho, -⟩ :=
      (mergeBranchOf_gives hrun).2 ⟨name, type⟩ (mem_visitedFields.mpr htype)
    rw [hfork] at ho ⊢
    exact fieldWrite_forward htype ho

theorem entriesOf_branchChildren (name : String) :
    entriesOf (branchChildren c A mergeChild false b) name =
      forwardEntries c A mergeChild b name := by
  rw [branchChildren, entriesOf_childrenAfter, mergedEntries, written_forward hfork hrun,
    forwardEntries, hfork]
  cases forwardKey c.schema b.origin b.latest name <;> rfl

theorem mem_branchChildren :
    name ∈ branchChildren c A mergeChild false b ↔
      name ∈ forwardNames c.schema b.origin b.latest := by
  rw [branchChildren, mem_childrenAfter, Writes, written_forward hfork hrun, hfork,
    isSome_map, forwardNames, mem_dedup, mem_append, mem_filter, or_comm]
  refine or_congr_right ⟨fun h => ⟨?_, h⟩, And.right⟩
  obtain ⟨keyName, hkey⟩ := isSome_iff_exists.mp h
  obtain ⟨type, htype, -⟩ := bind_eq_some_iff.mp hkey
  exact mem_iff_exists_lookup.mpr ⟨type, htype⟩

theorem forward_isSome : merged.1.isSome ↔ forwardNames c.schema b.origin b.latest ≠ [] := by
  obtain ⟨rfl, -⟩ := mergeBranchOf_gives hrun
  have hkeys : (branchChildren c A mergeChild false b).keys ≠ [] ↔
      forwardNames c.schema b.origin b.latest ≠ [] := by
    simp only [ne_eq, eq_nil_iff_forall_not_mem, ← AList.mem_keys, mem_branchChildren hfork hrun]
  rw [← hkeys, isSome_mergedRevision]
  exact and_iff_right rfl

variable (hrev : merged.1 = some rev)
include hrev

theorem forward_rev : rev = { updateAllChildren c.digest A.hash
    (if configChanged b.origin b.latest b.origin then b.latest else b.origin)
    (branchChildren c A mergeChild false b) with name := b.origin.name } := by
  obtain ⟨rfl, -⟩ := mergeBranchOf_gives hrun
  have heq := eq_of_mergedRevision hrev
  rw [hfork] at heq
  exact heq

theorem forward_entries (name : String) :
    entriesOf rev.children name = forwardEntries c A mergeChild b name := by
  rw [forward_rev hfork hrun hrev, ← entriesOf_branchChildren hfork hrun]
  exact entriesOf_appendChildren _ name

theorem forward_config : rev.config = b.latest.config := by
  rw [forward_rev hfork hrun hrev]
  change RevisionOf.config (if configChanged b.origin b.latest b.origin then _ else _) = _
  split_ifs with hchanged
  · rfl
  · simpa [configChanged] using hchanged

theorem forward_ref :
    rev.ref = if configChanged b.origin b.latest b.origin then b.latest.ref else b.origin.ref := by
  rw [forward_rev hfork hrun hrev]
  exact apply_ite RevisionOf.ref _ _ _

theorem forward_hash {hashAfter : α → String}
    (hafter : ∀ name, ∀ keyName ∈ forwardKey c.schema b.origin b.latest name,
      OnTouched A b.origin b.latest
        (fun r => A.hash ((mergedTo mergeChild r).getD r) = hashAfter r) keyName name) :
    rev.hash = forwardHashOf c.schema A b.origin b.latest c.digest hashAfter := by
  have hnames :
      (appendChildren (branchChildren c A mergeChild false b)).keys.insertionSort (· ≤ ·) =
        (forwardNames c.schema b.origin b.latest).insertionSort (· ≤ ·) :=
    sortedNames_eq (AList.keys_nodup _) (nodup_dedup _) fun name =>
      mem_appendChildren.trans (mem_branchChildren hfork hrun)
  have hhashes : ∀ name, (entriesOf (appendChildren (branchChildren c A mergeChild false b))
      name).map (fun child => (child.map A.hash).getD "") =
        forwardHashes c.schema A b.origin b.latest hashAfter name := by
    intro name
    rw [entriesOf_appendChildren, entriesOf_branchChildren hfork hrun, forwardEntries,
      forwardHashes]
    cases hkey : forwardKey c.schema b.origin b.latest name with
    | none => rfl
    | some keyName =>
      simpa [Function.comp_def] using map_mergedAt (hafter name keyName hkey)
  have hconfig := forward_config hfork hrun hrev
  rw [forward_rev hfork hrun hrev] at hconfig ⊢
  change RevisionOf.config (if configChanged b.origin b.latest b.origin then _ else _) = _
    at hconfig
  change c.digest (_ ++ RevisionOf.name (if configChanged b.origin b.latest b.origin then _
    else _) ++ _) = _
  simp only [RevisionOf.entries_getChildren, hnames, hhashes, hconfig, forwardHashOf]
  rw [apply_ite RevisionOf.name]

omit hrev in
theorem forward_latest {hash : String} (hhash : ∀ rev, merged.1 = some rev → rev.hash = hash) :
    SkippedOf c.schema b.origin b.latest hash ∧ merged.2 = b.origin ∨
      ¬SkippedOf c.schema b.origin b.latest hash ∧ merged.1 = some merged.2 := by
  have hlatest : merged.2 = merged.1.elim b.origin (makeLatest b.origin) := by
    obtain ⟨rfl, -⟩ := mergeBranchOf_gives hrun
    rw [latestAfter, hfork]
  have hsome := forward_isSome hfork hrun
  rw [hlatest]
  cases hrev : merged.1 with
  | none =>
    have hno : ¬forwardNames c.schema b.origin b.latest ≠ [] := by simpa [hrev] using hsome
    exact .inl ⟨.inl hno, rfl⟩
  | some rev =>
    have hne : forwardNames c.schema b.origin b.latest ≠ [] := hsome.mp (by rw [hrev]; rfl)
    have href := forward_ref hfork hrun hrev
    rw [← hhash rev hrev]
    change _ ∧ makeLatest b.origin rev = b.origin ∨ _ ∧ some rev = some (makeLatest b.origin rev)
    unfold makeLatest
    split_ifs with hmoves
    · refine .inr ⟨?_, rfl⟩
      rintro (hno | ⟨hconfig, hother, hsame⟩)
      · exact hno hne
      · rw [href, if_pos hconfig] at hmoves
        exact hmoves.elim hother fun h => h hsame
    · rw [not_or, not_not] at hmoves
      refine .inl ⟨.inr ?_, rfl⟩
      by_cases hconfig : configChanged b.origin b.latest b.origin
      · rw [href, if_pos hconfig] at hmoves
        exact ⟨hconfig, hmoves⟩
      · rw [href, if_neg hconfig] at hmoves
        exact absurd rfl hmoves.1

omit hrev in
theorem forward_touched {keyName : String}
    (hkey : keyName ∈ forwardKey c.schema b.origin b.latest name) :
    OnTouched A b.origin b.latest (fun r => some r ∈ entriesOf b.latest.children name ∧
      ∃ o log', (mergeChild r).Gives o log') keyName name := by
  have hclean : CleanOf c.schema A b.origin b.latest fun r => ∃ o, Returns (mergeChild r) o :=
    (mergeBranchOf_returns_iff hfork fun _ _ _ => Iff.rfl).mp ⟨merged, hrun.returns⟩
  obtain ⟨type, htype, -⟩ := bind_eq_some_iff.mp hkey
  obtain ⟨-, hsrc, htouched⟩ :=
    (hclean name (mem_iff_exists_lookup.mpr ⟨type, htype⟩)).2 keyName hkey
  intro k hk r hr
  obtain ⟨o, log', ho, -⟩ := htouched k hk r hr
  refine ⟨?_, o, log', ho⟩
  rw [← listed_of_notMem hsrc]
  exact List.mem_map_of_mem (mem_of_getElem? hr)

theorem forward_content_iff {childContent : α → γ} {Keeps : α → Prop}
    (hkeep : ∀ name, ∀ keyName ∈ forwardKey c.schema b.origin b.latest name,
      OnTouched A b.origin b.latest (fun r =>
        childContent ((mergedTo mergeChild r).getD r) = childContent r ↔ Keeps r) keyName name) :
    contentOf childContent rev = contentOf childContent b.latest ↔
      KeepsOf c.schema A b.origin b.latest childContent Keeps := by
  have hclean : CleanOf c.schema A b.origin b.latest fun r => ∃ o, Returns (mergeChild r) o :=
    (mergeBranchOf_returns_iff hfork fun _ _ _ => Iff.rfl).mp ⟨merged, hrun.returns⟩
  have hdata : rev.getData = b.latest.getData :=
    congrArg DataRevision.data (forward_config hfork hrun hrev)
  rw [contentOf, contentOf, ContentOf.mk.injEq, hdata, eq_self, true_and, funext_iff, KeepsOf]
  refine forall_congr' fun name => ?_
  rw [forward_entries hfork hrun hrev, forwardEntries]
  cases hkey : forwardKey c.schema b.origin b.latest name with
  | none => exact Iff.rfl
  | some keyName =>
    obtain ⟨type, htype, -⟩ := bind_eq_some_iff.mp hkey
    obtain ⟨-, hsrc, -⟩ := (hclean name (mem_iff_exists_lookup.mpr ⟨type, htype⟩)).2 keyName
      hkey
    rw [← listed_of_notMem hsrc, map_entries_inj, map_mergedAt_eq_iff]
    exact forall₄_congr fun k hk r hr => hkeep name keyName hkey k hk r hr

end Run

end Branch

/-! ### Trees -/

section Trees

variable [DecidableEq δ] (c : Commit δ)

/-- The property holds of the branches of the child if it is in the transaction. -/
def Child.InTransaction {ρ : Type} (P : Branches ρ → Prop) : Child ρ → Prop
  | .plain _ => True
  | .inTransaction branches => P branches

omit [DecidableEq δ] in
theorem Child.InTransaction.imp {ρ : Type} {P P' : Branches ρ → Prop} {child : Child ρ}
    (h : child.InTransaction P) (himp : ∀ b, P b → P' b) : child.InTransaction P' := by
  cases child with
  | plain rev => trivial
  | inTransaction b => exact himp b h

/-- The `NONE` branches of the node, and of the nodes below it that are in the transaction, are
where the transaction started. -/
def Unmoved : (n : ℕ) → Branches (Revision δ n) → Prop
  | 0, b => b.none = b.origin
  | n + 1, b => b.none = b.origin ∧ ∀ name child,
      some child ∈ entriesOf (α := Child (Revision δ n)) (RevisionOf.children b.latest) name →
        child.InTransaction (Unmoved n)

/-- The merge makes a revision with children. -/
def Commits : (n : ℕ) → Branches (Revision δ n) → Prop
  | 0, b => forwardNames (α := Empty) c.schema b.origin b.latest ≠ []
  | n + 1, b => forwardNames (α := Child (Revision δ n)) c.schema b.origin b.latest ≠ []

instance : (n : ℕ) → (b : Branches (Revision δ n)) → Decidable (Commits c n b)
  | 0, _ => instDecidableNot
  | _ + 1, _ => instDecidableNot

def Clean : (n : ℕ) → Branches (Revision δ n) → Prop
  | 0, b => CleanOf (α := Empty) c.schema leafAccess b.origin b.latest
      fun _ => True
  | n + 1, b => CleanOf (α := Child (Revision δ n)) c.schema (childAccess c n) b.origin b.latest
      (Child.InTransaction (Clean n))

def Keeps : (n : ℕ) → Branches (Revision δ n) → Prop
  | 0, b => KeepsOf (α := Empty) c.schema leafAccess b.origin b.latest id
      fun _ => True
  | n + 1, b => KeepsOf (α := Child (Revision δ n)) c.schema (childAccess c n) b.origin b.latest
      (fun child => content n child.rev)
      (Child.InTransaction fun b' => Commits c n b' → Keeps n b')

def forwardHash : (n : ℕ) → Branches (Revision δ n) → String
  | 0, b => forwardHashOf (α := Empty) c.schema leafAccess b.origin b.latest c.digest nofun
  | n + 1, b => forwardHashOf (α := Child (Revision δ n)) c.schema (childAccess c n) b.origin
      b.latest c.digest fun child =>
        match child with
        | .inTransaction b' =>
          if Commits c n b' then forwardHash n b' else (childAccess c n).hash child
        | .plain _ => (childAccess c n).hash child

def hashAfter (n : ℕ) (child : Child (Revision δ n)) : String :=
  match child with
  | .inTransaction b => if Commits c n b then forwardHash c n b else (childAccess c n).hash child
  | .plain _ => (childAccess c n).hash child

def Skipped : (n : ℕ) → Branches (Revision δ n) → Prop
  | 0, b => SkippedOf (α := Empty) c.schema b.origin b.latest (forwardHash c 0 b)
  | n + 1, b => SkippedOf (α := Child (Revision δ n)) c.schema b.origin b.latest
      (forwardHash c (n + 1) b)

variable {c} {n : ℕ} {log : List (Touched δ)} {child : Child (Revision δ n)}

theorem childMerge_returns_iff {dryRun : Bool} (ih : ∀ b, Unmoved n b →
      ((∃ merged, Returns (mergeBranch c dryRun n b) merged) ↔ Clean c n b))
    (hchild : child.InTransaction (Unmoved n)) :
    (∃ o, Returns (childMerge c dryRun n child) o) ↔ child.InTransaction (Clean c n) := by
  cases child with
  | plain rev => exact iff_of_true ⟨_, yields_pure _⟩ trivial
  | inTransaction b =>
    refine Iff.trans ?_ (ih b hchild)
    constructor
    · rintro ⟨o, log, hrun, -⟩
      obtain ⟨merged, log1, log2, hmerged, -, -⟩ := gives_bind.mp hrun
      exact ⟨merged, hmerged.returns⟩
    · rintro ⟨merged, hmerged⟩
      exact ⟨_, hmerged.passOn fun merged => merged.1.map Child.plain⟩

/-- The merge of a branch, and its dry run, return exactly when they meet no nil entry. -/
theorem mergeBranch_returns_iff (dryRun : Bool) (n : ℕ) (b : Branches (Revision δ n))
    (h : Unmoved n b) : (∃ merged, Returns (mergeBranch c dryRun n b) merged) ↔ Clean c n b := by
  induction n with
  | zero =>
    simp only [mergeBranch_zero_yields, and_true]
    exact mergeBranchOf_returns_iff (α := Empty) h nofun
  | succ n ih =>
    simp only [mergeBranch_succ_yields, and_true]
    exact mergeBranchOf_returns_iff h.1 fun name child hchild =>
      childMerge_returns_iff ih (h.2 name child hchild)

/-- What the merge of a branch makes of it. -/
def Forwarded (c : Commit δ) (n : ℕ) (b : Branches (Revision δ n))
    (merged : Option (Revision δ n)) : Prop :=
  (merged.isSome ↔ Commits c n b) ∧ ∀ rev, merged = some rev →
    (Revision.access c.schema n).hash rev = forwardHash c n b ∧
      (content n rev = content n b.latest ↔ Keeps c n b)

theorem childMerge_forward
    (ih : ∀ b, Unmoved n b → ∀ merged log, (mergeBranch c false n b).Gives merged log →
      Forwarded c n b merged.1) (hchild : child.InTransaction (Unmoved n))
    {o : Option (Child (Revision δ n))} (hrun : (childMerge c false n child).Gives o log) :
    (childAccess c n).hash (o.getD child) = hashAfter c n child ∧
      (content n (o.getD child).rev = content n child.rev ↔
        child.InTransaction fun b => Commits c n b → Keeps c n b) := by
  cases child with
  | plain rev =>
    rw [(gives_pure.mp hrun).1]
    exact ⟨rfl, iff_of_true rfl trivial⟩
  | inTransaction b =>
    obtain ⟨merged, log1, log2, hmerged, hret, -⟩ := gives_bind.mp hrun
    obtain ⟨hcommits, hrev⟩ := ih b hchild merged log1 hmerged
    rw [(gives_pure.mp hret).1]
    cases hm : merged.1 with
    | none =>
      have hno : ¬Commits c n b := by simpa [hm] using hcommits
      refine ⟨(if_neg hno).symm, iff_of_true rfl fun h => absurd h hno⟩
    | some rev =>
      have hyes : Commits c n b := by simpa [hm] using hcommits
      obtain ⟨hhash, hcontent⟩ := hrev rev hm
      exact ⟨hhash.trans (if_pos hyes).symm, hcontent.trans ⟨fun h _ => h, fun h => h hyes⟩⟩

theorem mergeBranch_forward (n : ℕ) (b : Branches (Revision δ n)) (h : Unmoved n b)
    (merged : Option (Revision δ n) × Revision δ n) (log : List (Touched δ))
    (hrun : (mergeBranch c false n b).Gives merged log) : Forwarded c n b merged.1 := by
  induction n generalizing log with
  | zero =>
    obtain ⟨log', hrun, -⟩ := mergeBranch_zero_gives.mp hrun
    refine ⟨forward_isSome (α := Empty) h hrun, fun rev hrev => ⟨?_, ?_⟩⟩
    · exact forward_hash (α := Empty) h hrun hrev fun _ _ _ _ _ => nofun
    · exact forward_content_iff (α := Empty) h hrun hrev fun _ _ _ _ _ => nofun
  | succ n ih =>
    obtain ⟨log', hrun, -⟩ := mergeBranch_succ_gives.mp hrun
    refine ⟨forward_isSome h.1 hrun, fun rev hrev => ⟨?_, ?_⟩⟩
    · refine forward_hash h.1 hrun hrev fun name keyName hkey k hk r hr => ?_
      obtain ⟨hmem, o, log'', ho⟩ := forward_touched h.1 hrun hkey k hk r hr
      rw [mergedTo_of_gives ho]
      exact (childMerge_forward ih (h.2 name r hmem) ho).1
    · refine forward_content_iff h.1 hrun hrev fun name keyName hkey k hk r hr => ?_
      obtain ⟨hmem, o, log'', ho⟩ := forward_touched h.1 hrun hkey k hk r hr
      rw [mergedTo_of_gives ho]
      exact (childMerge_forward ih (h.2 name r hmem) ho).2

theorem mergeBranch_latest {b : Branches (Revision δ n)} (h : Unmoved n b)
    {merged : Option (Revision δ n) × Revision δ n}
    (hrun : (mergeBranch c false n b).Gives merged log) :
    Skipped c n b ∧ merged.2 = b.origin ∨ ¬Skipped c n b ∧ merged.1 = some merged.2 := by
  have hhash := fun rev hrev => ((mergeBranch_forward n b h merged log hrun).2 rev hrev).1
  cases n with
  | zero =>
    obtain ⟨log', hrun, -⟩ := mergeBranch_zero_gives.mp hrun
    exact forward_latest (α := Empty) h hrun hhash
  | succ n =>
    obtain ⟨log', hrun, -⟩ := mergeBranch_succ_gives.mp hrun
    exact forward_latest h.1 hrun hhash

/-- When nothing else has changed, a commit puts what the transaction says on the `NONE` branch
if and only if it meets no nil entry and its merged revision, if it becomes the latest one, keeps
all lists of the transaction. -/
theorem foldTxBranch_fast_forward_iff (c : Commit δ) (n : ℕ) (node : Node (Revision δ n))
    (origin latest : Revision δ n) (htx : node.transaction = some (origin, latest))
    (h : Unmoved n ⟨origin, latest, node.none⟩) :
    (∃ node', Returns (foldTxBranch c n node) node' ∧ node'.transaction = none ∧
      content n node'.none = content n latest) ↔
    Clean c n ⟨origin, latest, node.none⟩ ∧
      (Skipped c n ⟨origin, latest, node.none⟩ → content n origin = content n latest) ∧
      (¬Skipped c n ⟨origin, latest, node.none⟩ → Keeps c n ⟨origin, latest, node.none⟩) := by
  have hfold : foldTxBranch c n node = (do
      let _ ← mergeBranch c true n ⟨origin, latest, node.none⟩
      let merged ← mergeBranch c false n ⟨origin, latest, node.none⟩
      return { none := merged.2, transaction := none }) := by
    rw [foldTxBranch, htx]
  have hlatest : ∀ merged log,
      (mergeBranch c false n ⟨origin, latest, node.none⟩).Gives merged log →
      (content n merged.2 = content n latest ↔
        (Skipped c n ⟨origin, latest, node.none⟩ → content n origin = content n latest) ∧
        (¬Skipped c n ⟨origin, latest, node.none⟩ → Keeps c n ⟨origin, latest, node.none⟩)) := by
    intro merged log hrun
    rcases mergeBranch_latest h hrun with ⟨hskip, heq⟩ | ⟨hskip, heq⟩
    · simp [hskip, heq]
    · simp [hskip, ((mergeBranch_forward n _ h merged log hrun).2 _ heq).2]
  rw [hfold]
  constructor
  · rintro ⟨node', ⟨log, hrun, -⟩, -, hcontent⟩
    obtain ⟨_, log1, log2, -, hrest, -⟩ := gives_bind.mp hrun
    obtain ⟨merged, log3, log4, hmerged, hret, -⟩ := gives_bind.mp hrest
    rw [(gives_pure.mp hret).1] at hcontent
    exact ⟨(mergeBranch_returns_iff false n _ h).mp ⟨merged, hmerged.returns⟩,
      (hlatest merged log3 hmerged).mp hcontent⟩
  · rintro ⟨hclean, hcontent⟩
    obtain ⟨_, hdry⟩ := (mergeBranch_returns_iff true n _ h).mpr hclean
    obtain ⟨merged, hmerged⟩ := (mergeBranch_returns_iff false n _ h).mpr hclean
    refine ⟨_, hdry.bind (hmerged.bind (yields_pure _)), rfl, ?_⟩
    obtain ⟨log, hmerged, -⟩ := hmerged
    exact (hlatest merged log hmerged).mpr hcontent

end Trees

/-! ### A root with a keyed list and a single child -/

/-- Data with a key and a value. A root has a list with a key and a field with one child; other
nodes have none. -/
def rootSchema : Schema (String × String) where
  childrenFields data :=
    if data.1 = "root" then (∅ : GoMap String ChildType).insert "config" ⟨false, ""⟩ |>.insert
      "devices" ⟨true, "id"⟩ else ∅
  attributeValue _ data := data.1

def rootCommit : Commit (String × String) :=
  ⟨rootSchema, id, fun _ _ => .listed, fun _ _ _ => ⟨.listed, .listed, .listed⟩⟩

def leafRevision (ref : ℕ) (key value : String) : Revision (String × String) 0 :=
  (⟨ref, ⟨ref, (key, value), key ++ value⟩, "", key ++ value, ∅⟩ :
    RevisionOf (String × String) Empty)

abbrev Leaf := Child (Revision (String × String) 0)

def rootRevision (ref : ℕ) (name : String) (children : List Leaf) :
    RevisionOf (String × String) Leaf :=
  ⟨ref, ⟨ref, ("root", ""), "root"⟩, "",
    "root" ++ String.join (children.map (childAccess rootCommit 0).hash),
    (∅ : GoMap String _).insert name (some (children.map some))⟩

theorem entriesOf_rootRevision (ref : ℕ) (name name' : String)
    (children : List Leaf) :
    entriesOf (rootRevision ref name children).children name' =
      if name' = name then children.map some else [] := by
  unfold entriesOf rootRevision
  dsimp only
  rw [lookup_insert_eq]
  split_ifs <;> rfl

theorem eq_of_mem_rootRevision {ref : ℕ} {name name' : String} {leaf child : Leaf}
    (h : some child ∈ entriesOf (rootRevision ref name [leaf]).children name') : child = leaf := by
  rw [entriesOf_rootRevision] at h
  split_ifs at h
  · simpa using h
  · cases h

theorem lookup_rootSchema {name : String} {type : ChildType}
    (h : (rootSchema.childrenFields ("root", "")).lookup name = some type) :
    name = "devices" ∧ type = ⟨true, "id"⟩ ∨ name = "config" ∧ type = ⟨false, ""⟩ := by
  simp only [rootSchema, if_true, lookup_insert_eq] at h
  split_ifs at h with hdevices hconfig
  · exact .inl ⟨hdevices, (Option.some.inj h).symm⟩
  · exact .inr ⟨hconfig, (Option.some.inj h).symm⟩
  · simp at h

/-- The transaction has updated the single child: the commit does not. -/
theorem single_child_update_is_dropped :
    let old := leafRevision 2 "config" "old"
    let origin := rootRevision 1 "config" [.plain old]
    let latest := rootRevision 3 "config" [.inTransaction ⟨old, leafRevision 4 "config" "new", old⟩]
    Unmoved 1 ⟨origin, latest, origin⟩ ∧ ∃ node' log,
      (foldTxBranch rootCommit 1 ⟨origin, some (origin, latest)⟩).Gives node' log ∧
        content 1 node'.none ≠ content 1 latest := by
  intro old origin latest
  refine ⟨⟨rfl, fun name child hchild => ?_⟩, _, _, rfl, fun h => ?_⟩
  · rw [eq_of_mem_rootRevision hchild]
    rfl
  · have hchild := congrArg (fun content => (content.children "config").map
      (Option.map ContentOf.data)) h
    exact absurd hchild (by decide)

/-- A device that the transaction has added is there after the commit. -/
theorem foldTxBranch_fast_forward_added_device :
    let origin := rootRevision 1 "devices" []
    let latest := rootRevision 2 "devices" [.plain (leafRevision 3 "olt" "")]
    ∃ node', Returns (foldTxBranch rootCommit 1 ⟨origin, some (origin, latest)⟩) node' ∧
      node'.transaction = none ∧ content 1 node'.none = content 1 latest := by
  intro origin latest
  have htouched : ∀ {P : Leaf → Prop} {keyName name : String},
      P (.plain (leafRevision 3 "olt" "")) →
      OnTouched (childAccess rootCommit 0) origin latest P keyName name := by
    intro P keyName name hP k _ r hr
    have hmem := mem_of_getElem? hr
    obtain ⟨e, he, rfl⟩ := mem_filterMap.mp hmem
    rwa [eq_of_mem_rootRevision he]
  have hkey : ∀ name, name ≠ "devices" → forwardKey rootSchema origin latest name = none := by
    intro name hname
    change ((rootSchema.childrenFields ("root", "")).lookup name).bind _ = none
    cases htype : (rootSchema.childrenFields ("root", "")).lookup name with
    | none => rfl
    | some type =>
      obtain ⟨-, rfl⟩ := (lookup_rootSchema htype).resolve_left fun h => hname h.1
      rfl
  have hunmoved : Unmoved 1 ⟨origin, latest, origin⟩ := by
    refine ⟨rfl, fun name child hchild => ?_⟩
    rw [eq_of_mem_rootRevision hchild]
    trivial
  have hkeeps : KeepsOf rootSchema (childAccess rootCommit 0) origin latest
      (fun child => content 0 child.rev)
      (Child.InTransaction fun b => Commits rootCommit 0 b → Keeps rootCommit 0 b) := by
    intro name
    by_cases hname : name = "devices"
    · subst hname
      exact htouched trivial
    · rw [hkey name hname]
      simp only [contentOf, origin, latest, entriesOf_rootRevision, if_neg hname]
  refine (foldTxBranch_fast_forward_iff rootCommit 1 ⟨origin, some (origin, latest)⟩ origin latest
    rfl hunmoved).mpr
      ⟨fun name _ => ⟨fun hsame e he => ?_, fun keyName hk => ?_⟩, ?_, fun _ => hkeeps⟩
  · by_cases hname : name = "devices"
    · subst hname
      exact absurd hsame (by decide)
    · rw [entriesOf_rootRevision, if_neg hname] at he
      cases he
  · by_cases hname : name = "devices"
    · subst hname
      exact ⟨by decide, by decide, htouched trivial⟩
    · have hnone := (hkey name hname).symm.trans hk
      cases hnone
  · rintro (hno | ⟨-, -, hhash⟩)
    · exact absurd (by decide) hno
    · exact absurd hhash (by decide)

end VolthaCore.DataModel
