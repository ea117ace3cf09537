import Mathlib.Data.List.Sort
import VolthaCore.Errors
import VolthaCore.Lib.GoMap
import VolthaCore.Lib.Logged

/-! The merge of a transaction branch into the data model (`merge.go` and the
branches of `node.go`). A node of the data model has a revision, with its data and
with lists of child revisions by field. A commit merges three revisions of a node:
the one at which the transaction started, the latest one of the transaction and
the latest one of the `NONE` branch. The lists of a field are merged by key; where
a child has revisions of its own in the transaction, the merge goes down to it.

Go compares revisions and configurations by address. Here each has a number of its
own, so that two values are equal only when they are the same object. -/

namespace VolthaCore.DataModel

variable {α ω δ : Type}

/-! ### Lists of revisions -/

/-- A slice of revisions: it may be nil, and so may its entries. -/
abbrev Slice (α : Type) := Option (List (Option α))

def Slice.entries {α : Type} (s : Slice α) : List (Option α) := s.getD []

/-- A field of a message that holds children: a list, possibly with a key, or one child. -/
structure ChildType where
  isContainer : Bool
  key : String
  deriving DecidableEq

/-- What a merge reads of a revision. -/
structure Access (α : Type) where
  key : String → α → String
  hash : α → String
  configHash : α → String

def derefRevision {α ω : Type} : Option α → Logged Err ω α
  | some rev => return rev
  | none => throw (.crash "nil pointer dereference")

def entryAt {α ω : Type} (l : List α) (i : ℕ) : Logged Err ω α :=
  match l[i]? with
  | some entry => return entry
  | none => throw (.crash "index out of range")

def revisionAt {α ω : Type} (l : List (Option α)) (i : ℕ) : Logged Err ω α := do
  derefRevision (← entryAt l i)

def setAt {α ω : Type} (l : List α) (i : ℕ) (entry : α) : Logged Err ω (List α) :=
  if i < l.length then return l.set i entry else throw (.crash "index out of range")

/-- Two slices are equal when both or neither is nil and they hold the same revisions. -/
def revisionsAreEqual {α : Type} [DecidableEq α] (a b : Slice α) : Bool := a = b

/-! ### Changes by key -/

structure ChangeAnalysis where
  keyMap1 : GoMap String ℕ
  keyMap2 : GoMap String ℕ
  addedKeys : List String
  removedKeys : List String
  changedKeys : List String

/-- The position of each key, the last one where a key occurs again. -/
def keyMap (keys : List String) : GoMap String ℕ := GoMap.writeAll ∅ keys.zipIdx

def position (m : GoMap String ℕ) (key : String) : ℕ := (m.lookup key).getD 0

section Lists

variable (A : Access α) (keyName : String)

def analyse (revs1 revs2 : List α) : ChangeAnalysis :=
  let keyMap1 := keyMap (revs1.map (A.key keyName))
  let keyMap2 := keyMap (revs2.map (A.key keyName))
  { keyMap1, keyMap2
    addedKeys := keyMap2.keys.filter fun key => key ∉ keyMap1
    removedKeys := keyMap1.keys.filter fun key => key ∉ keyMap2
    changedKeys := keyMap1.keys.filter fun key => key ∈ keyMap2 ∧
      (revs1[position keyMap1 key]?).map A.hash ≠ (revs2[position keyMap2 key]?).map A.hash }

def newChangeAnalysis (lst1 lst2 : List (Option α)) : Logged Err ω ChangeAnalysis := do
  let revs1 ← lst1.mapM derefRevision
  let revs2 ← lst2.mapM derefRevision
  return analyse A keyName revs1 revs2

/-- The orders in which the loops over the sets of keys visit them. -/
structure KeyOrders where
  added : VisitOrder String
  changed : VisitOrder String
  removed : VisitOrder String

variable (mergeChild : α → Logged Err ω (Option α)) (orders : KeyOrders)

/-- Merge the child at the position of a key in place; a nil result leaves it there. -/
def mergeInPlace (keyMap : GoMap String ℕ) (newList : List (Option α)) (key : String) :
    Logged Err ω (List (Option α)) := do
  let rev ← revisionAt newList (position keyMap key)
  match ← mergeChild rev with
  | some newRev => setAt newList (position keyMap key) (some newRev)
  | none => return newList

/-- The source list with its added and changed children merged. -/
def fastForward (forkList srcList : List (Option α)) : Logged Err ω (List (Option α)) := do
  let src ← newChangeAnalysis A keyName forkList srcList
  let newList ← (orders.added.visit src.addedKeys).foldlM
    (mergeInPlace mergeChild src.keyMap2) srcList
  -- the removed children are only dropped from memory
  (orders.changed.visit src.changedKeys).foldlM (mergeInPlace mergeChild src.keyMap2) newList

/-- A key added in the source: append the merged child. When the destination has added it
too, its own entry stays; different entries are a conflict that is only logged. -/
def mergeAdded (src dst : ChangeAnalysis) (srcList dstList newList : List (Option α))
    (key : String) : Logged Err ω (List (Option α)) := do
  if key ∈ dst.addedKeys then
    let childDstRev ← revisionAt dstList (position dst.keyMap2 key)
    let childSrcRev ← revisionAt srcList (position src.keyMap2 key)
    if A.hash childDstRev = A.hash childSrcRev then
      let _ ← mergeChild childDstRev
    return newList
  else
    let newRev ← derefRevision (← mergeChild (← revisionAt srcList (position src.keyMap2 key)))
    return newList ++ [some newRev]

/-- Put the merged source child at the destination's position, also when it is nil. -/
def replaceChild (src dst : ChangeAnalysis) (srcList newList : List (Option α)) (key : String) :
    Logged Err ω (List (Option α)) := do
  let newRev ← mergeChild (← revisionAt srcList (position src.keyMap2 key))
  setAt newList (position dst.keyMap2 key) newRev

/-- A key changed in the source. Conflicts are only logged. -/
def mergeChanged (src dst : ChangeAnalysis) (srcList dstList newList : List (Option α))
    (key : String) : Logged Err ω (List (Option α)) := do
  if key ∈ dst.removedKeys then
    return newList
  else if key ∈ dst.changedKeys then
    let childDstRev ← revisionAt dstList (position dst.keyMap2 key)
    let childSrcRev ← revisionAt srcList (position src.keyMap2 key)
    if A.hash childDstRev = A.hash childSrcRev then
      let _ ← mergeChild childSrcRev
      return newList
    else if A.configHash childDstRev ≠ A.configHash childSrcRev then
      return newList
    else
      replaceChild mergeChild src dst srcList newList key
  else
    replaceChild mergeChild src dst srcList newList key

/-- A key removed in the source: splice out what is now at the destination's position. -/
def mergeRemoved (dst : ChangeAnalysis) (newList : List (Option α)) (key : String) :
    Logged Err ω (List (Option α)) := do
  if key ∈ dst.removedKeys then
    return newList
  else
    let _ ← revisionAt newList (position dst.keyMap2 key)
    return newList.eraseIdx (position dst.keyMap2 key)

/-- The destination list with the changes of the source. -/
def threeWay (forkList srcList dstList : List (Option α)) :
    Logged Err ω (List (Option α)) := do
  let src ← newChangeAnalysis A keyName forkList srcList
  let dst ← newChangeAnalysis A keyName forkList dstList
  let newList ← (orders.added.visit src.addedKeys).foldlM
    (mergeAdded A mergeChild src dst srcList dstList) dstList
  let newList ← (orders.changed.visit src.changedKeys).foldlM
    (mergeChanged A mergeChild src dst srcList dstList) newList
  (orders.removed.visit src.removedKeys).foldlM (mergeRemoved dst) newList

/-- The new list of a field, or nothing when the field keeps the list that it has. -/
def mergeField [DecidableEq α] (field : ChildType) (forkList srcList dstList : Slice α) :
    Logged Err ω (Option (List (Option α))) := do
  if revisionsAreEqual dstList srcList then
    srcList.entries.forM fun rev => do
      let _ ← mergeChild (← derefRevision rev)
    return none
  else if field.key = "" then
    if revisionsAreEqual dstList forkList then
      if !revisionsAreEqual srcList forkList then
        -- "we should not be here" is only logged
        return none
      else
        let merged ← srcList.entries.mapM fun rev => do mergeChild (← derefRevision rev)
        return some (dstList.entries ++ merged)
    else
      -- "cannot merge" is only logged
      return none
  else if revisionsAreEqual dstList forkList then
    return some (← fastForward A field.key mergeChild orders forkList.entries srcList.entries)
  else
    return some (← threeWay A field.key mergeChild orders forkList.entries srcList.entries
      dstList.entries)

end Lists

/-! ### Revisions -/

structure DataRevision (δ : Type) where
  ref : ℕ
  data : δ
  hash : String
  deriving DecidableEq

structure RevisionOf (δ α : Type) where
  ref : ℕ
  config : DataRevision δ
  name : String
  hash : String
  children : GoMap String (Slice α)

instance {δ α : Type} [DecidableEq δ] [DecidableEq α] : DecidableEq (RevisionOf δ α) :=
  fun r s => decidable_of_iff (r.ref = s.ref ∧ r.config = s.config ∧ r.name = s.name ∧
    r.hash = s.hash ∧ r.children = s.children) (by cases r; cases s; simp)

/-- What reflection finds in a message: its child fields and the values of its attributes. -/
structure Schema (δ : Type) where
  childrenFields : δ → GoMap String ChildType
  attributeValue : String → δ → String

/-- The revisions of a node: where a transaction started, its latest and the latest of the
`NONE` branch. -/
structure Branches (ρ : Type) where
  origin : ρ
  latest : ρ
  none : ρ
  deriving DecidableEq

/-- A child revision: of the `NONE` branch or another one, or the latest of its node in the
transaction. -/
inductive Child (ρ : Type) where
  | plain (rev : ρ)
  | inTransaction (branches : Branches ρ)
  deriving DecidableEq

def Child.rev {ρ : Type} : Child ρ → ρ
  | .plain rev => rev
  | .inTransaction branches => branches.latest

/-- Revisions of trees up to a depth. -/
def Revision (δ : Type) : ℕ → Type
  | 0 => RevisionOf δ Empty
  | n + 1 => RevisionOf δ (Child (Revision δ n))

def Revision.decEq {δ : Type} [DecidableEq δ] : (n : ℕ) → DecidableEq (Revision δ n)
  | 0 => inferInstanceAs (DecidableEq (RevisionOf δ Empty))
  | n + 1 =>
    have := Revision.decEq (δ := δ) n
    inferInstanceAs (DecidableEq (RevisionOf δ (Child (Revision δ n))))

instance {δ : Type} [DecidableEq δ] {n : ℕ} : DecidableEq (Revision δ n) := Revision.decEq n

/-- How a commit meets its environment: the digest of revision contents and the orders of the
loops, for each run and each merged revision. -/
structure Commit (δ : Type) where
  schema : Schema δ
  digest : String → String
  fieldOrder : Bool → ℕ → VisitOrder (Σ _ : String, ChildType)
  keyOrders : Bool → ℕ → String → KeyOrders

section Revisions

variable [DecidableEq δ] [DecidableEq α]

def RevisionOf.getData (rev : RevisionOf δ α) : δ := rev.config.data

def RevisionOf.getChildren (rev : RevisionOf δ α) (name : String) : Slice α :=
  (rev.children.lookup name).getD none

/-- The hash over the data, the name and the children, by the name of their field. -/
def hashContent (digest : String → String) (childHash : α → String) (rev : RevisionOf δ α) :
    String :=
  digest (rev.config.hash ++ rev.name ++ String.join
    ((rev.children.keys.insertionSort (· ≤ ·)).flatMap fun name =>
      (rev.getChildren name).entries.map fun child => (child.map childHash).getD ""))

/-- Copied slices are not nil. -/
def copyChildren (children : GoMap String (Slice α)) : GoMap String (Slice α) :=
  GoMap.writeAll ∅ (children.entries.map fun e => (e.1, some e.2.entries))

/-- Slices that are appended to nothing are nil when they are empty. -/
def appendChildren (children : GoMap String (Slice α)) : GoMap String (Slice α) :=
  GoMap.writeAll ∅ (children.entries.map fun e =>
    (e.1, if e.2.entries = [] then none else some e.2.entries))

/-- The revision itself with new children and their hash. -/
def updateAllChildren (digest : String → String) (childHash : α → String)
    (rev : RevisionOf δ α) (children : GoMap String (Slice α)) : RevisionOf δ α :=
  let newRev := { rev with children := appendChildren children }
  { newRev with hash := hashContent digest childHash newRev }

def configChanged (forkRev srcRev dstRev : RevisionOf δ α) : Bool :=
  if dstRev.config = forkRev.config then dstRev.config ≠ srcRev.config else true

variable (c : Commit δ) (A : Access α) (mergeChild : α → Logged Err ω (Option α)) (dryRun : Bool)

/-- The children of the merged revision. A dry run keeps the lists of keyed fields. -/
def mergeChildren (forkRev srcRev dstRev : RevisionOf δ α) :
    Logged Err ω (GoMap String (Slice α)) :=
  ((c.fieldOrder dryRun srcRev.ref).visit
      (c.schema.childrenFields forkRev.getData).entries).foldlM
    (fun newChildren field => do
      let newList ← mergeField A mergeChild (c.keyOrders dryRun srcRev.ref field.1) field.2
        (forkRev.getChildren field.1) (srcRev.getChildren field.1) (dstRev.getChildren field.1)
      match newList with
      | some newList =>
        if dryRun ∧ field.2.key ≠ "" then return newChildren
        else return newChildren.insert field.1 (some newList)
      | none => return newChildren)
    (copyChildren dstRev.children)

def merge3Way (forkRev srcRev dstRev : RevisionOf δ α) :
    Logged Err ω (Option (RevisionOf δ α)) := do
  let newChildren ← mergeChildren c A mergeChild dryRun forkRev srcRev dstRev
  if !dryRun ∧ newChildren.keys ≠ [] then
    return some (updateAllChildren c.digest A.hash
      (if configChanged forkRev srcRev dstRev then srcRev else dstRev) newChildren)
  else
    return none

/-- The latest revision after `makeLatest`: one with a hash of its own becomes the latest,
and the latest itself may have been changed in place. -/
def makeLatest (latest revision : RevisionOf δ α) : RevisionOf δ α :=
  if revision.ref = latest.ref ∨ revision.hash ≠ latest.hash then revision else latest

/-- Merge the transaction branch of a node: the merged revision, if any, and the latest
revision of the `NONE` branch. -/
def mergeBranchOf (b : Branches (RevisionOf δ α)) :
    Logged Err ω (Option (RevisionOf δ α) × RevisionOf δ α) := do
  match ← merge3Way c A mergeChild dryRun b.origin b.latest b.none with
  | some rev =>
    let rev := { rev with name := b.none.name }
    return (some rev, makeLatest b.none rev)
  | none => return (none, b.none)

end Revisions

/-! ### Trees -/

section Trees

variable [DecidableEq δ] (c : Commit δ)

def RevisionOf.access {α : Type} (schema : Schema δ) : Access (RevisionOf δ α) where
  key keyName rev := schema.attributeValue keyName rev.getData
  hash rev := rev.hash
  configHash rev := rev.config.hash

def Revision.access (schema : Schema δ) : (n : ℕ) → Access (Revision δ n)
  | 0 => RevisionOf.access schema
  | _ + 1 => RevisionOf.access schema

def Child.access {ρ : Type} (A : Access ρ) : Access (Child ρ) where
  key keyName child := A.key keyName child.rev
  hash child := A.hash child.rev
  configHash child := A.configHash child.rev

/-- The `NONE` branch of a node before and after a merge. -/
abbrev Touched (δ : Type) := Σ n : ℕ, Revision δ n × Revision δ n

abbrev CommitM (δ : Type) := Logged Err (Touched δ)

/-- Merge the branch of a node and note what becomes of its `NONE` branch. -/
def mergeBranch (dryRun : Bool) : (n : ℕ) → Branches (Revision δ n) →
    CommitM δ (Option (Revision δ n) × Revision δ n)
  | 0, b => do
    let merged ← mergeBranchOf (α := Empty) c ⟨fun _ => nofun, nofun, nofun⟩ nofun dryRun b
    Logged.note ⟨0, b.none, merged.2⟩
    return merged
  | n + 1, b => do
    let merged ← mergeBranchOf (α := Child (Revision δ n)) c
      (Child.access (Revision.access c.schema n))
      (fun child => do
        match child with
        | .plain _ => return some child
        | .inTransaction branches => return (← mergeBranch dryRun n branches).1.map .plain)
      dryRun b
    Logged.note ⟨n + 1, b.none, merged.2⟩
    return merged

/-- A node with its `NONE` branch and the origin and latest revision of a transaction. -/
structure Node (ρ : Type) where
  none : ρ
  transaction : Option (ρ × ρ)

/-- Commit a transaction: a dry run, then the merge, then the branch is deleted. The dry run
never reports an error, so there is nothing to bail out of. -/
def foldTxBranch (n : ℕ) (node : Node (Revision δ n)) : CommitM δ (Node (Revision δ n)) :=
  match node.transaction with
  | none => throw (.crash "nil pointer dereference")
  | some (origin, latest) => do
    let _ ← mergeBranch c true n ⟨origin, latest, node.none⟩
    let merged ← mergeBranch c false n ⟨origin, latest, node.none⟩
    return { none := merged.2, transaction := none }

end Trees

end VolthaCore.DataModel
