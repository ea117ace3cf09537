import VolthaCore.Nodes.Heap

/-! Revisions of the data model (`non_persisted_revision.go`, `persisted_revision.go`):
their hashes, the revisions that an update makes of them, how a revision becomes the
latest of its branch and how it is saved. The revisions of a root with a key-value
store are persisted ones. -/

namespace VolthaCore.Nodes

open DataModel (Slice appendChildren)

/-- The period in milliseconds after which a cached revision is read again. -/
def dataRefreshPeriod : ℕ := 5000

def childName (name key : String) : String := name ++ "/" ++ key

section Revisions

variable {τ δ η : Type} [DecidableEq τ] [DecidableEq δ] [DecidableEq η]
  (M : Model τ δ η) (env : Env)

/-- The children that a hash covers, by the name of their field. -/
def hashedChildren (children : GoMap String (Slice Ref)) : List Ref :=
  ((children.keys.insertionSort (· ≤ ·)).flatMap fun name =>
    ((children.lookup name).getD none).entries).reduceOption

def hashContent (rev : Revision δ η) : Op τ δ η η := do
  let children ← getRevs (hashedChildren rev.children)
  return M.digest.content rev.config.hash rev.name (children.filterMap (·.hash))

/-- `Finalize` of a revision that is not persisted: hash it again. -/
def rehash (r : Ref) : Op τ δ η Unit := do
  let rev ← getRev r
  setRev r { rev with hash := some (← hashContent M rev) }

/-- Without a key-value store a new revision knows its root. -/
def makeRevision (branch : Ref) (data : δ) (children : GoMap String (Slice Ref)) :
    Op τ δ η Ref := do
  let hasRoot := (← getStore).isNone
  let r ← newRev env
    { config := ⟨data, M.digest.data hasRoot data⟩, children, hash := none, branch, name := ""
      lastUpdate := none, version := 1, hasRoot }
  rehash M r
  return r

def getLatest (branch : Ref) : Op τ δ η Ref := do deref (← getBranch branch).latest

def setName (r : Ref) (name : String) : Op τ δ η Unit := do
  let rev ← getRev r
  setRev r { rev with name }

def clearHash (r : Ref) : Op τ δ η Unit := do
  let rev ← getRev r
  setRev r { rev with hash := none }

def setLastUpdate (r : Ref) : Op τ δ η Unit := do
  let rev ← getRev r
  setRev r { rev with lastUpdate := some env.now }

def setVersion (r : Ref) (version : ℕ) : Op τ δ η Unit := do
  let rev ← getRev r
  setRev r { rev with version }

/-- The slice that is set is a copy and not nil. -/
def setChildren (r : Ref) (name : String) (children : List (Option Ref)) : Op τ δ η Unit := do
  let rev ← getRev r
  setRev r { rev with children := rev.children.insert name (some children) }

/-- Data with the hash of the own data gives the same revision. Of a persisted revision the source
makes a new object around it, which is the old one here. The children are those of the latest
revision of the branch. -/
def updateData (r : Ref) (data : δ) (branch : Ref) : Op τ δ η Ref := do
  let rev ← getRev r
  if M.digest.data rev.hasRoot data = rev.config.hash then
    return r
  else
    let latest ← getRev (← getLatest branch)
    let newRev ← newRev env
      { rev with
        config := ⟨data, M.digest.data rev.hasRoot data⟩
        children := appendChildren latest.children
        branch }
    rehash M newRev
    return newRev

/-- Of the existing children, those whose names are not among the new ones, followed by the new
children. An existing child of the same name and data takes the place of the new one. -/
def mergeByName (existing children : List (Ref × Revision δ η)) : List Ref :=
  (existing.filter fun old => ∀ child ∈ children, child.2.name ≠ old.2.name).map Prod.fst ++
    children.map fun child =>
      match existing.reverse.find? fun old => old.2.name = child.2.name with
      | some old => if old.2.data = child.2.data then old.1 else child.1
      | none => child.1

def updatedChildren (existing : Slice Ref) (children : List (Option Ref)) :
    Op τ δ η (List (Option Ref)) := do
  match existing with
  | none => return children
  | some existing =>
    let children ← children.mapM deref
    let existing ← existing.mapM deref
    return (mergeByName (existing.zip (← getRevs existing))
      (children.zip (← getRevs children))).map some

/-- A revision of the branch with new children in one field. It no longer knows its root. -/
def updateChildren (r : Ref) (name : String) (children : List (Option Ref)) (branch : Ref) :
    Op τ δ η Ref := do
  let rev ← getRev r
  let latest ← getRev (← getLatest branch)
  let updated ← updatedChildren (latest.getChildren name) children
  let updatedRev ← newRev env
    { rev with
      config := ⟨rev.data, M.digest.data rev.hasRoot rev.data⟩
      children := (appendChildren latest.children).insert name (some updated)
      branch
      hasRoot := false }
  rehash M updatedRev
  return updatedRev

def indexOfHash (hash : Option η) : List (Option Ref) → Op τ δ η (Option ℕ)
  | [] => return none
  | child :: children => do
    if (← getRev (← deref child)).hash = hash then return some 0
    else return (← indexOfHash hash children).map (· + 1)

def childDrop (r : Ref) (childType : String) (childHash : Option η) : Op τ δ η Unit := do
  if childType ≠ "" then
    let children := ((← getRev r).getChildren childType).entries
    match ← indexOfHash childHash children with
    | some i => setChildren r childType (children.eraseIdx i)
    | none => return

def isNew (rev : Revision δ η) : Option Ref → Op τ δ η Bool
  | none => return true
  | some latest => do return rev.hash ≠ (← getRev latest).hash

/-- A revision becomes the latest of a branch when its hash is not that of the latest. One with
a name goes to the cache, whatever the branch. -/
def makeLatest (branch revision : Ref) : Op τ δ η Unit := do
  let rev ← getRev revision
  let b ← getBranch branch
  if ← isNew rev b.latest then
    if rev.name ≠ "" then
      setLastUpdate env revision
      cacheSet rev.name revision
    setBranch branch { b with latest := some revision }

/-- Save a persisted revision, unless its branch is that of a transaction. All messages of the
tree can be marshalled here. -/
def store (r : Ref) : Op τ δ η Unit := do
  let rev ← getRev r
  if (← getBranch rev.branch).txid ≠ "" then
    return
  else
    cacheSet rev.name r
    changeStore env (Store.put rev.name rev.data)

def finalize (r : Ref) : Op τ δ η Unit := do
  if (← getStore).isSome then store env r else rehash M r

/-- Without a transaction the entry of a removed revision is deleted from the store. -/
def storageDrop (r : Ref) (txid : String) : Op τ δ η Unit := do
  if txid = "" then changeStore env (Store.delete (← getRev r).name)

end Revisions

end VolthaCore.Nodes
