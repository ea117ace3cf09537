import VolthaCore.DataModel.Merge
import VolthaCore.Lib.Outcome

/-! The objects of the data model (`node.go`, `branch.go`, the revisions and the
root) as they lie in memory, with the revision cache and the key-value store. The
operations change revisions in place and share them between branches, so that a
revision, a branch and a node are objects with an address here.

An address names the operations that made the object: those of a transaction, or
those without one. The objects of a transaction then do not move the addresses of
the others, and two runs can be compared object by object. -/

namespace VolthaCore.Nodes

open DataModel (Slice)

/-- The branch of all that is done without a transaction. -/
def NONE : String := "none"

structure Ref where
  owner : String
  num : ℕ
  deriving DecidableEq

/-! ### Messages -/

/-- A field of a message that holds children. A key that is not a string is compared as Go
prints it, and `keyFromStr` is the printed form of the key that a path names. -/
structure ChildType (τ : Type) where
  isContainer : Bool
  key : String
  keyFromStr : String → String
  isString : Bool
  classType : τ
  keyFromStr_eq : isString = true → ∀ s, keyFromStr s = s

/-- What reflection finds in a message. -/
structure Messages (τ δ : Type) where
  typeOf : δ → τ
  childrenFields : τ → GoMap String (ChildType τ)
  /-- An attribute as `fmt` prints it. -/
  attributeText : String → δ → String
  /-- The `String` method of the reflected attribute, which gives only strings as they are. -/
  attributeString : String → δ → String
  attributeString_eq : ∀ {t name field}, (childrenFields t).lookup name = some field →
    field.isString = true → ∀ d, attributeString field.key d = attributeText field.key d
  /-- Of other attributes the method only gives the type, which no printed value looks like. -/
  attributeString_ne : ∀ {t name field}, (childrenFields t).lookup name = some field →
    field.isString = false → ∀ d d', attributeString field.key d ≠ attributeText field.key d'
  values : String → δ → List δ
  withValues : String → List δ → δ → δ
  height : δ → ℕ
  height_lt : ∀ {name d v}, v ∈ values name d → height v < height d
  unmarshal : τ → δ → Option δ
  unmarshal_typeOf : ∀ d, unmarshal (typeOf d) d = some d

/-- Hashes of data, which depend on whether the revision knows its root, and of revisions. -/
structure Digest (δ η : Type) where
  data : Bool → δ → η
  content : η → String → List η → η

/-- The data model and its environment: the orders of the loops over maps and the depth to
which calls may nest. -/
structure Model (τ δ η : Type) where
  messages : Messages τ δ
  digest : Digest δ η
  fieldOrder : VisitOrder (Σ _ : String, ChildType τ)
  blobOrder : VisitOrder (Σ _ : String, δ × ℕ)
  stack : ℕ

/-- An operation: its transaction, the time and whether the key-value store answers. -/
structure Env where
  txid : String
  now : ℕ
  up : Bool

/-! ### Objects -/

structure DataRevision (δ η : Type) where
  data : δ
  hash : η
  deriving DecidableEq

/-- A revision. A cleared hash is missing, and so is the time of a revision that was never
marked as updated. The version is used when there is a key-value store. -/
structure Revision (δ η : Type) where
  config : DataRevision δ η
  children : GoMap String (Slice Ref)
  hash : Option η
  branch : Ref
  name : String
  lastUpdate : Option ℕ
  version : ℕ
  hasRoot : Bool

def Revision.data {δ η : Type} (rev : Revision δ η) : δ := rev.config.data

def Revision.getChildren {δ η : Type} (rev : Revision δ η) (name : String) : Slice Ref :=
  (rev.children.lookup name).getD none

structure Branch where
  node : Ref
  txid : String
  latest : Option Ref
  deriving DecidableEq

structure Node (τ : Type) where
  type : τ
  branches : String → Option Ref

/-- The key-value store: the messages under their names with the number of their writes. -/
abbrev Store (δ : Type) := GoMap String (δ × ℕ)

/-- The memory of the core. `next` counts the objects that each owner has made. -/
structure Heap (τ δ η : Type) where
  revs : Ref → Revision δ η
  branches : Ref → Branch
  nodes : Ref → Node τ
  next : String → ℕ
  cache : String → Option Ref
  store : Option (Store δ)
  dirtyNodes : String → List Ref
  root : Ref

section Changes

variable {τ δ η : Type} (h : Heap τ δ η)

@[simps]
def Heap.setRev (r : Ref) (rev : Revision δ η) : Heap τ δ η :=
  { h with revs := Function.update h.revs r rev }

@[simps]
def Heap.setBranch (b : Ref) (branch : Branch) : Heap τ δ η :=
  { h with branches := Function.update h.branches b branch }

@[simps]
def Heap.setNode (n : Ref) (node : Node τ) : Heap τ δ η :=
  { h with nodes := Function.update h.nodes n node }

@[simps]
def Heap.setCache (path : String) (r : Option Ref) : Heap τ δ η :=
  { h with cache := Function.update h.cache path r }

@[simps]
def Heap.setStore (s : Option (Store δ)) : Heap τ δ η := { h with store := s }

@[simps]
def Heap.setDirtyNodes (txid : String) (nodes : List Ref) : Heap τ δ η :=
  { h with dirtyNodes := Function.update h.dirtyNodes txid nodes }

def Heap.fresh (owner : String) : Ref := ⟨owner, h.next owner⟩

@[simps]
def Heap.alloc (owner : String) : Heap τ δ η :=
  { h with next := Function.update h.next owner (h.next owner + 1) }

end Changes

abbrev Op (τ δ η : Type) := EStateM Err (Heap τ δ η)

section Access

variable {τ δ η : Type} (env : Env)

def deref (r : Option Ref) : Op τ δ η Ref :=
  match r with
  | some r => return r
  | none => throw (.crash "nil pointer dereference")

def getRev (r : Ref) : Op τ δ η (Revision δ η) := do return (← get).revs r

def getRevs (rs : List Ref) : Op τ δ η (List (Revision δ η)) := do return rs.map (← get).revs

def setRev (r : Ref) (rev : Revision δ η) : Op τ δ η Unit := modify (·.setRev r rev)

def alloc : Op τ δ η Ref := modifyGet fun h => (h.fresh env.txid, h.alloc env.txid)

def newRev (rev : Revision δ η) : Op τ δ η Ref := do
  let r ← alloc env
  setRev r rev
  return r

def getBranch (b : Ref) : Op τ δ η Branch := do return (← get).branches b

def setBranch (b : Ref) (branch : Branch) : Op τ δ η Unit := modify (·.setBranch b branch)

def newBranch (branch : Branch) : Op τ δ η Ref := do
  let b ← alloc env
  setBranch b branch
  return b

def getNode (n : Ref) : Op τ δ η (Node τ) := do return (← get).nodes n

def setNode (n : Ref) (node : Node τ) : Op τ δ η Unit := modify (·.setNode n node)

def newNode (node : Node τ) : Op τ δ η Ref := do
  let n ← alloc env
  setNode n node
  return n

/-- Set or delete the branch of a node for a transaction. -/
def setNodeBranch (n : Ref) (txid : String) (b : Option Ref) : Op τ δ η Unit := do
  let node ← getNode n
  setNode n { node with branches := Function.update node.branches txid b }

def getRoot : Op τ δ η Ref := do return (← get).root

def getDirtyNodes (txid : String) : Op τ δ η (List Ref) := do return (← get).dirtyNodes txid

def setDirtyNodes (txid : String) (nodes : List Ref) : Op τ δ η Unit :=
  modify (·.setDirtyNodes txid nodes)

def cacheGet (path : String) : Op τ δ η (Option Ref) := do return (← get).cache path

def cacheSet (path : String) (r : Ref) : Op τ δ η Unit := modify (·.setCache path (some r))

def cacheDelete (path : String) : Op τ δ η Unit := modify (·.setCache path none)

def getStore : Op τ δ η (Option (Store δ)) := do return (← get).store

/-- Change the store, unless there is none or it does not answer, which is only logged. -/
def changeStore (f : Store δ → Store δ) : Op τ δ η Unit :=
  if env.up then modify fun h => h.setStore (h.store.map f) else return

end Access

/-! ### The key-value store -/

section Stores

variable {δ : Type}

/-- A write counts up the version of its name. -/
def Store.put (name : String) (d : δ) (s : Store δ) : Store δ :=
  s.insert name (d, ((s.lookup name).map Prod.snd).getD 0 + 1)

def Store.delete (name : String) (s : Store δ) : Store δ := s.erase name

/-- The entries whose names begin with the path. -/
def Store.list (path : String) (s : Store δ) : List (Σ _ : String, δ × ℕ) :=
  s.entries.filter fun e => path.toList <+: e.1.toList

end Stores

end VolthaCore.Nodes
