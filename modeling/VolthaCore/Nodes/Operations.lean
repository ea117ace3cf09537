import VolthaCore.Nodes.Revisions

/-! The operations on the tree of nodes (`node.go`, `root.go`, `transaction.go`): reads,
updates, additions and removals along a path, in a transaction or without one, and
the reload of entries from the key-value store (`persisted_revision.go`). Callbacks,
proxies and watches are left out: the root is accessed by a proxy of its own path
without callbacks, and no watch event is processed. -/

namespace VolthaCore.Nodes

open DataModel (Slice)

/-! ### Paths -/

def stripSlashes (path : String) : String := String.ofList (path.toList.dropWhile (· = '/'))

/-- The path up to its first slash and the path behind it. -/
def partition (path : String) : String × String :=
  (String.ofList (path.toList.takeWhile (· ≠ '/')),
    String.ofList (path.toList.dropWhile (· ≠ '/')).tail)

inductive Found (δ : Type) where
  | nothing
  | one (data : δ)
  | many (list : List δ)
  deriving DecidableEq

def Found.isNil {δ : Type} : Found δ → Bool
  | .nothing => true
  | .one _ => false
  | .many list => list.isEmpty

section Operations

variable {τ δ η : Type} [DecidableEq τ] [DecidableEq δ] [DecidableEq η]
  (M : Model τ δ η) (env : Env)

/-! ### Nodes -/

def branchKey (txid : String) : String := if txid = "" then NONE else txid

def latest (n : Ref) (txid : String) : Op τ δ η (Option Ref) := do
  match (← getNode n).branches (branchKey txid) with
  | some branch => return (← getBranch branch).latest
  | none => return none

/-- The first revisions of the children of a new node. -/
def makeChildren (makeChild : δ → Op τ δ η Ref) (data : δ) (txid : String) :
    Op τ δ η (GoMap String (Slice Ref)) :=
  (M.fieldOrder.visit (M.messages.childrenFields (M.messages.typeOf data)).entries).foldlM
    (fun children field => do
      let revs ← (M.messages.values field.1 data).mapM fun v => do
        latest (← makeChild v) (if field.2.isContainer ∧ field.2.key ≠ "" then txid else "")
      if revs.reduceOption = [] then return children
      else return children.insert field.1 (some (revs.reduceOption.map some)))
    ∅

def initializeNode (makeChild : δ → Op τ δ η Ref) (data : δ) (txid : String) :
    Op τ δ η Ref := do
  let n ← newNode env ⟨M.messages.typeOf data, fun _ => none⟩
  let children ← makeChildren M makeChild data txid
  let branch ← newBranch env ⟨n, "", none⟩
  let rev ← makeRevision M env branch data children
  makeLatest env branch rev
  setNodeBranch n (branchKey txid) (some branch)
  return n

/-- A node for a message up to a height, with nodes for its children. -/
def makeNodeUpTo (txid : String) : ℕ → δ → Op τ δ η Ref
  | 0, data => initializeNode M env (fun _ => throw (.crash "stack overflow")) data txid
  | height + 1, data => initializeNode M env (makeNodeUpTo txid height) data txid

def makeNode (data : δ) (txid : String) : Op τ δ η Ref :=
  makeNodeUpTo M env txid (M.messages.height data) data

/-- The first child with a key and its position. -/
def findRevByKey (keyName value : String) : List (Option Ref) → Op τ δ η (Option (ℕ × Ref))
  | [] => return none
  | rev :: revs => do
    let r ← deref rev
    if M.messages.attributeText keyName (← getRev r).data = value then return some (0, r)
    else return (← findRevByKey keyName value revs).map fun found => (found.1 + 1, found.2)

def nodeOf (r : Ref) : Op τ δ η Ref := do return (← getBranch (← getRev r).branch).node

/-! ### Branches -/

def makeBranch (n : Ref) (txid : String) : Op τ δ η Ref := do
  let none ← deref ((← getNode n).branches NONE)
  let branch ← newBranch env ⟨n, txid, (← getBranch none).latest⟩
  setNodeBranch n txid (some branch)
  return branch

def trackDirty (n : Ref) (txid : String) : Op τ δ η Ref := do
  setDirtyNodes txid ((← getDirtyNodes txid) ++ [n])
  makeBranch env n txid

/-- The branch that an operation changes; the first change of a transaction makes it. -/
def branchFor (n : Ref) (txid : String) : Op τ δ η Ref := do
  if txid = "" then
    deref ((← getNode n).branches NONE)
  else
    match (← getNode n).branches txid with
    | some branch => return branch
    | none => trackDirty env n txid

/-! ### Reading -/

/-- Calls that nest deeper than the stack allows. -/
def stackOverflow {α : Type} : Op τ δ η α := throw (.crash "stack overflow")

/-- The data of a revision, with the data of its children when a depth is given. -/
def revGetWith (getBelow : Ref → Op τ δ η δ) (depth : ℤ) (r : Ref) : Op τ δ η δ := do
  let latest ← getRev (← getLatest (← getRev r).branch)
  if depth = 0 then
    return latest.data
  else
    (M.fieldOrder.visit
        (M.messages.childrenFields (M.messages.typeOf latest.data)).entries).foldlM
      (fun data field => do
        let children := (latest.getChildren field.1).entries
        if field.2.isContainer then
          let holder ← children.foldlM (fun holder child => do
              let childData ← getBelow (← deref child)
              if childData ∈ holder then return holder else return holder ++ [childData])
            (M.messages.values field.1 data)
          return M.messages.withValues field.1 holder data
        else
          match children with
          | some child :: _ =>
            let childData ← getBelow child
            if M.messages.typeOf childData = field.2.classType then
              return M.messages.withValues field.1 [childData] data
            else
              return data
          | _ => return data)
      latest.data

def revGet : ℕ → ℤ → Ref → Op τ δ η δ
  | 0, depth => revGetWith M (fun _ => stackOverflow) depth
  | stack + 1, depth => revGetWith M (revGet stack (depth - 1)) depth

def getData (r : Ref) (depth : ℤ) : Op τ δ η δ := do
  revGet M M.stack depth (← getLatest (← getRev r).branch)

def getAllData (children : List (Option Ref)) (depth : ℤ) : Op τ δ η (Found δ) := do
  return .many (← children.mapM fun child => do getData M (← deref child) depth)

/-- What the tree has at a path. Behind a key the rest of the path is dropped. -/
def getPathWith (getBelow : Ref → Ref → String → Op τ δ η (Found δ)) (n r : Ref) (path : String)
    (depth : ℤ) : Op τ δ η (Found δ) := do
  if path = "" then
    return .one (← getData M r depth)
  else
    let (name, path) := partition path
    let rev ← getRev r
    let field := (M.messages.childrenFields (← getNode n).type).lookup name
    match field.filter (·.isContainer) with
    | some field =>
      let children := (rev.getChildren name).entries
      if field.key ≠ "" then
        if path ≠ "" then
          match ← findRevByKey M field.key (field.keyFromStr (partition path).1) children with
          | none => return .nothing
          | some (_, childRev) => return .one (← getData M childRev depth)
        else
          getAllData M children depth
      else
        if path ≠ "" then return .many [] else getAllData M children depth
    | none =>
      match rev.getChildren name with
      | none => return .nothing
      | some [] => throw (.crash "index out of range")
      | some (child :: _) =>
        let childRev ← deref child
        getBelow (← nodeOf childRev) childRev path

def getPath : ℕ → Ref → Ref → String → ℤ → Op τ δ η (Found δ)
  | 0, n, r, path, depth => getPathWith M (fun _ _ _ => stackOverflow) n r path depth
  | stack + 1, n, r, path, depth =>
    getPathWith M (fun n r path => getPath stack n r path depth) n r path depth

/-! ### Reloading -/

/-- A copy of the children in a container of the tree of the `NONE` branch, and the child with a
key among them. -/
def verifyLook (typeName keyName keyValue : String) :
    Op τ δ η (List (Option Ref) × Option (ℕ × Ref)) := do
  let parent ← deref ((← getNode (← getRoot)).branches NONE)
  let children := ((← getRev (← getLatest parent)).getChildren typeName).entries
  return (children, ← findRevByKey M keyName keyValue children)

/-- What is done about an entry of the store, given the copy of the children: the child is kept,
updated when the entry differs and is newer, or added. -/
def verifyWrite (data : δ) (typeName keyValue txid : String) (version : ℕ)
    (children : List (Option Ref)) (found : Option (ℕ × Ref)) : Op τ δ η Ref := do
  let parent ← deref ((← getNode (← getRoot)).branches NONE)
  match found with
  | some (childIdx, childRev) =>
    let child ← getRev childRev
    if child.data ≠ data ∧ child.version < version then
      let updatedChildRev ← updateData M env childRev data child.branch
      setLastUpdate env updatedChildRev
      setVersion updatedChildRev version
      cacheSet (← getRev updatedChildRev).name updatedChildRev
      let updatedRev ← updateChildren M env (← getLatest parent) typeName
        (children.set childIdx (some updatedChildRev)) parent
      makeLatest env parent updatedRev
      childDrop (← getLatest parent) typeName (← getRev childRev).hash
      return updatedChildRev
    else
      setLastUpdate env childRev
      if child.version < version then
        setVersion childRev version
      cacheSet child.name childRev
      return childRev
  | none =>
    let childRev ← deref (← latest (← makeNode M env data txid) txid)
    setName childRev (childName typeName keyValue)
    setVersion childRev version
    cacheSet (childName typeName keyValue) childRev
    let updatedRev ← updateChildren M env (← getLatest parent) typeName
      (children ++ [some childRev]) parent
    makeLatest env parent updatedRev
    return childRev

/-- Compare an entry of the store with the tree of the `NONE` branch. -/
def verifyPersistedEntry (data : δ) (typeName keyName keyValue txid : String) (version : ℕ) :
    Op τ δ η Ref := do
  let (children, found) ← verifyLook M typeName keyName keyValue
  verifyWrite M env data typeName keyValue txid version children found

/-- One entry of the store. The first one uses up the key of the path. -/
def loadBlob (field : ChildType τ) (name txid : String) (loaded : String × List Ref)
    (blob : δ × ℕ) : Op τ δ η (String × List Ref) := do
  match M.messages.unmarshal field.classType blob.1 with
  | none => return loaded
  | some data =>
    if field.key = "" then
      return loaded
    else if loaded.1 = "" then
      let entry ← verifyPersistedEntry M env data name field.key
        (M.messages.attributeString field.key data) txid blob.2
      return (loaded.1, loaded.2 ++ [entry])
    else
      let (key, path) := partition loaded.1
      if !field.isString then
        throw (.crash "interface conversion")
      let entry ← verifyPersistedEntry M env data name field.key (field.keyFromStr key) txid
        blob.2
      return (path, loaded.2 ++ [entry])

/-- Load the entries of the store whose names begin with the path. -/
def loadFromPersistence (r : Ref) (path txid : String) : Op τ δ η (List Ref) := do
  match ← getStore with
  | none => return []
  | some s =>
    if stripSlashes path = "" then
      return []
    else if !env.up then
      throw (.plain "failed-to-retrieve-data-from-kvstore")
    else
      let (name, rest) := partition (stripSlashes path)
      let type ←
        if '/' ∈ (stripSlashes path).toList then do pure (← getNode (← getRoot)).type
        else do pure (← getNode (← nodeOf r)).type
      match ((M.messages.childrenFields type).lookup name).filter (·.isContainer) with
      | none => return []
      | some field =>
        let loaded ← ((M.blobOrder.visit (Store.list (stripSlashes path) s)).map (·.2)).foldlM
          (loadBlob M env field name txid) (rest, [])
        return loaded.2

/-- Whether a cached revision is young enough to be used. -/
def isFresh (rev : Revision δ η) : Bool :=
  match rev.lastUpdate with
  | some time => env.now < time + dataRefreshPeriod
  | none => false

/-- What memory has at a path: a cached revision that is fresh, or else, when none is cached,
what the tree has. -/
def getFromMemory (n r : Ref) (path : String) (depth : ℤ) : Op τ δ η (Found δ) := do
  match ← cacheGet path with
  | some entry =>
    let rev ← getRev entry
    return if isFresh env rev then .one rev.data else .nothing
  | none => getPath M path.length n (← getLatest (← getRev r).branch) path depth

def foundData : List (Revision δ η) → Found δ → Found δ
  | [], result => result
  | [rev], _ => .one rev.data
  | revs, _ => .many (revs.map (·.data))

/-- Read from memory and, when that gives nothing, from the store. -/
def nodeGet (n : Ref) (path : String) (depth : ℤ) (reconcile : Bool) (txid : String) :
    Op τ δ η (Found δ) := do
  let path := stripSlashes path
  let node ← getNode n
  let branch ← deref (((if txid = "" then none else node.branches txid)).or (node.branches NONE))
  let rev ← getLatest branch
  let result ← if reconcile then pure .nothing else getFromMemory M env n rev path depth
  if !result.isNil then
    return result
  else
    match ← getStore with
    | none => return result
    | some _ =>
      let loaded ← loadFromPersistence M env rev path txid
      return foundData (← getRevs loaded) result

/-! ### Updates -/

def doUpdate (n branch : Ref) (data : δ) : Op τ δ η (Option Ref) := do
  if M.messages.typeOf data ≠ (← getNode n).type then
    return none
  else
    let latest ← getLatest branch
    if (← getRev latest).data ≠ data then
      let rev ← updateData M env latest data branch
      makeLatest env branch rev
      return some rev
    else
      return some latest

/-- Put the new revision of a child into a new revision of its parent. -/
def replaceChild (branch rev : Ref) (name : String) (children : List (Option Ref))
    (childRev : Ref) : Op τ δ η Unit := do
  let updatedRev ← updateChildren M env rev name children branch
  makeLatest env branch updatedRev
  childDrop updatedRev name (← getRev childRev).hash

/-- The update of a node along a path, given that of the nodes below it. The result is the
revision of the innermost node that was reached. -/
def nodeUpdateWith (updateBelow : Ref → String → Op τ δ η (Option Ref)) (txid : String) (data : δ)
    (n : Ref) (path : String) : Op τ δ η (Option Ref) := do
  let path := stripSlashes path
  let branch ← branchFor env n txid
  if path = "" then
    doUpdate M env n branch data
  else
    let rev ← getLatest branch
    let (name, path) := partition path
    match (M.messages.childrenFields (← getNode n).type).lookup name with
    | none => doUpdate M env n branch data
    | some field =>
      let children := ((← getRev rev).getChildren name).entries
      if field.isContainer then
        if path = "" ∨ field.key = "" then
          return none
        else
          let (key, path) := partition path
          let keyValue := field.keyFromStr key
          match ← findRevByKey M field.key keyValue children with
          | none => return some (← getLatest branch)
          | some (idx, childRev) =>
            let newChildRev ← deref (← updateBelow (← nodeOf childRev) path)
            if (← getRev newChildRev).hash = (← getRev childRev).hash then
              if newChildRev ≠ childRev then
                clearHash newChildRev
              return some (← getLatest branch)
            else
              setName newChildRev (childName name keyValue)
              replaceChild M env branch rev name (children.set idx (some newChildRev)) childRev
              return some newChildRev
      else
        match children with
        | [] => throw (.crash "index out of range")
        | child :: _ =>
          let childRev ← deref child
          let newChildRev ← updateBelow (← nodeOf childRev) path
          replaceChild M env branch rev name [newChildRev] childRev
          return newChildRev

def nodeUpdate (txid : String) (data : δ) : ℕ → Ref → String → Op τ δ η (Option Ref)
  | 0 => nodeUpdateWith M env (fun _ _ => stackOverflow) txid data
  | stack + 1 => nodeUpdateWith M env (nodeUpdate txid data stack) txid data

/-! ### Additions -/

/-- Add a child to a container; an entry with its key is returned as it is. -/
def addChild (branch rev : Ref) (name : String) (field : ChildType τ) (data : δ) :
    Op τ δ η (Option Ref) := do
  let children := ((← getRev rev).getChildren name).entries
  let key := M.messages.attributeString field.key data
  match ← findRevByKey M field.key key children with
  | some (_, found) => return some found
  | none =>
    let childRev ← deref (← latest (← makeNode M env data "") "")
    setName childRev (childName name key)
    let updatedRev ← updateChildren M env rev name (children ++ [some childRev]) branch
    makeLatest env branch updatedRev
    return some childRev

def nodeAddWith (addBelow : Ref → String → Op τ δ η (Option Ref)) (txid : String) (data : δ)
    (n : Ref) (path : String) : Op τ δ η (Option Ref) := do
  let path := stripSlashes path
  if path = "" then
    return none
  else
    let branch ← branchFor env n txid
    let rev ← getLatest branch
    let (name, path) := partition path
    match (M.messages.childrenFields (← getNode n).type).lookup name with
    | none => throw (.crash "nil pointer dereference")
    | some field =>
      if !field.isContainer ∨ field.key = "" then
        return none
      else if path = "" then
        addChild M env branch rev name field data
      else
        let (key, path) := partition path
        let children := ((← getRev rev).getChildren name).entries
        match ← findRevByKey M field.key (field.keyFromStr key) children with
        | none => return some (← getLatest branch)
        | some (idx, childRev) =>
          let newChildRev ← deref (← addBelow (← nodeOf childRev) path)
          if !field.isString then
            throw (.crash "interface conversion")
          setName newChildRev (childName name (field.keyFromStr key))
          replaceChild M env branch rev name (children.set idx (some newChildRev)) childRev
          return some newChildRev

def nodeAdd (txid : String) (data : δ) : ℕ → Ref → String → Op τ δ η (Option Ref)
  | 0 => nodeAddWith M env (fun _ _ => stackOverflow) txid data
  | stack + 1 => nodeAddWith M env (nodeAdd txid data stack) txid data

/-! ### Removals -/

/-- Take a child out of a revision in place. The hash of the revision stays as it is. -/
def dropChild (txid : String) (branch rev : Ref) (name : String) (children : List (Option Ref))
    (idx : ℕ) (childRev : Ref) : Op τ δ η (Option Ref) := do
  storageDrop env childRev txid
  cacheDelete (← getRev childRev).name
  setChildren rev name (children.eraseIdx idx)
  makeLatest env branch rev
  return some rev

def nodeRemoveWith (removeBelow : Ref → String → Op τ δ η (Option Ref)) (txid : String) (n : Ref)
    (path : String) : Op τ δ η (Option Ref) := do
  let path := stripSlashes path
  let branch ← branchFor env n txid
  let rev ← getLatest branch
  let (name, path) := partition path
  match (M.messages.childrenFields (← getNode n).type).lookup name with
  | none => throw (.crash "nil pointer dereference")
  | some field =>
    if !field.isContainer ∨ path = "" ∨ field.key = "" then
      return none
    else
      let (key, path) := partition path
      let children := ((← getRev rev).getChildren name).entries
      match ← findRevByKey M field.key (field.keyFromStr key) children with
      | none =>
        if path ≠ "" then
          return some (← getLatest branch)
        else if !field.isString then
          throw (.crash "interface conversion")
        else
          return none
      | some (idx, childRev) =>
        if path ≠ "" then
          let newChildRev ← removeBelow (← nodeOf childRev) path
          setChildren rev name (children.set idx newChildRev)
          makeLatest env branch rev
          return some (← getLatest branch)
        else
          dropChild env txid branch rev name children idx childRev

def nodeRemove (txid : String) : ℕ → Ref → String → Op τ δ η (Option Ref)
  | 0 => nodeRemoveWith M env (fun _ _ => stackOverflow) txid
  | stack + 1 => nodeRemoveWith M env (nodeRemove txid stack) txid

/-! ### The root -/

def rootGet (path : String) (depth : ℤ) (reconcile : Bool) : Op τ δ η (Found δ) := do
  nodeGet M env (← getRoot) path depth reconcile env.txid

def finalizeResult (result : Option Ref) : Op τ δ η (Option Ref) := do
  match result with
  | some r => finalize M env r
  | none => pure ()
  return result

def rootUpdate (path : String) (data : δ) : Op τ δ η (Option Ref) := do
  finalizeResult M env (← nodeUpdate M env env.txid data path.length (← getRoot) path)

def rootAdd (path : String) (data : δ) : Op τ δ η (Option Ref) := do
  finalizeResult M env (← nodeAdd M env env.txid data path.length (← getRoot) path)

def rootRemove (path : String) : Op τ δ η (Option Ref) := do
  nodeRemove M env env.txid path.length (← getRoot) path

/-- The branch of a transaction on the root. -/
def makeTxBranch (txid : String) : Op τ δ η Unit := do
  setDirtyNodes txid [← getRoot]
  let _ ← makeBranch env (← getRoot) txid

def deleteTxBranch (txid : String) : Op τ δ η Unit := do
  (← getDirtyNodes txid).forM fun n => setNodeBranch n txid none
  setDirtyNodes txid []
  setNodeBranch (← getRoot) txid none

end Operations

end VolthaCore.Nodes
