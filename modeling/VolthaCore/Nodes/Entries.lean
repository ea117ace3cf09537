import VolthaCore.Nodes.Containers

/-! The operations on the entries of a container of the root, without a transaction: what
an update, an addition and a removal return and what they make of the children. -/

namespace VolthaCore.Nodes

open Outcome DataModel List Function Heap

variable {τ δ η : Type} {h h' : Heap τ δ η} {M : Model τ δ η} {name k : String}
  {field : ChildType τ} {b L r x : Ref} {kids before later : List Ref} {data : δ} {env : Env}

theorem branchFor_none {n b : Ref} (hb : (h.nodes n).branches NONE = some b) :
    branchFor env n "" h = .ok b h := by
  unfold branchFor
  rw [if_pos rfl, getNode_bind, hb]
  rfl

theorem nodeOf_apply (h : Heap τ δ η) (r : Ref) :
    nodeOf r h = .ok (h.branches (h.revs r).branch).node h := rfl

/-- A container of the root as an operation finds it, in a transaction or without one: the branch
that the operation changes and its latest revision. -/
structure View {τ δ η : Type} (M : Model τ δ η) (env : Env) (txid name : String)
    (field : ChildType τ) (h : Heap τ δ η) (b L : Ref) : Prop where
  segment : Segment name
  lookup : (M.messages.childrenFields (h.nodes h.root).type).lookup name = some field
  container : field.isContainer = true
  keyed : field.key ≠ ""
  branch : branchFor env h.root txid h = .ok b h
  latest : (h.branches b).latest = some L

theorem Shelf.view {M : Model τ δ η} {name : String} {field : ChildType τ} {b L : Ref}
    {kids : List Ref} (hs : Shelf M name field h b L kids) (env : Env) :
    View M env "" name field h b L :=
  ⟨hs.segment, hs.lookup, hs.container, hs.keyed, branchFor_none hs.branch, hs.latest⟩

/-! ### Updates -/

section Updating

variable {env : Env} {l n : Ref} {key : δ → String}

/-- The branch of a revision has a latest revision, and the children of the latter were made. -/
def HasLatest (h : Heap τ δ η) (r : Ref) : Prop :=
  ∃ l, (h.branches (h.revs r).branch).latest = some l ∧ h.Old l ∧ OldChildren h (h.revs l).children

theorem Kid.hasLatest (hk : Kid M field h r) : HasLatest h r :=
  hk.latest.imp fun _ hl => ⟨hl.latest, hl.old, hl.children⟩

theorem HasLatest.mild (hl : HasLatest h r) (hx : Mild key h h') (hr : h.Old r)
    (hbranch : h'.branches (h.revs r).branch = h.branches (h.revs r).branch) :
    HasLatest h' r := by
  obtain ⟨l, hlatest, hold, hchildren⟩ := hl
  refine ⟨l, ?_, hx.old hold, ?_⟩
  · rw [hx.branch hr, hbranch, hlatest]
  · rw [hx.children hold]
    exact hx.oldChildren hchildren

/-- The revision that an update of the data of a child makes. -/
def nextRev (M : Model τ δ η) (h : Heap τ δ η) (l : Ref) (data : δ) : Revision δ η :=
  dataUpdate M h (h.revs l) (h.revs l) data (h.revs l).branch

/-- The memory with the revision of an update, which is the latest one unless its hash is that of
the revision before. -/
def Heap.updateRev [DecidableEq η] (h : Heap τ δ η) (M : Model τ δ η) (env : Env) (b l : Ref)
    (data : δ) : Heap τ δ η :=
  let h₁ := h.addRev env.txid (nextRev M h l data)
  if (nextRev M h l data).hash = (h.revs l).hash then h₁
  else h₁.madeLatest env b (h.fresh env.txid)

/-- The node of a child has been updated, and its revision is `x`. -/
structure Renewed (key : δ → String) (h : Heap τ δ η) (r x : Ref) (h₁ : Heap τ δ η) :
    Prop extends Grows key h h₁ where
  branches : ∀ b', b' ≠ (h.revs r).branch → h₁.branches b' = h.branches b'
  old : h₁.Old x
  branch : (h₁.revs x).branch = (h.revs r).branch
  latest : HasLatest h₁ r

theorem Kid.renewed_latest (hk : Kid M field h r)
    (hl : LatestIs (field.keyOf M) h (h.revs r).branch (h.keyAt M field r) l) :
    Renewed key h r l h :=
  ⟨⟨.refl _ h, fun _ => rfl, rfl⟩, fun _ _ => rfl, hl.old, hl.branch, hk.hasLatest⟩

theorem Renewed.rack {h₁ : Heap τ δ η} (hu : Renewed key h r x h₁)
    (hs : Shelf M name field h b L kids) (hr : r ∈ kids) : Rack M name field h₁ b L kids := by
  refine hs.toRack.mild hu.mild ?_
  rw [hu.branches b fun heq => hs.kids.apart r hr heq.symm]
  exact hs.latest

variable [DecidableEq δ] [DecidableEq η]

def Heap.nextHash (h : Heap τ δ η) (M : Model τ δ η) (l : Ref) (data : δ) : Option η :=
  if (h.revs l).data = data then (h.revs l).hash else (nextRev M h l data).hash

/-- Whether the revision of an update is new, with a name and a hash of its own, so that it is
cached with the time of the update. -/
def Heap.Stamped (h : Heap τ δ η) (M : Model τ δ η) (l : Ref) (data : δ) : Prop :=
  (h.revs l).data ≠ data ∧ (nextRev M h l data).hash ≠ (h.revs l).hash ∧ (h.revs l).name ≠ ""

instance (h : Heap τ δ η) (M : Model τ δ η) (l : Ref) (data : δ) :
    Decidable (h.Stamped M l data) :=
  inferInstanceAs (Decidable (_ ∧ _ ∧ _))

/-- The revision of an update of the node with the latest revision `l`. -/
def Heap.updatedRev (h : Heap τ δ η) (M : Model τ δ η) (env : Env) (l : Ref) (data : δ) :
    Revision δ η :=
  if (h.revs l).data = data then h.revs l
  else { nextRev M h l data with
    lastUpdate := if h.Stamped M l data then some env.now else (h.revs l).lastUpdate }

/-- The node of a child has been updated to the data. -/
structure Updated (M : Model τ δ η) (env : Env) (key : δ → String) (data : δ) (h : Heap τ δ η)
    (r l x : Ref) (h₁ : Heap τ δ η) : Prop extends Renewed key h r x h₁ where
  rev : h₁.revs x = h.updatedRev M env l data
  isNew : (h.revs l).data ≠ data → ¬ h.Old x
  stamped : h.Stamped M l data → (h₁.branches (h.revs r).branch).latest = some x ∧
    h₁.cache = Function.update h.cache (h.revs l).name (some x)

section

variable {h₁ : Heap τ δ η} (hu : Updated M env key data h r l x h₁)
include hu

theorem Updated.same_data : (h₁.revs x).data = data := by
  rw [hu.rev, Heap.updatedRev]
  by_cases hdata : (h.revs l).data = data
  · rw [if_pos hdata, hdata]
  · rw [if_neg hdata]
    rfl

theorem Updated.hash : (h₁.revs x).hash = h.nextHash M l data := by
  rw [hu.rev, Heap.updatedRev, Heap.nextHash]
  split_ifs <;> rfl

theorem Updated.lastUpdate : (h₁.revs x).lastUpdate =
    if h.Stamped M l data then some env.now else (h.revs l).lastUpdate := by
  rw [hu.rev, Heap.updatedRev]
  by_cases hdata : (h.revs l).data = data
  · rw [if_pos hdata, if_neg fun hstamped : h.Stamped M l data => hstamped.1 hdata]
  · rw [if_neg hdata]

end

/-- What an update does once the node of the child has been updated. -/
def finishUpdate (M : Model τ δ η) (env : Env) (b L : Ref) (name keyValue : String)
    (children : List (Option Ref)) (idx : ℕ) (childRev newChildRev : Ref) :
    Op τ δ η (Option Ref) := do
  if (← getRev newChildRev).hash = (← getRev childRev).hash then
    if newChildRev ≠ childRev then
      clearHash newChildRev
    return some (← getLatest b)
  else
    setName newChildRev (childName name keyValue)
    replaceChild M env b L name (children.set idx (some newChildRev)) childRev
    return some newChildRev

/-- The end of an update of the child `r` to the revision `x`, with its result saved. -/
def endUpdate (M : Model τ δ η) (env : Env) (b L : Ref) (name keyValue : String)
    (before : List Ref) (r : Ref) (later : List Ref) (x : Ref) : Op τ δ η (Option Ref) := do
  let result ← finishUpdate M env b L name keyValue ((before ++ r :: later).map some)
    before.length r x
  finalizeResult M env result

theorem Rack.endUpdate_of_same (hs : Rack M name field h b L kids)
    (hhash : (h.revs x).hash = (h.revs r).hash) :
    endUpdate M env b L name keyValue before r later x h =
      finalizeResult M env (some L) (if x = r then h else h.clearRev x) := by
  have hlatest : ((h.clearRev x).branches b).latest = some L := hs.latest
  refine bind_of_ok ?_
  unfold finishUpdate
  rw [getRev_bind, getRev_bind, if_pos hhash]
  by_cases hx : x = r
  · rw [if_neg (not_not.mpr hx), if_pos hx]
    exact getLatest_bind hs.latest
  · rw [if_pos hx, if_neg hx, bind_of_ok (clearHash_apply h x)]
    exact getLatest_bind hlatest

theorem Rack.endUpdate_of_new (hs : Rack M name field h b L (before ++ r :: later)) (env : Env)
    (keyValue : String) (hx : h.Old x) (hhash : (h.revs x).hash ≠ (h.revs r).hash) :
    let h₂ := h.nameRev x (childName name keyValue)
    ∃ L' h', endUpdate M env b L name keyValue before r later x h =
        finalizeResult M env (some x) h' ∧
      Relisted M name field h₂ b L'
        (if (nextRoot M name h₂ b L (mergedRefs h₂ (before ++ r :: later)
            (before ++ x :: later))).hash = (h₂.revs L).hash then before ++ r :: later
          else relisted h₂ (before ++ r :: later) (before ++ x :: later) r) h' := by
  intro h₂
  have hmild : Mild (field.keyOf M) h h₂ := mild_nameRev ..
  have hs₂ := hs.mild hmild hs.latest
  have hcs : ∀ r' ∈ before ++ x :: later, h₂.Old r' := forall_mem_replaced hx fun _ => hs₂.old
  obtain ⟨L', h', hreplace, hr⟩ := hs₂.replaceChild_apply env hcs (hs₂.old (r := r) (by simp))
  have hset : ((before ++ r :: later).map some).set before.length (some x) =
      (before ++ x :: later).map some := by simp
  refine ⟨L', h', bind_of_ok ?_, hr⟩
  unfold finishUpdate
  rw [getRev_bind, getRev_bind, if_neg hhash, setName_bind, hset, bind_of_ok hreplace]
  rfl

variable [DecidableEq τ]

section

variable (htype : M.messages.typeOf data = (h.nodes n).type) (hl : (h.branches b).latest = some l)
include htype hl

/-- The latest revision `l` of a child stays when it has the data or the hash of the data. -/
theorem doUpdate_of_same
    (hsame : (h.revs l).data = data ∨
      M.digest.data (h.revs l).hasRoot data = (h.revs l).config.hash) :
    doUpdate M env n b data h = .ok (some l) h := by
  unfold doUpdate
  rw [getNode_bind, if_neg (not_not.mpr htype), getLatest_bind hl, getRev_bind]
  split_ifs with hdata
  · have hupdate : updateData M env l data b h = .ok l h := by
      unfold updateData
      rw [getRev_bind, if_pos (hsame.resolve_left hdata)]
      rfl
    rw [bind_of_ok hupdate, bind_of_ok (makeLatest_of_same hl rfl)]
    rfl
  · rfl

/-- Otherwise there is a new revision, and it is the latest one unless its hash is that of `l`. -/
theorem doUpdate_of_new (hbranch : (h.revs l).branch = b) (hold : h.Old l)
    (hchildren : OldChildren h (h.revs l).children) (hdata : (h.revs l).data ≠ data)
    (hdigest : M.digest.data (h.revs l).hasRoot data ≠ (h.revs l).config.hash) :
    doUpdate M env n b data h = .ok (some (h.fresh env.txid)) (h.updateRev M env b l data) := by
  have hupdate : updateData M env l data b h =
      .ok (h.fresh env.txid) (h.addRev env.txid (nextRev M h l data)) := by
    rw [updateData_apply hdigest hl hchildren, nextRev, hbranch]
  have hlatest : makeLatest env b (h.fresh env.txid) (h.addRev env.txid (nextRev M h l data)) =
      .ok () (h.updateRev M env b l data) := by
    unfold Heap.updateRev
    split_ifs with hhash
    · refine makeLatest_of_same hl ?_
      rw [revs_addRev_fresh, hold.revs_addRev, hhash]
    · refine makeLatest_of_new fun l' hl' => ?_
      have heq : some l' = some l := hl'.symm.trans hl
      cases heq
      rw [revs_addRev_fresh, hold.revs_addRev]
      exact hhash
  unfold doUpdate
  rw [getNode_bind, if_neg (not_not.mpr htype), getLatest_bind hl,
    getRev_bind, if_pos hdata, bind_of_ok hupdate, bind_of_ok hlatest]
  rfl

end

theorem nodeUpdate_node (hb : (h.nodes n).branches NONE = some b) (stack : ℕ) :
    nodeUpdate M env "" data stack n "" h = doUpdate M env n b data h := by
  have hempty : stripSlashes "" = "" := by decide
  cases stack <;>
    rw [nodeUpdate, nodeUpdateWith, hempty, bind_of_ok (branchFor_none hb), if_pos rfl]

theorem View.nodeUpdate_entry {txid : String} (hv : View M env txid name field h b L)
    (hk : Segment k) (stack : ℕ) :
    nodeUpdate M env txid data (stack + 1) h.root (entryPath name k) h = (do
      let children := ((h.revs L).getChildren name).entries
      match ← findRevByKey M field.key (field.keyFromStr k) children with
      | none => return some (← getLatest b)
      | some (idx, childRev) =>
        let newChildRev ← deref (← nodeUpdate M env txid data stack (← nodeOf childRev) "")
        finishUpdate M env b L name (field.keyFromStr k) children idx childRev newChildRev :
      Op τ δ η (Option Ref)) h := by
  have hpath : name ++ "/" ++ k ≠ "" := fun heq => by
    simpa using congrArg String.toList heq
  rw [nodeUpdate, nodeUpdateWith, stripSlashes_entryPath hv.segment, bind_of_ok hv.branch,
    if_neg hpath, getLatest_bind hv.latest, partition_slash hv.segment.whole]
  dsimp only
  rw [getNode_bind, hv.lookup]
  dsimp only
  rw [getRev_bind, if_pos hv.container,
    if_neg (not_or.mpr ⟨hk.ne_empty, hv.keyed⟩), partition_whole hk.whole]
  rfl

section

variable (hs : Shelf M name field h b L kids)
include hs

theorem Shelf.nodeUpdate_entry (hk : Segment k) (stack : ℕ) :
    nodeUpdate M env "" data (stack + 1) h.root (entryPath name k) h = (do
      match ← findRevByKey M field.key (field.keyFromStr k) (kids.map some) with
      | none => return some (← getLatest b)
      | some (idx, childRev) =>
        let newChildRev ← deref (← nodeUpdate M env "" data stack (← nodeOf childRev) "")
        finishUpdate M env b L name (field.keyFromStr k) (kids.map some) idx childRev newChildRev :
      Op τ δ η (Option Ref)) h := by
  rw [(hs.view env).nodeUpdate_entry hk, hs.children]

theorem Shelf.nodeUpdate_empty (stack : ℕ) :
    nodeUpdate M env "" data stack h.root (entryPath name "") h = .ok none h := by
  have hpath : name ++ "/" ++ "" ≠ "" := fun heq => by
    simpa using congrArg String.toList heq
  cases stack <;>
    rw [nodeUpdate, nodeUpdateWith, stripSlashes_entryPath hs.segment,
      bind_of_ok (branchFor_none hs.branch), if_neg hpath, getLatest_bind hs.latest,
      partition_slash hs.segment.whole] <;>
    dsimp only <;>
    rw [getNode_bind, hs.lookup] <;>
    dsimp only <;>
    rw [getRev_bind, if_pos hs.container, if_pos (.inl rfl)] <;>
    rfl

theorem Shelf.nodeUpdate_absent (hk : Segment k)
    (habsent : ∀ r ∈ kids, h.keyAt M field r ≠ field.keyFromStr k) (stack : ℕ) :
    nodeUpdate M env "" data (stack + 1) h.root (entryPath name k) h = .ok (some L) h := by
  rw [hs.nodeUpdate_entry hk, bind_of_ok (findRevByKey_of_notMem habsent)]
  dsimp only
  rw [getLatest_bind hs.latest]
  rfl

end

theorem Shelf.nodeUpdate_present {h1 : Heap τ δ η}
    (hs : Shelf M name field h b L (before ++ r :: later)) (hk : Segment k)
    (hkey : h.keyAt M field r = field.keyFromStr k)
    (hdo : doUpdate M env (h.branches (h.revs r).branch).node (h.revs r).branch data h =
      .ok (some x) h1) (stack : ℕ) :
    nodeUpdate M env "" data (stack + 1) h.root (entryPath name k) h =
      finishUpdate M env b L name (field.keyFromStr k) ((before ++ r :: later).map some)
        before.length r x h1 := by
  have hr := hs.kids.kid r (by simp)
  rw [hs.nodeUpdate_entry hk,
    bind_of_ok (findRevByKey_of_first (hs.kids.keyAt_ne_of_before hkey) hkey)]
  dsimp only
  rw [bind_of_ok (nodeOf_apply h r), bind_of_ok ((nodeUpdate_node hr.branch stack).trans hdo),
    deref_bind]

section

variable (hk : Kid M field h r) (env : Env)
  (hl : LatestIs (field.keyOf M) h (h.revs r).branch (h.keyAt M field r) l)
  (htype : M.messages.typeOf data = field.classType)
include hk hl htype

theorem Kid.doUpdate_of_same (hsame : (h.revs l).data = data ∨
      M.digest.data (h.revs l).hasRoot data = (h.revs l).config.hash) :
    doUpdate M env (h.branches (h.revs r).branch).node (h.revs r).branch data h = .ok (some l) h :=
  Nodes.doUpdate_of_same (htype.trans hk.type.symm) hl.latest hsame

theorem Kid.doUpdate_updated (key : δ → String) (hkey : key data = key (h.revs l).data)
    (hdata : (h.revs l).data = data ∨
      M.digest.data (h.revs l).hasRoot data ≠ (h.revs l).config.hash) :
    ∃ x h₁, doUpdate M env (h.branches (h.revs r).branch).node (h.revs r).branch data h =
      .ok (some x) h₁ ∧ Updated M env key data h r l x h₁ := by
  by_cases hsame : (h.revs l).data = data
  · exact ⟨l, h, hk.doUpdate_of_same env hl htype (.inl hsame), hk.renewed_latest hl,
      (if_pos hsame).symm, fun hne => absurd hsame hne, fun hstamped => absurd hsame hstamped.1⟩
  refine ⟨_, _, doUpdate_of_new (htype.trans hk.type.symm) hl.latest hl.branch hl.old hl.children
    hsame (hdata.resolve_left hsame), ?_⟩
  unfold Heap.updateRev
  set h₁ := h.addRev env.txid (nextRev M h l data)
  have hnew : h₁.revs (h.fresh env.txid) = nextRev M h l data := revs_addRev_fresh
  have hold : h₁.Old (h.fresh env.txid) := old_addRev_fresh _
  have hadd : Mild key h h₁ := mild_addRev h _ _
  have hbranch : (h₁.revs (h.fresh env.txid)).branch = (h.revs r).branch := by
    rw [hnew]
    exact hl.branch
  split_ifs with hhash
  · refine ⟨⟨grows_addRev h _ _, fun _ _ => rfl, hold, hbranch,
      hk.hasLatest.mild hadd hk.old rfl⟩, ?_, fun _ => not_old_fresh,
      fun hstamped => absurd hhash hstamped.2.1⟩
    rw [hnew, Heap.updatedRev, if_neg hsame,
      if_neg fun hstamped : h.Stamped M l data => hstamped.2.1 hhash]
    rfl
  · have hchildren : OldChildren h₁ (h₁.revs (h.fresh env.txid)).children := by
      rw [hnew]
      exact hadd.oldChildren (oldChildren_appendChildren hl.children)
    have hmade : Mild key h₁ (h₁.madeLatest env (h.revs r).branch (h.fresh env.txid)) := by
      refine mild_madeLatest env hold hbranch hchildren fun k' l' hl' => ?_
      -- the latest revision is still `l`
      obtain rfl : l = l' := Option.some.inj (hl.latest.symm.trans hl'.latest)
      rw [← hl'.key, hl.old.revs_addRev, hnew]
      exact hkey
    have hlatest : ((h₁.madeLatest env (h.revs r).branch (h.fresh env.txid)).branches
        (h.revs r).branch).latest = some (h.fresh env.txid) := by
      rw [madeLatest_branches, update_self]
    refine ⟨⟨⟨hadd.trans hmade, fun hr' => ?_, ?_⟩, fun b' hb' => ?_, hmade.old hold, ?_,
      h.fresh env.txid, ?_, hmade.old hold, ?_⟩, ?_, fun _ => not_old_fresh,
      fun hstamped => ⟨hlatest, ?_⟩⟩
    · rw [madeLatest_revs_of_ne hr'.ne_fresh, hr'.revs_addRev]
    · rw [madeLatest_store]
      rfl
    · rw [madeLatest_branches, update_of_ne hb']
      rfl
    · rw [hmade.branch hold, hbranch]
    · rwa [madeLatest_revs_of_ne hk.old.ne_fresh, hk.old.revs_addRev]
    · rw [hmade.children hold]
      exact hmade.oldChildren hchildren
    · have hiff : h.Stamped M l data ↔ (h.revs l).name ≠ "" :=
        ⟨fun hstamped => hstamped.2.2, fun hname => ⟨hsame, hhash, hname⟩⟩
      rw [madeLatest_self, hnew, Heap.updatedRev, if_neg hsame, if_congr hiff rfl rfl, ite_not]
      rfl
    · rw [madeLatest_cache, hnew, if_neg]
      · rfl
      · exact hstamped.2.2

/-- The node of a child is updated to data with its key. -/
theorem Kid.doUpdate_renewed (hkey : field.keyOf M data = h.keyAt M field r) :
    ∃ x h₁, doUpdate M env (h.branches (h.revs r).branch).node (h.revs r).branch data h =
      .ok (some x) h₁ ∧ Renewed (field.keyOf M) h r x h₁ ∧
        h₁.keyAt M field x = h.keyAt M field r := by
  by_cases hsame : (h.revs l).data = data ∨
      M.digest.data (h.revs l).hasRoot data = (h.revs l).config.hash
  · exact ⟨l, h, hk.doUpdate_of_same env hl htype hsame, hk.renewed_latest hl, hl.key⟩
  · rw [not_or] at hsame
    obtain ⟨x, h₁, hdo, hu⟩ :=
      hk.doUpdate_updated env hl htype (field.keyOf M) (hkey.trans hl.key.symm) (.inr hsame.2)
    exact ⟨x, h₁, hdo, hu.toRenewed, by rw [Heap.keyAt, hu.same_data, hkey]⟩

end

end Updating

/-! ### Additions -/

section Adding

theorem hashesAt_of_old (hhash : ∀ {r}, h.Old r → (h'.revs r).hash = (h.revs r).hash)
    {children : GoMap String (Slice Ref)} (hold : OldChildren h children) (name : String) :
    hashesAt h' children name = hashesAt h children name := by
  refine filterMap_congr fun r hr => ?_
  rw [hhash (hold name r (reduceOption_mem_iff.mp hr))]

/-- The hash of the root depends on its revision and on the hashes of the children. -/
theorem rootHash_of_old (hL : h'.revs L = h.revs L)
    (hhash : ∀ {r}, h.Old r → (h'.revs r).hash = (h.revs r).hash)
    (hold : OldChildren h (h.revs L).children) (name : String) (hashes : List η) :
    M.rootHash h' L name hashes = M.rootHash h L name hashes := by
  rw [Model.rootHash, Model.rootHash, hL]
  congr 1
  refine flatMap_congr fun name' _ => ?_
  rw [hashesAt_of_old hhash hold]

/-- A child that has just been made, the only revision of its node. -/
structure Planted (M : Model τ δ η) (txid : String) (field : ChildType τ) (path : String)
    (data : δ) (h : Heap τ δ η) (x : Ref) (h' : Heap τ δ η) :
    Prop extends Grows (field.keyOf M) h h' where
  branches : ∀ {b}, h.Old b → h'.branches b = h.branches b
  isNew : ¬ h.Old x
  old : h'.Old x
  new_branch : ¬ h.Old (h'.revs x).branch
  kid : txid = "" → M.messages.typeOf data = field.classType → Kid M field h' x
  latest : (h'.branches (h'.revs x).branch).latest = some x
  config : (h'.revs x).config = ⟨data, M.digest.data h.store.isNone data⟩
  name : (h'.revs x).name = path
  hash : (h'.revs x).hash = some (firstHash M h.store.isNone txid data)
  hasRoot : (h'.revs x).hasRoot = h.store.isNone

/-- A new child is named, gets a version and may be cached. -/
theorem makeNode_planted [DecidableEq η] (M : Model τ δ η) (field : ChildType τ) (h : Heap τ δ η)
    (env : Env) (txid path : String) (data : δ) :
    ∃ n x h₁, makeNode M env data txid h = .ok n h₁ ∧ latest n txid h₁ = .ok (some x) h₁ ∧
      h₁.cache = h.cache ∧ ∀ version cache, Planted M txid field path data h x
        { h₁.setRev x { h₁.revs x with name := path, version } with cache } := by
  obtain ⟨n, b, x, h₁, hrun, hx, hn, -, hnew_b, hnew_x⟩ :=
    makesNode_makeNode M env h.store data txid h rfl
  refine ⟨n, x, h₁, hrun, by rw [latest_apply hn, if_pos rfl], hx.cache, fun version cache => ?_⟩
  set h' := { h₁.setRev x { h₁.revs x with name := path, version } with cache }
  have hrev : h'.revs x = { h₁.revs x with name := path, version } := update_self ..
  have hbranch : (h'.revs x).branch = b := by
    rw [hrev]
    exact hn.rev.branch
  have hbranches : h'.branches b = ⟨n, "", some x⟩ := hn.branch
  have hnodes : h'.nodes n =
      ⟨M.messages.typeOf data, Function.update (fun _ => none) (branchKey txid) b⟩ := hn.node
  have hset := hx.setRev hnew_x { h₁.revs x with name := path, version }
  refine ⟨⟨hset.mild.trans (mild_cache ..), hset.revs_old, hset.store⟩, hset.branches_old,
    fun hold => hold.not_isNew hnew_x, hn.old_rev, fun hold => ?_, ?_, ?_, ?_, ?_, ?_, ?_⟩
  · rw [hbranch] at hold
    exact hold.not_isNew hnew_b
  · rintro rfl htype
    refine ⟨hn.old_rev, ?_, ?_, ?_, ?_, ?_, x, ?_, hn.old_rev, rfl, ?_, rfl⟩
    · rw [hbranch]
      exact hn.old_branch
    · rw [hbranch, hbranches]
      exact hn.old_node
    · rw [hbranch, hbranches, hnodes]
      exact htype
    · rw [hbranch, hbranches, hnodes]
      simp [branchKey]
    · rw [hbranch, hbranches]
    · rw [hbranch, hbranches]
    · rw [hrev]
      exact hn.rev.children
  · rw [hbranch, hbranches]
  · rw [hrev, ← hx.store]
    exact hn.rev.config
  · rw [hrev]
  · rw [hrev]
    exact hn.rev.hash
  · rw [hrev, ← hx.store]
    exact hn.rev.hasRoot

variable {txid path : String}

theorem Planted.rack (hp : Planted M txid field path data h x h')
    (hs : Rack M name field h b L kids) : Rack M name field h' b L kids :=
  hs.mild hp.mild (by rw [hp.branches hs.old_branch]; exact hs.latest)

theorem Planted.same_data (hp : Planted M txid field path data h x h') :
    (h'.revs x).data = data :=
  congrArg DataRevision.data hp.config

theorem Planted.keyAt (hp : Planted M txid field path data h x h') :
    h'.keyAt M field x = field.keyOf M data := by
  rw [Heap.keyAt, hp.same_data]

theorem Planted.concat (hp : Planted M "" field path data h x h')
    (htype : M.messages.typeOf data = field.classType) (hk : Kids M field h b kids) (hb : h.Old b)
    (hfresh : ∀ r ∈ kids, h.keyAt M field r ≠ field.keyOf M data) :
    Kids M field h' b (kids ++ [x]) := by
  have hk' : Kids M field h' b kids := hk.mild hp.mild
  refine ⟨fun r hr => ?_, fun r hr => ?_, ?_, ?_⟩
  · rcases mem_append.mp hr with hr | hr
    · exact hk'.kid r hr
    · obtain rfl := mem_singleton.mp hr
      exact hp.kid rfl htype
  · rcases mem_append.mp hr with hr | hr
    · exact hk'.apart r hr
    · obtain rfl := mem_singleton.mp hr
      exact fun heq => hp.new_branch (heq ▸ hb)
  · refine pairwise_append.mpr ⟨hk'.distinct, pairwise_singleton _ _, fun r hr r' hr' heq => ?_⟩
    obtain rfl := mem_singleton.mp hr'
    rw [hp.revs (hk.kid r hr).old] at heq
    exact hp.new_branch (heq ▸ (hk.kid r hr).old_branch)
  · rw [map_append, map_singleton]
    refine nodup_append.mpr ⟨hk'.keys, nodup_singleton _, ?_⟩
    intro key hkey key' hkey' heq
    obtain ⟨r, hr, rfl⟩ := mem_map.mp hkey
    obtain rfl := mem_singleton.mp hkey'
    refine hfresh r hr ?_
    rw [← hp.mild.keyAt (hk.kid r hr).old, heq, hp.keyAt]

variable [DecidableEq δ] [DecidableEq η]

theorem Shelf.addChild_of_absent (hs : Shelf M name field h b L kids) (env : Env)
    (htype : M.messages.typeOf data = field.classType)
    (hfresh : ∀ r ∈ kids, h.keyAt M field r ≠ field.keyOf M data) :
    ∃ x h₁ L' h', addChild M env b L name field data h = .ok (some x) h' ∧
      h₁.cache = h.cache ∧ Planted M "" field (childName name
        (M.messages.attributeString field.key data)) data h x h₁ ∧
      Kids M field h₁ b (kids ++ [x]) ∧
      Relisted M name field h₁ b L' (if some (M.rootHash h L name ((kids.filterMap fun r =>
          (h.revs r).hash) ++ [firstHash M h.store.isNone "" data])) = (h.revs L).hash then kids
        else kids ++ [x]) h' := by
  have habsent : ∀ r ∈ kids,
      h.keyAt M field r ≠ M.messages.attributeString field.key data := fun r hr => by
    cases hstring : field.isString with
    | true =>
      rw [M.messages.attributeString_eq hs.lookup hstring]
      exact hfresh r hr
    | false => exact (M.messages.attributeString_ne hs.lookup hstring _ _).symm
  obtain ⟨n, x, hn, hmake, hlatest, hcache, hp⟩ := makeNode_planted M field h env ""
    (childName name (M.messages.attributeString field.key data)) data
  have hp := hp (hn.revs x).version hn.cache
  set h₁ := hn.nameRev x (childName name (M.messages.attributeString field.key data))
  have hp : Planted M "" field _ data h x h₁ := hp
  have hs₁ := hp.rack hs.toRack
  have hkids := hp.concat htype hs.kids hs.old_branch hfresh
  have hmerged : mergedRefs h₁ kids (kids ++ [x]) = kids ++ [x] := by
    refine (hs.kids.mild hp.mild).mergedRefs_concat fun r hr => ?_
    rw [hp.mild.keyAt (hs.old hr), hp.keyAt]
    exact hfresh r hr
  have hhashes : ((kids ++ [x]).filterMap fun r => (h₁.revs r).hash) =
      (kids.filterMap fun r => (h.revs r).hash) ++ [firstHash M h.store.isNone "" data] := by
    rw [filterMap_append, filterMap_congr fun r hr => hp.toGrows.hash (hs.old hr)]
    simp [hp.hash]
  have hold : ∀ r ∈ kids ++ [x], h₁.Old r := fun r hr => (hkids.kid r hr).old
  obtain ⟨u, h₂, L', h', hupdate, hmade, hr⟩ := hs₁.relist env hold
  rw [hmerged, nextRoot_hash, hhashes, rootHash_of_old (hp.revs hs.old_latest) hp.toGrows.hash
    hs.old_children, hp.revs hs.old_latest] at hr
  refine ⟨x, h₁, L', h', ?_, hcache, hp, hkids, hr⟩
  have hconcat : kids.map some ++ [some x] = (kids ++ [x]).map some := by simp
  unfold addChild
  rw [getRev_bind, hs.children, bind_of_ok (findRevByKey_of_notMem habsent)]
  dsimp only
  rw [bind_of_ok hmake, bind_of_ok hlatest, deref_bind, setName_bind, hconcat,
    bind_of_ok hupdate, bind_of_ok hmade]
  rfl

theorem Shelf.addChild_of_present {before later : List Ref}
    (hs : Shelf M name field h b L (before ++ r :: later)) (env : Env)
    (hkey : h.keyAt M field r = M.messages.attributeString field.key data) :
    addChild M env b L name field data h = .ok (some r) h := by
  unfold addChild
  rw [getRev_bind, hs.children,
    bind_of_ok (findRevByKey_of_first (hs.kids.keyAt_ne_of_before hkey) hkey)]
  rfl

theorem View.nodeAdd_container (hv : View M env txid name field h b L) (data : δ) (stack : ℕ) :
    nodeAdd M env txid data stack h.root (containerPath name) h =
      addChild M env b L name field data h := by
  have hguard : ¬ ((!field.isContainer) = true ∨ field.key = "") := by
    simp [hv.container, hv.keyed]
  cases stack <;>
    rw [nodeAdd, nodeAddWith, stripSlashes_containerPath hv.segment, if_neg hv.segment.ne_empty,
      bind_of_ok hv.branch, getLatest_bind hv.latest, partition_whole hv.segment.whole] <;>
    dsimp only <;>
    rw [getNode_bind, hv.lookup] <;>
    dsimp only <;>
    rw [if_neg hguard, if_pos rfl]

end Adding

/-! ### Removals -/

section Removing

/-- The memory without an entry in the cache and, when the store answers, in the store. -/
def Heap.dropEntry (h : Heap τ δ η) (env : Env) (path : String) : Heap τ δ η :=
  (if env.up then h.setStore (h.store.map (Store.delete path)) else h).setCache path none

section

variable (h : Heap τ δ η) (env : Env) (path : String)

theorem mild_dropEntry {key : δ → String} :
    Mild key h (h.dropEntry env path) := by
  unfold Heap.dropEntry
  split_ifs
  · exact (mild_setStore h _).trans (mild_setCache _ _ _)
  · exact mild_setCache _ _ _

theorem dropEntry_branches :
    (h.dropEntry env path).branches = h.branches := by
  unfold Heap.dropEntry
  split_ifs <;> rfl

theorem dropEntry_revs :
    (h.dropEntry env path).revs = h.revs := by
  unfold Heap.dropEntry
  split_ifs <;> rfl

theorem dropEntry_cache :
    (h.dropEntry env path).cache = Function.update h.cache path none := by
  unfold Heap.dropEntry
  split_ifs <;> rfl

end

theorem Shelf.setKids {rs : List Ref} (hs : Shelf M name field h b L kids)
    (hsub : rs.Sublist kids) : Shelf M name field (h.setKids L name rs) b L rs := by
  have hrev : ∀ {r}, (h.revs r).branch ≠ b → (h.setKids L name rs).revs r = h.revs r :=
    fun hne => update_of_ne (fun heq => hne (by rw [heq, hs.latest_branch])) _ _
  have hself : (h.setKids L name rs).revs L = { h.revs L with
      children := (h.revs L).children.insert name (some (rs.map some)) } :=
    update_self ..
  have hkids := hs.kids.sublist hsub
  have hkid : ∀ r ∈ rs, (h.setKids L name rs).revs r = h.revs r := fun r hr =>
    hrev (hkids.apart r hr)
  have hkey : ∀ r ∈ rs, (h.setKids L name rs).keyAt M field r = h.keyAt M field r :=
    fun r hr => by rw [Heap.keyAt, hkid r hr, Heap.keyAt]
  refine ⟨⟨hs.segment, hs.lookup, hs.container, hs.keyed, hs.old_root, hs.branch, hs.old_branch,
    hs.txid, hs.latest, hs.old_latest, ?_, ?_, ?_⟩, fun r hr => ?_, fun r hr => ?_, ?_, ?_⟩
  · rw [hself]
    exact hs.latest_branch
  · rw [hself]
    exact entries_lookup_insert _ rs
  · rw [hself]
    exact oldChildren_insert hs.old_children fun r hr => (hkids.kid r hr).old
  · obtain ⟨hold, hold_branch, hold_node, htype, hnone, htxid, l, hl⟩ := hkids.kid r hr
    have hlrev : (h.setKids L name rs).revs l = h.revs l :=
      hrev (by rw [hl.branch]; exact hkids.apart r hr)
    rw [← hkid r hr] at hold_branch hold_node htype hnone htxid hl
    rw [← hkey r hr] at hl
    refine ⟨hold, hold_branch, hold_node, htype, hnone, htxid, l, hl.latest, hl.old, ?_, ?_, ?_⟩
    · rw [hlrev, hl.branch]
    · rw [hlrev]
      exact hl.children
    · rw [hlrev]
      exact hl.key
  · rw [hkid r hr]
    exact hkids.apart r hr
  · exact hkids.distinct.imp_of_mem fun hr hr' hne => by
      rw [hkid _ hr, hkid _ hr']
      exact hne
  · rw [map_congr_left hkey]
    exact hkids.keys

theorem Shelf.dropChild_shelf (hs : Shelf M name field h b L (before ++ r :: later)) (env : Env)
    (path : String) :
    Shelf M name field ((h.dropEntry env path).setKids L name (before ++ later)) b L
      (before ++ later) := by
  have hs' : Shelf M name field (h.dropEntry env path) b L (before ++ r :: later) :=
    hs.mild (mild_dropEntry h env path) (by rw [dropEntry_branches]; exact hs.latest)
  exact hs'.setKids ((sublist_cons_self r later).append_left before)

theorem storageDrop_apply (h : Heap τ δ η) (env : Env) (r : Ref) :
    storageDrop env r "" h = .ok ()
      (if env.up then h.setStore (h.store.map (Store.delete (h.revs r).name)) else h) := by
  unfold storageDrop changeStore
  rw [if_pos rfl, getRev_bind]
  split_ifs <;> rfl

variable [DecidableEq η]

theorem Shelf.dropChild_apply (hs : Shelf M name field h b L (before ++ r :: later)) (env : Env) :
    dropChild env "" b L name ((before ++ r :: later).map some) before.length r h =
      .ok (some L) ((h.dropEntry env (h.revs r).name).setKids L name (before ++ later)) := by
  have herase : ((before ++ r :: later).map some).eraseIdx before.length =
      (before ++ later).map some := by
    rw [eraseIdx_map, eraseIdx_append_of_length_le le_rfl, Nat.sub_self, eraseIdx_cons_zero]
  set h1 := if env.up then h.setStore (h.store.map (Store.delete (h.revs r).name)) else h with hh1
  have hname : h1.revs r = h.revs r := by
    rw [hh1]
    split_ifs <;> rfl
  have hcache : cacheDelete (h.revs r).name h1 = .ok () (h.dropEntry env (h.revs r).name) := rfl
  have hset : setChildren L name ((before ++ later).map some) (h.dropEntry env (h.revs r).name) =
      .ok () ((h.dropEntry env (h.revs r).name).setKids L name (before ++ later)) := rfl
  have hlatest : (((h.dropEntry env (h.revs r).name).setKids L name
      (before ++ later)).branches b).latest = some L := by
    rw [Heap.setKids, setRev_branches, dropEntry_branches]
    exact hs.latest
  unfold dropChild
  rw [bind_of_ok (storageDrop_apply h env r), getRev_bind, hname,
    bind_of_ok hcache, herase, bind_of_ok hset, bind_of_ok (Nodes.makeLatest_of_same hlatest rfl)]
  rfl

theorem View.nodeRemove_entry {txid : String} (hv : View M env txid name field h b L)
    (hk : Segment k) (stack : ℕ) :
    nodeRemove M env txid stack h.root (entryPath name k) h = (do
      let children := ((h.revs L).getChildren name).entries
      match ← findRevByKey M field.key (field.keyFromStr k) children with
      | none =>
        if !field.isString then
          throw (.crash "interface conversion")
        else
          return none
      | some (idx, childRev) => dropChild env txid b L name children idx childRev :
      Op τ δ η (Option Ref)) h := by
  have hguard : ¬ ((!field.isContainer) = true ∨ k = "" ∨ field.key = "") := by
    simp [hv.container, hv.keyed, hk.ne_empty]
  cases stack <;>
    rw [nodeRemove, nodeRemoveWith, stripSlashes_entryPath hv.segment, bind_of_ok hv.branch,
      getLatest_bind hv.latest, partition_slash hv.segment.whole] <;>
    dsimp only <;>
    rw [getNode_bind, hv.lookup] <;>
    dsimp only <;>
    rw [if_neg hguard, partition_whole hk.whole, getRev_bind] <;>
    rfl

theorem Shelf.nodeRemove_empty (hs : Shelf M name field h b L kids) (env : Env) (stack : ℕ) :
    nodeRemove M env "" stack h.root (entryPath name "") h = .ok none h := by
  have hguard : (!field.isContainer) = true ∨ "" = "" ∨ field.key = "" := .inr (.inl rfl)
  cases stack <;>
    rw [nodeRemove, nodeRemoveWith, stripSlashes_entryPath hs.segment,
      bind_of_ok (branchFor_none hs.branch), getLatest_bind hs.latest,
      partition_slash hs.segment.whole] <;>
    dsimp only <;>
    rw [getNode_bind, hs.lookup] <;>
    dsimp only <;>
    rw [if_pos hguard] <;>
    rfl

end Removing

end VolthaCore.Nodes
