import Mathlib.Data.List.InsertIdx
import Mathlib.Data.List.ReduceOption
import VolthaCore.DataModel.Fields
import VolthaCore.Lib.Triple
import VolthaCore.Nodes.Operations

/-! How the steps of the operations change the memory: what each of them returns and
leaves behind. -/

namespace VolthaCore.Nodes

open Outcome DataModel List Function

section Primitives

variable {τ δ η : Type} (env : Env) (h : Heap τ δ η)

def Heap.addRev (o : String) (rev : Revision δ η) : Heap τ δ η :=
  (h.alloc o).setRev (h.fresh o) rev

def Heap.nameRev (r : Ref) (name : String) : Heap τ δ η :=
  h.setRev r { h.revs r with name }

def Heap.clearRev (r : Ref) : Heap τ δ η :=
  h.setRev r { h.revs r with hash := none }

theorem setName_apply (r : Ref) (name : String) :
    setName r name h = .ok () (h.nameRev r name) := rfl

theorem clearHash_apply (r : Ref) : clearHash r h = .ok () (h.clearRev r) := rfl

theorem newRev_apply (rev : Revision δ η) :
    newRev env rev h = .ok (h.fresh env.txid) (h.addRev env.txid rev) := rfl

theorem newNode_apply (node : Node τ) :
    newNode env node h = .ok (h.fresh env.txid)
      ((h.alloc env.txid).setNode (h.fresh env.txid) node) := rfl

theorem setNodeBranch_apply (n : Ref) (txid : String) (b : Option Ref) :
    setNodeBranch n txid b h = .ok () (h.setNode n { h.nodes n with
      branches := Function.update (h.nodes n).branches txid b }) := rfl

-- What a computation does after one of these reads or writes.
section

variable {h} {α : Type} {r : Ref} {f : Ref → Op τ δ η α} {path : String}

theorem deref_bind : (deref (some r) >>= f) h = f r h := rfl

theorem getRev_bind {f : Revision δ η → Op τ δ η α} : (getRev r >>= f) h = f (h.revs r) h := rfl

theorem getRevs_bind {rs : List Ref} {f : List (Revision δ η) → Op τ δ η α} :
    (getRevs rs >>= f) h = f (rs.map h.revs) h := rfl

theorem setName_bind {name : String} {f : Unit → Op τ δ η α} :
    (setName r name >>= f) h = f () (h.nameRev r name) := rfl

theorem getBranch_bind {b : Ref} {f : Branch → Op τ δ η α} :
    (getBranch b >>= f) h = f (h.branches b) h := rfl

theorem newBranch_bind {env : Env} {branch : Branch} :
    (newBranch env branch >>= f) h =
      f (h.fresh env.txid) ((h.alloc env.txid).setBranch (h.fresh env.txid) branch) := rfl

theorem getLatest_bind {b : Ref} (hb : (h.branches b).latest = some r) :
    (getLatest b >>= f) h = f r h := by
  rw [getLatest, bind_assoc, getBranch_bind, hb, deref_bind]

theorem getNode_bind {n : Ref} {f : Node τ → Op τ δ η α} :
    (getNode n >>= f) h = f (h.nodes n) h := rfl

theorem getStore_bind {f : Option (Store δ) → Op τ δ η α} :
    (getStore >>= f) h = f h.store h := rfl

theorem getRoot_bind : (getRoot >>= f) h = f h.root h := rfl

theorem cacheGet_bind {f : Option Ref → Op τ δ η α} :
    (cacheGet path >>= f) h = f (h.cache path) h := rfl

theorem cacheSet_bind {f : Unit → Op τ δ η α} :
    (cacheSet path r >>= f) h = f () (h.setCache path (some r)) := rfl

end

variable {env h}

theorem changeStore_apply {s : Store δ} (hup : env.up = true) (hs : h.store = some s)
    (f : Store δ → Store δ) :
    changeStore env f h = .ok () (h.setStore (some (f s))) := by
  rw [changeStore, if_pos hup]
  change EStateM.Result.ok () (h.setStore (h.store.map f)) = _
  rw [hs, Option.map_some]

theorem getLatest_apply {b r : Ref} (hb : (h.branches b).latest = some r) :
    getLatest b h = .ok r h := by
  rw [getLatest, getBranch_bind, hb]
  rfl

end Primitives

/-! ### Old and new objects -/

section Objects

variable {τ δ η : Type} {h : Heap τ δ η} {o : String} {r : Ref}

/-- The address has been given to an object. -/
def Heap.Old (h : Heap τ δ η) (r : Ref) : Prop := r.num < h.next r.owner

instance (h : Heap τ δ η) (r : Ref) : Decidable (h.Old r) :=
  inferInstanceAs (Decidable (r.num < h.next r.owner))

theorem Heap.Old.ne_fresh (hr : h.Old r) : r ≠ h.fresh o := by
  rintro rfl
  exact lt_irrefl _ hr

@[simp] theorem Heap.not_old_fresh : ¬ h.Old (h.fresh o) := fun hr => hr.ne_fresh rfl

@[simp] theorem Heap.old_alloc_fresh : (h.alloc o).Old (h.fresh o) := by
  simp [Old, fresh]

theorem Heap.Old.alloc (hr : h.Old r) : (h.alloc o).Old r := by
  unfold Old at hr ⊢
  rw [alloc_next, update_apply]
  split_ifs with he
  · rw [← he]
    exact Nat.lt_succ_of_lt hr
  · exact hr

variable {α : Type} {rev : Revision δ η}

/-- What another revision has in common with the one before stays at every address. -/
theorem Heap.revs_setRev (f : Revision δ η → α) (hf : f rev = f (h.revs r)) (r' : Ref) :
    f ((h.setRev r rev).revs r') = f (h.revs r') := by
  rw [setRev_revs, update_apply]
  split_ifs with heq
  · rw [heq, hf]
  · rfl

theorem Heap.branches_setBranch (f : Branch → α) {b : Ref} {branch : Branch}
    (hf : f branch = f (h.branches b)) (b' : Ref) :
    f ((h.setBranch b branch).branches b') = f (h.branches b') := by
  rw [setBranch_branches, update_apply]
  split_ifs with heq
  · rw [heq, hf]
  · rfl

section

variable (rev : Revision δ η)

@[simp] theorem Heap.addRev_branches :
    (h.addRev o rev).branches = h.branches := rfl

end

@[simp] theorem Heap.revs_addRev_fresh :
    (h.addRev o rev).revs (h.fresh o) = rev := update_self ..

theorem Heap.Old.revs_addRev (hr : h.Old r) (rev : Revision δ η) :
    (h.addRev o rev).revs r = h.revs r := update_of_ne hr.ne_fresh ..

@[simp] theorem Heap.old_addRev_fresh (rev : Revision δ η) :
    (h.addRev o rev).Old (h.fresh o) := old_alloc_fresh

theorem Heap.Old.addRev (hr : h.Old r) (rev : Revision δ η) : (h.addRev o rev).Old r := hr.alloc

end Objects

/-! ### Revisions -/

section Revisions

variable {τ δ η : Type} {M : Model τ δ η} {env : Env} {h : Heap τ δ η}

/-- The hash of a revision by what it holds. -/
def Model.hashOf (M : Model τ δ η) (h : Heap τ δ η) (rev : Revision δ η) : η :=
  M.digest.content rev.config.hash rev.name
    ((hashedChildren rev.children).filterMap fun r => (h.revs r).hash)

/-- All children of a revision have been made. -/
def OldChildren (h : Heap τ δ η) (children : GoMap String (Slice Ref)) : Prop :=
  ∀ name r, some r ∈ entriesOf children name → h.Old r

variable {children : GoMap String (Slice Ref)} {r : Ref} {name keyName value : String}
  {rs : List Ref} {rev : Revision δ η}

theorem mem_hashedChildren (hr : r ∈ hashedChildren children) :
    ∃ name, some r ∈ entriesOf children name := by
  obtain ⟨name, -, hr⟩ := mem_flatMap.mp (reduceOption_mem_iff.mp hr)
  exact ⟨name, hr⟩

def hashesAt (h : Heap τ δ η) (children : GoMap String (Slice Ref)) (name : String) : List η :=
  (entriesOf children name).reduceOption.filterMap fun r => (h.revs r).hash

theorem hashesAt_eq (hrs : entriesOf children name = rs.map some) :
    hashesAt h children name = rs.filterMap fun r => (h.revs r).hash := by
  simp [hashesAt, hrs, List.reduceOption, filterMap_map]

theorem hashesAt_of_notMem (hname : name ∉ children) : hashesAt h children name = [] := by
  rw [hashesAt, entriesOf, AList.lookup_eq_none.mpr hname]
  rfl

def hashesOf (h : Heap τ δ η) (children : GoMap String (Slice Ref)) : List η :=
  (hashedChildren children).filterMap fun r => (h.revs r).hash

theorem Model.hashOf_eq (M : Model τ δ η) (h : Heap τ δ η) (rev : Revision δ η) :
    M.hashOf h rev =
      M.digest.content rev.config.hash rev.name (hashesOf h rev.children) := rfl

/-- The children are covered field by field. Fields without children may be added. -/
theorem hashesOf_eq (h : Heap τ δ η) (children : GoMap String (Slice Ref)) {names : List String}
    (hnodup : names.Nodup) (hnames : ∀ name ∈ children, name ∈ names) :
    hashesOf h children = (names.insertionSort (· ≤ ·)).flatMap (hashesAt h children) := by
  have hkeys : children.keys.insertionSort (· ≤ ·) =
      (names.insertionSort (· ≤ ·)).filter (· ∈ children) := by
    refine List.Perm.eq_of_pairwise' (pairwise_insertionSort (· ≤ ·) _)
      ((pairwise_insertionSort (· ≤ ·) _).filter _) ?_
    refine (perm_insertionSort _ _).trans ((perm_ext_iff_of_nodup
      (AList.keys_nodup _) (((perm_insertionSort _ _).nodup_iff.mpr hnodup).filter _)).mpr
        fun name => ?_)
    simp only [mem_filter, (perm_insertionSort _ _).mem_iff, decide_eq_true_eq]
    exact ⟨fun hname => ⟨hnames name hname, hname⟩, And.right⟩
  have hempty : ∀ names : List String, (names.filter (· ∈ children)).flatMap
      (hashesAt h children) = names.flatMap (hashesAt h children) := by
    intro names
    induction names with
    | nil => rfl
    | cons name names ih =>
      by_cases hname : name ∈ children
      · rw [filter_cons_of_pos (by simpa using hname), flatMap_cons, ih, flatMap_cons]
      · rw [filter_cons_of_neg (by simpa using hname), ih, flatMap_cons,
          hashesAt_of_notMem hname, nil_append]
  rw [← hempty, ← hkeys, hashesOf, hashedChildren, List.reduceOption, filterMap_flatMap,
    filterMap_flatMap]
  rfl

theorem hashesOf_congr {h' : Heap τ δ η}
    (hhash : ∀ {r}, h.Old r → (h'.revs r).hash = (h.revs r).hash) (hold : OldChildren h children) :
    hashesOf h' children = hashesOf h children := by
  refine filterMap_congr fun r hr => ?_
  obtain ⟨name, hmem⟩ := mem_hashedChildren hr
  rw [hhash (hold name r hmem)]

theorem rehash_apply (hr : h.revs r = rev) :
    rehash M r h = .ok () (h.setRev r { rev with hash := some (M.hashOf h rev) }) := by
  have hmap : ((hashedChildren (h.revs r).children).map h.revs).filterMap (·.hash) =
      (hashedChildren (h.revs r).children).filterMap fun r => (h.revs r).hash := by
    rw [filterMap_map]
    rfl
  subst hr
  unfold Model.hashOf
  rw [← hmap]
  rfl

theorem hashOf_addRev {o : String} {new : Revision δ η} (hrev : OldChildren h rev.children) :
    M.hashOf (h.addRev o new) rev = M.hashOf h rev := by
  rw [Model.hashOf_eq, Model.hashOf_eq, hashesOf_congr (fun hr => by rw [hr.revs_addRev]) hrev]

theorem newRev_rehash (M : Model τ δ η) (env : Env) (h : Heap τ δ η) (rev : Revision δ η) :
    (do
      let r ← newRev env rev
      rehash M r
      return r) h = .ok (h.fresh env.txid)
        (h.addRev env.txid { rev with hash := some (M.hashOf (h.addRev env.txid rev) rev) }) := by
  rw [bind_of_ok (newRev_apply env h rev), bind_of_ok (rehash_apply Heap.revs_addRev_fresh)]
  simp [Heap.addRev, Heap.setRev]

theorem newRev_rehash_apply (hrev : OldChildren h rev.children) :
    (do
      let r ← newRev env rev
      rehash M r
      return r) h = .ok (h.fresh env.txid)
        (h.addRev env.txid { rev with hash := some (M.hashOf h rev) }) := by
  rw [newRev_rehash, hashOf_addRev hrev]

theorem oldChildren_appendChildren (hc : OldChildren h children) :
    OldChildren h (appendChildren children) := by
  intro name r hr
  rw [entriesOf_appendChildren] at hr
  exact hc name r hr

theorem oldChildren_insert (hc : OldChildren h children) {cs : List Ref} (hcs : ∀ r ∈ cs, h.Old r) :
    OldChildren h (children.insert name (some (cs.map some))) := by
  intro name' r hr
  rw [entriesOf, GoMap.lookup_insert_eq] at hr
  split_ifs at hr with hname
  · obtain ⟨r', hr', heq⟩ := mem_map.mp hr
    cases heq
    exact hcs r hr'
  · exact hc name' r hr

theorem mapM_deref (rs : List Ref) : (rs.map some).mapM deref h = .ok rs h := by
  induction rs with
  | nil => rfl
  | cons r rs ih =>
    rw [map_cons, mapM_cons, deref_bind, bind_of_ok ih]
    rfl

def dataUpdate (M : Model τ δ η) (h : Heap τ δ η) (rev latest : Revision δ η) (data : δ)
    (branch : Ref) : Revision δ η :=
  let newRev : Revision δ η :=
    { rev with
      config := ⟨data, M.digest.data rev.hasRoot data⟩
      children := appendChildren latest.children
      branch }
  { newRev with hash := some (M.hashOf h newRev) }

theorem updateData_apply [DecidableEq η] {l branch : Ref} {data : δ}
    (hdata : M.digest.data (h.revs r).hasRoot data ≠ (h.revs r).config.hash)
    (hl : (h.branches branch).latest = some l) (hold : OldChildren h (h.revs l).children) :
    updateData M env r data branch h = .ok (h.fresh env.txid)
      (h.addRev env.txid (dataUpdate M h (h.revs r) (h.revs l) data branch)) := by
  unfold updateData
  rw [getRev_bind, if_neg hdata, getLatest_bind hl, getRev_bind]
  exact newRev_rehash_apply (oldChildren_appendChildren hold)

section

variable [DecidableEq δ]

/-- What becomes of a child among the new ones: an existing child of the same name and data takes
its place. -/
def keptRef (h : Heap τ δ η) (olds : List Ref) (r : Ref) : Ref :=
  match olds.reverse.find? fun old => (h.revs old).name = (h.revs r).name with
  | some old => if (h.revs old).data = (h.revs r).data then old else r
  | none => r

/-- The children that are made of the existing ones and the new ones. -/
def mergedRefs (h : Heap τ δ η) (olds cs : List Ref) : List Ref :=
  (olds.filter fun old => ∀ r ∈ cs, (h.revs r).name ≠ (h.revs old).name) ++ cs.map (keptRef h olds)

theorem mergeByName_eq (h : Heap τ δ η) (olds cs : List Ref) :
    mergeByName (olds.map fun r => (r, h.revs r)) (cs.map fun r => (r, h.revs r)) =
      mergedRefs h olds cs := by
  unfold mergeByName mergedRefs
  congr 1
  · rw [filter_map, map_map]
    simp [comp_def]
  · rw [map_map]
    refine map_congr_left fun r _ => ?_
    have hfind : (olds.map fun r => (r, h.revs r)).reverse.find? (·.2.name = (h.revs r).name) =
        (olds.reverse.find? fun old => (h.revs old).name = (h.revs r).name).map
          fun r => (r, h.revs r) := by
      rw [← map_reverse, find?_map]
      rfl
    rw [comp_apply, keptRef, hfind]
    cases olds.reverse.find? fun old => (h.revs old).name = (h.revs r).name <;> rfl

/-- A kept child is one of the existing children or the new one, with the data of the latter. -/
theorem keptRef_cases (h : Heap τ δ η) (olds : List Ref) (r : Ref) :
    keptRef h olds r = r ∨ keptRef h olds r ∈ olds ∧
      (h.revs (keptRef h olds r)).name = (h.revs r).name ∧
      (h.revs (keptRef h olds r)).data = (h.revs r).data := by
  unfold keptRef
  split
  · rename_i old hfind
    split_ifs with hdata
    · exact .inr ⟨mem_reverse.mp (mem_of_find?_eq_some hfind),
        by simpa using find?_some hfind, hdata⟩
    · exact .inl rfl
  · exact .inl rfl

variable {olds cs : List Ref} {r : Ref}

theorem keptRef_congr {h' : Heap τ δ η} (holds : ∀ old ∈ olds, h'.revs old = h.revs old)
    (hr : h'.revs r = h.revs r) : keptRef h' olds r = keptRef h olds r := by
  have hfind : (olds.reverse.find? fun old => (h'.revs old).name = (h'.revs r).name) =
      olds.reverse.find? fun old => (h.revs old).name = (h.revs r).name := by
    rw [hr, ← head?_filter, ← head?_filter]
    refine congrArg List.head? (filter_congr fun old hold => ?_)
    rw [holds old (mem_reverse.mp hold)]
  unfold keptRef
  rw [hfind]
  cases hcase : olds.reverse.find? fun old => (h.revs old).name = (h.revs r).name with
  | none => rfl
  | some old =>
    dsimp only
    rw [hr, holds old (mem_reverse.mp (mem_of_find?_eq_some hcase))]

theorem data_keptRef (h : Heap τ δ η) (olds : List Ref) (r : Ref) :
    (h.revs (keptRef h olds r)).data = (h.revs r).data := by
  obtain heq | ⟨-, -, hdata⟩ := keptRef_cases h olds r
  · rw [heq]
  · exact hdata

theorem name_keptRef (h : Heap τ δ η) (olds : List Ref) (r : Ref) :
    (h.revs (keptRef h olds r)).name = (h.revs r).name := by
  obtain heq | ⟨-, hname, -⟩ := keptRef_cases h olds r
  · rw [heq]
  · exact hname

theorem mem_mergedRefs (hr : r ∈ mergedRefs h olds cs) : r ∈ olds ∨ r ∈ cs := by
  rcases mem_append.mp hr with hr | hr
  · exact .inl (mem_of_mem_filter hr)
  · obtain ⟨r', hr', rfl⟩ := mem_map.mp hr
    obtain heq | ⟨hold, -⟩ := keptRef_cases h olds r'
    · rw [heq]
      exact .inr hr'
    · exact .inl hold

/-- New children that have the names of all existing ones take their place. -/
theorem mergedRefs_of_cover (hcover : ∀ old ∈ olds, ∃ r ∈ cs, (h.revs r).name = (h.revs old).name) :
    mergedRefs h olds cs = cs.map (keptRef h olds) := by
  have hnone : (olds.filter fun old => ∀ r ∈ cs, (h.revs r).name ≠ (h.revs old).name) = [] := by
    rw [filter_eq_nil_iff]
    intro old hold
    simpa using hcover old hold
  rw [mergedRefs, hnone, nil_append]

theorem updatedChildren_apply {existing : Slice Ref} (hex : existing.entries = olds.map some)
    (cs : List Ref) :
    updatedChildren existing (cs.map some) h = .ok ((mergedRefs h olds cs).map some) h := by
  have hzip : ∀ rs : List Ref, rs.zip (rs.map h.revs) = rs.map fun r => (r, h.revs r) := by
    intro rs
    induction rs with
    | nil => rfl
    | cons r rs ih => rw [map_cons, zip_cons_cons, ih, map_cons]
  cases existing with
  | none =>
    obtain rfl : olds = [] := map_eq_nil_iff.mp hex.symm
    have hkept : keptRef h [] = id := rfl
    simp only [mergedRefs, filter_nil, nil_append, hkept, map_id]
    rfl
  | some existing =>
    obtain rfl : existing = olds.map some := hex
    unfold updatedChildren
    dsimp only
    rw [bind_of_ok (mapM_deref cs), bind_of_ok (mapM_deref olds), getRevs_bind, getRevs_bind, hzip,
      hzip, mergeByName_eq]
    rfl

def childrenUpdate (M : Model τ δ η) (h : Heap τ δ η) (rev latest : Revision δ η) (name : String)
    (cs : List Ref) (branch : Ref) : Revision δ η :=
  let updatedRev : Revision δ η :=
    { rev with
      config := ⟨rev.data, M.digest.data rev.hasRoot rev.data⟩
      children := (appendChildren latest.children).insert name (some (cs.map some))
      branch
      hasRoot := false }
  { updatedRev with hash := some (M.hashOf h updatedRev) }

theorem updateChildren_apply {l branch : Ref} {name : String}
    (hl : (h.branches branch).latest = some l)
    (hex : ((h.revs l).getChildren name).entries = olds.map some)
    (hold : OldChildren h (h.revs l).children) (holds : ∀ r ∈ olds, h.Old r)
    (hcs : ∀ r ∈ cs, h.Old r) :
    updateChildren M env r name (cs.map some) branch h = .ok (h.fresh env.txid)
      (h.addRev env.txid (childrenUpdate M h (h.revs r) (h.revs l) name (mergedRefs h olds cs)
        branch)) := by
  have hmerged : ∀ r ∈ mergedRefs h olds cs, h.Old r := fun r hr =>
    (mem_mergedRefs hr).elim (holds r) (hcs r)
  unfold updateChildren
  rw [getRev_bind, getLatest_bind hl, getRev_bind, bind_of_ok (updatedChildren_apply hex cs)]
  exact newRev_rehash_apply (oldChildren_insert (oldChildren_appendChildren hold) hmerged)

end

section

variable [DecidableEq η]

theorem isNew_apply (rev : Revision δ η) (l : Ref) :
    isNew rev (some l) h = .ok (decide (rev.hash ≠ (h.revs l).hash)) h := rfl

variable {r : Ref}

theorem makeLatest_of_same {b l : Ref} (hl : (h.branches b).latest = some l)
    (hhash : (h.revs r).hash = (h.revs l).hash) : makeLatest env b r h = .ok () h := by
  unfold makeLatest
  rw [getRev_bind, getBranch_bind, hl, bind_of_ok (isNew_apply _ l), hhash]
  simp

theorem isNew_of_forall_ne {rev : Revision δ η} {latest : Option Ref}
    (hnew : ∀ l, latest = some l → rev.hash ≠ (h.revs l).hash) :
    isNew rev latest h = .ok true h := by
  cases latest with
  | none => rfl
  | some l => rw [isNew_apply, decide_eq_true (hnew l rfl)]

/-- The memory with another latest revision of a branch, which is cached under its name. -/
def Heap.madeLatest (h : Heap τ δ η) (env : Env) (b r : Ref) : Heap τ δ η :=
  (if (h.revs r).name = "" then h
    else (h.setRev r { h.revs r with lastUpdate := some env.now }).setCache (h.revs r).name
      (some r)).setBranch b { h.branches b with latest := some r }

theorem makeLatest_of_new {b : Ref}
    (hnew : ∀ l, (h.branches b).latest = some l → (h.revs r).hash ≠ (h.revs l).hash) :
    makeLatest env b r h = .ok () (h.madeLatest env b r) := by
  unfold makeLatest Heap.madeLatest
  rw [getRev_bind, getBranch_bind, bind_of_ok (isNew_of_forall_ne hnew), if_pos rfl]
  by_cases hname : (h.revs r).name = ""
  · rw [if_neg (not_not.mpr hname), if_pos hname]
    rfl
  · rw [if_pos hname, if_neg hname]
    rfl

theorem indexOfHash_apply (hash : Option η) (rs : List Ref) :
    indexOfHash hash (rs.map some) h = .ok (rs.findIdx? fun r => (h.revs r).hash = hash) h := by
  induction rs with
  | nil => rfl
  | cons r rs ih =>
    rw [map_cons, indexOfHash, deref_bind, getRev_bind, findIdx?_cons]
    by_cases hr : (h.revs r).hash = hash
    · rw [if_pos hr, if_pos (decide_eq_true hr)]
      rfl
    · rw [if_neg hr, bind_of_ok ih, if_neg (by simpa using hr)]
      rfl

def Heap.setKids (h : Heap τ δ η) (r : Ref) (name : String) (rs : List Ref) : Heap τ δ η :=
  h.setRev r { h.revs r with children := (h.revs r).children.insert name (some (rs.map some)) }

/-- The memory without the first child that has the hash, if there is one. -/
def Heap.dropKid (h : Heap τ δ η) (r : Ref) (name : String) (rs : List Ref) (hash : Option η) :
    Heap τ δ η :=
  if ∃ r ∈ rs, (h.revs r).hash = hash then
    h.setKids r name (rs.eraseP fun r => (h.revs r).hash = hash)
  else h

theorem childDrop_apply {name : String} (hname : name ≠ "") (hash : Option η) {rs : List Ref}
    (hchildren : ((h.revs r).getChildren name).entries = rs.map some) :
    childDrop r name hash h = .ok () (h.dropKid r name rs hash) := by
  unfold childDrop Heap.dropKid
  rw [if_pos hname, getRev_bind, hchildren,
    bind_of_ok (indexOfHash_apply hash rs), eraseP_eq_eraseIdx]
  cases hfind : rs.findIdx? fun r => (h.revs r).hash = hash with
  | none =>
    rw [if_neg]
    · rfl
    · simpa using findIdx?_eq_none_iff.mp hfind
  | some i =>
    rw [if_pos]
    · dsimp only
      rw [eraseIdx_map]
      rfl
    · obtain ⟨hi, hp, -⟩ := findIdx?_eq_some_iff_getElem.mp hfind
      exact ⟨rs[i], getElem_mem hi, by simpa using hp⟩

end

theorem findRevByKey_of_notMem
    (hrs : ∀ r ∈ rs, M.messages.attributeText keyName (h.revs r).data ≠ value) :
    findRevByKey M keyName value (rs.map some) h = .ok none h := by
  induction rs with
  | nil => rfl
  | cons r rs ih =>
    rw [map_cons, findRevByKey, deref_bind, getRev_bind,
      if_neg (hrs r (by simp)), bind_of_ok (ih fun r' hr' => hrs r' (mem_cons_of_mem _ hr'))]
    rfl

theorem findRevByKey_of_first {before later : List Ref}
    (hbefore : ∀ r ∈ before, M.messages.attributeText keyName (h.revs r).data ≠ value)
    (hr : M.messages.attributeText keyName (h.revs r).data = value) :
    findRevByKey M keyName value ((before ++ r :: later).map some) h =
      .ok (some (before.length, r)) h := by
  induction before with
  | nil =>
    rw [nil_append, map_cons, findRevByKey, deref_bind, getRev_bind, if_pos hr]
    rfl
  | cons r' before ih =>
    rw [cons_append, map_cons, findRevByKey, deref_bind, getRev_bind, if_neg (hbefore r' (by simp)),
      bind_of_ok (ih fun r'' hr'' => hbefore r'' (mem_cons_of_mem _ hr''))]
    rfl

theorem store_apply {s : Store δ} (hup : env.up = true) (hs : h.store = some s)
    (htxid : (h.branches (h.revs r).branch).txid = "") :
    store env r h = .ok () ((h.setCache (h.revs r).name (some r)).setStore
      (some (Store.put (h.revs r).name (h.revs r).data s))) := by
  unfold store
  rw [getRev_bind, getBranch_bind, if_neg (by simp [htxid]), cacheSet_bind]
  exact changeStore_apply (h := h.setCache _ _) hup hs _

/-- The end of a read: what memory gives is returned, or the store is read. -/
def finishGet [DecidableEq δ] [DecidableEq η] (M : Model τ δ η) (env : Env) (r : Ref)
    (path txid : String) (result : Found δ) : Op τ δ η (Found δ) := do
  if !result.isNil then
    return result
  else
    match ← getStore with
    | none => return result
    | some _ => return foundData (← getRevs (← loadFromPersistence M env r path txid)) result

end Revisions

end VolthaCore.Nodes
