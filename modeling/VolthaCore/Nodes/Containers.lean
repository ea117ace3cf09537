import Mathlib.Data.List.TakeWhile
import VolthaCore.Lib.Table
import VolthaCore.Nodes.NewNodes

/-! The containers of the root: what the operations on the paths `/c` and `/c/k` make of the
children of a field `c`, without a transaction. The latest revision of the root lists the
children; each child has a node with a branch of its own, whose latest revision need not be the
one that the root lists, as a reload only replaces the latter. -/

namespace VolthaCore.Nodes

open Outcome DataModel List Function AList Heap

variable {name : String} {τ δ η : Type} {key : δ → String} {h h' : Heap τ δ η} {r b L r' : Ref}
  {M : Model τ δ η} {field : ChildType τ} {kids : List Ref} {env : Env} {rev : Revision δ η}

/-! ### Paths -/

section Paths

def entryPath (name key : String) : String := "/" ++ name ++ "/" ++ key

def containerPath (name : String) : String := "/" ++ name

/-- A name that a path can use for a field or a key: not empty and without a slash. -/
structure Segment (s : String) : Prop where
  ne_empty : s ≠ ""
  whole : '/' ∉ s.toList

theorem Segment.toList_ne_nil {s : String} (h : Segment s) : s.toList ≠ [] := fun hnil =>
  h.ne_empty (String.toList_inj.mp hnil)

variable {s rest : List Char}

theorem takeWhile_slash (hs : '/' ∉ s) : (s ++ '/' :: rest).takeWhile (· ≠ '/') = s := by
  rw [takeWhile_append_of_pos]
  · simp
  · intro c hc
    simpa using ne_of_mem_of_not_mem hc hs

theorem dropWhile_slash (hs : '/' ∉ s) : (s ++ '/' :: rest).dropWhile (· ≠ '/') = '/' :: rest := by
  rw [dropWhile_append_of_pos]
  · simp
  · intro c hc
    simpa using ne_of_mem_of_not_mem hc hs

theorem partition_slash (hname : '/' ∉ name.toList) (rest : String) :
    partition (name ++ "/" ++ rest) = (name, rest) := by
  have hlist : (name ++ "/" ++ rest).toList = name.toList ++ '/' :: rest.toList := by simp
  rw [partition, hlist, takeWhile_slash hname, dropWhile_slash hname]
  simp

theorem partition_whole (hname : '/' ∉ name.toList) : partition name = (name, "") := by
  have hall : ∀ c ∈ name.toList, decide (c ≠ '/') = true := fun c hc => by
    simpa using ne_of_mem_of_not_mem hc hname
  rw [partition, takeWhile_eq_self_iff.mpr hall, dropWhile_eq_nil_iff.mpr hall]
  simp

theorem stripSlashes_slash (hname : Segment name) (rest : String) :
    stripSlashes ("/" ++ name ++ rest) = name ++ rest := by
  obtain ⟨c, cs, hlist⟩ := exists_cons_of_ne_nil hname.toList_ne_nil
  have hc : c ≠ '/' := fun hc => hname.whole (by simp [hlist, hc])
  have hpath : ("/" ++ name ++ rest).toList = '/' :: c :: (cs ++ rest.toList) := by
    simp [hlist]
  rw [stripSlashes, hpath, dropWhile_cons_of_pos (by simp),
    dropWhile_cons_of_neg (by simpa using hc)]
  apply String.toList_inj.mp
  simp [hlist]

theorem stripSlashes_entryPath (hname : Segment name) (key : String) :
    stripSlashes (entryPath name key) = name ++ "/" ++ key := by
  have := stripSlashes_slash hname ("/" ++ key)
  rwa [← String.append_assoc, ← String.append_assoc] at this

theorem stripSlashes_containerPath (hname : Segment name) :
    stripSlashes (containerPath name) = name := by
  have := stripSlashes_slash hname ""
  rwa [String.append_empty, String.append_empty] at this

end Paths

/-! ### Objects that stay -/

section Staying

variable {o : String} {h'' : Heap τ δ η}

/-- The latest revision of a branch is one of the branch. -/
structure LatestIs (key : δ → String) (h : Heap τ δ η) (b : Ref) (k : String) (l : Ref) :
    Prop where
  latest : (h.branches b).latest = some l
  old : h.Old l
  branch : (h.revs l).branch = b
  children : OldChildren h (h.revs l).children
  key : key (h.revs l).data = k

/-- What an operation leaves of the objects that were there. A branch may have another latest
revision with the same key. -/
structure Mild (key : δ → String) (h h' : Heap τ δ η) : Prop where
  old : ∀ {r}, h.Old r → h'.Old r
  config : ∀ {r}, h.Old r → (h'.revs r).config = (h.revs r).config
  branch : ∀ {r}, h.Old r → (h'.revs r).branch = (h.revs r).branch
  children : ∀ {r}, h.Old r → (h'.revs r).children = (h.revs r).children
  node : ∀ {b}, h.Old b → (h'.branches b).node = (h.branches b).node
  txid : ∀ {b}, h.Old b → (h'.branches b).txid = (h.branches b).txid
  latest : ∀ {b k l}, h.Old b → LatestIs key h b k l → ∃ l', LatestIs key h' b k l'
  nodes : ∀ {n}, h.Old n → h'.nodes n = h.nodes n
  root : h'.root = h.root

namespace Mild

theorem refl (key : δ → String) (h : Heap τ δ η) : Mild key h h :=
  ⟨id, fun _ => rfl, fun _ => rfl, fun _ => rfl, fun _ => rfl, fun _ => rfl,
    fun _ hl => ⟨_, hl⟩, fun _ => rfl, rfl⟩

theorem trans (hx : Mild key h h') (hx' : Mild key h' h'') : Mild key h h'' where
  old hr := hx'.old (hx.old hr)
  config hr := (hx'.config (hx.old hr)).trans (hx.config hr)
  branch hr := (hx'.branch (hx.old hr)).trans (hx.branch hr)
  children hr := (hx'.children (hx.old hr)).trans (hx.children hr)
  node hb := (hx'.node (hx.old hb)).trans (hx.node hb)
  txid hb := (hx'.txid (hx.old hb)).trans (hx.txid hb)
  latest hb hl := (hx.latest hb hl).elim fun _ hl' => hx'.latest (hx.old hb) hl'
  nodes hn := (hx'.nodes (hx.old hn)).trans (hx.nodes hn)
  root := hx'.root.trans hx.root

theorem data (hx : Mild key h h') {r : Ref} (hr : h.Old r) :
    (h'.revs r).data = (h.revs r).data :=
  congrArg DataRevision.data (hx.config hr)

theorem oldChildren (hx : Mild key h h') {children : GoMap String (Slice Ref)}
    (hc : OldChildren h children) : OldChildren h' children :=
  fun name r hr => hx.old (hc name r hr)

end Mild

theorem Extends.mild (hx : Extends o h h') : Mild key h h' where
  old := hx.old
  config hr := by rw [hx.revs_old hr]
  branch hr := by rw [hx.revs_old hr]
  children hr := by rw [hx.revs_old hr]
  node hb := by rw [hx.branches_old hb]
  txid hb := by rw [hx.branches_old hb]
  latest {b k l} hb hl := by
    refine ⟨l, ?_, hx.old hl.old, ?_, ?_, ?_⟩
    · rw [hx.branches_old hb]
      exact hl.latest
    · rw [hx.revs_old hl.old]
      exact hl.branch
    · rw [hx.revs_old hl.old]
      exact hl.children.mono hx
    · rw [hx.revs_old hl.old]
      exact hl.key
  nodes := hx.nodes_old
  root := hx.root

theorem mild_addRev (h : Heap τ δ η) (o : String) (rev : Revision δ η) :
    Mild key h (h.addRev o rev) :=
  (extends_addRev h o rev).mild

/-- Names, hashes, times and versions of revisions may change. -/
theorem mild_setRev (hconfig : rev.config = (h.revs r).config)
    (hbranch : rev.branch = (h.revs r).branch) (hchildren : rev.children = (h.revs r).children) :
    Mild key h (h.setRev r rev) := by
  have hconfig' := revs_setRev Revision.config hconfig
  have hbranch' := revs_setRev Revision.branch hbranch
  have hchildren' := revs_setRev Revision.children hchildren
  refine ⟨id, fun _ => hconfig' _, fun _ => hbranch' _, fun _ => hchildren' _, fun _ => rfl,
    fun _ => rfl, fun {b k l} _ hl => ⟨l, hl.latest, hl.old, ?_, ?_, ?_⟩, fun _ => rfl, rfl⟩
  · rw [hbranch', hl.branch]
  · rw [hchildren']
    exact hl.children
  · rw [Revision.data, hconfig']
    exact hl.key

theorem mild_nameRev (h : Heap τ δ η) (r : Ref) (name : String) :
    Mild key h (h.nameRev r name) :=
  mild_setRev rfl rfl rfl

theorem mild_clearRev (h : Heap τ δ η) (r : Ref) : Mild key h (h.clearRev r) :=
  mild_setRev rfl rfl rfl

theorem mild_clearRev_of_ne (h : Heap τ δ η) (x r : Ref) :
    Mild key h (if x = r then h else h.clearRev x) := by
  split_ifs
  · exact .refl _ h
  · exact mild_clearRev h x

/-- A branch gets a latest revision of its own that has the key of the one before. -/
theorem mild_setLatest {b : Ref} (hr : h.Old r) (hbranch : (h.revs r).branch = b)
    (hchildren : OldChildren h (h.revs r).children)
    (hkey : ∀ k l, LatestIs key h b k l → key (h.revs r).data = k) :
    Mild key h (h.setBranch b { h.branches b with latest := some r }) := by
  refine ⟨id, fun _ => rfl, fun _ => rfl, fun _ => rfl,
    fun _ => branches_setBranch Branch.node (by rfl) _,
    fun _ => branches_setBranch Branch.txid (by rfl) _,
    fun {b' k l} _ hl => ?_, fun _ => rfl, rfl⟩
  by_cases heq : b' = b
  · subst heq
    exact ⟨r, by simp, hr, hbranch, hchildren, hkey k l hl⟩
  · exact ⟨l, by simpa [heq] using hl.latest, hl.old, hl.branch, hl.children, hl.key⟩

theorem mild_cache (h : Heap τ δ η) (cache : String → Option Ref) :
    Mild key h { h with cache } :=
  ⟨id, fun _ => rfl, fun _ => rfl, fun _ => rfl, fun _ => rfl, fun _ => rfl,
    fun _ hl => ⟨_, hl.latest, hl.old, hl.branch, hl.children, hl.key⟩, fun _ => rfl, rfl⟩

theorem mild_setCache (h : Heap τ δ η) (path : String) (r : Option Ref) :
    Mild key h (h.setCache path r) :=
  mild_cache h _

theorem mild_setStore (h : Heap τ δ η) (s : Option (Store δ)) : Mild key h (h.setStore s) :=
  ⟨id, fun _ => rfl, fun _ => rfl, fun _ => rfl, fun _ => rfl, fun _ => rfl,
    fun _ hl => ⟨_, hl.latest, hl.old, hl.branch, hl.children, hl.key⟩, fun _ => rfl, rfl⟩

theorem mild_madeLatest (env : Env) {b : Ref} (hr : h.Old r) (hbranch : (h.revs r).branch = b)
    (hchildren : OldChildren h (h.revs r).children)
    (hkey : ∀ k l, LatestIs key h b k l → key (h.revs r).data = k) :
    Mild key h (h.madeLatest env b r) := by
  have hset := mild_setLatest hr hbranch hchildren hkey
  unfold Heap.madeLatest
  split_ifs with hname
  · exact hset
  · have htime : Mild key (h.setBranch b { h.branches b with latest := some r })
        ((h.setBranch b { h.branches b with latest := some r }).setRev r
          { h.revs r with lastUpdate := some env.now }) :=
      mild_setRev rfl rfl rfl
    exact (hset.trans htime).trans (mild_setCache _ (h.revs r).name (some r))

/-- What was there is as it was, apart from the latest revisions of branches. -/
structure Grows (key : δ → String) (h h' : Heap τ δ η) : Prop where
  mild : Mild key h h'
  revs : ∀ {r}, h.Old r → h'.revs r = h.revs r
  store : h'.store = h.store

theorem Grows.hash (hg : Grows key h h') {r : Ref} (hr : h.Old r) :
    (h'.revs r).hash = (h.revs r).hash := by
  rw [hg.revs hr]

theorem Grows.trans (hg : Grows key h h') (hg' : Grows key h' h'') : Grows key h h'' :=
  ⟨hg.mild.trans hg'.mild, fun hr => (hg'.revs (hg.mild.old hr)).trans (hg.revs hr),
    hg'.store.trans hg.store⟩

theorem Extends.grows (hx : Extends o h h') : Grows key h h' := ⟨hx.mild, hx.revs_old, hx.store⟩

theorem grows_addRev (h : Heap τ δ η) (o : String) (rev : Revision δ η) :
    Grows key h (h.addRev o rev) :=
  (extends_addRev h o rev).grows

end Staying

/-! ### Shelves -/

section Shelves

def ChildType.keyOf (field : ChildType τ) (M : Model τ δ η) : δ → String :=
  M.messages.attributeText field.key

def Heap.keyAt (h : Heap τ δ η) (M : Model τ δ η) (field : ChildType τ) (r : Ref) : String :=
  field.keyOf M (h.revs r).data

/-- A child with a node of its own. The latest revision of its branch has the same key. -/
structure Kid (M : Model τ δ η) (field : ChildType τ) (h : Heap τ δ η) (r : Ref) : Prop where
  old : h.Old r
  old_branch : h.Old (h.revs r).branch
  old_node : h.Old (h.branches (h.revs r).branch).node
  type : (h.nodes (h.branches (h.revs r).branch).node).type = field.classType
  branch : (h.nodes (h.branches (h.revs r).branch).node).branches NONE = some (h.revs r).branch
  txid : (h.branches (h.revs r).branch).txid = ""
  latest : ∃ l, LatestIs (field.keyOf M) h (h.revs r).branch (h.keyAt M field r) l

theorem Mild.keyAt (hx : Mild (field.keyOf M) h h') (hr : h.Old r) :
    h'.keyAt M field r = h.keyAt M field r := by
  rw [Heap.keyAt, hx.data hr, Heap.keyAt]

theorem Kid.mild (hk : Kid M field h r) (hx : Mild (field.keyOf M) h h') : Kid M field h' r := by
  have hbranch := hx.branch hk.old
  have hnode := hx.node hk.old_branch
  refine ⟨hx.old hk.old, ?_, ?_, ?_, ?_, ?_, ?_⟩
  · rw [hbranch]
    exact hx.old hk.old_branch
  · rw [hbranch, hnode]
    exact hx.old hk.old_node
  · rw [hbranch, hnode, hx.nodes hk.old_node]
    exact hk.type
  · rw [hbranch, hnode, hx.nodes hk.old_node]
    exact hk.branch
  · rw [hbranch, hx.txid hk.old_branch]
    exact hk.txid
  · obtain ⟨l, hl⟩ := hk.latest
    rw [hbranch, hx.keyAt hk.old]
    exact hx.latest hk.old_branch hl

/-- Children with different keys and nodes of their own, apart from the branch of the root. -/
structure Kids (M : Model τ δ η) (field : ChildType τ) (h : Heap τ δ η) (b : Ref)
    (kids : List Ref) : Prop where
  kid : ∀ r ∈ kids, Kid M field h r
  apart : ∀ r ∈ kids, (h.revs r).branch ≠ b
  distinct : kids.Pairwise fun r r' => (h.revs r).branch ≠ (h.revs r').branch
  keys : (kids.map (h.keyAt M field)).Nodup

variable {kids' rs rs' : List Ref} {L' : Ref} {α : Type}

section

variable (hk : Kids M field h b kids)
include hk

theorem Kids.sublist (hsub : kids'.Sublist kids) :
    Kids M field h b kids' :=
  ⟨fun r hr => hk.kid r (hsub.subset hr), fun r hr => hk.apart r (hsub.subset hr),
    hk.distinct.sublist hsub, hk.keys.sublist (hsub.map _)⟩

theorem Kids.map_keyAt (hx : Mild (field.keyOf M) h h') :
    kids.map (h'.keyAt M field) = kids.map (h.keyAt M field) :=
  map_congr_left fun r hr => hx.keyAt (hk.kid r hr).old

theorem Kids.mild (hx : Mild (field.keyOf M) h h') :
    Kids M field h' b kids where
  kid r hr := (hk.kid r hr).mild hx
  apart r hr := by
    rw [hx.branch (hk.kid r hr).old]
    exact hk.apart r hr
  distinct := hk.distinct.imp_of_mem fun hr hr' hne => by
    rw [hx.branch (hk.kid _ hr).old, hx.branch (hk.kid _ hr').old]
    exact hne
  keys := by
    rw [hk.map_keyAt hx]
    exact hk.keys

theorem Kids.eq_of_keyAt (hr : r ∈ kids) (hr' : r' ∈ kids)
    (hkey : h.keyAt M field r = h.keyAt M field r') : r = r' :=
  inj_on_of_nodup_map hk.keys hr hr' hkey

theorem Kids.perm (hperm : kids'.Perm kids) :
    Kids M field h b kids' where
  kid r hr := hk.kid r (hperm.mem_iff.mp hr)
  apart r hr := hk.apart r (hperm.mem_iff.mp hr)
  distinct := (hperm.pairwise_iff fun hne => hne.symm).mpr hk.distinct
  keys := (hperm.map _).nodup_iff.mpr hk.keys

theorem Kids.nodup : kids.Nodup := hk.keys.of_map _

theorem Kids.eq_of_branch (hr : r ∈ kids) (hr' : r' ∈ kids)
    (hbranch : (h.revs r).branch = (h.revs r').branch) : r = r' :=
  inj_on_of_nodup_map (pairwise_map.mpr hk.distinct) hr hr' hbranch

end

/-- A list of children has one with the key in its middle, or none. -/
theorem Heap.middle_or_absent (h : Heap τ δ η) (M : Model τ δ η) (field : ChildType τ)
    (kids : List Ref) (k : String) :
    (∃ before r later, kids = before ++ r :: later ∧ r ∈ kids ∧ h.keyAt M field r = k) ∨
      ∀ r ∈ kids, h.keyAt M field r ≠ k := by
  by_cases hk : ∃ r ∈ kids, h.keyAt M field r = k
  · obtain ⟨r, hr, hkey⟩ := hk
    obtain ⟨before, later, hsplit⟩ := append_of_mem hr
    exact .inl ⟨before, r, later, hsplit, hr, hkey⟩
  · push Not at hk
    exact .inr hk

theorem Kids.keyAt_ne_of_before {before later : List Ref} {k : String}
    (hk : Kids M field h b (before ++ r :: later)) (hkey : h.keyAt M field r = k) :
    ∀ r' ∈ before, h.keyAt M field r' ≠ k := by
  intro r' hr' heq
  have hkeys := hk.keys
  rw [map_append, map_cons, nodup_append] at hkeys
  exact hkeys.2.2 _ (mem_map_of_mem hr') _ (by simp) (heq.trans hkey.symm)

/-- The root with a keyed container, whose children are listed by the latest revision `L`. -/
structure Rack (M : Model τ δ η) (name : String) (field : ChildType τ) (h : Heap τ δ η)
    (b L : Ref) (kids : List Ref) : Prop where
  segment : Segment name
  lookup : (M.messages.childrenFields (h.nodes h.root).type).lookup name = some field
  container : field.isContainer = true
  keyed : field.key ≠ ""
  old_root : h.Old h.root
  branch : (h.nodes h.root).branches NONE = some b
  old_branch : h.Old b
  txid : (h.branches b).txid = ""
  latest : (h.branches b).latest = some L
  old_latest : h.Old L
  latest_branch : (h.revs L).branch = b
  children : ((h.revs L).getChildren name).entries = kids.map some
  old_children : OldChildren h (h.revs L).children

/-- A container whose children have different keys and nodes of their own. -/
structure Shelf (M : Model τ δ η) (name : String) (field : ChildType τ) (h : Heap τ δ η)
    (b L : Ref) (kids : List Ref) : Prop extends Rack M name field h b L kids where
  kids : Kids M field h b kids

section

variable (hs : Rack M name field h b L kids)
include hs

theorem Rack.old (hr : r ∈ kids) : h.Old r := by
  refine hs.old_children name r ?_
  have hmem : some r ∈ kids.map some := mem_map_of_mem hr
  rwa [← hs.children] at hmem

theorem Rack.renew (hx : Mild key h h') (hlatest : (h'.branches b).latest = some L')
    (hold : h'.Old L') (hbranch : (h'.revs L').branch = b)
    (hchildren : ((h'.revs L').getChildren name).entries = rs.map some)
    (hold_children : OldChildren h' (h'.revs L').children) : Rack M name field h' b L' rs where
  segment := hs.segment
  lookup := by
    rw [hx.root, hx.nodes hs.old_root]
    exact hs.lookup
  container := hs.container
  keyed := hs.keyed
  old_root := by
    rw [hx.root]
    exact hx.old hs.old_root
  branch := by
    rw [hx.root, hx.nodes hs.old_root]
    exact hs.branch
  old_branch := hx.old hs.old_branch
  txid := (hx.txid hs.old_branch).trans hs.txid
  latest := hlatest
  old_latest := hold
  latest_branch := hbranch
  children := hchildren
  old_children := hold_children

theorem Rack.mild (hx : Mild key h h') (hlatest : (h'.branches b).latest = some L) :
    Rack M name field h' b L kids := by
  refine hs.renew hx hlatest (hx.old hs.old_latest)
    ((hx.branch hs.old_latest).trans hs.latest_branch) ?_ ?_
  · rw [Revision.getChildren, hx.children hs.old_latest]
    exact hs.children
  · rw [hx.children hs.old_latest]
    exact hx.oldChildren hs.old_children

end

theorem Shelf.mild (hs : Shelf M name field h b L kids) (hx : Mild (field.keyOf M) h h')
    (hlatest : (h'.branches b).latest = some L) : Shelf M name field h' b L kids :=
  ⟨hs.toRack.mild hx hlatest, hs.kids.mild hx⟩

theorem Shelf.ne_latest (hs : Shelf M name field h b L kids) (hr : r ∈ kids) : r ≠ L := by
  rintro rfl
  exact hs.kids.apart r hr hs.latest_branch

def nextRoot (M : Model τ δ η) (name : String) (h : Heap τ δ η) (b L : Ref) (rs : List Ref) :
    Revision δ η :=
  childrenUpdate M h (h.revs L) (h.revs L) name rs b

theorem entries_lookup_insert (children : GoMap String (Slice Ref)) (rs : List Ref) :
    (((children.insert name (some (rs.map some))).lookup name).getD none).entries =
      rs.map some := by
  simp [Slice.entries]

def hashesWith (h : Heap τ δ η) (children : GoMap String (Slice Ref)) (name : String)
    (hashes : List η) : List η :=
  ((children.insert name none).keys.insertionSort (· ≤ ·)).flatMap fun name' =>
    if name' = name then hashes else hashesAt h children name'

def Model.rootHash (M : Model τ δ η) (h : Heap τ δ η) (L : Ref) (name : String)
    (hashes : List η) : η :=
  M.digest.content (M.digest.data (h.revs L).hasRoot (h.revs L).data) (h.revs L).name
    (hashesWith h (h.revs L).children name hashes)

/-- The children differ in one field only. -/
theorem hashesOf_of_entries {children children' : GoMap String (Slice Ref)}
    (hmem : ∀ name' ∈ children', name' = name ∨ name' ∈ children)
    (hentries : ∀ name', name' ≠ name → entriesOf children' name' = entriesOf children name') :
    hashesOf h children' = hashesWith h children name (hashesAt h children' name) := by
  rw [hashesOf_eq h children' (keys_nodup (children.insert name none)) fun name' hname' =>
    AList.mem_keys.mp ((mem_insert _).mpr (hmem name' hname'))]
  refine flatMap_congr fun name' _ => ?_
  split_ifs with heq
  · rw [heq]
  · rw [hashesAt, hentries name' heq]
    rfl

theorem hashesOf_children (hchildren : ((h.revs r).getChildren name).entries = rs.map some) :
    hashesOf h (h.revs r).children =
      hashesWith h (h.revs r).children name (rs.filterMap fun r => (h.revs r).hash) := by
  rw [← hashesAt_eq hchildren]
  exact hashesOf_of_entries (fun _ => .inr) fun _ _ => rfl

theorem hashesWith_split (h : Heap τ δ η) (children : GoMap String (Slice Ref)) (name : String) :
    ∃ before later, ∀ hashes, hashesWith h children name hashes = before ++ hashes ++ later := by
  have hname : name ∈ (children.insert name none).keys.insertionSort (· ≤ ·) :=
    (perm_insertionSort _ _).mem_iff.mpr ((mem_insert _).mpr (.inl rfl))
  have hnodup : ((children.insert name none).keys.insertionSort (· ≤ ·)).Nodup :=
    (perm_insertionSort _ _).nodup_iff.mpr (keys_nodup _)
  obtain ⟨names, names', hsplit⟩ := append_of_mem hname
  rw [hsplit, nodup_append, nodup_cons] at hnodup
  have hother : ∀ hashes : List η, ∀ ns : List String, name ∉ ns →
      (ns.flatMap fun name' => if name' = name then hashes else hashesAt h children name') =
        ns.flatMap (hashesAt h children) := fun hashes ns hns =>
    flatMap_congr fun name' hname' =>
      if_neg fun heq : name' = name => hns (heq ▸ hname')
  refine ⟨names.flatMap (hashesAt h children), names'.flatMap (hashesAt h children),
    fun hashes => ?_⟩
  rw [hashesWith, hsplit, flatMap_append, flatMap_cons, if_pos rfl,
    hother hashes names fun hmem => hnodup.2.2 name hmem name (by simp) rfl,
    hother hashes names' hnodup.2.1.1, append_assoc]

theorem nextRoot_hash (h : Heap τ δ η) (name : String) (b L : Ref) (rs : List Ref) :
    (nextRoot M name h b L rs).hash =
      some (M.rootHash h L name (rs.filterMap fun r => (h.revs r).hash)) := by
  have hat : hashesAt h ((appendChildren (h.revs L).children).insert name (some (rs.map some)))
      name = rs.filterMap fun r => (h.revs r).hash := hashesAt_eq (entries_lookup_insert _ rs)
  have hall : hashesOf h ((appendChildren (h.revs L).children).insert name (some (rs.map some))) =
      hashesWith h (h.revs L).children name (rs.filterMap fun r => (h.revs r).hash) := by
    rw [← hat]
    refine hashesOf_of_entries (fun name' hname' =>
      ((mem_insert _).mp hname').imp id mem_appendChildren.mp) fun name' hne => ?_
    rw [entriesOf, lookup_insert_ne hne]
    exact entriesOf_appendChildren ..
  rw [Model.rootHash, ← hall]
  rfl

/-- The hash of a revision covers its children, or more of them than it has. -/
def Recorded (M : Model τ δ η) (h : Heap τ δ η) (r : Ref) : Prop :=
  ∃ config path hashes, (h.revs r).hash = some (M.digest.content config path hashes) ∧
    (hashes = hashesOf h (h.revs r).children ∨
      (hashesOf h (h.revs r).children).length < hashes.length)

theorem Recorded.congr (hr : Recorded M h r) (hrev : (h'.revs r).hash = (h.revs r).hash)
    (hchildren : (h'.revs r).children = (h.revs r).children)
    (hhash : ∀ {r}, h.Old r → (h'.revs r).hash = (h.revs r).hash)
    (hold : OldChildren h (h.revs r).children) : Recorded M h' r := by
  unfold Recorded
  rw [hrev, hchildren, hashesOf_congr hhash hold]
  exact hr

theorem setKids_hash (h : Heap τ δ η) (x : Ref) (name : String) (rs : List Ref) (r : Ref) :
    ((h.setKids x name rs).revs r).hash = (h.revs r).hash :=
  revs_setRev Revision.hash (by rfl) r

theorem Recorded.setKids (hr : Recorded M h r)
    (hchildren : ((h.revs r).getChildren name).entries = rs.map some) (hsub : rs'.Sublist rs) :
    Recorded M (h.setKids r name rs') r := by
  obtain ⟨config, path, hashes, hhash, hcovers⟩ := hr
  have hrev : (h.setKids r name rs').revs r = { h.revs r with
      children := (h.revs r).children.insert name (some (rs'.map some)) } := update_self ..
  have hhashes := setKids_hash h r name rs'
  have hall' : hashesOf (h.setKids r name rs') ((h.setKids r name rs').revs r).children =
      hashesWith h (h.revs r).children name (rs'.filterMap fun r => (h.revs r).hash) := by
    have hsame : hashesOf (h.setKids r name rs') ((h.setKids r name rs').revs r).children =
        hashesOf h ((h.setKids r name rs').revs r).children :=
      filterMap_congr fun r' _ => hhashes r'
    rw [hsame, hrev, ← hashesAt_eq (entries_lookup_insert (h.revs r).children rs')]
    refine hashesOf_of_entries (fun name' hname' => (mem_insert _).mp hname')
      fun name' hne => ?_
    rw [entriesOf, lookup_insert_ne hne]
    rfl
  obtain ⟨before, later, hsplit⟩ := hashesWith_split h (h.revs r).children name
  have hle := (hsub.filterMap fun r => (h.revs r).hash).length_le
  refine ⟨config, path, hashes, by rw [hhashes, hhash], ?_⟩
  rw [hall']
  rw [hashesOf_children hchildren] at hcovers
  rcases hle.lt_or_eq with hlt | heq
  · right
    rw [hsplit] at hcovers ⊢
    obtain rfl | hlonger := hcovers
    · simp only [length_append]
      omega
    · simp only [length_append] at hlonger ⊢
      omega
  · rw [(hsub.filterMap _).eq_of_length heq]
    exact hcovers

/-- The latest revision of the root has become `L'` with the listed children, and what was there
before is as it was. -/
structure Relisted (M : Model τ δ η) (name : String) (field : ChildType τ) (h : Heap τ δ η)
    (b L' : Ref) (rs : List Ref) (h' : Heap τ δ η) : Prop extends Grows (field.keyOf M) h h' where
  branches : ∀ b', b' ≠ b → h'.branches b' = h.branches b'
  cache : ∀ {L}, (h.branches b).latest = some L → (h.revs L).name = "" → h'.cache = h.cache
  same_name : ∀ {L}, (h.branches b).latest = some L → (h'.revs L').name = (h.revs L).name
  old : h'.Old L'
  latest : (h'.branches b).latest = some L'
  branch : (h'.revs L').branch = b
  children : ((h'.revs L').getChildren name).entries = rs.map some
  old_children : OldChildren h' (h'.revs L').children
  recorded : (h.branches b).latest = some L' ∨ Recorded M h' L'

theorem Relisted.rack (hr : Relisted M name field h b L' rs h')
    (hs : Rack M name field h b L kids) :
    Rack M name field h' b L' rs :=
  hs.renew hr.mild hr.latest hr.old hr.branch hr.children hr.old_children

theorem Relisted.shelf (hr : Relisted M name field h b L' rs h')
    (hs : Shelf M name field h b L kids) (hkids : Kids M field h b rs) :
    Shelf M name field h' b L' rs :=
  ⟨hr.rack hs.toRack, hkids.mild hr.mild⟩

theorem relisted_addRev (hs : Rack M name field h b L kids) (o : String) (rev : Revision δ η) :
    Relisted M name field h b L kids (h.addRev o rev) where
  toGrows := grows_addRev h o rev
  branches _ _ := rfl
  cache _ _ := rfl
  same_name {l} hl := by
    obtain rfl : L = l := Option.some.inj (hs.latest.symm.trans hl)
    rw [hs.old_latest.revs_addRev]
  old := hs.old_latest.addRev rev
  latest := hs.latest
  branch := by
    rw [hs.old_latest.revs_addRev]
    exact hs.latest_branch
  children := by
    rw [hs.old_latest.revs_addRev]
    exact hs.children
  old_children := by
    rw [hs.old_latest.revs_addRev]
    exact fun name' r hr => (hs.old_children name' r hr).addRev rev
  recorded := .inl hs.latest

theorem madeLatest_revs_of_ne (hne : r' ≠ r) : (h.madeLatest env b r).revs r' = h.revs r' := by
  unfold Heap.madeLatest
  split_ifs
  · rfl
  · exact update_of_ne hne _ _

theorem madeLatest_branches (h : Heap τ δ η) (env : Env) (b r : Ref) :
    (h.madeLatest env b r).branches =
      Function.update h.branches b { h.branches b with latest := some r } := by
  unfold Heap.madeLatest
  split_ifs <;> rfl

theorem madeLatest_revs (f : Revision δ η → α)
    (hf : f { h.revs r with lastUpdate := some env.now } = f (h.revs r)) :
    f ((h.madeLatest env b r).revs r') = f (h.revs r') := by
  unfold Heap.madeLatest
  split_ifs
  · rfl
  · exact revs_setRev f hf r'

theorem madeLatest_self (h : Heap τ δ η) (env : Env) (b r : Ref) :
    (h.madeLatest env b r).revs r = { h.revs r with
      lastUpdate := if (h.revs r).name = "" then (h.revs r).lastUpdate else some env.now } := by
  unfold Heap.madeLatest
  split_ifs
  · rfl
  · exact update_self ..

theorem madeLatest_cache (h : Heap τ δ η) (env : Env) (b r : Ref) :
    (h.madeLatest env b r).cache = if (h.revs r).name = "" then h.cache
      else Function.update h.cache (h.revs r).name (some r) := by
  unfold Heap.madeLatest
  split_ifs <;> rfl

theorem madeLatest_store (h : Heap τ δ η) (env : Env) (b r : Ref) :
    (h.madeLatest env b r).store = h.store := by
  unfold Heap.madeLatest
  split_ifs <;> rfl

/-- A new revision of the root that is made the latest one. -/
theorem relisted_madeLatest (hs : Rack M name field h b L kids) (env : Env)
    (hrs : ∀ r ∈ rs, h.Old r) :
    Relisted M name field h b (h.fresh env.txid) rs
      ((h.addRev env.txid (nextRoot M name h b L rs)).madeLatest env b (h.fresh env.txid)) := by
  set h1 := h.addRev env.txid (nextRoot M name h b L rs) with hh1
  have hnew : h1.revs (h.fresh env.txid) = nextRoot M name h b L rs := revs_addRev_fresh
  have hold : h1.Old (h.fresh env.txid) := old_addRev_fresh _
  have hadd : Mild (field.keyOf M) h h1 := mild_addRev h _ _
  have hchildren : OldChildren h1 (h1.revs (h.fresh env.txid)).children := by
    rw [hnew]
    exact hadd.oldChildren (oldChildren_insert (oldChildren_appendChildren hs.old_children) hrs)
  have hmade : Mild (field.keyOf M) h1 (h1.madeLatest env b (h.fresh env.txid)) := by
    refine mild_madeLatest env hold (by rw [hnew]; rfl) hchildren fun k l hl => ?_
    have hlatest : some l = some L := hl.latest.symm.trans hs.latest
    cases hlatest
    rw [hnew, ← hl.key, hs.old_latest.revs_addRev]
    rfl
  have hsame := hmade.children hold
  have hname : ∀ {l}, (h.branches b).latest = some l →
      (nextRoot M name h b L rs).name = (h.revs l).name := fun hl => by
    obtain rfl := Option.some.inj (hs.latest.symm.trans hl)
    rfl
  refine ⟨⟨hadd.trans hmade, fun hr => ?_, ?_⟩, fun b' hb' => ?_, fun hl hempty => ?_,
    fun hl => ?_, hmade.old hold, ?_, ?_, ?_, ?_, .inr ?_⟩
  · rw [madeLatest_revs_of_ne hr.ne_fresh]
    exact hr.revs_addRev _
  · rw [madeLatest_store]
    rfl
  · rw [madeLatest_branches, update_of_ne hb']
    rfl
  · rw [madeLatest_cache, if_pos (by rw [hnew, hname hl, hempty])]
    rfl
  · rw [madeLatest_revs Revision.name rfl, hnew, hname hl]
  · rw [madeLatest_branches, update_self]
  · rw [hmade.branch hold, hnew]
    rfl
  · rw [Revision.getChildren, hsame, hnew]
    exact entries_lookup_insert _ rs
  · rw [hsame]
    exact hmade.oldChildren hchildren
  · refine ⟨_, _, _, (madeLatest_revs Revision.hash rfl).trans (congrArg Revision.hash hnew),
      .inl ?_⟩
    rw [hsame, hnew]
    refine (hashesOf_congr (fun {r} hr => ?_)
      (oldChildren_insert (oldChildren_appendChildren hs.old_children) hrs)).symm
    rw [madeLatest_revs Revision.hash rfl, hr.revs_addRev]

section

variable (hr : Relisted M name field h b L' rs h')
include hr

theorem Relisted.setRev {x : Ref} (hx : ¬ h.Old x)
    (hconfig : rev.config = (h'.revs x).config) (hbranch : rev.branch = (h'.revs x).branch)
    (hname : rev.name = (h'.revs x).name) (hold : OldChildren h' rev.children)
    (hchildren : ((Function.update h'.revs x rev L').getChildren name).entries = rs'.map some)
    (hrecorded : Recorded M h' L' → Recorded M (h'.setRev x rev) L') :
    Relisted M name field h b L' rs' (h'.setRev x rev) := by
  have hne : ∀ {r}, h.Old r → r ≠ x := fun hr heq => hx (heq ▸ hr)
  have hconfig' := revs_setRev Revision.config hconfig
  have hbranch' := revs_setRev Revision.branch hbranch
  have hold' : ∀ r, OldChildren h' (h'.revs r).children →
      OldChildren (h'.setRev x rev) ((h'.setRev x rev).revs r).children := fun r hr => by
    rw [setRev_revs, update_apply]
    split_ifs with heq
    · exact hold
    · exact hr
  have hmild : Mild (field.keyOf M) h (h'.setRev x rev) := by
    refine ⟨hr.mild.old, fun h0 => ?_, fun h0 => ?_, fun h0 => ?_, hr.mild.node, hr.mild.txid,
      fun h0 hl => ?_, hr.mild.nodes, hr.mild.root⟩
    · rw [hconfig', hr.mild.config h0]
    · rw [hbranch', hr.mild.branch h0]
    · rw [setRev_revs, update_of_ne (hne h0), hr.mild.children h0]
    · obtain ⟨l, hl⟩ := hr.mild.latest h0 hl
      refine ⟨l, hl.latest, hl.old, ?_, hold' l hl.children, ?_⟩
      · rw [hbranch', hl.branch]
      · rw [Revision.data, hconfig']
        exact hl.key
  refine ⟨⟨hmild, fun h0 => ?_, hr.store⟩, hr.branches, hr.cache,
    fun hl => (revs_setRev Revision.name hname L').trans (hr.same_name hl), hr.old, hr.latest,
    (hbranch' L').trans hr.branch, hchildren, hold' L' hr.old_children,
    hr.recorded.imp id hrecorded⟩
  rw [setRev_revs, update_of_ne (hne h0), hr.revs h0]

theorem Relisted.old_listed :
    ∀ r ∈ rs, h'.Old r := fun r hmem => by
  refine hr.old_children name r ?_
  have hsome : some r ∈ rs.map some := mem_map_of_mem hmem
  rwa [← hr.children] at hsome

theorem Relisted.setKids (hnew : ¬ h.Old L') (hsub : rs'.Sublist rs) :
    Relisted M name field h b L' rs' (h'.setKids L' name rs') := by
  refine hr.setRev hnew rfl rfl rfl (oldChildren_insert hr.old_children fun r hmem =>
    hr.old_listed r (hsub.subset hmem)) ?_ fun hrecorded => hrecorded.setKids hr.children hsub
  rw [update_self]
  exact entries_lookup_insert _ rs'

theorem Relisted.setKids_of_ne {x : Ref} (hnew : ¬ h.Old x) (hne : L' ≠ x)
    (hold : OldChildren h' (h'.revs x).children) (hrs : ∀ r ∈ rs', h'.Old r) :
    Relisted M name field h b L' rs (h'.setKids x name rs') := by
  refine hr.setRev hnew rfl rfl rfl (oldChildren_insert hold hrs) ?_ fun hrecorded =>
    hrecorded.congr (setKids_hash ..) ?_ (fun _ => setKids_hash ..) hr.old_children
  · rw [update_of_ne hne]
    exact hr.children
  · rw [setRev_revs, update_of_ne hne]

end

/-- The next revision of the root does not become the latest one when the hash stays. -/
theorem Rack.makeLatest_of_same [DecidableEq η] (hs : Rack M name field h b L kids) (env : Env)
    (hsame : (nextRoot M name h b L rs).hash = (h.revs L).hash) :
    makeLatest env b (h.fresh env.txid) (h.addRev env.txid (nextRoot M name h b L rs)) =
      .ok () (h.addRev env.txid (nextRoot M name h b L rs)) := by
  refine Nodes.makeLatest_of_same hs.latest ?_
  rw [revs_addRev_fresh, hs.old_latest.revs_addRev]
  exact hsame

theorem Rack.makeLatest_of_new [DecidableEq η] (hs : Rack M name field h b L kids) (env : Env)
    (hnew : (nextRoot M name h b L rs).hash ≠ (h.revs L).hash) :
    makeLatest env b (h.fresh env.txid) (h.addRev env.txid (nextRoot M name h b L rs)) =
      .ok () ((h.addRev env.txid (nextRoot M name h b L rs)).madeLatest env b
        (h.fresh env.txid)) := by
  refine Nodes.makeLatest_of_new fun l hl => ?_
  obtain rfl : L = l := Option.some.inj (hs.latest.symm.trans hl)
  rw [revs_addRev_fresh, hs.old_latest.revs_addRev]
  exact hnew

section

variable [DecidableEq δ] {cs : List Ref} {childRev : Ref} (hs : Rack M name field h b L kids)
include hs

theorem Rack.old_merged (hcs : ∀ r ∈ cs, h.Old r) :
    ∀ r ∈ mergedRefs h kids cs, h.Old r := fun r hr =>
  (mem_mergedRefs hr).elim hs.old (hcs r)

theorem Rack.updateChildren_apply (hcs : ∀ r ∈ cs, h.Old r) :
    updateChildren M env L name (cs.map some) b h = .ok (h.fresh env.txid)
      (h.addRev env.txid (nextRoot M name h b L (mergedRefs h kids cs))) :=
  Nodes.updateChildren_apply hs.latest hs.children hs.old_children (fun _ => hs.old) hcs

variable [DecidableEq η]

/-- The new children are merged with those of the container, and the first one with the hash of
the replaced child is dropped. -/
def relisted (h : Heap τ δ η) (kids cs : List Ref) (childRev : Ref) : List Ref :=
  (mergedRefs h kids cs).eraseP fun r => (h.revs r).hash = (h.revs childRev).hash

/-- The children stay when the hash of the root does, and are relisted otherwise. -/
theorem Rack.replaceChild_apply (env : Env) (hcs : ∀ r ∈ cs, h.Old r) (hchild : h.Old childRev) :
    ∃ L' h', replaceChild M env b L name (cs.map some) childRev h = .ok () h' ∧
      Relisted M name field h b L'
        (if (nextRoot M name h b L (mergedRefs h kids cs)).hash = (h.revs L).hash then kids
          else relisted h kids cs childRev) h' := by
  have hmerged := hs.old_merged hcs
  set h1 := h.addRev env.txid (nextRoot M name h b L (mergedRefs h kids cs))
  unfold replaceChild
  rw [bind_of_ok (hs.updateChildren_apply hcs)]
  split_ifs with hgate
  · have hr : Relisted M name field h b L kids h1 := relisted_addRev hs _ _
    have hnew : h1.revs (h.fresh env.txid) = nextRoot M name h b L (mergedRefs h kids cs) :=
      revs_addRev_fresh
    have hchildren : ((h1.revs (h.fresh env.txid)).getChildren name).entries =
        (mergedRefs h kids cs).map some := by
      rw [hnew]
      exact entries_lookup_insert _ _
    rw [bind_of_ok (hs.makeLatest_of_same env hgate), getRev_bind,
      childDrop_apply hs.segment.ne_empty _ hchildren]
    refine ⟨L, _, rfl, ?_⟩
    unfold Heap.dropKid
    split_ifs with hex
    · refine hr.setKids_of_ne not_old_fresh hs.old_latest.ne_fresh ?_ fun r hr' =>
        hr.mild.old (hmerged r (mem_of_mem_eraseP hr'))
      rw [hnew]
      exact hr.mild.oldChildren
        (oldChildren_insert (oldChildren_appendChildren hs.old_children) hmerged)
    · exact hr
  · set h2 := h1.madeLatest env b (h.fresh env.txid)
    have hr : Relisted M name field h b (h.fresh env.txid) (mergedRefs h kids cs) h2 :=
      relisted_madeLatest hs env hmerged
    have herase : (mergedRefs h kids cs).eraseP (fun r => (h2.revs r).hash =
        (h2.revs childRev).hash) = relisted h kids cs childRev :=
      Table.eraseP_congr fun r hr' => by rw [hr.revs (hmerged r hr'), hr.revs hchild]
    rw [bind_of_ok (hs.makeLatest_of_new env hgate), getRev_bind,
      childDrop_apply hs.segment.ne_empty _ hr.children, ← herase]
    refine ⟨h.fresh env.txid, _, rfl, ?_⟩
    unfold Heap.dropKid
    split_ifs with hex
    · exact hr.setKids not_old_fresh eraseP_sublist
    · rw [eraseP_of_forall_not fun r hr' => by simpa using fun heq => hex ⟨r, hr', heq⟩]
      exact hr

/-- The merged children are listed unless the hash of the root stays. -/
theorem Rack.relist (env : Env) (hcs : ∀ r ∈ cs, h.Old r) :
    ∃ u h1 L' h', updateChildren M env L name (cs.map some) b h = .ok u h1 ∧
      makeLatest env b u h1 = .ok () h' ∧
      Relisted M name field h b L'
        (if (nextRoot M name h b L (mergedRefs h kids cs)).hash = (h.revs L).hash then kids
          else mergedRefs h kids cs) h' := by
  split_ifs with hgate
  · exact ⟨_, _, _, _, hs.updateChildren_apply hcs, hs.makeLatest_of_same env hgate,
      relisted_addRev hs _ _⟩
  · exact ⟨_, _, _, _, hs.updateChildren_apply hcs, hs.makeLatest_of_new env hgate,
      relisted_madeLatest hs env (hs.old_merged hcs)⟩

end

end Shelves

/-! ### One child in the place of another -/

section Replacing

variable {x : Ref} {before later : List Ref}

theorem mem_middle_cases (h : r' ∈ before ++ x :: later) : r' = x ∨ r' ∈ before ++ later :=
  mem_cons.mp (perm_middle.mem_iff.mp h)

theorem mem_middle_of_mem (x : Ref) (h : r' ∈ before ++ later) : r' ∈ before ++ x :: later :=
  perm_middle.mem_iff.mpr (mem_cons_of_mem _ h)

theorem mem_replaced_cases (h : r' ∈ before ++ x :: later) :
    r' ∈ before ++ r :: later ∨ r' = x := by
  obtain rfl | hmem := mem_middle_cases h
  · exact .inr rfl
  · exact .inl (mem_middle_of_mem r hmem)

theorem forall_mem_replaced {P : Ref → Prop} (hx : P x) (h : ∀ r' ∈ before ++ r :: later, P r') :
    ∀ r' ∈ before ++ x :: later, P r' := fun r' hr' => by
  obtain hmem | rfl := mem_replaced_cases (r := r) hr'
  · exact h r' hmem
  · exact hx

theorem ne_of_mem_middle (hnodup : (before ++ r :: later).Nodup) (h : r' ∈ before ++ later) :
    r' ≠ r := by
  rintro rfl
  exact (nodup_cons.mp (hnodup.perm perm_middle)).1 h

/-- A revision of the same branch and key can take the place of a child. -/
theorem Kid.of_branch (hk : Kid M field h r) (hx : h.Old x)
    (hbranch : (h.revs x).branch = (h.revs r).branch)
    (hkey : h.keyAt M field x = h.keyAt M field r) : Kid M field h x := by
  obtain ⟨hold, hold_branch, hold_node, htype, hnone, htxid, hlatest⟩ := hk
  rw [← hbranch] at hold_branch hold_node htype hnone htxid hlatest
  rw [← hkey] at hlatest
  exact ⟨hx, hold_branch, hold_node, htype, hnone, htxid, hlatest⟩

theorem Kids.replace (hk : Kids M field h b (before ++ r :: later)) (hx : h.Old x)
    (hbranch : (h.revs x).branch = (h.revs r).branch)
    (hkey : h.keyAt M field x = h.keyAt M field r) :
    Kids M field h b (before ++ x :: later) := by
  obtain ⟨hkid, hapart, hdistinct, hkeys⟩ := hk
  have hr : Kid M field h r := hkid r (by simp)
  refine ⟨forall_mem_replaced (hr.of_branch hx hbranch hkey) hkid,
    forall_mem_replaced ?_ hapart, ?_, ?_⟩
  · rw [hbranch]
    exact hapart r (by simp)
  · simp only [pairwise_append, pairwise_cons, mem_cons, forall_eq_or_imp, hbranch] at hdistinct ⊢
    exact hdistinct
  · simp only [map_append, map_cons, hkey] at hkeys ⊢
    exact hkeys

variable [DecidableEq δ]

theorem Kids.keptRef_of_mem (hk : Kids M field h b kids) (hr : r ∈ kids) :
    keptRef h kids r = r := by
  obtain heq | ⟨hmem, -, hdata⟩ := keptRef_cases h kids r
  · exact heq
  · refine hk.eq_of_keyAt hmem hr ?_
    rw [Heap.keyAt, hdata, Heap.keyAt]

theorem Kids.keptRef_of_fresh (hkey : ∀ r ∈ kids, h.keyAt M field r ≠ h.keyAt M field x) :
    keptRef h kids x = x := by
  obtain heq | ⟨hmem, -, hdata⟩ := keptRef_cases h kids x
  · exact heq
  · refine absurd ?_ (hkey _ hmem)
    rw [Heap.keyAt, hdata, Heap.keyAt]

theorem Kids.mergedRefs_concat (hk : Kids M field h b kids)
    (hkey : ∀ r ∈ kids, h.keyAt M field r ≠ h.keyAt M field x) :
    mergedRefs h kids (kids ++ [x]) = kids ++ [x] := by
  rw [mergedRefs_of_cover fun old hold => ⟨old, by simp [hold], rfl⟩, map_append,
    map_congr_left fun r hr => hk.keptRef_of_mem hr, map_singleton, Kids.keptRef_of_fresh hkey]
  simp

variable (hk : Kids M field h b (before ++ r :: later))
include hk

theorem Kids.map_keptRef_replace : (before ++ x :: later).map (keptRef h (before ++ r :: later)) =
    before ++ keptRef h (before ++ r :: later) x :: later := by
  rw [map_append, map_cons,
    map_congr_left fun r' hr' => hk.keptRef_of_mem (mem_append_left _ hr'),
    map_congr_left (l := later) fun r' hr' =>
      hk.keptRef_of_mem (mem_append_right _ (mem_cons_of_mem _ hr'))]
  simp

variable (hkey : h.keyAt M field x = h.keyAt M field r)
include hkey

/-- What is kept of a new revision of a child: the revision or the child. -/
theorem Kids.keptRef_replace : keptRef h (before ++ r :: later) x = x ∨
    keptRef h (before ++ r :: later) x = r ∧ (h.revs r).name = (h.revs x).name ∧
      (h.revs r).data = (h.revs x).data := by
  obtain heq | ⟨hmem, hname, hdata⟩ := keptRef_cases h (before ++ r :: later) x
  · exact .inl heq
  · have heq : keptRef h (before ++ r :: later) x = r := by
      refine hk.eq_of_keyAt hmem (by simp) ?_
      rw [← hkey, Heap.keyAt, hdata, Heap.keyAt]
    rw [heq] at hname hdata
    exact .inr ⟨heq, hname, hdata⟩

/-- A revision with the name of the child takes its place. -/
theorem Kids.mergedRefs_of_name (hname : (h.revs x).name = (h.revs r).name) :
    mergedRefs h (before ++ r :: later) (before ++ x :: later) =
      before ++ keptRef h (before ++ r :: later) x :: later := by
  rw [mergedRefs_of_cover, hk.map_keptRef_replace]
  intro old hold
  obtain hmem | rfl := mem_replaced_cases (r := x) hold
  · exact ⟨old, hmem, rfl⟩
  · exact ⟨x, by simp, hname⟩

variable [DecidableEq η]

/-- After the drop of the replaced child, the list has the new revision in its place, or parts of
that list. -/
theorem Kids.relisted_sublist : ∃ x', (x' = x ∨ x' = r) ∧
    (relisted h (before ++ r :: later) (before ++ x :: later) r).Sublist
      (before ++ x' :: later) := by
  by_cases hcover : ∃ r' ∈ before ++ x :: later, (h.revs r').name = (h.revs r).name
  · refine ⟨keptRef h (before ++ r :: later) x, (hk.keptRef_replace hkey).imp id And.left, ?_⟩
    rw [relisted, mergedRefs_of_cover, hk.map_keptRef_replace]
    · exact eraseP_sublist
    · intro old hold
      obtain hmem | rfl := mem_replaced_cases (r := x) hold
      · exact ⟨old, hmem, rfl⟩
      · exact hcover
  · -- the child is listed first, and its hash is that of the drop
    push Not at hcover
    have hkept : keptRef h (before ++ r :: later) x = x :=
      (hk.keptRef_replace hkey).resolve_right fun hr => hcover x (by simp) hr.2.1.symm
    have hfirst : ((before ++ r :: later).filter fun old =>
        ∀ r' ∈ before ++ x :: later, (h.revs r').name ≠ (h.revs old).name) = [r] := by
      have hnone : ∀ old ∈ before ++ x :: later, ¬ ∀ r' ∈ before ++ x :: later,
          (h.revs r').name ≠ (h.revs old).name := fun old hold hall => hall old hold rfl
      rw [filter_append, filter_cons_of_pos (by simpa using hcover),
        filter_eq_nil_iff.mpr fun old hold => by
          simpa using hnone old (mem_append_left _ hold),
        filter_eq_nil_iff.mpr fun old hold => by
          simpa using hnone old (mem_append_right _ (mem_cons_of_mem _ hold))]
      rfl
    refine ⟨x, .inl rfl, ?_⟩
    rw [relisted, mergedRefs, hfirst, hk.map_keptRef_replace, hkept, singleton_append,
      eraseP_cons_of_pos (by simp)]

theorem Kids.relisted (hx : h.Old x) (hbranch : (h.revs x).branch = (h.revs r).branch) :
    Kids M field h b (relisted h (before ++ r :: later) (before ++ x :: later) r) := by
  obtain ⟨x', rfl | rfl, hsub⟩ := hk.relisted_sublist hkey
  · exact (hk.replace hx hbranch hkey).sublist hsub
  · exact hk.sublist hsub

end Replacing

end VolthaCore.Nodes
