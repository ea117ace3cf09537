import VolthaCore.Nodes.Execution

/-! New nodes. Making a node for a message, with nodes for all its children, only adds
objects: those that were there before stay as they are. -/

namespace VolthaCore.Nodes

open Outcome DataModel List Function AList

section Extensions

variable {τ δ η : Type} {o : String} {h h' h'' : Heap τ δ η}

/-- An address that an owner had not yet given to an object. -/
def IsNew (o : String) (h : Heap τ δ η) (r : Ref) : Prop := r.owner = o ∧ h.next o ≤ r.num

theorem Heap.Old.not_isNew {r : Ref} (hr : h.Old r) : ¬ IsNew o h r := by
  rintro ⟨rfl, hle⟩
  exact absurd hr (not_lt.mpr hle)

/-- Only objects of one owner have been added. -/
structure Extends (o : String) (h h' : Heap τ δ η) : Prop where
  revs : ∀ r, ¬ IsNew o h r → h'.revs r = h.revs r
  branches : ∀ b, ¬ IsNew o h b → h'.branches b = h.branches b
  nodes : ∀ n, ¬ IsNew o h n → h'.nodes n = h.nodes n
  next_le : h.next o ≤ h'.next o
  next : ∀ o', o' ≠ o → h'.next o' = h.next o'
  cache : h'.cache = h.cache
  store : h'.store = h.store
  dirtyNodes : h'.dirtyNodes = h.dirtyNodes
  root : h'.root = h.root

namespace Extends

theorem refl (o : String) (h : Heap τ δ η) : Extends o h h :=
  ⟨fun _ _ => rfl, fun _ _ => rfl, fun _ _ => rfl, le_rfl, fun _ _ => rfl, rfl, rfl, rfl, rfl⟩

variable {r : Ref}

section

variable (hx : Extends o h h')
include hx

theorem isNew (hr : IsNew o h' r) : IsNew o h r :=
  ⟨hr.1, hx.next_le.trans hr.2⟩

theorem trans (hx' : Extends o h' h'') : Extends o h h'' where
  revs r hr := (hx'.revs r fun hn => hr (hx.isNew hn)).trans (hx.revs r hr)
  branches r hr := (hx'.branches r fun hn => hr (hx.isNew hn)).trans (hx.branches r hr)
  nodes r hr := (hx'.nodes r fun hn => hr (hx.isNew hn)).trans (hx.nodes r hr)
  next_le := hx.next_le.trans hx'.next_le
  next o' ho' := (hx'.next o' ho').trans (hx.next o' ho')
  cache := hx'.cache.trans hx.cache
  store := hx'.store.trans hx.store
  dirtyNodes := hx'.dirtyNodes.trans hx.dirtyNodes
  root := hx'.root.trans hx.root

theorem old (hr : h.Old r) : h'.Old r := by
  unfold Heap.Old at hr ⊢
  by_cases ho : r.owner = o
  · rw [ho] at hr ⊢
    exact hr.trans_le hx.next_le
  · rwa [hx.next _ ho]

theorem revs_old (hr : h.Old r) : h'.revs r = h.revs r :=
  hx.revs r hr.not_isNew

theorem branches_old {b : Ref} (hb : h.Old b) :
    h'.branches b = h.branches b :=
  hx.branches b hb.not_isNew

theorem nodes_old {n : Ref} (hn : h.Old n) : h'.nodes n = h.nodes n :=
  hx.nodes n hn.not_isNew

end

theorem alloc (h : Heap τ δ η) (o : String) : Extends o h (h.alloc o) where
  revs _ _ := rfl
  branches _ _ := rfl
  nodes _ _ := rfl
  next_le := by simp
  next o' ho' := by simp [ho']
  cache := rfl
  store := rfl
  dirtyNodes := rfl
  root := rfl

theorem setRev (hx : Extends o h h') (hr : IsNew o h r) (rev : Revision δ η) :
    Extends o h (h'.setRev r rev) :=
  { hx with
    revs := fun r' hr' => by
      rw [Heap.setRev_revs, update_of_ne (by rintro rfl; exact hr' hr), hx.revs r' hr'] }

theorem setBranch (hx : Extends o h h') {b : Ref} (hb : IsNew o h b) (branch : Branch) :
    Extends o h (h'.setBranch b branch) :=
  { hx with
    branches := fun b' hb' => by
      rw [Heap.setBranch_branches, update_of_ne (by rintro rfl; exact hb' hb), hx.branches b' hb'] }

theorem setNode (hx : Extends o h h') {n : Ref} (hn : IsNew o h n) (node : Node τ) :
    Extends o h (h'.setNode n node) :=
  { hx with
    nodes := fun n' hn' => by
      rw [Heap.setNode_nodes, update_of_ne (by rintro rfl; exact hn' hn), hx.nodes n' hn'] }

end Extends

theorem isNew_fresh (o : String) (h : Heap τ δ η) : IsNew o h (h.fresh o) := ⟨rfl, le_rfl⟩

theorem extends_addRev (h : Heap τ δ η) (o : String) (rev : Revision δ η) :
    Extends o h (h.addRev o rev) :=
  (Extends.alloc h o).setRev (isNew_fresh o h) rev

end Extensions

/-! ### New nodes -/

section Nodes

variable {τ δ η : Type} {M : Model τ δ η} {env : Env}

/-- The hashes of the first revisions of the children in a field. A revision in the branch of a
transaction is only found for a keyed container. -/
def fieldHashes (M : Model τ δ η) (txid : String) (below : δ → η) (data : δ) (name : String) :
    List η :=
  match (M.messages.childrenFields (M.messages.typeOf data)).lookup name with
  | none => []
  | some field =>
    if branchKey (if field.isContainer ∧ field.key ≠ "" then txid else "") = branchKey txid then
      (M.messages.values name data).map below
    else
      []

def firstHashWith (M : Model τ δ η) (hasRoot : Bool) (txid : String) (below : δ → η)
    (data : δ) : η :=
  M.digest.content (M.digest.data hasRoot data) ""
    (((M.messages.childrenFields (M.messages.typeOf data)).keys.insertionSort (· ≤ ·)).flatMap
      (fieldHashes M txid below data))

def firstHashUpTo (M : Model τ δ η) (hasRoot : Bool) (txid : String) : ℕ → δ → η
  | 0 => firstHashWith M hasRoot txid (M.digest.data hasRoot)
  | height + 1 => firstHashWith M hasRoot txid (firstHashUpTo M hasRoot txid height)

def firstHash (M : Model τ δ η) (hasRoot : Bool) (txid : String) (data : δ) : η :=
  firstHashUpTo M hasRoot txid (M.messages.height data) data

/-- The first revision of a node for a message. -/
structure IsFirst (M : Model τ δ η) (data : δ) (hash : η) (branch : Ref) (rev : Revision δ η)
    (h : Heap τ δ η) : Prop where
  config : rev.config = ⟨data, M.digest.data h.store.isNone data⟩
  hash : rev.hash = some hash
  branch : rev.branch = branch
  name : rev.name = ""
  lastUpdate : rev.lastUpdate = none
  version : rev.version = 1
  hasRoot : rev.hasRoot = h.store.isNone
  children : OldChildren h rev.children

/-- A node for a message with one revision, in the branch of a transaction or `NONE`. -/
structure IsNode (M : Model τ δ η) (data : δ) (hash : η) (txid : String) (n b r : Ref)
    (h : Heap τ δ η) : Prop where
  old_node : h.Old n
  old_branch : h.Old b
  old_rev : h.Old r
  node : h.nodes n = ⟨M.messages.typeOf data, Function.update (fun _ => none) (branchKey txid) b⟩
  branch : h.branches b = ⟨n, "", some r⟩
  rev : IsFirst M data hash b (h.revs r) h

variable {o txid name : String} {h h' : Heap τ δ η} {children : GoMap String (Slice Ref)} {data : δ}
  {rs : List Ref} {hashes : List η} {s : Option (Store δ)} {below : δ → η}
  {makeChild : δ → Op τ δ η Ref} {visited : List String}

theorem OldChildren.mono (hc : OldChildren h children) (hx : Extends o h h') :
    OldChildren h' children :=
  fun name r hr => hx.old (hc name r hr)

theorem latest_apply {hash : η} {txid' : String} {n b r : Ref}
    (hn : IsNode M data hash txid n b r h) :
    latest n txid' h = .ok (if branchKey txid' = branchKey txid then some r else none) h := by
  have hb : (h.nodes n).branches (branchKey txid') =
      if branchKey txid' = branchKey txid then some b else none := by
    simp only [hn.node, update_apply]
  unfold latest
  rw [getNode_bind, hb]
  split_ifs with hkey
  · dsimp only
    rw [getBranch_bind, hn.branch]
    rfl
  · rfl

/-- The computation makes a new node for a message and only adds objects. -/
def MakesNode (M : Model τ δ η) (o txid : String) (s : Option (Store δ)) (x : Op τ δ η Ref)
    (data : δ) (hash : η) : Prop :=
  ∀ h, h.store = s → ∃ n b r h', x h = .ok n h' ∧ Extends o h h' ∧
    IsNode M data hash txid n b r h' ∧ IsNew o h n ∧ IsNew o h b ∧ IsNew o h r

/-- Revisions with the given hashes. -/
structure HaveHashes (h : Heap τ δ η) (rs : List Ref) (hashes : List η) : Prop where
  old : ∀ r ∈ rs, h.Old r
  hashes : rs.map (fun r => (h.revs r).hash) = hashes.map some

theorem HaveHashes.mono (hr : HaveHashes h rs hashes) (hx : Extends o h h') :
    HaveHashes h' rs hashes where
  old r hmem := hx.old (hr.old r hmem)
  hashes := by
    rw [map_congr_left fun r hmem => by rw [hx.revs_old (hr.old r hmem)]]
    exact hr.hashes

theorem HaveHashes.filterMap (hr : HaveHashes h rs hashes) :
    (rs.filterMap fun r => (h.revs r).hash) = hashes := by
  have hmap : (rs.filterMap fun r => (h.revs r).hash) =
      (rs.map fun r => (h.revs r).hash).filterMap id := by rw [filterMap_map]; rfl
  rw [hmap, hr.hashes, filterMap_map]
  simp

theorem makeField_adds {values : List δ} (txid' : String)
    (hmake : ∀ v ∈ values, MakesNode M o txid s (makeChild v) v (below v)) (hs : h.store = s) :
    ∃ revs h', (values.mapM (fun v => do latest (← makeChild v) txid') :
        Op τ δ η (List (Option Ref))) h = .ok revs h' ∧
      Extends o h h' ∧ HaveHashes h' revs.reduceOption
        (if branchKey txid' = branchKey txid then values.map below else []) := by
  induction values generalizing h with
  | nil => exact ⟨[], h, rfl, .refl o h, by simp, by simp⟩
  | cons v values ih =>
    obtain ⟨n, b, r, h1, hrun, hx, hn, -⟩ := hmake v (by simp) h hs
    obtain ⟨revs, h2, hrun', hx', hrevs⟩ :=
      ih (fun v' hv' => hmake v' (mem_cons_of_mem _ hv')) (hx.store.trans hs)
    refine ⟨(if branchKey txid' = branchKey txid then some r else none) :: revs, h2, ?_,
      hx.trans hx', ?_⟩
    · rw [mapM_cons, bind_of_ok ((bind_of_ok hrun).trans (latest_apply hn)), bind_of_ok hrun']
      rfl
    · split_ifs at hrevs ⊢ with hkey
      · refine ⟨?_, ?_⟩
        · simp only [reduceOption_cons_of_some, mem_cons, forall_eq_or_imp]
          exact ⟨hx'.old hn.old_rev, hrevs.old⟩
        · simp only [reduceOption_cons_of_some, map_cons, hrevs.hashes]
          rw [hx'.revs_old hn.old_rev, hn.rev.hash]
      · simpa using hrevs

/-- The children of the visited fields have been made, and no others. -/
structure FieldsMade (M : Model τ δ η) (txid : String) (below : δ → η) (data : δ)
    (visited : List String) (children : GoMap String (Slice Ref)) (h : Heap τ δ η) : Prop where
  made : ∀ name ∈ visited, ∃ rs, entriesOf children name = rs.map some ∧
    HaveHashes h rs (fieldHashes M txid below data name)
  only : ∀ name ∈ children, name ∈ visited

theorem FieldsMade.mono (hm : FieldsMade M txid below data visited children h)
    (hx : Extends o h h') :
    FieldsMade M txid below data visited children h' :=
  ⟨fun name hname => (hm.made name hname).imp fun _ hrs => ⟨hrs.1, hrs.2.mono hx⟩, hm.only⟩

theorem entriesOf_of_notMem (hname : name ∉ children) : entriesOf children name = [] := by
  rw [entriesOf, lookup_eq_none.mpr hname]
  rfl

theorem FieldsMade.oldChildren (hm : FieldsMade M txid below data visited children h) :
    OldChildren h children := by
  intro name r hr
  by_cases hname : name ∈ children
  · obtain ⟨rs, hrs, hh⟩ := hm.made name (hm.only name hname)
    rw [hrs] at hr
    exact hh.old r (by simpa using hr)
  · rw [entriesOf_of_notMem hname] at hr
    cases hr

theorem FieldsMade.hashOf {rev : Revision δ η} {hasRoot : Bool} (hm : FieldsMade M txid below data
      (M.messages.childrenFields (M.messages.typeOf data)).keys rev.children h)
    (hconfig : rev.config.hash = M.digest.data hasRoot data) (hname : rev.name = "") :
    M.hashOf h rev = firstHashWith M hasRoot txid below data := by
  rw [M.hashOf_eq, hashesOf_eq h _ (keys_nodup _) hm.only, hconfig, hname, firstHashWith]
  congr 1
  refine flatMap_congr fun name hmem => ?_
  obtain ⟨rs, hrs, hh⟩ := hm.made name ((perm_insertionSort _ _).mem_iff.mp hmem)
  rw [hashesAt_eq hrs, hh.filterMap]

theorem FieldsMade.field {field : ChildType τ}
    (hm : FieldsMade M txid below data visited children h)
    (hmake : ∀ v ∈ M.messages.values name data, MakesNode M o txid s (makeChild v) v (below v))
    (hfield : (M.messages.childrenFields (M.messages.typeOf data)).lookup name = some field)
    (hname : name ∉ visited) (hs : h.store = s) :
    ∃ revs children' h', ((M.messages.values name data).mapM (fun v => do
        latest (← makeChild v) (if field.isContainer ∧ field.key ≠ "" then txid else "")) :
          Op τ δ η (List (Option Ref))) h = .ok revs h' ∧
      (if revs.reduceOption = [] then children
        else children.insert name (some (revs.reduceOption.map some))) = children' ∧
      Extends o h h' ∧ FieldsMade M txid below data (visited ++ [name]) children' h' := by
  obtain ⟨revs, h', hrun, hx, hrevs⟩ := makeField_adds
    (if field.isContainer ∧ field.key ≠ "" then txid else "") hmake hs
  have hhashes : HaveHashes h' revs.reduceOption (fieldHashes M txid below data name) := by
    rw [fieldHashes, hfield]
    exact hrevs
  refine ⟨revs, _, h', hrun, rfl, hx, ?_⟩
  have hmono := hm.mono hx
  refine ⟨fun name' hname' => ?_, fun name' hmem => ?_⟩
  · rcases mem_append.mp hname' with hold | hnew
    · -- the fields before are left alone
      obtain ⟨rs, hrs, hh⟩ := hmono.made name' hold
      refine ⟨rs, ?_, hh⟩
      split_ifs with hempty
      · exact hrs
      · rw [entriesOf, lookup_insert_ne (by rintro rfl; exact hname hold)]
        exact hrs
    · obtain rfl := mem_singleton.mp hnew
      refine ⟨revs.reduceOption, ?_, hhashes⟩
      split_ifs with hempty
      · rw [hempty, entriesOf_of_notMem fun hmem => hname (hm.only _ hmem)]
        rfl
      · rw [entriesOf, lookup_insert]
        rfl
  · split_ifs at hmem with hempty
    · exact mem_append_left _ (hm.only name' hmem)
    · rcases (mem_insert children).mp hmem with rfl | hmem
      · simp
      · exact mem_append_left _ (hm.only name' hmem)

/-- The children of a new node are new nodes with their first revisions. -/
theorem makeChildren_adds (hmake : ∀ name, ∀ v ∈ M.messages.values name data,
      MakesNode M o txid s (makeChild v) v (below v)) (hs : h.store = s) :
    ∃ children h', makeChildren M makeChild data txid h = .ok children h' ∧ Extends o h h' ∧
      FieldsMade M txid below data (M.messages.childrenFields (M.messages.typeOf data)).keys
        children h' := by
  set fields := M.messages.childrenFields (M.messages.typeOf data) with hfields
  suffices hgen : ∀ (fs : List (Σ _ : String, ChildType τ)) (visited : List String)
      (children : GoMap String (Slice Ref)) (h : Heap τ δ η), h.store = s →
      (∀ f ∈ fs, fields.lookup f.1 = some f.2) → (fs.map Sigma.fst).Nodup →
      (∀ f ∈ fs, f.1 ∉ visited) → FieldsMade M txid below data visited children h →
      ∃ children' h', (fs.foldlM (fun children field => do
          let revs ← (M.messages.values field.1 data).mapM fun v => do
            latest (← makeChild v) (if field.2.isContainer ∧ field.2.key ≠ "" then txid else "")
          if revs.reduceOption = [] then return children
          else return children.insert field.1 (some (revs.reduceOption.map some))) children :
            Op τ δ η (GoMap String (Slice Ref))) h = .ok children' h' ∧ Extends o h h' ∧
        FieldsMade M txid below data (visited ++ fs.map Sigma.fst) children' h' by
    have hperm := M.fieldOrder.perm fields.entries
    have hnames : ((M.fieldOrder.visit fields.entries).map Sigma.fst).Perm fields.keys :=
      hperm.map _
    obtain ⟨children', h', hrun, hx, hm⟩ := hgen (M.fieldOrder.visit fields.entries) [] ∅ h hs
      (fun f hf => mem_lookup_iff.mpr (hperm.mem_iff.mp hf))
      (hnames.nodup_iff.mpr fields.nodupKeys) (by simp)
      ⟨by simp, fun name hname => absurd hname (notMem_empty name)⟩
    refine ⟨children', h', hrun, hx, fun name hname => ?_, fun name hname => ?_⟩
    · exact hm.made name (by simpa using hnames.mem_iff.mpr hname)
    · exact hnames.mem_iff.mp (by simpa using hm.only name hname)
  intro fs
  induction fs with
  | nil =>
    intro visited children h _ _ _ _ hm
    exact ⟨children, h, rfl, .refl o h, by simpa using hm⟩
  | cons f fs ih =>
    intro visited children h hs hlookup hnodup hvisited hm
    obtain ⟨revs, children1, h1, hrun, hif, hx, hm1⟩ := hm.field (hmake f.1)
      (hlookup f (by simp)) (hvisited f (by simp)) hs
    rw [map_cons, nodup_cons] at hnodup
    obtain ⟨children2, h2, hrun', hx', hm2⟩ := ih (visited ++ [f.1]) children1 h1
      (hx.store.trans hs) (fun f' hf' => hlookup f' (mem_cons_of_mem _ hf')) hnodup.2
      (fun f' hf' => by
        simp only [mem_append, mem_singleton, not_or]
        exact ⟨hvisited f' (mem_cons_of_mem _ hf'), fun heq =>
          hnodup.1 (heq ▸ mem_map_of_mem hf')⟩) hm1
    refine ⟨children2, h2, ?_, hx.trans hx', by simpa using hm2⟩
    rw [foldlM_cons]
    refine (bind_of_ok (?_ : _ = EStateM.Result.ok children1 h1)).trans hrun'
    rw [bind_of_ok hrun, ← hif]
    split_ifs <;> rfl

section

variable [DecidableEq η] {txid : String} {s : Option (Store δ)} {data : δ}

theorem makesNode_initializeNode {below : δ → η} {makeChild : δ → Op τ δ η Ref}
    (hmake : ∀ name, ∀ v ∈ M.messages.values name data,
      MakesNode M env.txid txid s (makeChild v) v (below v)) :
    MakesNode M env.txid txid s (initializeNode M env makeChild data txid) data
      (firstHashWith M s.isNone txid below data) := by
  rintro h rfl
  -- the node comes first, then its children, its branch and its revision
  let h1 : Heap τ δ η :=
    (h.alloc env.txid).setNode (h.fresh env.txid) ⟨M.messages.typeOf data, fun _ => none⟩
  have hx1 : Extends env.txid h h1 := (Extends.alloc h _).setNode (isNew_fresh _ h) _
  obtain ⟨children, h2, hrun, hx, hmade⟩ := makeChildren_adds hmake (h := h1) rfl
  have hx2 := hx1.trans hx
  let h3 := (h2.alloc env.txid).setBranch (h2.fresh env.txid) ⟨h.fresh env.txid, "", none⟩
  have hx3 : Extends env.txid h2 h3 := (Extends.alloc h2 _).setBranch (isNew_fresh _ h2) _
  let rev : Revision δ η :=
    { config := ⟨data, M.digest.data h3.store.isNone data⟩, children, hash := none
      branch := h2.fresh env.txid, name := "", lastUpdate := none, version := 1
      hasRoot := h3.store.isNone }
  let h4 := h3.addRev env.txid { rev with hash := some (M.hashOf h3 rev) }
  let h5 := h4.setBranch (h2.fresh env.txid) ⟨h.fresh env.txid, "", some (h3.fresh env.txid)⟩
  let h6 := h5.setNode (h.fresh env.txid)
    ⟨M.messages.typeOf data,
      Function.update (fun _ => none) (branchKey txid) (h2.fresh env.txid)⟩
  have hmade3 := hmade.mono hx3
  have hold3 : OldChildren h3 children := hmade3.oldChildren
  have hrev : makeRevision M env (h2.fresh env.txid) data children h3 =
      .ok (h3.fresh env.txid) h4 := by
    rw [makeRevision, getStore_bind]
    exact @newRev_rehash_apply _ _ _ M env h3 rev hold3
  have hbranch : h4.branches (h2.fresh env.txid) = ⟨h.fresh env.txid, "", none⟩ := by
    simp [h4, h3]
  have hlatest : makeLatest env (h2.fresh env.txid) (h3.fresh env.txid) h4 = .ok () h5 := by
    rw [makeLatest_of_new (by simp [hbranch]), Heap.madeLatest, if_pos (by simp [h4, rev]), hbranch]
  have hnode : h5.nodes (h.fresh env.txid) = ⟨M.messages.typeOf data, fun _ => none⟩ :=
    (hx.nodes_old (n := h.fresh env.txid) Heap.old_alloc_fresh).trans (by simp [h1])
  have hrun' : initializeNode M env makeChild data txid h = .ok (h.fresh env.txid) h6 := by
    rw [initializeNode, bind_of_ok (newNode_apply env h _), bind_of_ok hrun, newBranch_bind,
      bind_of_ok hrev, bind_of_ok hlatest, bind_of_ok (setNodeBranch_apply ..), hnode]
    rfl
  have hx4 : Extends env.txid h3 h4 := extends_addRev h3 _ _
  have hx6 : Extends env.txid h h6 :=
    (((hx2.trans hx3).trans hx4).setBranch ⟨rfl, hx2.next_le⟩ _).setNode (isNew_fresh _ h) _
  have hold6 : OldChildren h6 children := fun name r hr => hx4.old (hold3 name r hr)
  have hnew : h6.revs (h3.fresh env.txid) = { rev with hash := some (M.hashOf h3 rev) } :=
    Heap.revs_addRev_fresh
  refine ⟨_, h2.fresh env.txid, h3.fresh env.txid, h6, hrun', hx6, ?_, isNew_fresh _ h,
    ⟨rfl, hx2.next_le⟩, ⟨rfl, (hx2.trans hx3).next_le⟩⟩
  refine ⟨?_, ?_, ?_, by simp [h6], by simp [h6, h5], ?_⟩
  · exact (hx.trans (hx3.trans hx4)).old (r := h.fresh env.txid) Heap.old_alloc_fresh
  · exact hx4.old (r := h2.fresh env.txid) Heap.old_alloc_fresh
  · exact Heap.old_addRev_fresh (h := h3) { rev with hash := some (M.hashOf h3 rev) }
  · have hstore : h3.store = h.store := (hx2.trans hx3).store
    have hhash : M.hashOf h3 rev = firstHashWith M h3.store.isNone txid below data :=
      hmade3.hashOf rfl rfl
    rw [hnew, ← hstore, ← hhash]
    exact ⟨rfl, rfl, rfl, rfl, rfl, rfl, rfl, hold6⟩

/-- The height of a message bounds the depth of its nodes. -/
theorem makesNode_makeNodeUpTo {height : ℕ} (hheight : M.messages.height data ≤ height) :
    MakesNode M env.txid txid s (makeNodeUpTo M env txid height data) data
      (firstHashUpTo M s.isNone txid height data) := by
  induction height generalizing data with
  | zero =>
    refine makesNode_initializeNode fun name v hv => ?_
    have hlt := M.messages.height_lt hv
    omega
  | succ height ih =>
    refine makesNode_initializeNode fun name v hv => ih ?_
    have hlt := M.messages.height_lt hv
    omega

/-- A new node is there, with one revision of its message, and all else is as it was. -/
theorem makesNode_makeNode (M : Model τ δ η) (env : Env) (s : Option (Store δ)) (data : δ)
    (txid : String) :
    MakesNode M env.txid txid s (makeNode M env data txid) data
      (firstHash M s.isNone txid data) :=
  makesNode_makeNodeUpTo le_rfl

end

end Nodes

end VolthaCore.Nodes
