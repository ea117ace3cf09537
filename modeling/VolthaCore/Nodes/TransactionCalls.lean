import Mathlib.Data.List.DropRight
import VolthaCore.Nodes.Calls
import VolthaCore.Nodes.Transactions

/-! The operations of an open transaction on the entries of a container, and under which
conditions they stay within the objects of the transaction. -/

namespace VolthaCore.Nodes

open Outcome Function Heap

variable {L c : Ref}

/-! ### What an open transaction does to an entry -/

section Entries

variable {τ δ η : Type} {M : Model τ δ η} {env : Env} {txid name : String} {h : Heap τ δ η}
  {r b n : Ref}

/-- The latest revision of a node as the transaction sees it. -/
def Heap.seen (h : Heap τ δ η) (txid : String) (n : Ref) : Option Ref :=
  (((h.nodes n).branches txid).or ((h.nodes n).branches NONE)).bind fun b => (h.branches b).latest

/-- When the revision is saved, nothing but what belongs to the transaction changes. -/
def Heap.Settled (h : Heap τ δ η) (txid : String) (r : Ref) : Prop :=
  if h.store.isSome then (h.branches (h.revs r).branch).txid ≠ "" else r.owner = txid

instance (h : Heap τ δ η) (txid : String) (r : Ref) : Decidable (h.Settled txid r) :=
  inferInstanceAs (Decidable (if h.store.isSome then _ ≠ _ else _ = _))

variable {h' : Heap τ δ η} {path : String}

theorem Heap.Settled.of_kept (hr : h.Settled txid r) (hstore : h'.store = h.store)
    (hbranch : (h'.revs r).branch = (h.revs r).branch)
    (htxid : ∀ b, (h'.branches b).txid = (h.branches b).txid) : h'.Settled txid r := by
  unfold Settled at hr ⊢
  rw [hstore, hbranch, htxid]
  exact hr

theorem Stays.finalizeResult (hs : Tidy txid h) (hr : h.Settled txid r) :
    Stays txid (finalizeResult M env (some r)) h fun _ _ => True := by
  have hfin : Stays txid (finalize M env r) h fun _ _ => True := by
    refine read rfl hs ?_
    unfold Heap.Settled at hr
    split_ifs at hr with hstore
    · rw [if_pos hstore]
      refine read rfl hs (read rfl hs ?_)
      rw [if_pos hr]
      exact pure hs trivial
    · rw [if_neg hstore]
      exact of_ok (rehash_apply rfl) (hs.setRev hr rfl) trivial
  exact hfin.bind fun _ _ hw _ => pure (hs.within hw) trivial

/-- What a new branch of the transaction on a node leaves as it was. -/
structure Branched (txid : String) (n b : Ref) (h h' : Heap τ δ η) : Prop where
  revs : h'.revs = h.revs
  branches : ∀ {b'}, h.Old b' → h'.branches b' = h.branches b'
  branch : (h'.nodes n).branches txid = some b
  latest : (h'.branches b).latest = h.seen txid n

theorem makeBranch_apply {none : Ref} (hnone : (h.nodes n).branches NONE = some none) :
    makeBranch env n env.txid h =
      .ok (h.fresh env.txid) (h.openBranch env.txid n (h.branches none).latest) := by
  unfold makeBranch
  rw [getNode_bind, hnone, deref_bind, getBranch_bind, newBranch_bind,
    bind_of_ok (setNodeBranch_apply ..)]
  rfl

theorem Stays.makeBranch (hs : Tidy env.txid h) (hkey : NONE ≠ env.txid) (n : Ref) :
    Stays env.txid (makeBranch env n env.txid) h fun b h' =>
      (h.nodes n).branches env.txid = none → Branched env.txid n b h h' := by
  cases hnone : (h.nodes n).branches NONE with
  | none =>
    unfold Nodes.makeBranch
    refine read rfl hs ?_
    rw [hnone]
    exact reads (reads_deref none) hs fun _ hr => by cases hr
  | some none =>
    refine of_ok (makeBranch_apply hnone) (hs.openBranch fun hn l hl => ?_) fun hopen => ?_
    · exact (hs.closed.branch (hs.closed.node hn hkey hnone)).latest hl
    · refine ⟨rfl, fun hb => update_of_ne hb.ne_fresh .., ?_, ?_⟩
      · simp [openBranch]
      · simp [openBranch, seen, hopen, hnone]

theorem Stays.branchFor (hs : Tidy env.txid h) (htxid : env.txid ≠ "") (hkey : NONE ≠ env.txid)
    (n : Ref) :
    Stays env.txid (branchFor env n env.txid) h fun b h' => Branched env.txid n b h h' := by
  unfold Nodes.branchFor
  rw [if_neg htxid]
  refine read rfl hs ?_
  cases hopen : (h.nodes n).branches env.txid with
  | some b =>
    exact pure hs ⟨rfl, fun _ => rfl, hopen, by simp [seen, hopen]⟩
  | none =>
    have hs' := hs.setDirtyNodes env.txid (h.dirtyNodes env.txid ++ [n])
    refine read (a := h.dirtyNodes env.txid) rfl hs (step (a := ()) rfl hs' ?_)
    exact (makeBranch (hs.within hs') hkey n).weaken fun _ _ hb =>
      ⟨(hb hopen).revs, (hb hopen).branches, (hb hopen).branch, (hb hopen).latest⟩

/-! ### Revisions of the transaction -/

theorem updateData_of_new [DecidableEq η] {l : Ref} {data : δ}
    (hdata : M.digest.data (h.revs r).hasRoot data ≠ (h.revs r).config.hash)
    (hl : (h.branches b).latest = some l) (hr : Unlisted env.txid (h.revs l).children) :
    updateData M env r data b h = .ok (h.fresh env.txid)
      (h.addRev env.txid (dataUpdate M h (h.revs r) (h.revs l) data b)) := by
  unfold updateData
  rw [getRev_bind, if_neg hdata, getLatest_bind hl, getRev_bind]
  refine (newRev_rehash M env h _).trans ?_
  unfold dataUpdate
  dsimp only
  congr 4
  rw [Model.hashOf_eq, Model.hashOf_eq]
  congr 1
  refine List.filterMap_congr fun r' hr' => ?_
  obtain ⟨name, hmem⟩ := mem_hashedChildren hr'
  have hne : r' ≠ h.fresh env.txid := fun he => hr.append name r' hmem (congrArg Ref.owner he)
  rw [addRev, setRev_revs, update_of_ne hne]
  rfl

/-- What the transaction leaves of its revisions and of the branches. -/
structure Kept (h h' : Heap τ δ η) : Prop where
  revs : ∀ {r}, h.Old r → h'.revs r = h.revs r
  txid : ∀ b, (h'.branches b).txid = (h.branches b).txid

theorem Stays.updateChildren [DecidableEq δ] (hs : Tidy env.txid h) (r : Ref)
    (rs : List (Option Ref)) (b : Ref) :
    Stays env.txid (updateChildren M env r name rs b) h fun r' h' => r' = h.fresh env.txid ∧
      ∃ rev, h' = h.addRev env.txid rev ∧ rev.branch = b ∧ rev.name = (h.revs r).name := by
  refine read rfl hs (reads (reads_getLatest b) hs fun l _ =>
    read rfl hs (reads (reads_updatedChildren _ rs) hs fun updated _ => ?_))
  exact of_ok (newRev_rehash M env h _) (hs.addRev _) ⟨rfl, _, rfl, rfl, rfl⟩

/-! ### Containers -/

section

variable {field : ChildType τ}

/-- An open transaction finds a container in its own branch of the root. -/
structure Opened (M : Model τ δ η) (txid name : String) (field : ChildType τ) (b L : Ref)
    (h : Heap τ δ η) : Prop where
  segment : Segment name
  lookup : (M.messages.childrenFields (h.nodes h.root).type).lookup name = some field
  container : field.isContainer = true
  keyed : field.key ≠ ""
  branch : (h.nodes h.root).branches txid = some b
  latest : (h.branches b).latest = some L

theorem Opened.view (ho : Opened M env.txid name field b L h) (htxid : env.txid ≠ "") :
    View M env env.txid name field h b L where
  segment := ho.segment
  lookup := ho.lookup
  container := ho.container
  keyed := ho.keyed
  branch := by
    unfold branchFor
    rw [if_neg htxid, getNode_bind, ho.branch]
    rfl
  latest := ho.latest

theorem Opened.mine (ho : Opened M txid name field b L h) (hs : Tidy txid h) :
    h.Mine txid b := (hs.owned.branch hs.closed.root ho.branch).1

theorem Opened.old_latest (ho : Opened M txid name field b L h) (hs : Tidy txid h)
    (hL : L.owner = txid) : h.Old L :=
  (hs.owned.latest hs.closed.root ho.branch ho.latest hL).1

/-- The child with a key that the transaction finds in a container. -/
def Heap.listed (h : Heap τ δ η) (M : Model τ δ η) (L : Ref) (name keyName value : String) :
    Except Err (Option (ℕ × Ref)) :=
  outcome (findRevByKey M keyName value ((h.revs L).getChildren name).entries) h

theorem Heap.listed_of_ok {keyName value : String} {found : Option (ℕ × Ref)}
    (hrun : findRevByKey M keyName value ((h.revs L).getChildren name).entries h = .ok found h) :
    h.listed M L name keyName value = .ok found := by
  rw [listed, outcome, hrun]

variable {h' : Heap τ δ η}

theorem Within.rev (hw : Within txid h h') (hr : r.owner = txid → h.Old r)
    (hkept : ∀ {r}, h.Old r → h'.revs r = h.revs r) : h'.revs r = h.revs r := by
  by_cases hmine : r.owner = txid
  · exact hkept (hr hmine)
  · exact hw.alike.rev hmine

theorem Opened.settled (ho : Opened M txid name field b L h) (hs : Tidy txid h)
    (hL : h.Settled txid L) (hw : Within txid h h') (hkept : ∀ {r}, h.Old r → h'.revs r = h.revs r)
    (hbranch : (h'.branches b).txid = (h.branches b).txid) : h'.Settled txid L := by
  have hrev := hw.rev (ho.old_latest hs) hkept
  unfold Heap.Settled at hL ⊢
  rw [hw.alike.store, hrev]
  split_ifs at hL ⊢
  · by_cases hmine : L.owner = txid
    · obtain ⟨-, hon⟩ := hs.owned.latest hs.closed.root ho.branch ho.latest hmine
      rw [hon, hbranch]
      rwa [hon] at hL
    · rwa [hw.alike.branch (hs.closed.rev hmine).branch]
  · exact hL

end

theorem dataUpdate_congr (hrevs : h'.revs = h.revs) (rev latest : Revision δ η) (data : δ)
    (b : Ref) :
    dataUpdate M h' rev latest data b = dataUpdate M h rev latest data b := by
  simp only [dataUpdate, Model.hashOf, hrevs]

/-! ### Updates of an entry -/

section

variable [DecidableEq η]

theorem makeLatest_cases (env : Env) (b : Ref) (hname : (h.revs r).name = "") :
    makeLatest env b r h = .ok () h ∧
        (∃ l, (h.branches b).latest = some l ∧ (h.revs r).hash = (h.revs l).hash) ∨
      makeLatest env b r h = .ok () (h.setBranch b { h.branches b with latest := some r }) ∧
        ∀ l, (h.branches b).latest = some l → (h.revs r).hash ≠ (h.revs l).hash := by
  by_cases hsame : ∃ l, (h.branches b).latest = some l ∧ (h.revs r).hash = (h.revs l).hash
  · obtain ⟨l, hl, hhash⟩ := hsame
    exact .inl ⟨makeLatest_of_same hl hhash, l, hl, hhash⟩
  · push Not at hsame
    refine .inr ⟨?_, hsame⟩
    rw [makeLatest_of_new hsame, madeLatest, if_pos hname]

theorem Stays.makeLatest (hs : Tidy txid h) (hb : b.owner = txid) (hr : h.Old r)
    (hbranch : (h.revs r).branch = b) (hname : (h.revs r).name = "") :
    Stays txid (makeLatest env b r) h fun _ h' => h'.revs = h.revs ∧ Kept h h' := by
  rcases makeLatest_cases env b hname with ⟨hrun, -⟩ | ⟨hrun, -⟩
  · exact of_ok hrun hs.refl ⟨rfl, fun _ => rfl, fun _ => rfl⟩
  · refine of_ok hrun (hs.setLatest hb hr hbranch) ⟨rfl, fun _ => rfl, fun b' => ?_⟩
    rw [setBranch_branches, update_apply]
    split_ifs with he
    · rw [he]
    · rfl

theorem Stays.childDrop (hs : Tidy txid h) (hr : r.owner = txid) (hash : Option η) :
    Stays txid (childDrop r name hash) h fun _ h' =>
      (∀ r', r' ≠ r → h'.revs r' = h.revs r') ∧ h'.branches = h.branches := by
  unfold Nodes.childDrop
  split_ifs
  · refine read rfl hs (reads (reads_indexOfHash hash _) hs fun i _ => ?_)
    cases i with
    | some i =>
      exact of_ok rfl (hs.setRev hr rfl) ⟨fun r' hne => update_of_ne hne .., rfl⟩
    | none => exact pure hs ⟨fun _ _ => rfl, rfl⟩
  · exact pure hs ⟨fun _ _ => rfl, rfl⟩

variable [DecidableEq δ]

theorem Stays.replaceChild (hs : Tidy env.txid h) (hb : b.owner = env.txid)
    (hname : (h.revs r).name = "") (rs : List (Option Ref)) (c : Ref) :
    Stays env.txid (replaceChild M env b r name rs c) h fun _ h' => Kept h h' := by
  refine (updateChildren hs r rs b).bind ?_
  rintro _ _ hw ⟨rfl, rev, rfl, hbranch, hrev⟩
  have hnew : (h.addRev env.txid rev).revs (h.fresh env.txid) = rev := revs_addRev_fresh
  have hs1 := hs.within hw
  refine (makeLatest hs1 hb (old_addRev_fresh rev) (by rw [hnew, hbranch])
    (by rw [hnew, hrev, hname])).bind fun _ h2 hw2 hkept => ?_
  have hs2 := hs1.within hw2
  refine read rfl hs2 ((childDrop hs2 rfl _).weaken fun _ h' hdrop => ?_)
  refine ⟨fun hr => ?_, fun b' => ?_⟩
  · rw [hdrop.1 _ hr.ne_fresh, hkept.1, hr.revs_addRev]
  · rw [hdrop.2, hkept.2.txid]
    rfl

/-- The data are other ones, also by their hash, so that an update makes a revision for them. -/
def Heap.Changes (h : Heap τ δ η) (M : Model τ δ η) (r : Ref) (data : δ) : Prop :=
  (h.revs r).data ≠ data ∧ M.digest.data (h.revs r).hasRoot data ≠ (h.revs r).config.hash

instance (h : Heap τ δ η) (M : Model τ δ η) (r : Ref) (data : δ) :
    Decidable (h.Changes M r data) :=
  inferInstanceAs (Decidable (_ ≠ _ ∧ _ ≠ _))

section

variable [DecidableEq τ] {data : δ}

theorem doUpdate_of_other_type (htype : M.messages.typeOf data ≠ (h.nodes n).type) :
    doUpdate M env n b data h = .ok none h := by
  unfold doUpdate
  rw [getNode_bind, if_pos htype]
  rfl

theorem Stays.doUpdate_same (hs : Tidy txid h) (hl : (h.branches b).latest = some c)
    (hsame : ¬ h.Changes M c data) :
    Stays txid (doUpdate M env n b data) h fun x h' => h' = h ∧ (x = none ∨ x = some c) := by
  by_cases htype : M.messages.typeOf data = (h.nodes n).type
  · have hsame' : (h.revs c).data = data ∨
        M.digest.data (h.revs c).hasRoot data = (h.revs c).config.hash := by
      simpa only [Heap.Changes, not_and_or, not_not] using hsame
    exact of_ok (doUpdate_of_same htype hl hsame') hs.refl ⟨rfl, .inr rfl⟩
  · exact of_ok (doUpdate_of_other_type htype) hs.refl ⟨rfl, .inl rfl⟩

/-- The new revision of an entry in the transaction. -/
structure Revised (M : Model τ δ η) (txid : String) (c b : Ref) (data : δ) (x : Ref)
    (h h' : Heap τ δ η) : Prop where
  kept : Kept h h'
  fresh : x = h.fresh txid
  old : h'.Old x
  rev : h'.revs x = dataUpdate M h (h.revs c) (h.revs c) data b
  branches : (h'.revs x).hash = (h.revs c).hash → h'.branches = h.branches

theorem Stays.doUpdate_new (hs : Tidy env.txid h) (hn : n.owner ≠ env.txid)
    (hb : (h.nodes n).branches env.txid = some b) (hl : (h.branches b).latest = some c)
    (hc : c.owner ≠ env.txid) (hchanges : h.Changes M c data) (hname : (h.revs c).name = "") :
    Stays env.txid (doUpdate M env n b data) h fun x h' =>
      x = none ∨ ∃ r, x = some r ∧ Revised M env.txid c b data r h h' := by
  by_cases htype : M.messages.typeOf data = (h.nodes n).type
  · unfold doUpdate
    refine read rfl hs ?_
    rw [if_neg (not_not.mpr htype)]
    refine read (getLatest_apply hl) hs (read rfl hs ?_)
    rw [if_pos hchanges.1]
    set rev := dataUpdate M h (h.revs c) (h.revs c) data b with hrev
    have hw : Within env.txid h (h.addRev env.txid rev) := hs.addRev rev
    refine step (updateData_of_new hchanges.2 hl (hs.closed.rev hc).unlisted) hw ?_
    have hnew : (h.addRev env.txid rev).revs (h.fresh env.txid) = rev := revs_addRev_fresh
    have hs' := hs.within hw
    have hown := (hs.owned.branch hn hb).1.1
    have hkept : Kept h (h.addRev env.txid rev) := ⟨fun hr => hr.revs_addRev rev, fun _ => rfl⟩
    have hlc : (h.addRev env.txid rev).revs c = h.revs c := hw.alike.rev hc
    rcases makeLatest_cases env b
        (show ((h.addRev env.txid rev).revs (h.fresh env.txid)).name = "" by rw [hnew]; exact hname)
      with ⟨hrun, -⟩ | ⟨hrun, hdiff⟩
    · refine read hrun hs'
        (pure hs' (.inr ⟨_, rfl, hkept, rfl, old_addRev_fresh rev, hnew, ?_⟩))
      exact fun _ => rfl
    · have hw' := hs'.setLatest hown (old_addRev_fresh rev) (by rw [hnew]; rfl)
      refine step hrun hw' (pure (hs'.within hw') (.inr ⟨_, rfl, ⟨hkept.revs, fun b' => ?_⟩, rfl,
        old_addRev_fresh rev, hnew, fun hhash => ?_⟩))
      · rw [setBranch_branches, update_apply]
        split_ifs with he
        · rw [he]
          rfl
        · rfl
      · exact absurd (hhash.trans (congrArg Revision.hash hlc.symm)) (hdiff c hl)
  · exact of_ok (doUpdate_of_other_type htype) hs.refl (.inl rfl)

end

/-! ### The end of an update -/

variable {keyValue : String} {children : List (Option Ref)} {idx : ℕ}

theorem Stays.finishUpdate_same {L c x : Ref} (hs : Tidy txid h)
    (hl : (h.branches b).latest = some L) (hL : h.Settled txid L) (hx : x = c ∨ x.owner = txid)
    (hhash : (h.revs x).hash = (h.revs c).hash) :
    Stays txid (finishUpdate M env b L name keyValue children idx c x) h fun y h' =>
      ∃ r, y = some r ∧ h'.Settled txid r := by
  refine read rfl hs (read rfl hs ?_)
  rw [if_pos hhash]
  split_ifs with hne
  · have hw : Within txid h (h.clearRev x) := hs.setRev (hx.resolve_left hne) rfl
    have hl' : ((h.clearRev x).branches b).latest = some L := hl
    refine step (clearHash_apply h x) hw (read (getLatest_apply hl') (hs.within hw)
      (pure (hs.within hw) ⟨L, rfl, hL.of_kept rfl ?_ fun _ => rfl⟩))
    rw [clearRev, setRev_revs, update_apply]
    split_ifs with he
    · rw [he]
    · rfl
  · exact read (getLatest_apply hl) hs (pure hs ⟨L, rfl, hL⟩)

theorem Stays.finishUpdate_new {L c x : Ref} (hs : Tidy env.txid h) (hb : b.owner = env.txid)
    (hname : (h.revs L).name = "") (hne : L ≠ x) (hx : x.owner = env.txid) (hold : h.Old x)
    (htxid : (h.branches (h.revs x).branch).txid ≠ "") (hhash : (h.revs x).hash ≠ (h.revs c).hash) :
    Stays env.txid (finishUpdate M env b L name keyValue children idx c x) h fun y h' =>
      ∃ r, y = some r ∧ h'.Settled env.txid r := by
  refine read rfl hs (read rfl hs ?_)
  rw [if_neg hhash]
  have hw : Within env.txid h (h.nameRev x (childName name keyValue)) := hs.setRev hx rfl
  have hs' := hs.within hw
  have hL : ((h.nameRev x (childName name keyValue)).revs L).name = "" := by
    rw [nameRev, setRev_revs, update_of_ne hne, hname]
  refine step (setName_apply h x _) hw ((replaceChild hs' hb hL _ c).bind fun _ h' hw' hkept => ?_)
  refine pure (hs'.within hw') ⟨x, rfl, ?_⟩
  have hset : (h.nameRev x (childName name keyValue)).Settled env.txid x := by
    unfold Heap.Settled
    split_ifs
    · rw [nameRev, setRev_revs, update_self]
      exact htxid
    · exact hx
  exact hset.of_kept hw'.alike.store (by rw [hkept.revs (hw.old hold)]) hkept.txid

/-! ### Operations -/

section

variable [DecidableEq τ] {field : ChildType τ} {k : String} {data : δ}

theorem nodeUpdate_here (M : Model τ δ η) (env : Env) (data : δ) (stack : ℕ) (n : Ref) :
    nodeUpdate M env txid data stack n "" =
      (do doUpdate M env n (← branchFor env n txid) data) := by
  have hempty : stripSlashes "" = "" := by decide
  cases stack <;> simp only [nodeUpdate, nodeUpdateWith, hempty, if_true]

/-- An update that the transaction may make of an entry `c`. -/
def Heap.Updates (h : Heap τ δ η) (M : Model τ δ η) (txid : String) (L c : Ref) (data : δ) : Prop :=
  h.seen txid (h.branches (h.revs c).branch).node = some c ∧
    if h.Changes M c data then
      c.owner ≠ txid ∧ (h.revs c).name = "" ∧ (h.revs L).name = "" ∧
        ((dataUpdate M h (h.revs c) (h.revs c) data (h.revs c).branch).hash ≠ (h.revs c).hash ∨
          h.Settled txid L)
    else
      h.Settled txid L

instance (h : Heap τ δ η) (M : Model τ δ η) (txid : String) (L c : Ref) (data : δ) :
    Decidable (h.Updates M txid L c data) :=
  inferInstanceAs (Decidable (_ = _ ∧
    if h.Changes M c data then _ ≠ _ ∧ _ = _ ∧ _ = _ ∧ (_ ≠ _ ∨ h.Settled txid L)
    else h.Settled txid L))

variable (hs : Tidy env.txid h) (htxid : env.txid ≠ "") (hkey : NONE ≠ env.txid)
  (ho : Opened M env.txid name field b L h)
include hs htxid hkey ho

theorem Stays.updateEntry {idx stack : ℕ} {children : List (Option Ref)}
    (hu : h.Updates M env.txid L c data) :
    Stays env.txid (do
      let newChildRev ← deref (← nodeUpdate M env env.txid data stack (← nodeOf c) "")
      finishUpdate M env b L name k children idx c newChildRev : Op τ δ η (Option Ref)) h
        fun y h' => ∃ r, y = some r ∧ h'.Settled env.txid r := by
  obtain ⟨hseen, hu⟩ := hu
  refine read (nodeOf_apply h c) hs ?_
  rw [nodeUpdate_here]
  generalize hnode : (h.branches (h.revs c).branch).node = n at hseen
  have hmine := ho.mine hs
  simp only [bind_assoc]
  refine (branchFor hs htxid hkey n).bind fun b' h1 hw1 hbr => ?_
  have hs1 := hs.within hw1
  have hl : (h1.branches b').latest = some c := hbr.latest.trans hseen
  have hlatest : (h1.branches b).latest = some L := by
    rw [hbr.branches hmine.2]
    exact ho.latest
  have hL : h.Settled env.txid L → h1.Settled env.txid L := fun hL =>
    ho.settled hs hL hw1 (fun _ => by rw [hbr.revs]) (by rw [hbr.branches hmine.2])
  have hsame : h1.Changes M c data ↔ h.Changes M c data := by
    unfold Heap.Changes
    rw [hbr.revs]
  by_cases hchanges : h.Changes M c data
  · rw [if_pos hchanges] at hu
    obtain ⟨hc, hcname, hLname, hhash⟩ := hu
    have hn : n.owner ≠ env.txid := hnode ▸ (hs.closed.branch (hs.closed.rev hc).branch).node
    refine (doUpdate_new hs1 hn hbr.branch hl hc (hsame.mpr hchanges)
      (by rw [hbr.revs, hcname])).bind fun x h2 hw2 hx => ?_
    have hs2 := hs1.within hw2
    rcases hx with rfl | ⟨x, rfl, hx⟩
    · exact reads (reads_deref none) hs2 fun _ hr => by cases hr
    · refine read rfl hs2 ?_
      have hnewhash : (h2.revs x).hash =
          (dataUpdate M h (h.revs c) (h.revs c) data (h.revs c).branch).hash := by
        rw [hx.rev, dataUpdate_congr hbr.revs, hbr.revs]
        rfl
      have hchash : (h2.revs c).hash = (h.revs c).hash := by
        rw [hw2.alike.rev hc, hbr.revs]
      have hxmine : x.owner = env.txid := congrArg Ref.owner hx.fresh
      have hold : L.owner = env.txid → h1.Old L := fun hmine => hw1.old (ho.old_latest hs hmine)
      by_cases heq : (h2.revs x).hash = (h2.revs c).hash
      · have hbranches : h2.branches = h1.branches :=
          hx.branches (heq.trans (by rw [hchash, hbr.revs]))
        have hLs : h.Settled env.txid L :=
          hhash.resolve_left (not_not.mpr (hnewhash.symm.trans (heq.trans hchash)))
        refine finishUpdate_same hs2 (by rw [hbranches, hlatest]) ?_ (.inr hxmine) heq
        refine ho.settled hs hLs (hw1.trans hw2) (fun hr => ?_) ?_
        · rw [hx.kept.revs (hw1.old hr), hbr.revs]
        · rw [hbranches, hbr.branches hmine.2]
      · refine finishUpdate_new hs2 hmine.1 ?_ ?_ hxmine hx.old ?_ heq
        · rw [hw2.rev hold hx.kept.revs, hbr.revs, hLname]
        · rintro rfl
          rw [hx.fresh] at hold
          exact not_old_fresh (hold rfl)
        · have hxb : (h2.revs x).branch = b' := by
            rw [hx.rev]
            rfl
          rw [hxb, hx.kept.txid, (hs1.owned.branch hn hbr.branch).2]
          exact htxid
  · rw [if_neg hchanges] at hu
    refine (doUpdate_same hs1 hl (hsame.not.mpr hchanges)).bind ?_
    rintro x _ - ⟨rfl, rfl | rfl⟩
    · exact reads (reads_deref none) hs1 fun _ hr => by cases hr
    · exact read rfl hs1 (finishUpdate_same hs1 hlatest (hL hu) (.inl rfl) rfl)

theorem Stays.rootUpdate (hk : Segment k)
    (habsent : h.listed M L name field.key (field.keyFromStr k) = .ok none → h.Settled env.txid L)
    (hpresent : ∀ idx c, h.listed M L name field.key (field.keyFromStr k) = .ok (some (idx, c)) →
      h.Updates M env.txid L c data) :
    Stays env.txid (rootUpdate M env (entryPath name k) data) h fun _ _ => True := by
  obtain ⟨stack, hlength⟩ := length_entryPath name k
  have hnode : Stays env.txid (nodeUpdate M env env.txid data (stack + 1) h.root (entryPath name k))
      h fun y h' => ∃ r, y = some r ∧ h'.Settled env.txid r := by
    refine congr ((ho.view htxid).nodeUpdate_entry hk stack) ?_
    refine reads (reads_findRevByKey M _ _ _) hs fun found hfound => ?_
    have hlisted := listed_of_ok hfound
    cases found with
    | none => exact read (getLatest_apply ho.latest) hs (pure hs ⟨L, rfl, habsent hlisted⟩)
    | some p => exact updateEntry hs htxid hkey ho (hpresent p.1 p.2 hlisted)
  refine read rfl hs ?_
  rw [hlength]
  refine hnode.bind ?_
  rintro _ h' hw ⟨r, rfl, hr⟩
  exact finalizeResult (hs.within hw) hr

end

end

/-! ### Additions -/

section

variable [DecidableEq δ] [DecidableEq η] {field : ChildType τ} {data : δ}

theorem Stays.addChild_new (hs : Tidy env.txid h) (ho : Opened M env.txid name field b L h)
    (hstore : h.store = none) (hname : (h.revs L).name = "") (children : List (Option Ref))
    (key : String) :
    Stays env.txid (do
      let childRev ← deref (← latest (← makeNode M env data "") "")
      setName childRev (childName name key)
      let updatedRev ← Nodes.updateChildren M env L name (children ++ [some childRev]) b
      Nodes.makeLatest env b updatedRev
      return some childRev : Op τ δ η (Option Ref)) h
        fun y h' => ∃ r, y = some r ∧ h'.Settled env.txid r := by
  obtain ⟨n, b', r, h1, hrun, hx, hn, -, -, hnew⟩ := makesNode_makeNode M env h.store data "" h rfl
  have hw1 := hs.extends hx
  have hs1 := hs.within hw1
  have hlatest : latest n "" h1 = .ok (some r) h1 := by rw [latest_apply hn, if_pos rfl]
  refine step hrun hw1 (read hlatest hs1 (read rfl hs1 ?_))
  have hw2 : Within env.txid h1 (h1.nameRev r (childName name key)) := hs1.setRev hnew.1 rfl
  have hs2 := hs1.within hw2
  have hL : ((h1.nameRev r (childName name key)).revs L).name = "" := by
    have hne : L ≠ r := by
      rintro rfl
      exact (ho.old_latest hs hnew.1).not_isNew hnew
    rw [nameRev, setRev_revs, update_of_ne hne, hw1.rev (ho.old_latest hs) hx.revs_old, hname]
  refine step (setName_apply h1 r _) hw2 ((updateChildren hs2 L _ b).bind ?_)
  rintro _ _ hw3 ⟨rfl, rev, rfl, hbranch, hrev⟩
  have hs3 := hs2.within hw3
  have hadded : ((h1.nameRev r (childName name key)).addRev env.txid rev).revs
      ((h1.nameRev r (childName name key)).fresh env.txid) = rev := revs_addRev_fresh
  refine (makeLatest hs3 (ho.mine hs).1 (old_addRev_fresh rev) (by rw [hadded, hbranch])
    (by rw [hadded, hrev, hL])).bind fun _ h' hw4 _ => pure (hs3.within hw4) ⟨r, rfl, ?_⟩
  have hnone : h'.store = none :=
    (((hw1.trans hw2).trans hw3).trans hw4).alike.store.trans hstore
  unfold Heap.Settled
  rw [hnone]
  exact hnew.1

theorem Stays.rootAdd (hs : Tidy env.txid h) (htxid : env.txid ≠ "")
    (ho : Opened M env.txid name field b L h)
    (habsent : h.listed M L name field.key (M.messages.attributeString field.key data) = .ok none →
      h.store = none ∧ (h.revs L).name = "")
    (hpresent : ∀ idx c, h.listed M L name field.key
      (M.messages.attributeString field.key data) = .ok (some (idx, c)) → h.Settled env.txid c) :
    Stays env.txid (rootAdd M env (containerPath name) data) h fun _ _ => True := by
  have hadd : Stays env.txid (addChild M env b L name field data) h
      fun y h' => ∃ r, y = some r ∧ h'.Settled env.txid r := by
    refine read rfl hs (reads (reads_findRevByKey M _ _ _) hs fun found hfound => ?_)
    have hlisted := listed_of_ok hfound
    cases found with
    | none => exact addChild_new hs ho (habsent hlisted).1 (habsent hlisted).2 _ _
    | some p => exact pure hs ⟨p.2, rfl, hpresent p.1 p.2 hlisted⟩
  refine read rfl hs ((congr ((ho.view htxid).nodeAdd_container data _) hadd).bind ?_)
  rintro _ h' hw ⟨r, rfl, hr⟩
  exact finalizeResult (hs.within hw) hr

end

/-! ### Removals -/

theorem Stays.rootRemove [DecidableEq η] {field : ChildType τ} {k : String} {L : Ref}
    (hs : Tidy env.txid h) (htxid : env.txid ≠ "") (ho : Opened M env.txid name field b L h)
    (hk : Segment k)
    (hpresent : ∀ idx c, h.listed M L name field.key (field.keyFromStr k) = .ok (some (idx, c)) →
      L.owner = env.txid ∧ h.cache (h.revs c).name = none) :
    Stays env.txid (rootRemove M env (entryPath name k)) h fun _ _ => True := by
  refine read rfl hs (congr ((ho.view htxid).nodeRemove_entry hk _) ?_)
  refine reads (reads_findRevByKey M _ _ _) hs fun found hfound => ?_
  cases found with
  | none =>
    dsimp only
    split_ifs
    · exact throw hs _
    · exact pure hs trivial
  | some p =>
    obtain ⟨hL, hcache⟩ := hpresent p.1 p.2 (listed_of_ok hfound)
    have hdrop : storageDrop env p.2 env.txid h = .ok () h := by
      unfold storageDrop
      rw [if_neg htxid]
      rfl
    have hdelete : cacheDelete (h.revs p.2).name h = .ok () h := by
      have hsame : h.setCache (h.revs p.2).name none = h := by
        rw [setCache, ← hcache, update_eq_self]
      exact congrArg (EStateM.Result.ok ()) hsame
    refine read hdrop hs (read rfl hs (read hdelete hs ?_))
    have hw : Within env.txid h (h.setRev L { h.revs L with
        children := (h.revs L).children.insert name
          (some (((h.revs L).getChildren name).entries.eraseIdx p.1)) }) := hs.setRev hL rfl
    exact step rfl hw (read (makeLatest_of_same ho.latest rfl) (hs.within hw)
      (pure (hs.within hw) trivial))

/-! ### Reads -/

theorem stripSlashes_stripSlashes (path : String) :
    stripSlashes (stripSlashes path) = stripSlashes path := by
  simp [stripSlashes, List.dropWhile_idempotent]

theorem eq_some_of_deref {o : Option Ref} (hrun : deref o h = .ok r h) : o = some r := by
  cases o with
  | none => cases hrun
  | some r' =>
    cases hrun
    rfl

/-- The key-value store answers and has entries whose names begin with the path. -/
def Heap.HasEntries (h : Heap τ δ η) (env : Env) (path : String) : Prop :=
  env.up = true ∧ h.store.elim [] (Store.list path) ≠ []

instance (h : Heap τ δ η) (env : Env) (path : String) : Decidable (h.HasEntries env path) :=
  inferInstanceAs (Decidable (_ = _ ∧ ¬ _ = []))

theorem Stays.loadNothing [DecidableEq δ] [DecidableEq η] (hs : Tidy txid h)
    (field : Option (ChildType τ)) (name rest o : String) :
    Stays txid (match field with
      | none => return []
      | some field => do
        let loaded ← ([] : List (δ × ℕ)).foldlM (loadBlob M env field name o) (rest, [])
        return loaded.2) h fun _ _ => True := by
  cases field <;> exact pure hs trivial

theorem Stays.loadFromPersistence [DecidableEq δ] [DecidableEq η] (hs : Tidy txid h)
    (hnone : ¬ h.HasEntries env (stripSlashes path)) (r : Ref) (o : String) :
    Stays txid (loadFromPersistence M env r path o) h fun _ _ => True := by
  refine read rfl hs ?_
  cases hstore : h.store with
  | none => exact pure hs trivial
  | some s =>
    have hblobs : env.up = true → M.blobOrder.visit (Store.list (stripSlashes path) s) = [] := by
      intro hup
      have hempty : Store.list (stripSlashes path) s = [] := by
        by_contra hne
        exact hnone ⟨hup, by rwa [hstore]⟩
      rw [hempty]
      exact (M.blobOrder.perm []).eq_nil
    dsimp only
    split_ifs with hpath hup
    · exact pure hs trivial
    · exact throw hs _
    · rw [hblobs (by simpa using hup)]
      exact read rfl hs (read rfl hs
        (read rfl hs (loadNothing hs _ _ _ o)))
    · rw [hblobs (by simpa using hup)]
      exact read (nodeOf_apply h r) hs (read rfl hs
        (read rfl hs (loadNothing hs _ _ _ o)))

theorem Stays.finishGet [DecidableEq δ] [DecidableEq η] {result : Found δ} (hs : Tidy txid h)
    (hresult : ¬ h.HasEntries env (stripSlashes path) ∨ result.isNil = false) (r : Ref)
    (o : String) :
    Stays txid (Nodes.finishGet M env r path o result) h fun _ _ => True := by
  unfold Nodes.finishGet
  split_ifs with hnil
  · exact pure hs trivial
  · refine read rfl hs ?_
    cases h.store with
    | none => exact pure hs trivial
    | some s =>
      rw [Bool.not_eq_true', Bool.not_eq_false] at hnil
      have hnone := hresult.resolve_right (by simp [hnil])
      exact (loadFromPersistence hs hnone r o).bind fun loaded h' hw _ =>
        read rfl (hs.within hw) (pure (hs.within hw) trivial)

section

variable [DecidableEq τ] [DecidableEq δ] [DecidableEq η]

/-- Whether the transaction finds something at the path in memory, or fails there. -/
def Heap.remembers (h : Heap τ δ η) (M : Model τ δ η) (env : Env) (path : String) (depth : ℤ) :
    Bool :=
  match h.seen env.txid h.root with
  | none => true
  | some r =>
    match outcome (getFromMemory M env h.root r (stripSlashes path) depth) h with
    | .ok found => !found.isNil
    | .error _ => true

theorem Stays.rootGet {path : String} {depth : ℤ} {reconcile : Bool} (hs : Tidy env.txid h)
    (htxid : env.txid ≠ "")
    (hload : ¬ h.HasEntries env (stripSlashes path) ∨
      reconcile = false ∧ h.remembers M env path depth = true) :
    Stays env.txid (rootGet M env path depth reconcile) h fun _ _ => True := by
  refine read rfl hs (read rfl hs ?_)
  rw [if_neg htxid]
  refine reads (reads_deref _) hs fun b hb => reads (reads_getLatest b) hs fun r hr => ?_
  rw [← stripSlashes_stripSlashes path] at hload
  split_ifs with hrec
  · have hnone := hload.resolve_right fun hmem => by simp [hrec] at hmem
    exact read rfl hs (finishGet hs (.inl hnone) r _)
  · refine reads (reads_getFromMemory _ r _ depth) hs fun result hresult => ?_
    refine finishGet hs (hload.imp id fun hmem => ?_) r _
    have hseen : h.seen env.txid h.root = some r := by
      rw [seen, eq_some_of_deref hb]
      exact eq_some_of_deref hr
    have hrem := hmem.2
    unfold remembers outcome at hrem
    rw [hseen] at hrem
    dsimp only at hrem
    rw [hresult] at hrem
    simpa using hrem

end

/-! ### The beginning and the end of a transaction -/

theorem Stays.makeTxBranch (hs : Tidy env.txid h) (hkey : NONE ≠ env.txid) :
    Stays env.txid (makeTxBranch env env.txid) h fun _ _ => True := by
  have hw := hs.setDirtyNodes env.txid [h.root]
  refine read rfl hs (step (a := ()) rfl hw
    (read rfl (hs.within hw) ?_))
  exact (makeBranch (hs.within hw) hkey h.root).bind fun _ _ hw' _ =>
    pure ((hs.within hw).within hw') trivial

theorem Stays.deleteTxBranch (hs : Tidy txid h) :
    Stays txid (deleteTxBranch txid) h fun _ _ => True := by
  have hclose : ∀ nodes : List Ref, Stays txid
      (nodes.forM fun n => setNodeBranch n txid none : Op τ δ η Unit) h fun _ _ => True := by
    intro nodes
    refine (Triple.forM_keeps (I := Within txid h) fun n _ => ?_).weaken ?_
      (fun _ _ hw => ⟨hw, trivial⟩) fun _ _ => id
    · exact fun h' hw => hw.trans ((hs.within hw).closeBranch n)
    · rintro _ rfl
      exact hs.refl
  refine read (a := h.dirtyNodes txid) rfl hs ((hclose _).bind fun _ h1 hw1 _ => ?_)
  have hs1 := hs.within hw1
  have hw2 := hs1.setDirtyNodes txid []
  refine step (a := ()) rfl hw2 (read rfl (hs1.within hw2) ?_)
  exact of_ok (setNodeBranch_apply _ _ _ _) ((hs1.within hw2).closeBranch _) trivial

end Entries

end VolthaCore.Nodes
