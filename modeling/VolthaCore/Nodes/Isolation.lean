import VolthaCore.Lib.Twin
import VolthaCore.Nodes.Execution

/-! Reads without a transaction do not see the objects of a transaction. Two memories that are
alike but for these objects give the same answers, as long as no other object and no entry of the
cache refers to one of them. -/

namespace VolthaCore.Nodes

open Outcome DataModel List Function Heap

section Isolation

variable {τ δ η : Type}

/-! ### Reading what two memories have in common -/

/-- A revision that refers to objects in `P` only. -/
structure Revision.Over (P : Ref → Prop) (rev : Revision δ η) : Prop where
  branch : P rev.branch
  child : ∀ name r, some r ∈ (rev.getChildren name).entries → P r

/-- A branch that refers to objects in `P` only. -/
structure Branch.Over (P : Ref → Prop) (b : Branch) : Prop where
  node : P b.node
  latest : ∀ l, b.latest = some l → P l

/-- Related memories have the objects in `P` in common, and these refer to such objects only. -/
structure Common (P : Ref → Prop) (R : Heap τ δ η → Heap τ δ η → Prop) : Prop where
  rev : ∀ h h', R h h' → ∀ {r}, P r → h.revs r = h'.revs r ∧ (h.revs r).Over P
  branch : ∀ h h', R h h' → ∀ {b}, P b → h.branches b = h'.branches b ∧ (h.branches b).Over P
  type : ∀ h h', R h h' → ∀ {n}, P n → (h.nodes n).type = (h'.nodes n).type
  cache : ∀ h h', R h h' → ∀ path, h.cache path = h'.cache path ∧ ∀ r, h.cache path = some r → P r

/-- The computation does the same in related memories, and its result has a property. -/
def Sees {α : Type} (R : Heap τ δ η → Heap τ δ η → Prop) (x : Op τ δ η α) (Q : α → Prop) : Prop :=
  Twin R (Same Q) x x

section Reading

variable {P : Ref → Prop} {R : Heap τ δ η → Heap τ δ η → Prop} {M : Model τ δ η} {env : Env}
  {r b n : Ref} {rs : List (Option Ref)} {α : Type} {Q : α → Prop}

namespace Sees

theorem pure {a : α} (ha : Q a) : Sees R (Pure.pure a) Q := Twin.pure ⟨rfl, ha⟩

theorem throw (e : Err) : Sees R (throw e) Q := Twin.throw e

theorem deref {r : Option Ref} (hr : ∀ l, r = some l → P l) : Sees R (deref r) P := by
  cases r with
  | none => exact throw _
  | some r => exact pure (hr r rfl)

theorem mapM_deref (hrs : ∀ r, some r ∈ rs → P r) :
    Sees R (rs.mapM Nodes.deref) fun rs => ∀ r ∈ rs, P r :=
  Twin.mapM fun _ ho => deref fun r hr => hrs r (hr ▸ ho)

end Sees

theorem mem_mergeByName [DecidableEq δ] {existing children : List (Ref × Revision δ η)}
    (hr : r ∈ mergeByName existing children) :
    (∃ p ∈ existing, p.1 = r) ∨ ∃ p ∈ children, p.1 = r := by
  rcases mem_append.mp hr with hr | hr
  · obtain ⟨p, hp, rfl⟩ := mem_map.mp hr
    exact .inl ⟨p, (mem_filter.mp hp).1, rfl⟩
  · obtain ⟨p, hp, rfl⟩ := mem_map.mp hr
    split
    · rename_i old hfind
      split_ifs
      · exact .inl ⟨old, mem_reverse.mp (mem_of_find?_eq_some hfind), rfl⟩
      · exact .inr ⟨p, hp, rfl⟩
    · exact .inr ⟨p, hp, rfl⟩

namespace Common

open Sees (pure throw)

variable (hc : Common P R)
include hc

theorem getRev (hr : P r) : Sees R (getRev r) (·.Over P) :=
  Twin.reads fun h h' hi => hc.rev h h' hi hr

theorem getRevs {rs : List Ref} (hrs : ∀ r ∈ rs, P r) : Sees R (getRevs rs) fun _ => True :=
  Twin.reads fun h h' hi => ⟨map_congr_left fun r hr => (hc.rev h h' hi (hrs r hr)).1, trivial⟩

theorem getBranch (hb : P b) : Sees R (getBranch b) (·.Over P) :=
  Twin.reads fun h h' hi => hc.branch h h' hi hb

theorem getLatest (hb : P b) : Sees R (getLatest b) P :=
  (hc.getBranch hb).seq fun _ hbranch => Sees.deref hbranch.latest

theorem nodeOf (hr : P r) : Sees R (nodeOf r) P :=
  (hc.getRev hr).seq fun _ hrev => (hc.getBranch hrev.branch).seq fun _ hb => pure hb.node

theorem hashContent {rev : Revision δ η} (hrev : rev.Over P) :
    Sees R (hashContent M rev) fun _ => True := by
  refine (hc.getRevs fun r hr => ?_).seq fun _ _ => pure trivial
  obtain ⟨name, hmem⟩ := mem_hashedChildren hr
  exact hrev.child name r hmem

theorem indexOfHash [DecidableEq η] (hash : Option η) (hrs : ∀ r, some r ∈ rs → P r) :
    Sees R (indexOfHash hash rs) fun _ => True := by
  induction rs with
  | nil => exact pure trivial
  | cons child rs ih =>
    refine (Sees.deref fun r hr => hrs r (by simp [hr])).seq fun r hr =>
      (hc.getRev hr).seq fun rev _ => ?_
    split_ifs
    · exact pure trivial
    · exact (ih fun r hr => hrs r (mem_cons_of_mem _ hr)).seq fun _ _ => pure trivial

theorem findRevByKey (keyName value : String) (hrs : ∀ r, some r ∈ rs → P r) :
    Sees R (findRevByKey M keyName value rs) fun found => ∀ p, found = some p → P p.2 := by
  induction rs with
  | nil => exact pure (by simp)
  | cons child rs ih =>
    refine (Sees.deref fun r hr => hrs r (by simp [hr])).seq fun r hr =>
      (hc.getRev hr).seq fun rev _ => ?_
    split_ifs
    · refine pure fun p hp => ?_
      cases hp
      exact hr
    · refine (ih fun r hr => hrs r (mem_cons_of_mem _ hr)).seq fun found hfound => pure ?_
      intro p hp
      obtain ⟨p', hp', rfl⟩ := Option.map_eq_some_iff.mp hp
      exact hfound p' hp'

variable [DecidableEq δ]

theorem updatedChildren {existing : Slice Ref} {children : List (Option Ref)}
    (hexisting : ∀ r, some r ∈ existing.entries → P r) (hchildren : ∀ r, some r ∈ children → P r) :
    Sees R (updatedChildren existing children) fun rs => ∀ r, some r ∈ rs → P r := by
  cases existing with
  | none => exact pure hchildren
  | some existing =>
    refine (Sees.mapM_deref hchildren).seq fun children hchildren =>
      (Sees.mapM_deref hexisting).seq fun existing hexisting =>
      (hc.getRevs hexisting).seq fun _ _ => (hc.getRevs hchildren).seq fun _ _ => pure ?_
    intro r hr
    obtain ⟨r', hr', he⟩ := mem_map.mp hr
    cases he
    rcases mem_mergeByName hr' with ⟨p, hp, rfl⟩ | ⟨p, hp, rfl⟩
    · exact hexisting _ (of_mem_zip hp).1
    · exact hchildren _ (of_mem_zip hp).1

variable [DecidableEq τ]

theorem revGetWith {getBelow : Ref → Op τ δ η δ}
    (hbelow : ∀ r, P r → Sees R (getBelow r) fun _ => True) (depth : ℤ) (hr : P r) :
    Sees R (revGetWith M getBelow depth r) fun _ => True := by
  refine (hc.getRev hr).seq fun rev hrev => (hc.getLatest hrev.branch).seq fun l hl =>
    (hc.getRev hl).seq fun latest hlatest => ?_
  split_ifs
  · exact pure trivial
  · refine Twin.foldlM trivial fun field _ data _ => ?_
    have hchild := hlatest.child field.1
    dsimp only
    split_ifs
    · refine Twin.seq (Twin.foldlM (Q := fun _ => True) trivial fun child hmem holder _ => ?_)
        fun _ _ => pure trivial
      refine (Sees.deref fun r hr => hchild r (hr ▸ hmem)).seq fun r hr =>
        (hbelow r hr).seq fun d _ => ?_
      split_ifs
      · exact pure trivial
      · exact pure trivial
    · cases hcs : (latest.getChildren field.1).entries with
      | nil => exact pure trivial
      | cons child children =>
        cases child with
        | none => exact pure trivial
        | some child =>
          refine (hbelow child (hchild child (by simp [hcs]))).seq fun d _ => ?_
          split_ifs
          · exact pure trivial
          · exact pure trivial

theorem revGet (stack : ℕ) (depth : ℤ) (hr : P r) :
    Sees R (revGet M stack depth r) fun _ => True := by
  induction stack generalizing depth r with
  | zero => exact hc.revGetWith (fun _ _ => throw _) depth hr
  | succ stack ih => exact hc.revGetWith (fun _ hr => ih (depth - 1) hr) depth hr

theorem getData (hr : P r) (depth : ℤ) : Sees R (getData M r depth) fun _ => True :=
  (hc.getRev hr).seq fun _ hrev => (hc.getLatest hrev.branch).seq fun _ hl =>
    hc.revGet _ depth hl

theorem getAllData (hrs : ∀ r, some r ∈ rs → P r) (depth : ℤ) :
    Sees R (getAllData M rs depth) fun _ => True :=
  Twin.seq (Twin.mapM (Q := fun _ => True) fun _ ho =>
    (Sees.deref fun r hr => hrs r (hr ▸ ho)).seq fun _ hr => hc.getData hr depth) fun _ _ =>
      pure trivial

theorem getPathWith {getBelow : Ref → Ref → String → Op τ δ η (Found δ)}
    (hbelow : ∀ n r path, P n → P r → Sees R (getBelow n r path) fun _ => True) (hn : P n)
    (hr : P r) (path : String) (depth : ℤ) :
    Sees R (getPathWith M getBelow n r path depth) fun _ => True := by
  unfold Nodes.getPathWith
  generalize partition path = parts
  obtain ⟨name, rest⟩ := parts
  split_ifs
  · exact (hc.getData hr depth).seq fun _ _ => pure trivial
  · have htype : Twin R (fun node node' => node.type = node'.type) (getNode n) (getNode n) :=
      Twin.reads fun h h' hi => hc.type h h' hi hn
    refine (hc.getRev hr).seq fun rev hrev => htype.bind fun node node' hnode => ?_
    dsimp only
    rw [hnode]
    generalize Option.filter _ ((M.messages.childrenFields node'.type).lookup name) = field
    cases field with
    | some field =>
      dsimp only
      split_ifs
      · refine (hc.findRevByKey _ _ (hrev.child name)).seq fun found hfound => ?_
        cases found with
        | none => exact pure trivial
        | some p => exact (hc.getData (hfound p rfl) depth).seq fun _ _ => pure trivial
      · exact hc.getAllData (hrev.child name) depth
      · exact pure trivial
      · exact hc.getAllData (hrev.child name) depth
    | none =>
      have hchild := hrev.child name
      dsimp only
      cases hcs : rev.getChildren name with
      | none => exact pure trivial
      | some children =>
        rw [hcs] at hchild
        cases children with
        | nil => exact throw _
        | cons child children =>
          have hc' : ∀ r, child = some r → P r := fun r hr => hchild r (hr ▸ mem_cons_self)
          exact (Sees.deref hc').seq fun r hr => (hc.nodeOf hr).seq fun n hn => hbelow n r _ hn hr

theorem getPath (stack : ℕ) (hn : P n) (hr : P r) (path : String) (depth : ℤ) :
    Sees R (getPath M stack n r path depth) fun _ => True := by
  induction stack generalizing n r path with
  | zero => exact hc.getPathWith (fun _ _ _ _ _ => throw _) hn hr path depth
  | succ stack ih => exact hc.getPathWith (fun _ _ path hn hr => ih hn hr path) hn hr path depth

theorem getFromMemory (hn : P n) (hr : P r) (path : String) (depth : ℤ) :
    Sees R (getFromMemory M env n r path depth) fun _ => True := by
  refine Twin.seq (Q := fun entry => ∀ r, entry = some r → P r)
    (Twin.reads fun h h' hi => hc.cache h h' hi path) fun entry hentry => ?_
  cases entry with
  | some entry => exact (hc.getRev (hentry entry rfl)).seq fun _ _ => pure trivial
  | none =>
    exact (hc.getRev hr).seq fun _ hrev => (hc.getLatest hrev.branch).seq fun _ hl =>
      hc.getPath _ hn hl path depth

end Common

end Reading

/-! ### Memories -/

/-- Children none of which belongs to the transaction. -/
def Unlisted (txid : String) (children : GoMap String (Slice Ref)) : Prop :=
  ∀ name r, some r ∈ entriesOf children name → r.owner ≠ txid

/-- A revision that refers to no object of the transaction. -/
structure Revision.Apart (txid : String) (rev : Revision δ η) : Prop where
  branch : rev.branch.owner ≠ txid
  unlisted : Unlisted txid rev.children

/-- A branch that refers to no object of the transaction. -/
structure Branch.Apart (txid : String) (b : Branch) : Prop where
  node : b.node.owner ≠ txid
  latest : ∀ {l}, b.latest = some l → l.owner ≠ txid

/-- Nothing but the objects of the transaction and the branches of nodes for it refers to its
objects. -/
structure Closed (txid : String) (h : Heap τ δ η) : Prop where
  root : h.root.owner ≠ txid
  rev : ∀ {r}, r.owner ≠ txid → (h.revs r).Apart txid
  branch : ∀ {b}, b.owner ≠ txid → (h.branches b).Apart txid
  node : ∀ {n key b}, n.owner ≠ txid → key ≠ txid → (h.nodes n).branches key = some b →
    b.owner ≠ txid
  cache : ∀ {path r}, h.cache path = some r → r.owner ≠ txid

/-- The nodes are alike but for the branch of the transaction. -/
structure Node.Alike (txid : String) (n n' : Node τ) : Prop where
  type : n'.type = n.type
  branches : ∀ {key}, key ≠ txid → n'.branches key = n.branches key

/-- The memories are alike but for the objects of the transaction. -/
structure Alike (txid : String) (h h' : Heap τ δ η) : Prop where
  root : h'.root = h.root
  rev : ∀ {r}, r.owner ≠ txid → h'.revs r = h.revs r
  branch : ∀ {b}, b.owner ≠ txid → h'.branches b = h.branches b
  node : ∀ {n}, n.owner ≠ txid → (h.nodes n).Alike txid (h'.nodes n)
  next : ∀ {o}, o ≠ txid → h'.next o = h.next o
  cache : h'.cache = h.cache
  store : h'.store = h.store

/-- An object that the transaction has made. -/
def Heap.Mine (h : Heap τ δ η) (txid : String) (r : Ref) : Prop := r.owner = txid ∧ h.Old r

/-- What belongs to the transaction: the branches for it of the nodes of others, and their latest
revisions once it has changed them. -/
structure Owned (txid : String) (h : Heap τ δ η) : Prop where
  branch : ∀ {n b}, n.owner ≠ txid → (h.nodes n).branches txid = some b →
    h.Mine txid b ∧ (h.branches b).txid = txid
  latest : ∀ {n b l}, n.owner ≠ txid → (h.nodes n).branches txid = some b →
    (h.branches b).latest = some l → l.owner = txid → h.Old l ∧ (h.revs l).branch = b

/-- A memory without the transaction and one with it, of which the rest does not know. -/
structure Isolated (txid : String) (h h' : Heap τ δ η) : Prop where
  alike : Alike txid h h'
  closed : Closed txid h
  owned : Owned txid h'

variable {txid : String} {h h' : Heap τ δ η}

/-- The nodes differ in nothing but the branch of the transaction, and refer to none of its
objects otherwise. -/
structure Node.Seen (txid : String) (n n' : Node τ) : Prop extends n.Alike txid n' where
  apart : ∀ {key b}, key ≠ txid → n.branches key = some b → b.owner ≠ txid

variable {r : Ref} {name : String} {children : GoMap String (Slice Ref)}

theorem Heap.Mine.alloc {o : String} (hr : h.Mine txid r) : (h.alloc o).Mine txid r :=
  ⟨hr.1, hr.2.alloc⟩

theorem Node.Alike.refl (n : Node τ) : n.Alike txid n := ⟨rfl, fun _ => rfl⟩

theorem Alike.refl (h : Heap τ δ η) : Alike txid h h :=
  ⟨rfl, fun _ => rfl, fun _ => rfl, fun _ => .refl _, fun _ => rfl, rfl, rfl⟩

theorem Alike.trans {h'' : Heap τ δ η} (h1 : Alike txid h h') (h2 : Alike txid h' h'') :
    Alike txid h h'' where
  root := h2.root.trans h1.root
  rev hr := (h2.rev hr).trans (h1.rev hr)
  branch hb := (h2.branch hb).trans (h1.branch hb)
  node hn := ⟨(h2.node hn).type.trans (h1.node hn).type,
    fun hkey => ((h2.node hn).branches hkey).trans ((h1.node hn).branches hkey)⟩
  next ho := (h2.next ho).trans (h1.next ho)
  cache := h2.cache.trans h1.cache
  store := h2.store.trans h1.store

theorem Closed.of_alike (hc : Closed txid h) (ha : Alike txid h h') : Closed txid h' where
  root := by
    rw [ha.root]
    exact hc.root
  rev hr := by
    rw [ha.rev hr]
    exact hc.rev hr
  branch hb := by
    rw [ha.branch hb]
    exact hc.branch hb
  node hn hkey hb := by
    rw [(ha.node hn).branches hkey] at hb
    exact hc.node hn hkey hb
  cache hr := by
    rw [ha.cache] at hr
    exact hc.cache hr

/-! ### Changes that do not concern the transaction -/

section Changes

variable {r b n : Ref} {o : String} (hi : Isolated txid h h')
include hi

theorem Isolated.setRev (hr : r.owner ≠ txid) {rev : Revision δ η} (hrev : rev.Apart txid) :
    Isolated txid (h.setRev r rev) (h'.setRev r rev) where
  alike :=
    { hi.alike with
      rev := fun {r'} hr' => by
        rw [setRev_revs, setRev_revs, update_apply, update_apply, hi.alike.rev hr'] }
  closed :=
    { hi.closed with
      rev := fun {r'} hr' => by
        rw [setRev_revs, update_apply]
        split_ifs
        · exact hrev
        · exact hi.closed.rev hr' }
  owned :=
    { branch := hi.owned.branch
      latest := fun {n b l} hn hb hl hmine => by
        have hne : l ≠ r := fun he => hr (he ▸ hmine)
        rw [setRev_revs, update_of_ne hne]
        exact hi.owned.latest hn hb hl hmine }

theorem Isolated.setBranch (hb : b.owner ≠ txid) {branch : Branch} (hbranch : branch.Apart txid) :
    Isolated txid (h.setBranch b branch) (h'.setBranch b branch) where
  alike :=
    { hi.alike with
      branch := fun {b'} hb' => by
        rw [setBranch_branches, setBranch_branches, update_apply,
          update_apply, hi.alike.branch hb'] }
  closed :=
    { hi.closed with
      branch := fun {b'} hb' => by
        rw [setBranch_branches, update_apply]
        split_ifs
        · exact hbranch
        · exact hi.closed.branch hb' }
  owned := by
    have hsame : ∀ {n b'}, n.owner ≠ txid → (h'.nodes n).branches txid = some b' →
        (h'.setBranch b branch).branches b' = h'.branches b' := by
      intro n b' hn hb'
      refine update_of_ne ?_ ..
      rintro rfl
      exact hb (hi.owned.branch hn hb').1.1
    exact
      { branch := fun hn hb' => by
          rw [hsame hn hb']
          exact hi.owned.branch hn hb'
        latest := fun hn hb' hl hmine => by
          rw [hsame hn hb'] at hl
          exact hi.owned.latest hn hb' hl hmine }

theorem Isolated.setNode {node node' : Node τ} (hnode : node.Alike txid node')
    (hbranch : ∀ {key b}, key ≠ txid → node.branches key = some b → b.owner ≠ txid)
    (hown : n.owner ≠ txid → node'.branches txid = none ∨
      node'.branches txid = (h'.nodes n).branches txid) :
    Isolated txid (h.setNode n node) (h'.setNode n node') where
  alike :=
    { hi.alike with
      node := fun {n'} hn' => by
        rw [setNode_nodes, setNode_nodes, update_apply, update_apply]
        split_ifs
        · exact hnode
        · exact hi.alike.node hn' }
  closed :=
    { hi.closed with
      node := fun {n' key b} hn' hkey hb => by
        rw [setNode_nodes, update_apply] at hb
        split_ifs at hb
        · exact hbranch hkey hb
        · exact hi.closed.node hn' hkey hb }
  owned := by
    have hsame : ∀ {n' b}, n'.owner ≠ txid →
        ((h'.setNode n node').nodes n').branches txid = some b →
          (h'.nodes n').branches txid = some b := by
      intro n' b hn' hb
      rw [setNode_nodes, update_apply] at hb
      split_ifs at hb with he
      · subst he
        rcases hown hn' with hnew | hnew
        · rw [hnew] at hb
          cases hb
        · rwa [← hnew]
      · exact hb
    exact
      { branch := fun hn hb => hi.owned.branch hn (hsame hn hb)
        latest := fun hn hb => hi.owned.latest hn (hsame hn hb) }

theorem Isolated.alloc (ho : o ≠ txid) :
    Isolated txid (h.alloc o) (h'.alloc o) where
  alike :=
    { hi.alike with
      next := fun {o'} ho' => by
        rw [alloc_next, alloc_next, update_apply, update_apply,
          hi.alike.next ho, hi.alike.next ho'] }
  closed := { hi.closed with }
  owned :=
    { branch := fun hn hb => ⟨(hi.owned.branch hn hb).1.alloc, (hi.owned.branch hn hb).2⟩
      latest := fun hn hb hl hmine => ⟨(hi.owned.latest hn hb hl hmine).1.alloc,
        (hi.owned.latest hn hb hl hmine).2⟩ }

theorem Isolated.setCache (hr : r.owner ≠ txid) (path : String) :
    Isolated txid (h.setCache path (some r)) (h'.setCache path (some r)) where
  alike :=
    { hi.alike with
      cache := by
        funext path'
        rw [setCache_cache, setCache_cache, hi.alike.cache] }
  closed :=
    { hi.closed with
      cache := fun {path' r'} hr' => by
        rw [setCache_cache, update_apply] at hr'
        split_ifs at hr'
        · cases hr'
          exact hr
        · exact hi.closed.cache hr' }
  owned := { hi.owned with }

end Changes

theorem Unlisted.append (hc : Unlisted txid children) :
    Unlisted txid (appendChildren children) := by
  intro name r hr
  rw [entriesOf_appendChildren] at hr
  exact hc name r hr

theorem Unlisted.insert (hc : Unlisted txid children) {rs : List (Option Ref)}
    (hrs : ∀ r, some r ∈ rs → r.owner ≠ txid) : Unlisted txid (children.insert name (some rs)) := by
  intro name' r hr
  rw [entriesOf, GoMap.lookup_insert_eq] at hr
  split_ifs at hr
  · exact hrs r hr
  · exact hc name' r hr

theorem Revision.Over.unlisted {rev : Revision δ η} (hrev : rev.Over (·.owner ≠ txid)) :
    Unlisted txid rev.children := hrev.child

/-! ### Computations that do not see the transaction -/

/-- The computation does the same in both memories, and its result has a property. -/
def Blind {α : Type} (txid : String) (x : Op τ δ η α) (Q : α → Prop) : Prop :=
  Twin (Isolated txid) (Same Q) x x

namespace Blind

variable {α : Type} {Q : α → Prop} {env : Env} {r b n : Ref}

theorem pure {a : α} (ha : Q a) : Blind txid (Pure.pure a : Op τ δ η α) Q := Twin.pure ⟨rfl, ha⟩

theorem common : Common (τ := τ) (δ := δ) (η := η) (·.owner ≠ txid) (Isolated txid) where
  rev _ _ hi _ hr :=
    ⟨(hi.alike.rev hr).symm, (hi.closed.rev hr).branch, (hi.closed.rev hr).unlisted⟩
  branch _ _ hi _ hb := ⟨(hi.alike.branch hb).symm, (hi.closed.branch hb).node,
    fun _ => (hi.closed.branch hb).latest⟩
  type _ _ hi _ hn := (hi.alike.node hn).type.symm
  cache _ _ hi path := ⟨by rw [hi.alike.cache], fun _ => hi.closed.cache⟩

theorem throw (e : Err) : Blind txid (throw e : Op τ δ η α) Q := Twin.throw e

variable {rs : List (Option Ref)} {rev : Revision δ η} {branch : Branch}

theorem setRev (hr : r.owner ≠ txid) (hrev : rev.Apart txid) :
    Blind txid (setRev r rev : Op τ δ η _) fun _ => True :=
  Twin.modify fun _ _ hi => hi.setRev hr hrev

theorem alloc (henv : env.txid ≠ txid) :
    Blind txid (alloc env : Op τ δ η _) (·.owner ≠ txid) := by
  refine Twin.modifyGet fun h h' hi => ⟨⟨?_, henv⟩, hi.alloc henv⟩
  change (⟨_, _⟩ : Ref) = ⟨_, _⟩
  rw [hi.alike.next henv]

theorem newRev (henv : env.txid ≠ txid) (hrev : rev.Apart txid) :
    Blind txid (newRev env rev : Op τ δ η _) (·.owner ≠ txid) :=
  (alloc henv).seq fun _ hr => (setRev hr hrev).seq fun _ _ => pure hr

theorem setBranch (hb : b.owner ≠ txid) (hbranch : branch.Apart txid) :
    Blind txid (setBranch b branch : Op τ δ η _) fun _ => True :=
  Twin.modify fun _ _ hi => hi.setBranch hb hbranch

theorem newBranch (henv : env.txid ≠ txid) (hbranch : branch.Apart txid) :
    Blind txid (newBranch env branch : Op τ δ η _) (·.owner ≠ txid) :=
  (alloc henv).seq fun _ hb => (setBranch hb hbranch).seq fun _ _ => pure hb

theorem getNode (hn : n.owner ≠ txid) :
    Twin (ε := Err) (Isolated (τ := τ) (δ := δ) (η := η) txid) (Node.Seen txid) (getNode n)
      (getNode n) :=
  Twin.reads fun _ _ hi => ⟨hi.alike.node hn, hi.closed.node hn⟩

theorem newNode (henv : env.txid ≠ txid) (type : τ) :
    Blind txid (newNode env ⟨type, fun _ => none⟩ : Op τ δ η _) (·.owner ≠ txid) :=
  (alloc henv).seq fun _ hn => Twin.seq (Q := fun _ => True)
    (Twin.modify fun _ _ hi => hi.setNode (.refl _) (by simp) fun _ => .inl rfl)
    fun _ _ => pure hn

theorem setNodeBranch (hn : n.owner ≠ txid) {key : String} (hkey : key ≠ txid)
    (hb : b.owner ≠ txid) :
    Blind txid (setNodeBranch n key (some b) : Op τ δ η _) fun _ => True := by
  intro h h' hi
  refine ⟨⟨rfl, trivial⟩, hi.setNode ⟨(hi.alike.node hn).type, ?_⟩ ?_ ?_⟩
  · intro key' hkey'
    dsimp only
    rw [update_apply, update_apply, (hi.alike.node hn).branches hkey']
  · intro key' b' hkey' hb'
    dsimp only at hb'
    rw [update_apply] at hb'
    split_ifs at hb'
    · cases hb'
      exact hb
    · exact hi.closed.node hn hkey' hb'
  · exact fun _ => .inr (update_of_ne (Ne.symm hkey) ..)

theorem getRoot : Blind txid (getRoot : Op τ δ η _) (·.owner ≠ txid) :=
  Twin.reads fun _ _ hi => ⟨hi.alike.root.symm, hi.closed.root⟩

theorem getStore : Blind txid (getStore : Op τ δ η _) fun _ => True :=
  Twin.reads fun _ _ hi => ⟨hi.alike.store.symm, trivial⟩

theorem cacheSet (path : String) (hr : r.owner ≠ txid) :
    Blind txid (cacheSet path r : Op τ δ η _) fun _ => True :=
  Twin.modify fun _ _ hi => hi.setCache hr path

/-! ### Revisions -/

variable {M : Model τ δ η}

theorem rehash (hr : r.owner ≠ txid) : Blind txid (rehash M r) fun _ => True :=
  (common.getRev hr).seq fun _ hrev => (common.hashContent hrev).seq fun _ _ =>
    setRev hr ⟨hrev.branch, hrev.unlisted⟩

theorem newRev_rehash (henv : env.txid ≠ txid) (hrev : rev.Apart txid) :
    Blind txid (do
      let r ← Nodes.newRev env rev
      Nodes.rehash M r
      return r) (·.owner ≠ txid) :=
  (newRev henv hrev).seq fun _ hr => (rehash hr).seq fun _ _ => pure hr

theorem makeRevision (henv : env.txid ≠ txid) (hb : b.owner ≠ txid) (data : δ)
    {children : GoMap String (Slice Ref)}
    (hchildren : Unlisted txid children) :
    Blind txid (makeRevision M env b data children) (·.owner ≠ txid) :=
  getStore.seq fun _ _ => newRev_rehash henv ⟨hb, hchildren⟩

section

variable (hr : r.owner ≠ txid)
include hr

theorem setName (name : String) :
    Blind txid (setName r name : Op τ δ η _) fun _ => True :=
  (common.getRev hr).seq fun _ hrev => setRev hr ⟨hrev.branch, hrev.unlisted⟩

theorem setLastUpdate :
    Blind txid (setLastUpdate env r : Op τ δ η _) fun _ => True :=
  (common.getRev hr).seq fun _ hrev => setRev hr ⟨hrev.branch, hrev.unlisted⟩

theorem setVersion (version : ℕ) :
    Blind txid (setVersion r version : Op τ δ η _) fun _ => True :=
  (common.getRev hr).seq fun _ hrev => setRev hr ⟨hrev.branch, hrev.unlisted⟩

theorem setChildren (name : String) {children : List (Option Ref)}
    (hchildren : ∀ r, some r ∈ children → r.owner ≠ txid) :
    Blind txid (setChildren r name children : Op τ δ η _) fun _ => True :=
  (common.getRev hr).seq fun _ hrev => setRev hr ⟨hrev.branch, hrev.unlisted.insert hchildren⟩

end

theorem updateData [DecidableEq η] (henv : env.txid ≠ txid) (hr : r.owner ≠ txid) (data : δ)
    (hb : b.owner ≠ txid) : Blind txid (updateData M env r data b) (·.owner ≠ txid) := by
  refine (common.getRev hr).seq fun rev hrev => ?_
  split_ifs
  · exact pure hr
  · refine (common.getLatest hb).seq fun l hl => (common.getRev hl).seq fun latest hlatest => ?_
    exact newRev_rehash henv ⟨hb, hlatest.unlisted.append⟩

theorem childDrop [DecidableEq η] (hr : r.owner ≠ txid) (name : String) (hash : Option η) :
    Blind txid (childDrop r name hash : Op τ δ η _) fun _ => True := by
  unfold Nodes.childDrop
  split_ifs
  · refine (common.getRev hr).seq fun rev hrev =>
      (common.indexOfHash hash (hrev.child _)).seq fun i _ => ?_
    cases i with
    | none => exact pure trivial
    | some i =>
      exact setChildren hr name fun _ hr => hrev.child _ _ (mem_of_mem_eraseIdx hr)
  · exact pure trivial

theorem isNew [DecidableEq η] (rev : Revision δ η) {l : Option Ref}
    (hl : ∀ r, l = some r → r.owner ≠ txid) :
    Blind txid (isNew rev l : Op τ δ η _) fun _ => True := by
  cases l with
  | none => exact pure trivial
  | some l => exact (common.getRev (hl l rfl)).seq fun _ _ => pure trivial

theorem makeLatest [DecidableEq η] (hb : b.owner ≠ txid) (hr : r.owner ≠ txid) :
    Blind txid (makeLatest env b r : Op τ δ η _) fun _ => True := by
  refine (common.getRev hr).seq fun rev hrev => (common.getBranch hb).seq fun branch hbranch =>
    (isNew rev fun _ hl => hbranch.latest _ hl).seq fun new _ => ?_
  have hset : Blind (τ := τ) (δ := δ) (η := η) txid
      (Nodes.setBranch b { branch with latest := some r }) fun _ => True :=
    setBranch hb ⟨hbranch.node, fun hl => Option.some.inj hl ▸ hr⟩
  split_ifs
  · exact (setLastUpdate hr).seq fun _ _ => (cacheSet rev.name hr).seq fun _ _ => hset
  · exact hset
  · exact pure trivial

/-! ### Nodes -/

theorem latest (hn : n.owner ≠ txid) (key : String) (hkey : branchKey key ≠ txid) :
    Blind txid (latest n key : Op τ δ η _)
      fun l => ∀ r, l = some r → r.owner ≠ txid := by
  refine (getNode hn).bind fun node node' hnode => ?_
  rw [hnode.branches hkey]
  cases hb : node.branches (branchKey key) with
  | none => exact pure (by simp)
  | some b =>
    exact (common.getBranch (hnode.apart hkey hb)).seq fun _ hbranch => pure hbranch.latest

theorem verifyLook (hnone : NONE ≠ txid) (typeName keyName keyValue : String) :
    Blind txid (verifyLook M typeName keyName keyValue) fun look =>
      (∀ r, some r ∈ look.1 → r.owner ≠ txid) ∧ ∀ p, look.2 = some p → p.2.owner ≠ txid := by
  refine getRoot.seq fun n hn => (getNode hn).bind fun node node' hnode => ?_
  rw [hnode.branches hnone]
  refine (Sees.deref fun b hb => hnode.apart hnone hb).seq fun b hb =>
    (common.getLatest hb).seq fun l hl => (common.getRev hl).seq fun rev hrev => ?_
  have hchild : ∀ r, some r ∈ (rev.getChildren typeName).entries → r.owner ≠ txid :=
    hrev.child _
  exact (common.findRevByKey keyName keyValue hchild).seq fun _ hfound => pure ⟨hchild, hfound⟩

theorem makeChildren {makeChild : δ → Op τ δ η Ref}
    (hmake : ∀ d, Blind txid (makeChild d) (·.owner ≠ txid)) (hnone : NONE ≠ txid) (data : δ) :
    Blind txid (makeChildren M makeChild data "") (Unlisted txid) := by
  refine Twin.foldlM (fun name r hr => ?_) fun field _ children hchildren => ?_
  · cases hr
  · have hlatest : ∀ v ∈ M.messages.values field.1 data, Blind txid (do
        Nodes.latest (← makeChild v) (if field.2.isContainer ∧ field.2.key ≠ "" then "" else ""))
        fun l => ∀ r, l = some r → r.owner ≠ txid := by
      intro v _
      refine (hmake v).seq fun n hn => latest hn _ ?_
      rw [ite_self]
      exact hnone
    refine Twin.seq (Twin.mapM hlatest) fun revs hrevs => ?_
    split_ifs
    · exact pure hchildren
    · refine pure (hchildren.insert fun r hr => ?_)
      obtain ⟨r', hr', he⟩ := mem_map.mp hr
      cases he
      exact hrevs _ (reduceOption_mem_iff.mp hr') _ rfl

/-! ### New objects -/

section Making

variable [DecidableEq η] (henv : env.txid ≠ txid) (hnone : NONE ≠ txid)
include henv hnone

theorem initializeNode {makeChild : δ → Op τ δ η Ref}
    (hmake : ∀ d, Blind txid (makeChild d) (·.owner ≠ txid)) (data : δ) :
    Blind txid (initializeNode M env makeChild data "") (·.owner ≠ txid) := by
  refine (newNode henv _).seq fun n hn => (makeChildren hmake hnone data).seq fun _ hchildren => ?_
  refine (newBranch henv ⟨hn, by simp⟩).seq fun b hb =>
    (makeRevision henv hb data hchildren).seq fun r hr => (makeLatest hb hr).seq fun _ _ => ?_
  exact (setNodeBranch hn hnone hb).seq fun _ _ => pure hn

theorem makeNode (data : δ) :
    Blind txid (makeNode M env data "") (·.owner ≠ txid) := by
  have hupTo : ∀ height d, Blind txid (makeNodeUpTo M env "" height d) (·.owner ≠ txid) := by
    intro height
    induction height with
    | zero => exact fun d => initializeNode henv hnone (fun _ => throw _) d
    | succ height ih => exact fun d => initializeNode henv hnone ih d
  exact hupTo _ data

variable [DecidableEq δ] {children : List (Option Ref)}

omit [DecidableEq η] hnone in
theorem updateChildren (hr : r.owner ≠ txid) (name : String)
    (hchildren : ∀ r, some r ∈ children → r.owner ≠ txid) (hb : b.owner ≠ txid) :
    Blind txid (updateChildren M env r name children b) (·.owner ≠ txid) := by
  refine (common.getRev hr).seq fun rev hrev => (common.getLatest hb).seq fun l hl =>
    (common.getRev hl).seq fun latest hlatest => ?_
  refine (common.updatedChildren (hlatest.child _) hchildren).seq fun updated hupdated => ?_
  exact newRev_rehash henv ⟨hb, hlatest.unlisted.append.insert hupdated⟩

theorem verifyWrite (data : δ)
    (typeName keyValue : String) (version : ℕ) {found : Option (ℕ × Ref)}
    (hchildren : ∀ r, some r ∈ children → r.owner ≠ txid)
    (hfound : ∀ p, found = some p → p.2.owner ≠ txid) :
    Blind txid (verifyWrite M env data typeName keyValue "" version children found)
      (·.owner ≠ txid) := by
  refine getRoot.seq fun n hn => (getNode hn).bind fun node node' hnode => ?_
  rw [hnode.branches hnone]
  refine (Sees.deref fun b hb => hnode.apart hnone hb).seq fun parent hparent => ?_
  cases found with
  | some p =>
    have hp := hfound p rfl
    refine (common.getRev hp).seq fun child hchild => ?_
    split_ifs
    · refine (updateData henv hp data hchild.branch).seq fun r hr =>
        (setLastUpdate hr).seq fun _ _ => (setVersion hr version).seq fun _ _ =>
        (common.getRev hr).seq fun rev _ => (cacheSet rev.name hr).seq fun _ _ => ?_
      have hset : ∀ r', some r' ∈ children.set p.1 (some r) → r'.owner ≠ txid := by
        intro r' hr'
        rcases mem_or_eq_of_mem_set hr' with hr' | hr'
        · exact hchildren r' hr'
        · cases hr'
          exact hr
      refine (common.getLatest hparent).seq fun l hl =>
        (updateChildren henv hl typeName hset hparent).seq fun r' hr' =>
        (makeLatest hparent hr').seq fun _ _ => (common.getLatest hparent).seq fun l' hl' =>
        (common.getRev hp).seq fun rev' _ => (childDrop hl' typeName rev'.hash).seq fun _ _ =>
        pure hr
    · refine (setLastUpdate hp).seq fun _ _ => ?_
      exact (setVersion hp version).seq fun _ _ =>
        (cacheSet child.name hp).seq fun _ _ => pure hp
    · exact (setLastUpdate hp).seq fun _ _ => (cacheSet child.name hp).seq fun _ _ => pure hp
  | none =>
    refine (makeNode henv hnone data).seq fun n' hn' => (latest hn' "" hnone).seq fun l hl =>
      (Sees.deref hl).seq fun r hr => (setName hr _).seq fun _ _ => (setVersion hr version).seq
        fun _ _ => (cacheSet _ hr).seq fun _ _ => (common.getLatest hparent).seq fun l' hl' => ?_
    have happend : ∀ r', some r' ∈ children ++ [some r] → r'.owner ≠ txid := by
      intro r' hr'
      rcases mem_append.mp hr' with hr' | hr'
      · exact hchildren r' hr'
      · cases mem_singleton.mp hr'
        exact hr
    exact (updateChildren henv hl' typeName happend hparent).seq fun r' hr' =>
      (makeLatest hparent hr').seq fun _ _ => pure hr

theorem verifyPersistedEntry (data : δ)
    (typeName keyName keyValue : String) (version : ℕ) :
    Blind txid (verifyPersistedEntry M env data typeName keyName keyValue "" version)
      (·.owner ≠ txid) :=
  (verifyLook hnone typeName keyName keyValue).seq fun _ hlook =>
    verifyWrite henv hnone data typeName keyValue version hlook.1 hlook.2

theorem loadBlob (field : ChildType τ)
    (name : String) {loaded : String × List Ref} (hloaded : ∀ r ∈ loaded.2, r.owner ≠ txid)
    (blob : δ × ℕ) :
    Blind txid (loadBlob M env field name "" loaded blob)
      fun loaded => ∀ r ∈ loaded.2, r.owner ≠ txid := by
  have happend : ∀ {entry : Ref}, entry.owner ≠ txid →
      ∀ r ∈ loaded.2 ++ [entry], r.owner ≠ txid := by
    intro entry hentry r hr
    rcases mem_append.mp hr with hr | hr
    · exact hloaded r hr
    · cases mem_singleton.mp hr
      exact hentry
  unfold Nodes.loadBlob
  cases M.messages.unmarshal field.classType blob.1 with
  | none => exact pure hloaded
  | some data =>
    dsimp only
    split_ifs
    · exact pure hloaded
    · exact (verifyPersistedEntry henv hnone data name _ _ _).seq fun _ hentry =>
        pure (happend hentry)
    · exact Twin.seq (Q := fun _ => True) (throw _) fun _ _ =>
        (verifyPersistedEntry henv hnone data name _ _ _).seq fun _ hentry =>
          pure (happend hentry)
    · exact (verifyPersistedEntry henv hnone data name _ _ _).seq fun _ hentry =>
        pure (happend hentry)

theorem loadBlobs (field : Option (ChildType τ))
    (name rest : String) (blobs : List (δ × ℕ)) :
    Blind txid (match field with
      | none => return []
      | some field => do
        let loaded ← blobs.foldlM (Nodes.loadBlob M env field name "") (rest, [])
        return loaded.2) fun rs => ∀ r ∈ rs, r.owner ≠ txid := by
  cases field with
  | none => exact pure (by simp)
  | some field =>
    refine Twin.seq (Q := fun loaded => ∀ r ∈ loaded.2, r.owner ≠ txid)
      (Twin.foldlM (by simp) fun blob _ loaded hloaded => ?_) fun _ hloaded => pure hloaded
    exact loadBlob henv hnone field name hloaded blob

theorem loadFromPersistence (hr : r.owner ≠ txid)
    (path : String) :
    Blind txid (loadFromPersistence M env r path "") fun rs => ∀ r ∈ rs, r.owner ≠ txid := by
  refine getStore.seq fun s _ => ?_
  cases s with
  | none => exact pure (by simp)
  | some s =>
    generalize partition (stripSlashes path) = parts
    obtain ⟨name, rest⟩ := parts
    dsimp only
    split_ifs
    · exact pure (by simp)
    · exact throw _
    · refine getRoot.seq fun n hn => (getNode hn).bind fun node node' hnode => ?_
      rw [hnode.type]
      exact loadBlobs henv hnone _ name rest _
    · refine (common.nodeOf hr).seq fun n hn => (getNode hn).bind fun node node' hnode => ?_
      rw [hnode.type]
      exact loadBlobs henv hnone _ name rest _

theorem finishGet (hr : r.owner ≠ txid) (path : String) (result : Found δ) :
    Blind txid (finishGet M env r path "" result) fun _ => True := by
  unfold Nodes.finishGet
  split_ifs
  · exact pure trivial
  · refine getStore.seq fun s _ => ?_
    cases s with
    | none => exact pure trivial
    | some _ =>
      exact (loadFromPersistence henv hnone hr _).seq fun rs hrs =>
        (common.getRevs hrs).seq fun _ _ => pure trivial

end Making

/-! ### Reading -/

variable [DecidableEq τ] [DecidableEq δ] [DecidableEq η]

theorem nodeGet (henv : env.txid ≠ txid) (hnone : NONE ≠ txid) (hn : n.owner ≠ txid) (path : String)
    (depth : ℤ) (reconcile : Bool) :
    Blind txid (nodeGet M env n path depth reconcile "") fun _ => True := by
  refine (getNode hn).bind fun node node' hnode => ?_
  dsimp only
  rw [if_pos rfl, if_pos rfl, Option.none_or, Option.none_or, hnode.branches hnone]
  refine (Sees.deref fun b hb => hnode.apart hnone hb).seq fun b hb =>
    (common.getLatest hb).seq fun rev hrev => ?_
  split_ifs
  · exact Twin.seq (Q := fun _ => True) (pure trivial) fun result _ =>
      finishGet henv hnone hrev _ result
  · exact (common.getFromMemory hn hrev _ depth).seq fun result _ =>
      finishGet henv hnone hrev _ result

/-- A read without a transaction gives the same answer in both memories. -/
theorem rootGet (henv : env.txid = "") (htxid : "" ≠ txid) (hnone : NONE ≠ txid) (path : String)
    (depth : ℤ) (reconcile : Bool) :
    Blind txid (rootGet M env path depth reconcile) fun _ => True := by
  refine getRoot.seq fun n hn => ?_
  rw [henv]
  exact nodeGet (henv.trans_ne htxid) hnone hn path depth reconcile

end Blind

end Isolation

end VolthaCore.Nodes
