import VolthaCore.Nodes.NewNodes
import VolthaCore.Nodes.Isolation

/-! What a transaction may change: its own objects, and the branches of nodes for it. A
computation that stays within these leaves a memory which reads without a transaction cannot tell
from the one before. -/

namespace VolthaCore.Nodes

open Outcome DataModel Function Heap

variable {τ δ η α : Type} {txid : String} {h h' : Heap τ δ η} {x : Op τ δ η α}

section Transactions

variable {h'' : Heap τ δ η} {r b n : Ref}

/-! ### What a transaction may change -/

/-- No other object knows of the transaction, which knows what it owns. -/
structure Tidy (txid : String) (h : Heap τ δ η) : Prop where
  closed : Closed txid h
  owned : Owned txid h

/-- Nothing but what belongs to the transaction has changed. -/
structure Within (txid : String) (h h' : Heap τ δ η) : Prop where
  alike : Alike txid h h'
  owned : Owned txid h'
  old : ∀ {r}, h.Old r → h'.Old r

theorem Tidy.within (hs : Tidy txid h) (hw : Within txid h h') : Tidy txid h' :=
  ⟨hs.closed.of_alike hw.alike, hw.owned⟩

theorem Tidy.refl (hs : Tidy txid h) : Within txid h h := ⟨.refl h, hs.owned, id⟩

theorem Within.trans (hw : Within txid h h') (hw' : Within txid h' h'') : Within txid h h'' :=
  ⟨hw.alike.trans hw'.alike, hw'.owned, fun hr => hw'.old (hw.old hr)⟩

theorem Isolated.within {h0 : Heap τ δ η} (hi : Isolated txid h0 h) (hw : Within txid h h') :
    Isolated txid h0 h' :=
  ⟨hi.alike.trans hw.alike, hi.closed, hw.owned⟩

theorem Isolated.tidy (hi : Isolated txid h h') : Tidy txid h' :=
  ⟨hi.closed.of_alike hi.alike, hi.owned⟩

variable (hs : Tidy txid h)
include hs

theorem Tidy.setRev (hr : r.owner = txid) {rev : Revision δ η}
    (hbranch : rev.branch = (h.revs r).branch) : Within txid h (h.setRev r rev) where
  alike :=
    { Alike.refl h with
      rev := fun hr' =>
        update_of_ne (fun he => hr' ((congrArg Ref.owner he).trans hr)) .. }
  owned :=
    { branch := hs.owned.branch
      latest := fun {n b l} hn hb hl hmine => by
        obtain ⟨hold, hon⟩ := hs.owned.latest hn hb hl hmine
        refine ⟨hold, ?_⟩
        rw [setRev_revs, update_apply]
        split_ifs with he
        · rw [hbranch, ← he]
          exact hon
        · exact hon }
  old := id

theorem Tidy.addRev (rev : Revision δ η) :
    Within txid h (h.addRev txid rev) where
  alike :=
    { Alike.refl h with
      rev := fun hr' => update_of_ne (fun he => hr' (congrArg Ref.owner he)) ..
      next := fun ho => update_of_ne ho .. }
  owned :=
    { branch := fun hn hb => ⟨(hs.owned.branch hn hb).1.alloc, (hs.owned.branch hn hb).2⟩
      latest := fun hn hb hl hmine => by
        obtain ⟨hold, hon⟩ := hs.owned.latest hn hb hl hmine
        rw [hold.revs_addRev]
        exact ⟨hold.addRev rev, hon⟩ }
  old hr := hr.addRev rev

theorem Tidy.setLatest (hb : b.owner = txid) (hr : h.Old r) (hbranch : (h.revs r).branch = b) :
    Within txid h (h.setBranch b { h.branches b with latest := some r }) where
  alike :=
    { Alike.refl h with
      branch := fun hb' =>
        update_of_ne (fun he => hb' ((congrArg Ref.owner he).trans hb)) .. }
  owned :=
    { branch := fun {n b'} hn hb' => by
        rw [setBranch_branches, update_apply]
        split_ifs with he
        · rw [← he]
          exact hs.owned.branch hn hb'
        · exact hs.owned.branch hn hb'
      latest := fun {n b' l} hn hb' hl hmine => by
        rw [setBranch_branches, update_apply] at hl
        split_ifs at hl with he
        · cases hl
          exact ⟨hr, hbranch.trans he.symm⟩
        · exact hs.owned.latest hn hb' hl hmine }
  old := id

/-- The memory in which a node has a branch for the transaction. -/
def Heap.openBranch (h : Heap τ δ η) (txid : String) (n : Ref) (latest : Option Ref) :
    Heap τ δ η :=
  let h₁ := (h.alloc txid).setBranch (h.fresh txid) ⟨n, txid, latest⟩
  h₁.setNode n { h.nodes n with
    branches := Function.update (h.nodes n).branches txid (some (h.fresh txid)) }

theorem Tidy.openBranch {latest : Option Ref}
    (hlatest : n.owner ≠ txid → ∀ l, latest = some l → l.owner ≠ txid) :
    Within txid h (h.openBranch txid n latest) where
  alike :=
    { Alike.refl h with
      branch := fun hb => update_of_ne (fun he => hb (congrArg Ref.owner he)) ..
      node := fun {n'} _ => by
        unfold Heap.openBranch
        rw [setNode_nodes, update_apply]
        split_ifs with he
        · rw [he]
          exact ⟨rfl, fun hkey => update_of_ne hkey ..⟩
        · exact .refl _
      next := fun ho => update_of_ne ho .. }
  owned := by
    have hcases : ∀ {n' b}, n'.owner ≠ txid →
        ((h.openBranch txid n latest).nodes n').branches txid = some b →
          n' = n ∧ b = h.fresh txid ∨ (h.nodes n').branches txid = some b := by
      intro n' b _ hb
      unfold Heap.openBranch at hb
      rw [setNode_nodes, update_apply] at hb
      split_ifs at hb with he
      · dsimp only at hb
        rw [update_self] at hb
        cases hb
        exact .inl ⟨he, rfl⟩
      · exact .inr hb
    have hold : ∀ {b}, h.Old b →
        (h.openBranch txid n latest).branches b = h.branches b := fun hb =>
      update_of_ne hb.ne_fresh ..
    have hnew : (h.openBranch txid n latest).branches (h.fresh txid) = ⟨n, txid, latest⟩ :=
      update_self ..
    exact
      { branch := fun hn hb => by
          rcases hcases hn hb with ⟨-, rfl⟩ | hb
          · rw [hnew]
            exact ⟨⟨rfl, Heap.old_alloc_fresh⟩, rfl⟩
          · obtain ⟨hmine, htxid⟩ := hs.owned.branch hn hb
            rw [hold hmine.2]
            exact ⟨hmine.alloc, htxid⟩
        latest := fun hn hb hl hmine => by
          rcases hcases hn hb with ⟨rfl, rfl⟩ | hb
          · rw [hnew] at hl
            exact absurd hmine (hlatest hn _ hl)
          · rw [hold (hs.owned.branch hn hb).1.2] at hl
            obtain ⟨hold', hon⟩ := hs.owned.latest hn hb hl hmine
            exact ⟨hold'.alloc, hon⟩ }
  old hr := hr.alloc

theorem Tidy.extends (hx : Extends txid h h') : Within txid h h' where
  alike :=
    { root := hx.root
      rev := fun hr => hx.revs _ fun hnew => hr hnew.1
      branch := fun hb => hx.branches _ fun hnew => hb hnew.1
      node := fun hn => by
        rw [hx.nodes _ fun hnew => hn hnew.1]
        exact .refl _
      next := fun ho => hx.next _ ho
      cache := hx.cache
      store := hx.store }
  owned :=
    { branch := fun hn hb => by
        rw [hx.nodes _ fun hnew => hn hnew.1] at hb
        obtain ⟨hmine, htxid⟩ := hs.owned.branch hn hb
        rw [hx.branches_old hmine.2]
        exact ⟨⟨hmine.1, hx.old hmine.2⟩, htxid⟩
      latest := fun hn hb hl hmine => by
        rw [hx.nodes _ fun hnew => hn hnew.1] at hb
        rw [hx.branches_old (hs.owned.branch hn hb).1.2] at hl
        obtain ⟨hold, hon⟩ := hs.owned.latest hn hb hl hmine
        rw [hx.revs_old hold]
        exact ⟨hx.old hold, hon⟩ }
  old hr := hx.old hr

theorem Tidy.setDirtyNodes (o : String) (nodes : List Ref) :
    Within txid h (h.setDirtyNodes o nodes) :=
  ⟨{ Alike.refl h with }, { hs.owned with }, id⟩

theorem Tidy.closeBranch (n : Ref) :
    Within txid h (h.setNode n { h.nodes n with
      branches := Function.update (h.nodes n).branches txid none }) where
  alike :=
    { Alike.refl h with
      node := fun {n'} _ => by
        rw [setNode_nodes, update_apply]
        split_ifs with he
        · rw [he]
          exact ⟨rfl, fun hkey => update_of_ne hkey ..⟩
        · exact .refl _ }
  owned := by
    have hsame : ∀ {n' b}, ((h.setNode n { h.nodes n with
        branches := Function.update (h.nodes n).branches txid none }).nodes n').branches txid =
          some b → (h.nodes n').branches txid = some b := by
      intro n' b hb
      rw [setNode_nodes, update_apply] at hb
      split_ifs at hb
      · simp at hb
      · exact hb
    exact
      { branch := fun hn hb => hs.owned.branch hn (hsame hb)
        latest := fun hn hb => hs.owned.latest hn (hsame hb) }
  old := id

end Transactions

/-! ### Computations of a transaction -/

/-- From the given memory the computation only changes what belongs to the transaction, and its
result and the memory it leaves have a property. -/
def Stays {τ δ η α : Type} (txid : String) (x : Op τ δ η α) (h : Heap τ δ η)
    (Q : α → Heap τ δ η → Prop) : Prop :=
  Triple (· = h) x (fun a h' => Within txid h h' ∧ Q a h') fun _ h' => Within txid h h'

namespace Stays

variable {β : Type} {f : α → Op τ δ η β} {Q Q' : α → Heap τ δ η → Prop} {Q₂ : β → Heap τ δ η → Prop}
  {a : α}

theorem within (hx : Stays txid x h Q) : Within txid h (after x h) :=
  (hx.weaken (fun _ => id) (fun _ _ => And.left) fun _ _ => id).after rfl

theorem weaken (hx : Stays txid x h Q) (hQ : ∀ a h', Q a h' → Q' a h') : Stays txid x h Q' :=
  Triple.weaken hx (fun _ => id) (fun a h' hr => ⟨hr.1, hQ a h' hr.2⟩) fun _ _ => id

theorem of_ok (hx : x h = .ok a h') (hw : Within txid h h') (ha : Q a h') : Stays txid x h Q := by
  rintro _ rfl
  rw [hx]
  exact ⟨hw, ha⟩

theorem congr {y : Op τ δ η α} (hxy : x h = y h) (hy : Stays txid y h Q) : Stays txid x h Q := by
  rintro _ rfl
  rw [hxy]
  exact hy _ rfl

theorem pure (hs : Tidy txid h) (ha : Q a h) : Stays txid (Pure.pure a) h Q :=
  of_ok rfl hs.refl ha

theorem throw (hs : Tidy txid h) (e : Err) : Stays txid (throw e : Op τ δ η α) h Q := by
  rintro _ rfl
  exact hs.refl

theorem bind (hx : Stays txid x h Q)
    (hf : ∀ a h', Within txid h h' → Q a h' → Stays txid (f a) h' Q₂) :
    Stays txid (x >>= f) h Q₂ := by
  refine Triple.bind hx fun a h' hr => ?_
  have hnext := hf a h' hr.1 hr.2 h' rfl
  cases hrun : f a h' with
  | ok b h'' =>
    rw [hrun] at hnext
    exact ⟨hr.1.trans hnext.1, hnext.2⟩
  | error e h'' =>
    rw [hrun] at hnext
    exact hr.1.trans hnext

theorem step (hx : x h = .ok a h') (hw : Within txid h h') (hf : Stays txid (f a) h' Q₂) :
    Stays txid (x >>= f) h Q₂ :=
  bind (of_ok (Q := fun b h'' => b = a ∧ h'' = h') hx hw ⟨rfl, rfl⟩) <| by
    rintro _ _ - ⟨rfl, rfl⟩
    exact hf

theorem read (hx : x h = .ok a h) (hs : Tidy txid h) (hf : Stays txid (f a) h Q₂) :
    Stays txid (x >>= f) h Q₂ := step hx hs.refl hf

theorem reads (hx : Reads x) (hs : Tidy txid h)
    (hf : ∀ a, x h = .ok a h → Stays txid (f a) h Q₂) : Stays txid (x >>= f) h Q₂ := by
  cases hr : x h with
  | ok a h' =>
    obtain rfl := hx.of_ok hr
    exact read hr hs (hf a hr)
  | error e h' =>
    obtain rfl := hx.of_error hr
    rintro _ rfl
    rw [bind_apply, hr]
    exact hs.refl

end Stays

/-! ### Reading -/

section Reading

variable {M : Model τ δ η} {env : Env} {Q : α → Prop}

theorem common_self (s : Heap τ δ η) : Common (fun _ => True) fun h h' => h = s ∧ h' = s where
  rev _ _ hs _ _ := ⟨by rw [hs.1, hs.2], trivial, fun _ _ _ => trivial⟩
  branch _ _ hs _ _ := ⟨by rw [hs.1, hs.2], trivial, fun _ _ => trivial⟩
  type _ _ hs _ _ := by rw [hs.1, hs.2]
  cache _ _ hs _ := ⟨by rw [hs.1, hs.2], fun _ _ => trivial⟩

/-- A computation that leaves two equal memories equal to what they were only reads. -/
theorem reads_of_sees (hx : ∀ s, Sees (fun h h' => h = s ∧ h' = s) x Q) : Reads x :=
  fun s => ((hx s).after ⟨rfl, rfl⟩).1

theorem reads_deref (r : Option Ref) : Reads (deref r : Op τ δ η Ref) :=
  reads_of_sees fun _ => Sees.deref (P := fun _ => True) fun _ _ => trivial

theorem reads_getLatest (b : Ref) : Reads (getLatest b : Op τ δ η Ref) :=
  reads_of_sees fun s => (common_self s).getLatest trivial

theorem reads_findRevByKey (M : Model τ δ η) (keyName value : String) (rs : List (Option Ref)) :
    Reads (findRevByKey M keyName value rs) :=
  reads_of_sees fun s => (common_self s).findRevByKey keyName value fun _ _ => trivial

theorem reads_indexOfHash [DecidableEq η] (hash : Option η) (rs : List (Option Ref)) :
    Reads (indexOfHash hash rs : Op τ δ η (Option ℕ)) :=
  reads_of_sees fun s => (common_self s).indexOfHash hash fun _ _ => trivial

theorem reads_updatedChildren [DecidableEq δ] (existing : Slice Ref) (rs : List (Option Ref)) :
    Reads (updatedChildren existing rs : Op τ δ η (List (Option Ref))) :=
  reads_of_sees fun s => (common_self s).updatedChildren (fun _ _ => trivial) fun _ _ => trivial

theorem reads_getFromMemory [DecidableEq τ] [DecidableEq δ] (n r : Ref) (path : String)
    (depth : ℤ) : Reads (getFromMemory M env n r path depth) :=
  reads_of_sees fun s => (common_self s).getFromMemory trivial trivial path depth

end Reading

end VolthaCore.Nodes
