import VolthaCore.Nodes.Entries

/-! The calls on a container of the root without a transaction, and what each of them leaves of
its children. -/

namespace VolthaCore.Nodes

open Outcome

variable {τ δ η : Type}

/-! ### Calls -/

section Calls

variable [DecidableEq τ] [DecidableEq δ] [DecidableEq η]

/-- What is done to a container: `Add(/c, data)`, `Update(/c/key, data)` or `Remove(/c/key)`. -/
inductive Change (δ : Type) where
  | add (data : δ)
  | update (key : String) (data : δ)
  | remove (key : String)

/-- The data are of the type of the container, and an update carries the key it addresses. -/
def Change.Fits (M : Model τ δ η) (field : ChildType τ) : Change δ → Prop
  | .add data => M.messages.typeOf data = field.classType
  | .update key data => '/' ∉ key.toList ∧ M.messages.typeOf data = field.classType ∧
      field.keyOf M data = field.keyFromStr key
  | .remove key => '/' ∉ key.toList

instance (M : Model τ δ η) (field : ChildType τ) (change : Change δ) :
    Decidable (change.Fits M field) :=
  match change with
  | .add _ => inferInstanceAs (Decidable (_ = _))
  | .update _ _ => inferInstanceAs (Decidable (_ ∉ _ ∧ _ = _ ∧ _ = _))
  | .remove _ => inferInstanceAs (Decidable (_ ∉ _))

def Change.key (M : Model τ δ η) (field : ChildType τ) : Change δ → String
  | .add data => field.keyOf M data
  | .update key _ | .remove key => key

/-- What a change is for a map: an addition inserts only keys that are not there, and an update
overwrites only keys that are. -/
def Change.onMap (M : Model τ δ η) (field : ChildType τ) (m : String → Option δ) :
    Change δ → String → Option δ
  | .add data =>
    if (m (field.keyOf M data)).isSome then m
    else Function.update m (field.keyOf M data) (some data)
  | .update key data => if (m key).isSome then Function.update m key (some data) else m
  | .remove key => Function.update m key none

section

variable (M : Model τ δ η) (field : ChildType τ) (m : String → Option δ)

omit [DecidableEq τ] [DecidableEq δ] [DecidableEq η]

theorem Change.onMap_add (data : δ) :
    (Change.add data).onMap M field m (field.keyOf M data) =
      some ((m (field.keyOf M data)).getD data) := by
  cases hm : m (field.keyOf M data) <;> simp [Change.onMap, hm]

theorem Change.onMap_update (key : String) (data : δ) :
    (Change.update key data).onMap M field m key = (m key).map fun _ => data := by
  cases hm : m key <;> simp [Change.onMap, hm]

end

/-- A call, with its time and whether the key-value store answers. -/
structure Call (δ : Type) where
  now : ℕ
  up : Bool
  change : Change δ

def Call.env (call : Call δ) : Env := ⟨"", call.now, call.up⟩

def Call.exec (M : Model τ δ η) (name : String) (call : Call δ) : Op τ δ η (Option Ref) :=
  match call.change with
  | .add data => rootAdd M call.env (containerPath name) data
  | .update key data => rootUpdate M call.env (entryPath name key) data
  | .remove key => rootRemove M call.env (entryPath name key)

/-- The memory after a call, whether it returns or fails. -/
def callStep (M : Model τ δ η) (name : String) (h : Heap τ δ η) (call : Call δ) : Heap τ δ η :=
  after (call.exec M name) h

def Heap.childrenAt (h : Heap τ δ η) (name : String) : List (Option Ref) :=
  match ((h.nodes h.root).branches NONE).bind fun b => (h.branches b).latest with
  | some latest => ((h.revs latest).getChildren name).entries
  | none => []

def Heap.keysAt (h : Heap τ δ η) (M : Model τ δ η) (name : String) (field : ChildType τ) :
    List (Option String) :=
  (h.childrenAt name).map (Option.map (h.keyAt M field))

def Heap.recordedHash (h : Heap τ δ η) : Option η :=
  (((h.nodes h.root).branches NONE).bind fun b => (h.branches b).latest).bind fun latest =>
    (h.revs latest).hash

/-- The hash of the root with one more child of a container at the end. -/
def Heap.hashWith (h : Heap τ δ η) (M : Model τ δ η) (name : String) (data : δ) : Option η :=
  (((h.nodes h.root).branches NONE).bind fun b => (h.branches b).latest).map fun latest =>
    M.rootHash h latest name (hashesAt h (h.revs latest).children name ++
      [firstHash M h.store.isNone "" data])

end Calls

section Shelves

variable {M : Model τ δ η} {name k : String} {field : ChildType τ} {h : Heap τ δ η} {b L : Ref}
  {kids : List Ref} {data : δ}

section

variable (hs : Shelf M name field h b L kids)
include hs

theorem Shelf.rootLatest :
    (((h.nodes h.root).branches NONE).bind fun b => (h.branches b).latest) = some L := by
  rw [hs.branch, Option.bind_some, hs.latest]

theorem Shelf.childrenAt :
    h.childrenAt name = kids.map some := by
  rw [Heap.childrenAt, hs.rootLatest]
  exact hs.children

theorem Shelf.keysAt :
    h.keysAt M name field = kids.map fun r => some (h.keyAt M field r) := by
  rw [Heap.keysAt, hs.childrenAt, List.map_map]
  rfl

theorem Shelf.mem_keysAt :
    some k ∈ h.keysAt M name field ↔ ∃ r ∈ kids, h.keyAt M field r = k := by
  rw [hs.keysAt]
  simp

theorem Shelf.keysAt_nodup :
    (h.keysAt M name field).Nodup := by
  rw [hs.keysAt, ← Function.comp_def, ← List.map_map]
  exact hs.kids.keys.map (Option.some_injective _)

theorem Shelf.recordedHash :
    h.recordedHash = (h.revs L).hash := by
  rw [Heap.recordedHash, hs.rootLatest]
  rfl

theorem Shelf.hashWith :
    h.hashWith M name data = some (M.rootHash h L name ((kids.filterMap fun r => (h.revs r).hash) ++
      [firstHash M h.store.isNone "" data])) := by
  rw [Heap.hashWith, hs.rootLatest, ← hashesAt_eq hs.children]
  rfl

end

/-- A result has been saved: only a hash may be another one. -/
structure Saved (key : δ → String) (h h' : Heap τ δ η) : Prop where
  mild : Mild key h h'
  branches : h'.branches = h.branches
  config : ∀ r, (h'.revs r).config = (h.revs r).config
  name : ∀ r, (h'.revs r).name = (h.revs r).name

theorem finalizeResult_saved (M : Model τ δ η) (env : Env) (key : δ → String)
    (result : Option Ref) (h : Heap τ δ η) :
    ∃ h', finalizeResult M env result h = .ok result h' ∧ Saved key h h' := by
  have hsame : Saved key h h := ⟨.refl _ h, rfl, fun _ => rfl, fun _ => rfl⟩
  cases result with
  | none => exact ⟨h, rfl, hsame⟩
  | some r =>
    suffices hfin : ∃ h', finalize M env r h = .ok () h' ∧ Saved key h h' by
      obtain ⟨h', hrun, hsaved⟩ := hfin
      refine ⟨h', ?_, hsaved⟩
      unfold finalizeResult
      dsimp only
      rw [bind_of_ok hrun]
      rfl
    unfold finalize
    rw [getStore_bind]
    split_ifs with hstore
    · unfold store
      rw [getRev_bind, getBranch_bind]
      split_ifs with htxid
      · exact ⟨h, rfl, hsame⟩
      · rw [cacheSet_bind]
        unfold changeStore
        split_ifs with hup
        · exact ⟨_, rfl, (mild_setCache h _ _).trans (mild_setStore _ _), rfl, fun _ => rfl,
            fun _ => rfl⟩
        · exact ⟨_, rfl, mild_setCache h _ _, rfl, fun _ => rfl, fun _ => rfl⟩
    · exact ⟨_, rehash_apply rfl, mild_setRev rfl rfl rfl, rfl,
        Heap.revs_setRev Revision.config (by rfl), Heap.revs_setRev Revision.name (by rfl)⟩

variable {h' h₁ : Heap τ δ η} {result : Option Ref} {r : Ref} {before later : List Ref}

theorem Shelf.saved (hs : Shelf M name field h b L kids)
    (hsaved : Saved (field.keyOf M) h h') : Shelf M name field h' b L kids :=
  hs.mild hsaved.mild (by rw [hsaved.branches]; exact hs.latest)

variable [DecidableEq η]

theorem Shelf.rootRemove_of_present (hs : Shelf M name field h b L (before ++ r :: later))
    (env : Env) (htxid : env.txid = "") (hk : Segment k)
    (hkey : h.keyAt M field r = field.keyFromStr k) :
    rootRemove M env (entryPath name k) h = .ok (some L)
      ((h.dropEntry env (h.revs r).name).setKids L name (before ++ later)) := by
  rw [rootRemove, getRoot_bind, htxid, (hs.view env).nodeRemove_entry hk, hs.children,
    bind_of_ok (findRevByKey_of_first (hs.kids.keyAt_ne_of_before hkey) hkey)]
  exact hs.dropChild_apply env

theorem Shelf.rootRemove_of_absent (hs : Shelf M name field h b L kids) (env : Env)
    (htxid : env.txid = "") (hk : '/' ∉ k.toList)
    (habsent : k ≠ "" → ∀ r ∈ kids, h.keyAt M field r ≠ field.keyFromStr k) :
    after (rootRemove M env (entryPath name k)) h = h := by
  unfold after
  rw [rootRemove, getRoot_bind, htxid]
  by_cases hempty : k = ""
  · subst hempty
    rw [hs.nodeRemove_empty env]
  · rw [(hs.view env).nodeRemove_entry ⟨hempty, hk⟩, hs.children,
      bind_of_ok (findRevByKey_of_notMem (habsent hempty))]
    cases field.isString <;> rfl

variable [DecidableEq δ]

theorem Shelf.rootAdd_apply (hs : Shelf M name field h b L kids) (env : Env) (htxid : env.txid = "")
    (hrun : addChild M env b L name field data h = .ok result h') :
    rootAdd M env (containerPath name) data h = finalizeResult M env result h' := by
  rw [rootAdd, getRoot_bind, htxid,
    bind_of_ok (((hs.view env).nodeAdd_container data _).trans hrun)]

/-- With a new key the root lists the child, unless it keeps its hash. -/
theorem Shelf.rootAdd_of_absent (hs : Shelf M name field h b L kids) (env : Env)
    (htxid : env.txid = "") (htype : M.messages.typeOf data = field.classType)
    (hfresh : ∀ r ∈ kids, h.keyAt M field r ≠ field.keyOf M data) :
    ∃ x h₁ L' h', rootAdd M env (containerPath name) data h = finalizeResult M env (some x) h' ∧
      h₁.cache = h.cache ∧ Planted M "" field (childName name
        (M.messages.attributeString field.key data)) data h x h₁ ∧
      Kids M field h₁ b (kids ++ [x]) ∧
      Relisted M name field h₁ b L'
        (if h.hashWith M name data = h.recordedHash then kids else kids ++ [x]) h' := by
  obtain ⟨x, h₁, L', h', hrun, hcache, hp, hkids, hr⟩ := hs.addChild_of_absent env htype hfresh
  rw [← hs.hashWith, ← hs.recordedHash] at hr
  exact ⟨x, h₁, L', h', hs.rootAdd_apply env htxid hrun, hcache, hp, hkids, hr⟩

variable [DecidableEq τ]

theorem length_entryPath (name key : String) :
    ∃ stack, (entryPath name key).length = stack + 1 := by
  refine ⟨(name ++ "/" ++ key).length, ?_⟩
  simp only [entryPath, String.length_append]
  have hslash : "/".length = 1 := by decide
  omega

theorem Shelf.rootUpdate_of_absent (hs : Shelf M name field h b L kids) (env : Env)
    (htxid : env.txid = "") (hk : Segment k)
    (habsent : ∀ r ∈ kids, h.keyAt M field r ≠ field.keyFromStr k) :
    rootUpdate M env (entryPath name k) data h = finalizeResult M env (some L) h := by
  obtain ⟨stack, hlength⟩ := length_entryPath name k
  rw [rootUpdate, getRoot_bind, htxid, hlength, bind_of_ok (hs.nodeUpdate_absent hk habsent stack)]

theorem Shelf.rootUpdate_of_empty (hs : Shelf M name field h b L kids) (env : Env)
    (htxid : env.txid = "") :
    rootUpdate M env (entryPath name "") data h = .ok none h := by
  rw [rootUpdate, getRoot_bind, htxid, bind_of_ok (hs.nodeUpdate_empty _)]
  rfl

/-- An update of a child updates its node, puts the new revision into the list of the root and
saves it. -/
theorem Shelf.rootUpdate_of_present {x : Ref} (hs : Shelf M name field h b L (before ++ r :: later))
    (env : Env) (htxid : env.txid = "") (hk : Segment k)
    (hkey : h.keyAt M field r = field.keyFromStr k)
    (hdo : doUpdate M env (h.branches (h.revs r).branch).node (h.revs r).branch data h =
      .ok (some x) h₁) :
    rootUpdate M env (entryPath name k) data h =
      endUpdate M env b L name (field.keyFromStr k) before r later x h₁ := by
  obtain ⟨stack, hlength⟩ := length_entryPath name k
  rw [endUpdate, rootUpdate, getRoot_bind, htxid, hlength, bind_apply, bind_apply,
    hs.nodeUpdate_present hk hkey hdo stack]

end Shelves

end VolthaCore.Nodes
