import VolthaCore.Nodes.Calls

/-! Reloads of entries from the key-value store, for a container whose keys are strings. -/

namespace VolthaCore.Nodes

open Outcome List Option Function Heap

variable {τ δ η : Type} {M : Model τ δ η} {name k kv txid : String} {field : ChildType τ}
  {h h' : Heap τ δ η} {b L r : Ref} {kids rs : List Ref} {data : δ} {env : Env} {version : ℕ}
  {s : Store δ} {children : List (Option Ref)}

/-! ### Labels -/

section Labels

/-- A container whose keys are strings. Its children are named after their keys. -/
structure Labelled (M : Model τ δ η) (name : String) (field : ChildType τ) (h : Heap τ δ η)
    (b L : Ref) (rs : List Ref) : Prop extends Shelf M name field h b L rs where
  isString : field.isString = true
  named : ∀ r ∈ rs, (h.revs r).name = childName name (h.keyAt M field r)
  root_name : (h.revs L).name = ""

variable {key : δ → String}

theorem childrenAt_eq (hb : (h.nodes h.root).branches NONE = some b)
    (hl : (h.branches b).latest = some L)
    (hc : ((h.revs L).getChildren name).entries = rs.map some) :
    h.childrenAt name = rs.map some := by
  rw [Heap.childrenAt, hb, bind_some, hl]
  exact hc

theorem Relisted.childrenAt {L' : Ref} (hr : Relisted M name field h b L' rs h')
    (hs : Rack M name field h b L kids) : h'.childrenAt name = rs.map some :=
  childrenAt_eq (hr.rack hs).branch hr.latest hr.children

/-- The memory after a revision was read again and cached. -/
def Heap.reread (h : Heap τ δ η) (r : Ref) (now version : ℕ) : Heap τ δ η :=
  (h.setRev r { h.revs r with lastUpdate := some now, version }).setCache (h.revs r).name (some r)

variable (h : Heap τ δ η) (r : Ref) (now version : ℕ)

theorem reread_self :
    (h.reread r now version).revs r = { h.revs r with lastUpdate := some now, version } :=
  update_self ..

theorem mild_reread : Mild key h (h.reread r now version) := by
  have hset : Mild key h (h.setRev r { h.revs r with lastUpdate := some now, version }) :=
    mild_setRev rfl rfl rfl
  exact hset.trans (mild_setCache ..)

theorem setVersion_apply :
    setVersion r version h = .ok () (h.setRev r { h.revs r with version }) := rfl

theorem setLastUpdate_apply (env : Env) :
    setLastUpdate env r h = .ok () (h.setRev r { h.revs r with lastUpdate := some env.now }) := rfl

theorem setRev_setRev (rev rev' : Revision δ η) :
    (h.setRev r rev).setRev r rev' = h.setRev r rev' := by
  simp [Heap.setRev]

end Labels

/-! ### One entry -/

section Verifying

def Heap.redoneHash (h : Heap τ δ η) (M : Model τ δ η) (r : Ref) (data : δ) : Option η :=
  (h.branches (h.revs r).branch).latest.bind fun l =>
    (dataUpdate M h (h.revs r) (h.revs l) data (h.revs r).branch).hash

/-- A child has been read again, and its revision is `x`: the child itself, when its data have the
same hash, or a new one. -/
structure Redone (M : Model τ δ η) (field : ChildType τ) (data : δ) (h : Heap τ δ η) (r x : Ref)
    (h₁ : Heap τ δ η) : Prop where
  mild : Mild (field.keyOf M) h h₁
  revs : ∀ {r'}, h.Old r' → r' ≠ x → h₁.revs r' = h.revs r'
  branches : h₁.branches = h.branches
  store : h₁.store = h.store
  old : h₁.Old x
  branch : (h₁.revs x).branch = (h.revs r).branch
  name : (h₁.revs x).name = (h.revs r).name
  hash : (h₁.revs r).hash = (h.revs r).hash
  isNew : M.digest.data (h.revs r).hasRoot data ≠ (h.revs r).config.hash →
    ¬ h.Old x ∧ (h₁.revs x).data = data ∧ (h₁.revs x).hash = h.redoneHash M r data
  same : M.digest.data (h.revs r).hasRoot data = (h.revs r).config.hash → x = r

theorem updateData_redone [DecidableEq η] (M : Model τ δ η) (field : ChildType τ) (hr : h.Old r)
    (hlatest : HasLatest h r) (env : Env) (data : δ) (version : ℕ) :
    ∃ x h₁, updateData M env r data (h.revs r).branch h = .ok x h₁ ∧
      (h₁.revs x).name = (h.revs r).name ∧
      Redone M field data h r x (h₁.reread x env.now version) := by
  by_cases hdigest : M.digest.data (h.revs r).hasRoot data = (h.revs r).config.hash
  · have hself := reread_self h r env.now version
    refine ⟨r, h, ?_, rfl, mild_reread .., fun _ hne => update_of_ne hne .., rfl, rfl, hr,
      by rw [hself], by rw [hself], by rw [hself], fun hne => absurd hdigest hne, fun _ => rfl⟩
    unfold updateData
    rw [getRev_bind, if_pos hdigest]
    rfl
  · obtain ⟨l, hl, -, hchildren⟩ := hlatest
    set h₁ := h.addRev env.txid (dataUpdate M h (h.revs r) (h.revs l) data (h.revs r).branch)
    have hnew : h₁.revs (h.fresh env.txid) =
        dataUpdate M h (h.revs r) (h.revs l) data (h.revs r).branch := revs_addRev_fresh
    have hself := reread_self h₁ (h.fresh env.txid) env.now version
    have hadd : Grows (field.keyOf M) h h₁ := grows_addRev h _ _
    have hrevs : ∀ {r'}, h.Old r' → (h₁.reread (h.fresh env.txid) env.now version).revs r' =
        h.revs r' := fun hr' => (update_of_ne hr'.ne_fresh ..).trans (hadd.revs hr')
    rw [hnew] at hself
    have hold : h₁.Old (h.fresh env.txid) := old_addRev_fresh _
    refine ⟨_, h₁, updateData_apply hdigest hl hchildren, by rw [hnew]; rfl,
      hadd.mild.trans (mild_reread ..), fun hr' _ => hrevs hr', rfl, rfl, hold,
      by rw [hself]; rfl, by rw [hself]; rfl, by rw [hrevs hr],
      fun _ => ⟨not_old_fresh, by rw [hself]; rfl, ?_⟩, fun heq => absurd heq hdigest⟩
    rw [hself, Heap.redoneHash, hl]
    rfl

variable {before later : List Ref}

theorem Rack.verifyLook_of_first (hs : Rack M name field h b L (before ++ r :: later))
    (hbefore : ∀ r' ∈ before, h.keyAt M field r' ≠ kv) (hkey : h.keyAt M field r = kv) :
    verifyLook M name field.key kv h =
      .ok ((before ++ r :: later).map some, some (before.length, r)) h := by
  unfold verifyLook
  rw [getRoot_bind, getNode_bind, hs.branch, deref_bind, getLatest_bind hs.latest, getRev_bind,
    hs.children, bind_of_ok (findRevByKey_of_first hbefore hkey)]
  rfl

variable (hs : Rack M name field h b L kids)
include hs

theorem Rack.verifyLook_of_absent (habsent : ∀ r ∈ kids, h.keyAt M field r ≠ kv) :
    verifyLook M name field.key kv h = .ok (kids.map some, none) h := by
  unfold verifyLook
  rw [getRoot_bind, getNode_bind, hs.branch, deref_bind, getLatest_bind hs.latest, getRev_bind,
    hs.children, bind_of_ok (findRevByKey_of_notMem habsent)]
  rfl

variable [DecidableEq δ] [DecidableEq η]

/-- A child that is not older than the entry, or has its data, is kept. -/
theorem Rack.verifyWrite_keep (env : Env) {idx : ℕ}
    (hkeep : ¬ ((h.revs r).data ≠ data ∧ (h.revs r).version < version)) :
    verifyWrite M env data name kv txid version children (some (idx, r)) h = .ok r
      (h.reread r env.now (max (h.revs r).version version)) := by
  unfold verifyWrite
  rw [getRoot_bind, getNode_bind, hs.branch, deref_bind]
  dsimp only
  rw [getRev_bind, if_neg hkeep, bind_of_ok (setLastUpdate_apply h r env)]
  by_cases hversion : (h.revs r).version < version
  · rw [if_pos hversion, bind_of_ok (setVersion_apply _ r version), setRev_setRev, setRev_revs,
      update_self, max_eq_right hversion.le]
    rfl
  · rw [if_neg hversion, max_eq_left (not_lt.mp hversion)]
    rfl

/-- A child that differs from the entry and is older is replaced in the copied list, which is
merged with the children of the root; the first one with its hash is dropped. -/
theorem Rack.verifyWrite_newer (env : Env) (kv txid : String)
    (hold : ∀ r' ∈ before ++ r :: later, h.Old r') (hlatest : HasLatest h r)
    (hdata : (h.revs r).data ≠ data) (hversion : (h.revs r).version < version) :
    ∃ x h₂ L' rs h₃, verifyWrite M env data name kv txid version
        ((before ++ r :: later).map some) (some (before.length, r)) h =
          .ok x (h₃.dropKid L' name rs (h.revs r).hash) ∧
      Redone M field data h r x h₂ ∧ Rack M name field h₂ b L kids ∧
      Relisted M name field h₂ b L' rs h₃ ∧
      rs = if (nextRoot M name h₂ b L (mergedRefs h₂ kids (before ++ x :: later))).hash =
          (h₂.revs L).hash then kids
        else mergedRefs h₂ kids (before ++ x :: later) := by
  have hr := hold r (by simp)
  obtain ⟨x, h₁, hupdate, hname, hx⟩ := updateData_redone M field hr hlatest env data version
  set h₂ := h₁.reread x env.now version
  have hs₂ := hs.mild hx.mild (by rw [hx.branches]; exact hs.latest)
  have hcs : ∀ r' ∈ before ++ x :: later, h₂.Old r' :=
    forall_mem_replaced hx.old fun r' hr' => hx.mild.old (hold r' hr')
  have hset : ((before ++ r :: later).map some).set before.length (some x) =
      (before ++ x :: later).map some := by simp
  obtain ⟨u, h₀, L', h₃, hlist, hmake, hr'⟩ := hs₂.relist env hcs
  refine ⟨x, h₂, L', _, h₃, ?_, hx, hs₂, hr', rfl⟩
  unfold verifyWrite
  rw [getRoot_bind, getNode_bind, hs.branch, deref_bind]
  dsimp only
  rw [getRev_bind, if_pos ⟨hdata, hversion⟩, bind_of_ok hupdate,
    bind_of_ok (setLastUpdate_apply h₁ x env), bind_of_ok (setVersion_apply _ x version),
    setRev_setRev, setRev_revs, update_self, getRev_bind, cacheSet_bind, setRev_revs, update_self]
  refine (getLatest_bind hs₂.latest).trans ?_
  rw [hset, bind_of_ok hlist,
    bind_of_ok hmake, getLatest_bind hr'.latest, getRev_bind, hr'.revs (hx.mild.old hr), hx.hash,
    bind_of_ok (childDrop_apply hs.segment.ne_empty _ hr'.children)]
  rfl

/-- An entry that is not among the copied children is added to them. -/
theorem Rack.verifyWrite_missing (env : Env) (kv txid : String) (data : δ) (version : ℕ)
    {cs : List Ref} (hcs : ∀ r ∈ cs, h.Old r) :
    ∃ x h₂ L' rs h', verifyWrite M env data name kv txid version (cs.map some) none h = .ok x h' ∧
      h₂.cache = Function.update h.cache (childName name kv) (some x) ∧
      Planted M txid field (childName name kv) data h x h₂ ∧
      Relisted M name field h₂ b L' rs h' ∧
      rs = if (nextRoot M name h₂ b L (mergedRefs h₂ kids (cs ++ [x]))).hash =
          (h₂.revs L).hash then kids
        else mergedRefs h₂ kids (cs ++ [x]) := by
  obtain ⟨n, x, h₁, hmake, hnode, hcache, hp⟩ :=
    makeNode_planted M field h env txid (childName name kv) data
  have hp := hp version (Function.update h₁.cache (childName name kv) (some x))
  have hs₂ := hp.rack hs
  have hcs' : ∀ r ∈ cs ++ [x], _ := forall_mem_append.mpr
    ⟨fun r hr => hp.mild.old (hcs r hr), forall_mem_singleton.mpr hp.old⟩
  have hconcat : cs.map some ++ [some x] = (cs ++ [x]).map some := by simp
  obtain ⟨u, h₀, L', h', hlist, hlatest, hr⟩ := hs₂.relist env hcs'
  refine ⟨x, _, L', _, h', ?_, congrArg (Function.update · _ _) hcache, hp, hr, rfl⟩
  unfold verifyWrite
  rw [getRoot_bind, getNode_bind, hs.branch, deref_bind]
  dsimp only
  rw [bind_of_ok hmake, bind_of_ok hnode, deref_bind, setName_bind,
    bind_of_ok (setVersion_apply _ x version), Heap.nameRev, setRev_setRev, setRev_revs,
    update_self, cacheSet_bind]
  refine (getLatest_bind hs₂.latest).trans ?_
  rw [hconcat, bind_of_ok hlist, bind_of_ok hlatest]
  rfl

end Verifying

/-! ### One entry and the others -/

section Loading

variable [DecidableEq δ] [DecidableEq η]
  {L' : Ref} {hash : Option η} {blob : δ × ℕ} {blobs : List (δ × ℕ)} {path : String}
  {e : Σ _ : String, δ × ℕ}

omit [DecidableEq δ] in
theorem dropKid_revs_of_ne (hne : r ≠ L') : (h.dropKid L' name rs hash).revs r = h.revs r := by
  unfold Heap.dropKid
  split_ifs
  · exact update_of_ne hne _ _
  · rfl

omit [DecidableEq δ] in
theorem Relisted.childrenAt_dropKid (hr : Relisted M name field h b L' rs h')
    (hs : Rack M name field h b L kids) :
    (h'.dropKid L' name rs hash).childrenAt name =
      (rs.eraseP fun r => (h'.revs r).hash = hash).map some := by
  unfold Heap.dropKid
  split_ifs with hex
  · refine childrenAt_eq (hr.rack hs).branch hr.latest ?_
    rw [Heap.setKids, setRev_revs, update_self]
    exact entries_lookup_insert _ _
  · rw [hr.childrenAt hs, eraseP_of_forall_not]
    intro r hr'
    simpa using fun heq => hex ⟨r, hr', heq⟩

/-- Only the child `x`, which is named after its key, is made or changed. -/
structure Touches (name path : String) (data : δ) (h : Heap τ δ η) (kids : List Ref) (x : Ref)
    (h' : Heap τ δ η) : Prop where
  named : (h'.revs x).name = path
  data : (h'.revs x).data = data ∨ x ∈ kids ∧ (h'.revs x).data = (h.revs x).data
  others : ∀ r ∈ kids, r ≠ x → h'.revs r = h.revs r
  listed : ∀ r, some r ∈ h'.childrenAt name → r ∈ kids ∨ r = x

theorem Shelf.verifyWrite_newer_touches {before later : List Ref}
    (hs : Shelf M name field h b L (before ++ r :: later)) (env : Env)
    (kv txid : String) (hdata : (h.revs r).data ≠ data)
    (hversion : (h.revs r).version < version) :
    ∃ x h', verifyWrite M env data name kv txid version ((before ++ r :: later).map some)
        (some (before.length, r)) h = .ok x h' ∧
      Touches name (h.revs r).name data h (before ++ r :: later) x h' := by
  have hk := hs.kids.kid r (by simp)
  obtain ⟨x, h₂, L', rs, h₃, hrun, hx, hrack, hr, hrs⟩ :=
    hs.verifyWrite_newer env kv txid (fun _ => hs.old) hk.hasLatest hdata hversion
  have hs₂ := hs.mild hx.mild hrack.latest
  -- the revisions of other branches than that of the root stay
  have hrev : ∀ {r'}, h₂.Old r' → (h₂.revs r').branch ≠ b →
      (h₃.dropKid L' name rs (h.revs r).hash).revs r' = h₂.revs r' := fun {r'} hr' hb => by
    rw [dropKid_revs_of_ne, hr.revs hr']
    rintro rfl
    exact hb (by rw [← hr.revs hr', hr.branch])
  have hx' := hrev hx.old (by rw [hx.branch]; exact hs.kids.apart r (by simp))
  refine ⟨x, _, hrun, ?_, ?_, fun r' hr' hne => ?_, fun r' hr' => ?_⟩
  · rw [hx', hx.name]
  · rw [hx']
    by_cases hdigest : M.digest.data (h.revs r).hasRoot data = (h.revs r).config.hash
    · obtain rfl := hx.same hdigest
      exact .inr ⟨by simp, hx.mild.data hk.old⟩
    · exact .inl (hx.isNew hdigest).2.1
  · rw [hrev (hs₂.old hr') (hs₂.kids.apart r' hr'), hx.revs (hs.old hr') hne]
  · rw [hr.childrenAt_dropKid hrack] at hr'
    have hmem : r' ∈ rs := mem_of_mem_eraseP (by simpa using hr')
    rw [hrs] at hmem
    split_ifs at hmem
    · exact .inl hmem
    · exact (mem_mergedRefs hmem).elim .inl mem_replaced_cases

theorem Shelf.verifyWrite_keep_touches (hs : Shelf M name field h b L kids) (env : Env)
    (kv txid : String) {idx : ℕ} (hr : r ∈ kids)
    (hkeep : ¬ ((h.revs r).data ≠ data ∧ (h.revs r).version < version)) :
    ∃ x h', verifyWrite M env data name kv txid version children (some (idx, r)) h = .ok x h' ∧
      Touches name (h.revs r).name data h kids x h' := by
  have hrev := reread_self h r env.now (max (h.revs r).version version)
  refine ⟨r, _, hs.verifyWrite_keep env hkeep, ?_, .inr ⟨hr, ?_⟩, fun r' _ hne => ?_,
    fun r' hr' => ?_⟩
  · rw [hrev]
  · rw [hrev]
    rfl
  · exact update_of_ne hne ..
  · rw [(hs.mild (mild_reread ..) hs.latest).childrenAt] at hr'
    exact .inl (by simpa using hr')

theorem Shelf.verifyWrite_missing_touches (hs : Shelf M name field h b L kids) (env : Env)
    (kv txid : String) (data : δ) (version : ℕ) :
    ∃ x h', verifyWrite M env data name kv txid version (kids.map some) none h = .ok x h' ∧
      Touches name (childName name kv) data h kids x h' := by
  obtain ⟨x, h₂, L', rs, h', hrun, -, hp, hr, hrs⟩ :=
    hs.verifyWrite_missing env kv txid data version fun _ => hs.old
  have hx := hr.revs hp.old
  refine ⟨x, h', hrun, by rw [hx, hp.name], .inl (by rw [hx, hp.same_data]), fun r hr' _ => ?_,
    fun r hr' => ?_⟩
  · rw [hr.revs (hp.mild.old (hs.old hr')), hp.revs (hs.old hr')]
  · rw [hr.childrenAt (hp.rack hs.toRack)] at hr'
    have hmem : r ∈ rs := by simpa using hr'
    rw [hrs] at hmem
    split_ifs at hmem
    · exact .inl hmem
    · exact (mem_mergedRefs hmem).elim .inl fun hmem => by simpa using hmem

/-- The reload of an entry returns the child that is named after its key. Only this child is made
or changed. -/
theorem Labelled.verifyPersistedEntry_touches (hs : Labelled M name field h b L kids) (env : Env)
    (kv txid : String) (data : δ) (version : ℕ) :
    ∃ x h', verifyPersistedEntry M env data name field.key kv txid version h = .ok x h' ∧
      Touches name (childName name kv) data h kids x h' := by
  unfold verifyPersistedEntry
  obtain ⟨before, r, later, rfl, hr, hkey⟩ | hpresent := h.middle_or_absent M field kids kv
  · have hname := hs.named r hr
    rw [hkey] at hname
    rw [bind_of_ok (hs.verifyLook_of_first (hs.kids.keyAt_ne_of_before hkey) hkey),
      ← hname]
    by_cases hkeep : (h.revs r).data ≠ data ∧ (h.revs r).version < version
    · exact hs.verifyWrite_newer_touches env kv txid hkeep.1 hkeep.2
    · exact hs.verifyWrite_keep_touches env kv txid hr hkeep
  · rw [bind_of_ok (hs.verifyLook_of_absent hpresent)]
    exact hs.verifyWrite_missing_touches env kv txid data version

/-! ### All entries under a path -/

omit [DecidableEq δ] [DecidableEq η] in
theorem stripSlashes_childName (hname : Segment name) (k : String) :
    stripSlashes (childName name k) = childName name k := by
  obtain ⟨c, cs, hlist⟩ := exists_cons_of_ne_nil hname.toList_ne_nil
  have hc : c ≠ '/' := fun hc => hname.whole (by simp [hlist, hc])
  have hpath : (childName name k).toList = c :: (cs ++ '/' :: k.toList) := by
    simp [childName, hlist]
  rw [stripSlashes, hpath, dropWhile_cons_of_neg (by simpa using hc), ← hpath, String.ofList_toList]

/-- The entries under a path are handled one after the other. -/
theorem Rack.loadFromPersistence_entry [DecidableEq τ] (hs : Rack M name field h b L kids)
    (hstore : h.store = some s) (hup : env.up = true) (r : Ref) (k txid : String) :
    loadFromPersistence M env r (childName name k) txid h = (do
      let loaded ← ((M.blobOrder.visit (Store.list (childName name k) s)).map (·.2)).foldlM
        (loadBlob M env field name txid) (k, [])
      return loaded.2 : Op τ δ η (List Ref)) h := by
  have hne : childName name k ≠ "" := fun heq => by
    simpa [childName] using congrArg String.toList heq
  have hslash : '/' ∈ (childName name k).toList := by simp [childName]
  have hpart : partition (childName name k) = (name, k) := partition_slash hs.segment.whole k
  have hfilter : ((M.messages.childrenFields (h.nodes h.root).type).lookup name).filter
      (·.isContainer) = some field := by
    rw [hs.lookup, filter_some, if_pos hs.container]
  unfold loadFromPersistence
  rw [getStore_bind, hstore]
  dsimp only
  rw [stripSlashes_childName hs.segment, if_neg hne, if_neg (by simp [hup]), hpart]
  dsimp only
  rw [if_pos hslash]
  rw [getRoot_bind, getNode_bind, bind_of_ok (pure_apply _ h), hfilter]

/-- Whether a value of the store can be read as a child of the container. -/
def Parses (M : Model τ δ η) (field : ChildType τ) (blob : δ × ℕ) : Prop :=
  (M.messages.unmarshal field.classType blob.1).isSome = true

instance (M : Model τ δ η) (field : ChildType τ) : DecidablePred (Parses M field) := fun _ =>
  inferInstanceAs (Decidable (_ = true))

/-- The key that an entry is taken for, given what is left of the path. -/
def loadKey (M : Model τ δ η) (field : ChildType τ) (rest : String) (data : δ) : String :=
  if rest = "" then M.messages.attributeString field.key data
  else field.keyFromStr (partition rest).1

theorem loadBlob_of_not_parses (hblob : ¬ Parses M field blob) (loaded : String × List Ref)
    (h : Heap τ δ η) : loadBlob M env field name txid loaded blob h = .ok loaded h := by
  unfold loadBlob
  rw [not_isSome_iff_eq_none.mp hblob]
  rfl

theorem loadBlob_of_parses (hkeyed : field.key ≠ "") (hstring : field.isString = true)
    (hblob : M.messages.unmarshal field.classType blob.1 = some data) (loaded : String × List Ref)
    (h : Heap τ δ η) :
    loadBlob M env field name txid loaded blob h = (do
      let entry ← verifyPersistedEntry M env data name field.key (loadKey M field loaded.1 data)
        txid blob.2
      return (if loaded.1 = "" then loaded.1 else (partition loaded.1).2, loaded.2 ++ [entry]) :
        Op τ δ η (String × List Ref)) h := by
  unfold loadBlob loadKey
  rw [hblob]
  dsimp only
  rw [if_neg hkeyed]
  by_cases hrest : loaded.1 = ""
  · rw [if_pos hrest, if_pos hrest, if_pos hrest]
  · rw [if_neg hrest, if_neg hrest, if_neg hrest, hstring]
    rfl

/-- Every entry that can be read gives a revision. -/
theorem length_foldlM_loadBlob (hkeyed : field.key ≠ "") (hstring : field.isString = true)
    {init loaded : String × List Ref}
    (hrun : blobs.foldlM (loadBlob M env field name txid) init h = .ok loaded h') :
    loaded.2.length = init.2.length + (blobs.filter (Parses M field)).length := by
  induction blobs generalizing init h with
  | nil =>
    cases hrun
    simp
  | cons blob blobs ih =>
    obtain ⟨next, h1, hblob, hrest⟩ := bind_ok_iff.mp hrun
    have hlength := ih hrest
    by_cases hparses : Parses M field blob
    · obtain ⟨data, hdata⟩ := isSome_iff_exists.mp hparses
      rw [loadBlob_of_parses hkeyed hstring hdata] at hblob
      obtain ⟨x, h2, -, hnext⟩ := bind_ok_iff.mp hblob
      cases hnext
      rw [filter_cons_of_pos (by simpa using hparses), hlength]
      simp
      omega
    · rw [loadBlob_of_not_parses hparses] at hblob
      cases hblob
      rw [filter_cons_of_neg (by simpa using hparses), hlength]

theorem foldlM_loadBlob_of_not_parses (hblobs : ∀ blob ∈ blobs, ¬ Parses M field blob)
    (loaded : String × List Ref) (h : Heap τ δ η) :
    blobs.foldlM (loadBlob M env field name txid) loaded h = .ok loaded h := by
  induction blobs with
  | nil => rfl
  | cons blob blobs ih =>
    rw [foldlM_cons, bind_of_ok (loadBlob_of_not_parses (hblobs blob (by simp)) loaded h)]
    exact ih fun blob' hblob' => hblobs blob' (mem_cons_of_mem _ hblob')

/-- When one entry can be read, it is the one that is compared with the tree. -/
theorem foldlM_loadBlob_of_one (hkeyed : field.key ≠ "") (hstring : field.isString = true)
    (before later : List (δ × ℕ)) {x : Ref} (hbefore : ∀ blob ∈ before, ¬ Parses M field blob)
    (hlater : ∀ blob ∈ later, ¬ Parses M field blob)
    (hblob : M.messages.unmarshal field.classType blob.1 = some data)
    (hrun : verifyPersistedEntry M env data name field.key (loadKey M field k data) txid blob.2 h =
      .ok x h') :
    ∃ rest, (before ++ blob :: later).foldlM (loadBlob M env field name txid) (k, []) h =
      .ok (rest, [x]) h' := by
  refine ⟨if k = "" then k else (partition k).2, ?_⟩
  rw [foldlM_append, bind_of_ok (foldlM_loadBlob_of_not_parses hbefore (k, []) h), foldlM_cons,
    bind_of_ok ((loadBlob_of_parses hkeyed hstring hblob (k, []) h).trans (bind_of_ok hrun))]
  exact foldlM_loadBlob_of_not_parses hlater _ h'

/-- A load of an entry gives at most the child with its key, which is made or updated from the
value that is stored under the path. -/
structure LoadsOnly (M : Model τ δ η) (name : String) (field : ChildType τ) (k : String)
    (s : Store δ) (h : Heap τ δ η) (kids loaded : List Ref) (h' : Heap τ δ η) : Prop where
  count : loaded.length ≤ ((s.lookup (childName name k)).bind fun blob =>
    M.messages.unmarshal field.classType blob.1).toList.length
  named : ∀ x ∈ loaded, (h'.revs x).name = childName name k
  data : ∀ x ∈ loaded, (∃ blob, s.lookup (childName name k) = some blob ∧
      M.messages.unmarshal field.classType blob.1 = some (h'.revs x).data) ∨
    x ∈ kids ∧ (h'.revs x).data = (h.revs x).data
  others : ∀ r ∈ kids, r ∉ loaded → h'.revs r = h.revs r
  listed : ∀ r, some r ∈ h'.childrenAt name → r ∈ kids ∨ r ∈ loaded

section

omit [DecidableEq δ] [DecidableEq η]

theorem childName_injective {k' : String} (heq : childName name k = childName name k') :
    k = k' := by
  have hlist := congrArg String.toList heq
  simp only [childName, String.toList_append, append_assoc, append_cancel_left_eq] at hlist
  exact String.toList_inj.mp hlist

theorem partition_fst_eq_iff : (partition k).1 = k ↔ '/' ∉ k.toList := by
  constructor
  · intro heq hmem
    have hlist : k.toList.takeWhile (· ≠ '/') = k.toList := by
      simpa [partition] using congrArg String.toList heq
    have hall := takeWhile_eq_self_iff.mp hlist '/' hmem
    simp at hall
  · intro hk
    rw [partition_whole hk]

theorem loadKey_eq_iff (hs : Shelf M name field h b L kids) (hstring : field.isString = true) :
    loadKey M field k data = k ↔ if k = "" then field.keyOf M data = "" else '/' ∉ k.toList := by
  unfold loadKey
  split_ifs with hk
  · rw [hk, M.messages.attributeString_eq hs.lookup hstring]
    rfl
  · rw [field.keyFromStr_eq hstring, partition_fst_eq_iff]

theorem mem_list_iff :
    e ∈ Store.list path s ↔ s.lookup e.1 = some e.2 ∧ path.toList <+: e.1.toList := by
  rw [Store.list, mem_filter, GoMap.mem_entries_iff]
  simp

def readable (M : Model τ δ η) (field : ChildType τ) (path : String) (s : Store δ) :
    List (Σ _ : String, δ × ℕ) :=
  (Store.list path s).filter fun e => Parses M field e.2

theorem mem_readable_iff :
    e ∈ readable M field path s ↔
      (s.lookup e.1 = some e.2 ∧ path.toList <+: e.1.toList) ∧ Parses M field e.2 := by
  rw [readable, mem_filter, mem_list_iff, decide_eq_true_eq]

theorem readable_nodup (s : Store δ) (path : String) : (readable M field path s).Nodup :=
  (s.nodupKeys.nodup.filter _).filter _

end

section Paths

variable [DecidableEq τ]

section

variable (hs : Rack M name field h b L kids) (hstring : field.isString = true)
  (hstore : h.store = some s) (hup : env.up = true) (r : Ref)
include hs hstring hstore hup

theorem length_load {loaded : List Ref}
    (hrun : loadFromPersistence M env r (childName name k) txid h = .ok loaded h') :
    loaded.length = (readable M field (childName name k) s).length := by
  rw [hs.loadFromPersistence_entry hstore hup] at hrun
  obtain ⟨loaded', h1, hfold, hret⟩ := bind_ok_iff.mp hrun
  cases hret
  rw [length_foldlM_loadBlob hs.keyed hstring hfold, List.filter_map, length_map,
    readable, ((M.blobOrder.perm _).filter _).length_eq]
  simp [comp_def]

/-- The reload of a node of which one entry can be read, from what the comparison gives. -/
theorem load_of_verified {x : Ref} (hone : readable M field (childName name k) s = [e])
    (hdata : M.messages.unmarshal field.classType e.2.1 = some data)
    (hverify : verifyPersistedEntry M env data name field.key (loadKey M field k data) txid e.2.2
      h = .ok x h') :
    loadFromPersistence M env r (childName name k) txid h = .ok [x] h' := by
  have hvisit : (M.blobOrder.visit (Store.list (childName name k) s)).filter
      (fun e => Parses M field e.2) = [e] :=
    perm_singleton.mp (hone ▸ (M.blobOrder.perm _).filter _)
  obtain ⟨before, later, hsplit, hbefore, -, hlater⟩ := filter_eq_cons_iff.mp hvisit
  obtain ⟨rest, hfold⟩ := foldlM_loadBlob_of_one hs.keyed hstring
    (before.map (·.2)) (later.map (·.2))
    (fun blob hblob => by
      obtain ⟨e', he', rfl⟩ := List.mem_map.mp hblob
      simpa using hbefore e' he')
    (fun blob hblob => by
      obtain ⟨e', he', rfl⟩ := List.mem_map.mp hblob
      simpa using filter_eq_nil_iff.mp hlater e' he') hdata hverify
  rw [hs.loadFromPersistence_entry hstore hup, hsplit, map_append, map_cons, bind_of_ok hfold]
  rfl

end

section

variable (hs : Labelled M name field h b L kids) (hstore : h.store = some s) (hup : env.up = true)
  (r : Ref)
include hs hstore hup

theorem load_of_none (hnone : readable M field (childName name k) s = []) :
    loadFromPersistence M env r (childName name k) txid h = .ok [] h := by
  rw [hs.loadFromPersistence_entry hstore hup,
    bind_of_ok (foldlM_loadBlob_of_not_parses (fun blob hblob => ?_) (k, []) h)]
  · rfl
  · obtain ⟨e, he, rfl⟩ := List.mem_map.mp hblob
    simpa using filter_eq_nil_iff.mp hnone e ((M.blobOrder.perm _).mem_iff.mp he)

theorem load_of_one (txid : String) (hone : readable M field (childName name k) s = [e])
    (hdata : M.messages.unmarshal field.classType e.2.1 = some data) :
    ∃ x h', loadFromPersistence M env r (childName name k) txid h = .ok [x] h' ∧
      Touches name (childName name (loadKey M field k data)) data h kids x h' := by
  obtain ⟨x, h', hverify, htouches⟩ := hs.verifyPersistedEntry_touches env
    (loadKey M field k data) txid data e.2.2
  exact ⟨x, h', load_of_verified hs.toRack hs.isString hstore hup r hone hdata hverify,
    htouches⟩

end

end Paths

/-- A load of the entry `k` is only about this entry exactly when every value that is stored under
a name that begins with its path, and can be read, is the one under the path itself, and `k` is
the key that it is taken for. -/
theorem load_reads_one_entry_iff [DecidableEq τ] (hs : Labelled M name field h b L kids)
    {env : Env} {s : Store δ} (hstore : h.store = some s) (hup : env.up = true) (r : Ref)
    (k txid : String) :
    (∃ loaded h', loadFromPersistence M env r (childName name k) txid h = .ok loaded h' ∧
        LoadsOnly M name field k s h kids loaded h') ↔
      ∀ path blob d, s.lookup path = some blob → (childName name k).toList <+: path.toList →
        M.messages.unmarshal field.classType blob.1 = some d →
        path = childName name k ∧
          if k = "" then field.keyOf M d = "" else '/' ∉ k.toList := by
  constructor
  · rintro ⟨loaded, h', hrun, hload⟩ path blob d hpath hprefix hd
    have he : (⟨path, blob⟩ : Σ _ : String, δ × ℕ) ∈ readable M field (childName name k) s :=
      mem_readable_iff.mpr ⟨⟨hpath, hprefix⟩, isSome_iff_exists.mpr ⟨d, hd⟩⟩
    -- there are at most as many entries as the path itself has
    have hcount := hload.count
    rw [length_load hs.toRack hs.isString hstore hup r hrun] at hcount
    have hpos := length_pos_of_mem he
    obtain ⟨blob', d', hown, hd'⟩ : ∃ blob' d', s.lookup (childName name k) = some blob' ∧
        M.messages.unmarshal field.classType blob'.1 = some d' := by
      cases hown : (s.lookup (childName name k)).bind fun blob =>
          M.messages.unmarshal field.classType blob.1 with
      | none =>
        rw [hown] at hcount
        exact absurd (hpos.trans_le hcount) (Nat.lt_irrefl 0)
      | some d' =>
        obtain ⟨blob', hblob', hd'⟩ := bind_eq_some_iff.mp hown
        exact ⟨blob', d', hblob', hd'⟩
    have hone : (readable M field (childName name k) s).length = 1 := by
      rw [hown, bind_some, hd'] at hcount
      exact Nat.le_antisymm hcount hpos
    obtain ⟨e, hsingle⟩ := length_eq_one_iff.mp hone
    have he' : (⟨childName name k, blob'⟩ : Σ _ : String, δ × ℕ) ∈
        readable M field (childName name k) s :=
      mem_readable_iff.mpr ⟨⟨hown, prefix_rfl⟩, isSome_iff_exists.mpr ⟨d', hd'⟩⟩
    rw [hsingle] at he he'
    obtain rfl := mem_singleton.mp he
    cases mem_singleton.mp he'
    refine ⟨rfl, (loadKey_eq_iff hs.toShelf hs.isString).mp ?_⟩
    -- the child that is returned is named after the key that the entry is taken for
    obtain ⟨x, h1, hrun', htouches⟩ := load_of_one hs hstore hup r txid hsingle hd
    cases hrun.symm.trans hrun'
    exact childName_injective (htouches.named.symm.trans (hload.named x (by simp)))
  · intro hall
    cases hread : readable M field (childName name k) s with
    | nil =>
      refine ⟨[], h, load_of_none hs hstore hup r hread, by simp, nofun, nofun, fun _ _ _ => rfl,
        fun r' hr' => ?_⟩
      rw [hs.childrenAt] at hr'
      exact .inl (by simpa using hr')
    | cons e rest =>
      have hmem : ∀ e' ∈ e :: rest, e'.1 = childName name k ∧ s.lookup e'.1 = some e'.2 := by
        intro e' he'
        rw [← hread, mem_readable_iff] at he'
        obtain ⟨d, hd⟩ := isSome_iff_exists.mp he'.2
        exact ⟨(hall e'.1 e'.2 d he'.1.1 he'.1.2 hd).1, he'.1.1⟩
      have hnodup : (e :: rest).Nodup := by
        rw [← hread]
        exact readable_nodup s _
      -- all of them are stored under the path
      obtain rfl : rest = [] := by
        refine eq_nil_iff_forall_not_mem.mpr fun e' he' => ?_
        obtain ⟨hname, hlookup⟩ := hmem e (by simp)
        obtain ⟨hname', hlookup'⟩ := hmem e' (mem_cons_of_mem _ he')
        rw [hname] at hlookup
        rw [hname', hlookup] at hlookup'
        have heq : e = e' :=
          Sigma.ext (hname.trans hname'.symm) (heq_of_eq (by simpa using hlookup'))
        exact (nodup_cons.mp hnodup).1 (heq ▸ he')
      have he : e ∈ readable M field (childName name k) s := by simp [hread]
      rw [mem_readable_iff] at he
      obtain ⟨d, hd⟩ := isSome_iff_exists.mp he.2
      obtain ⟨hpath, hkey⟩ := hall e.1 e.2 d he.1.1 he.1.2 hd
      have hown : s.lookup (childName name k) = some e.2 := hpath ▸ he.1.1
      obtain ⟨x, h', hrun, htouches⟩ := load_of_one hs hstore hup r txid hread hd
      rw [(loadKey_eq_iff hs.toShelf hs.isString).mpr hkey] at htouches
      refine ⟨[x], h', hrun, ?_, ?_, ?_, fun r' hr' hne => ?_, fun r' hr' => ?_⟩
      · simp [hown, hd]
      · simpa using htouches.named
      · intro x' hx'
        obtain rfl := mem_singleton.mp hx'
        refine htouches.data.imp (fun heq => ⟨e.2, hown, ?_⟩) id
        rw [heq, hd]
      · exact htouches.others r' hr' (by simpa using hne)
      · exact (htouches.listed r' hr').imp id mem_singleton.mpr

end Loading

/-! ### A root with devices -/

section Devices

/-- The root and its devices, with the id of a device and its label. -/
inductive DeviceMessage where
  | voltha
  | device (id : String) (label : ℕ)
  deriving DecidableEq

inductive DeviceType where
  | voltha
  | device
  deriving DecidableEq

def DeviceMessage.type : DeviceMessage → DeviceType
  | .voltha => .voltha
  | .device _ _ => .device

def DeviceMessage.id : DeviceMessage → String
  | .voltha => ""
  | .device id _ => id

def deviceField : ChildType DeviceType where
  isContainer := true
  key := "id"
  keyFromStr := id
  isString := true
  classType := .device
  keyFromStr_eq _ _ := rfl

def deviceMessages : Messages DeviceType DeviceMessage where
  typeOf := DeviceMessage.type
  childrenFields
    | .voltha => AList.singleton "devices" deviceField
    | .device => ∅
  attributeText _ := DeviceMessage.id
  attributeString _ := DeviceMessage.id
  attributeString_eq _ _ _ := rfl
  attributeString_ne {t name field} hfield hstring := by
    cases t with
    | voltha =>
      cases mem_singleton.mp (GoMap.mem_entries_iff.mpr hfield)
      exact nomatch hstring
    | device => exact nomatch hfield
  values _ _ := []
  withValues _ _ d := d
  height _ := 0
  height_lt h := nomatch h
  unmarshal t d := if d.type = t then some d else none
  unmarshal_typeOf d := if_pos rfl

/-- Hashes that keep what they are made of. -/
inductive DeviceHash where
  | data (hasRoot : Bool) (message : DeviceMessage)
  | nil
  | cons (first rest : DeviceHash)
  | content (config : DeviceHash) (name : String) (children : DeviceHash)
  deriving DecidableEq

def deviceModel : Model DeviceType DeviceMessage DeviceHash where
  messages := deviceMessages
  digest := ⟨.data, fun config name children => .content config name (children.foldr .cons .nil)⟩
  fieldOrder := .listed
  blobOrder := .listed
  stack := 1

def volthaHeap (s : Store DeviceMessage) : Heap DeviceType DeviceMessage DeviceHash where
  revs _ :=
    { config := ⟨.voltha, .data false .voltha⟩, children := ∅
      hash := some (.content (.data false .voltha) "" .nil), branch := ⟨"", 1⟩, name := ""
      lastUpdate := none, version := 1, hasRoot := false }
  branches _ := ⟨⟨"", 0⟩, "", some ⟨"", 2⟩⟩
  nodes _ := ⟨.voltha, Function.update (fun _ => none) NONE (some ⟨"", 1⟩)⟩
  next _ := 3
  cache _ := none
  store := some s
  dirtyNodes _ := []
  root := ⟨"", 0⟩

theorem labelled_volthaHeap (s : Store DeviceMessage) :
    Labelled deviceModel "devices" deviceField (volthaHeap s) ⟨"", 1⟩ ⟨"", 2⟩ [] where
  toShelf :=
    { segment := ⟨by decide, by decide⟩
      lookup := rfl
      container := rfl
      keyed := by decide
      old_root := Nat.zero_lt_succ 2
      branch := rfl
      old_branch := Nat.lt_of_sub_eq_succ rfl
      txid := rfl
      latest := rfl
      old_latest := Nat.lt_of_sub_eq_succ rfl
      latest_branch := rfl
      children := rfl
      old_children := fun _ _ hr => nomatch hr
      kids := ⟨nofun, nofun, .nil, .nil⟩ }
  isString := rfl
  named := nofun
  root_name := rfl

def storeOf (devices : List (String × ℕ)) : Store DeviceMessage :=
  devices.foldl (fun s d => Store.put (childName "devices" d.1) (.device d.1 d.2) s) ∅

/-- The device `1` is loaded, and not the device `2`. -/
theorem load_reads_device_one :
    ∃ loaded h', loadFromPersistence deviceModel ⟨"", 0, true⟩ ⟨"", 2⟩ (childName "devices" "1") ""
        (volthaHeap (storeOf [("1", 0), ("2", 0)])) = .ok loaded h' ∧
      LoadsOnly deviceModel "devices" deviceField "1" (storeOf [("1", 0), ("2", 0)])
        (volthaHeap (storeOf [("1", 0), ("2", 0)])) [] loaded h' := by
  refine (load_reads_one_entry_iff (labelled_volthaHeap _) rfl rfl _ "1" "").mpr ?_
  intro path blob d hpath hprefix _
  have hmem : (⟨path, blob⟩ : Σ _ : String, DeviceMessage × ℕ) ∈
      [⟨"devices/2", .device "2" 0, 1⟩, ⟨"devices/1", .device "1" 0, 1⟩] :=
    GoMap.mem_entries_iff.mpr hpath
  rcases mem_cons.mp hmem with heq | hmem
  · cases heq
    exact absurd hprefix (by decide)
  · cases mem_singleton.mp hmem
    rw [if_neg (by decide)]
    exact ⟨rfl, by decide⟩

def loadedEntries (result : EStateM.Result Err (Heap DeviceType DeviceMessage DeviceHash)
    (List Ref)) : List (String × DeviceMessage) :=
  match result with
  | .ok loaded h => loaded.map fun x => ((h.revs x).name, (h.revs x).data)
  | .error _ _ => []

/-- When the device `1` is loaded, the device `12` is taken for it, and both are returned. -/
theorem load_reads_other_device :
    Labelled deviceModel "devices" deviceField (volthaHeap (storeOf [("1", 0), ("12", 0)]))
        ⟨"", 1⟩ ⟨"", 2⟩ [] ∧
      loadedEntries (loadFromPersistence deviceModel ⟨"", 0, true⟩ ⟨"", 2⟩
        (childName "devices" "1") "" (volthaHeap (storeOf [("1", 0), ("12", 0)]))) =
          [("devices/1", .device "12" 0), ("devices/1", .device "1" 0)] ∧
      ¬ ∃ loaded h', loadFromPersistence deviceModel ⟨"", 0, true⟩ ⟨"", 2⟩
            (childName "devices" "1") "" (volthaHeap (storeOf [("1", 0), ("12", 0)])) =
          .ok loaded h' ∧
        LoadsOnly deviceModel "devices" deviceField "1" (storeOf [("1", 0), ("12", 0)])
          (volthaHeap (storeOf [("1", 0), ("12", 0)])) [] loaded h' := by
  have hentries : loadedEntries (loadFromPersistence deviceModel ⟨"", 0, true⟩ ⟨"", 2⟩
      (childName "devices" "1") "" (volthaHeap (storeOf [("1", 0), ("12", 0)]))) =
        [("devices/1", .device "12" 0), ("devices/1", .device "1" 0)] := by
    decide +kernel
  refine ⟨labelled_volthaHeap _, hentries, ?_⟩
  rintro ⟨loaded, h', hrun, hload⟩
  rw [hrun, loadedEntries] at hentries
  have hlength := congrArg List.length hentries
  rw [length_map] at hlength
  have hcount : loaded.length ≤ 1 := hload.count
  rw [hlength] at hcount
  exact absurd hcount (by decide)

end Devices

end VolthaCore.Nodes
