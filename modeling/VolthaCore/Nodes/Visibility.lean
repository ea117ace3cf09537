import VolthaCore.Nodes.OtherKeys

/-! What an update of an entry returns, and what a read of its path gives afterwards. The result
of an update is the revision of the root when the entry is not there or its hash stays, so that it
does not tell whether the data were stored. -/

namespace VolthaCore.Nodes

open Outcome List Function Heap

variable {τ δ η : Type} {M : Model τ δ η} {env : Env} {name k : String} {field : ChildType τ}
  {h : Heap τ δ η} {b L x r l : Ref} {kids before later rs : List Ref} {s : Store δ} {data : δ}
  {h₁ : Heap τ δ η}

/-! ### Reads of an entry -/

section Reads

variable {depth : ℤ}

def Heap.saveRev (h : Heap τ δ η) (s : Store δ) (path : String) (x : Ref) (data : δ) :
    Heap τ δ η :=
  (h.setCache path (some x)).setStore (some (s.put path data))

theorem mild_saveRev {key : δ → String} (h : Heap τ δ η) (s : Store δ) (path : String) (x : Ref)
    (data : δ) : Mild key h (h.saveRev s path x data) :=
  (mild_setCache ..).trans (mild_setStore ..)

theorem finalizeResult_of_stored (hstore : h.store = some s) (hup : env.up = true)
    (htxid : (h.branches (h.revs x).branch).txid = "") :
    finalizeResult M env (some x) h =
      .ok (some x) (h.saveRev s (h.revs x).name x (h.revs x).data) := by
  have hfinal : finalize M env x h =
      .ok () (h.saveRev s (h.revs x).name x (h.revs x).data) := by
    unfold finalize
    rw [getStore_bind, hstore, if_pos Option.isSome_some]
    exact store_apply hup hstore htxid
  unfold finalizeResult
  dsimp only
  rw [bind_of_ok hfinal]
  rfl

variable [DecidableEq τ] [DecidableEq δ] [DecidableEq η]
  (hs : Rack M name field h b L kids) (htxid : env.txid = "")
include hs htxid

theorem Rack.rootGet_entry :
    rootGet M env (entryPath name k) depth false h = (do
      let result ← getFromMemory M env h.root L (childName name k) depth
      finishGet M env L (childName name k) "" result : Op τ δ η (Found δ)) h := by
  rw [rootGet, getRoot_bind, htxid, nodeGet, stripSlashes_entryPath hs.segment, getNode_bind,
    if_pos rfl, Option.none_or, hs.branch, deref_bind, getLatest_bind hs.latest]
  rfl

theorem Rack.rootGet_of_fresh (hcache : h.cache (childName name k) = some x)
    (hfresh : isFresh env (h.revs x) = true) :
    rootGet M env (entryPath name k) depth false h = .ok (.one (h.revs x).data) h := by
  have hmemory : getFromMemory M env h.root L (childName name k) depth h =
      .ok (.one (h.revs x).data) h := by
    unfold getFromMemory
    rw [cacheGet_bind, hcache]
    dsimp only
    rw [getRev_bind, if_pos hfresh]
    rfl
  rw [hs.rootGet_entry htxid, bind_of_ok hmemory]
  rfl

theorem Rack.rootGet_of_expired (hcache : h.cache (childName name k) = some x)
    (hfresh : isFresh env (h.revs x) = false) (hstore : h.store = some s) :
    rootGet M env (entryPath name k) depth false h = (do
      let loaded ← loadFromPersistence M env L (childName name k) ""
      return foundData (← getRevs loaded) .nothing : Op τ δ η (Found δ)) h := by
  have hmemory : getFromMemory M env h.root L (childName name k) depth h = .ok .nothing h := by
    unfold getFromMemory
    rw [cacheGet_bind, hcache]
    dsimp only
    rw [getRev_bind, if_neg (by simp [hfresh])]
    rfl
  have hget : getStore h = .ok (some s) h := by
    rw [← hstore]
    rfl
  rw [hs.rootGet_entry htxid, bind_of_ok hmemory]
  exact bind_of_ok hget

end Reads

/-! ### The revision of an update -/

section Updated

variable [DecidableEq δ] [DecidableEq η]

/-- Whether the root gets another hash than the recorded one when the revision of an update takes
the place of a child. -/
def Heap.Relists (h : Heap τ δ η) (M : Model τ δ η) (name : String) (r l : Ref) (data : δ) : Prop :=
  h.recordedHash ≠ h.hashListing M name ((h.refsAt name).filterMap fun r' =>
    if r' = r then h.nextHash M l data else (h.revs r').hash)

instance (h : Heap τ δ η) (M : Model τ δ η) (name : String) (r l : Ref) (data : δ) :
    Decidable (h.Relists M name r l data) :=
  inferInstanceAs (Decidable (_ ≠ _))

/-- The revision of an update has been put in the place of a child and saved. When the root does
not get another hash, the children stay. -/
structure Placed (M : Model τ δ η) (env : Env) (name : String) (field : ChildType τ) (k : String)
    (data : δ) (s : Store δ) (h : Heap τ δ η) (b r l : Ref) (kids : List Ref) (x L' : Ref)
    (rs : List Ref) (h' : Heap τ δ η) : Prop where
  rack : Rack M name field h' b L' rs
  store : h'.store = some (s.put (childName name k) data)
  cache : h'.cache (childName name k) = some x
  same_data : (h'.revs x).data = data
  lastUpdate : (h'.revs x).lastUpdate =
    if h.Stamped M l data then some env.now else (h.revs l).lastUpdate
  listed : (h.revs r).data = data ∨ h.Relists M name r l data →
    ∀ r' ∈ rs, h'.keyAt M field r' = k → (h'.revs r').data = data
  kept : ¬ ((h.revs r).data = data ∨ h.Relists M name r l data) →
    rs = kids ∧ (∀ r' ∈ kids, h'.revs r' = h.revs r') ∧ HasLatest h' r

/-- The revision of an update has got the name of the child that it replaces, and the root and
the children have the revisions that they had before. -/
structure Named (M : Model τ δ η) (env : Env) (data : δ) (h : Heap τ δ η) (L : Ref)
    (kids : List Ref) (r l x : Ref) (h2 : Heap τ δ η) : Prop where
  mild : Mild (fun _ => "") h h2
  root : h2.revs L = h.revs L
  revs : ∀ r' ∈ kids, h2.revs r' = h.revs r'
  hashes : ∀ {r'}, h.Old r' → (h2.revs r').hash = (h.revs r').hash
  store : h2.store = h.store
  old : h2.Old x
  branch : (h2.revs x).branch = (h.revs r).branch
  name : (h2.revs x).name = (h.revs r).name
  same_data : (h2.revs x).data = data
  hash : (h2.revs x).hash = h.nextHash M l data
  lastUpdate : (h2.revs x).lastUpdate =
    if h.Stamped M l data then some env.now else (h.revs l).lastUpdate
  latest : HasLatest h2 r

section Naming

variable {h2 h3 : Heap τ δ η} {L' : Ref} (hs : Labelled M name field h b L (before ++ r :: later))
include hs

theorem Updated.named (hu : Updated M env (fun _ => "") data h r l x h₁)
    (hhash : h.nextHash M l data ≠ (h.revs r).hash) :
    Named M env data h L (before ++ r :: later) r l x (h₁.nameRev x (h.revs r).name) := by
  have hr := hs.kids.kid r (by simp)
  have hold : ∀ r' ∈ before ++ r :: later, h.Old r' := fun _ => hs.old
  -- the revision is not one of the children, nor that of the root
  have hx : ∀ r' ∈ before ++ r :: later, r' ≠ x := by
    rintro x hmem rfl
    have hsame := hu.revs (hold x hmem)
    have heq : x = r := hs.kids.eq_of_branch hmem (by simp) (by rw [← hsame, hu.branch])
    exact hhash (by rw [← hu.hash, hsame, heq])
  have hxL : L ≠ x := fun heq => hs.kids.apart r (by simp) (by
    rw [← hu.branch, ← heq, hu.revs hs.old_latest, hs.latest_branch])
  have hrevs : ∀ {r'}, h.Old r' → r' ≠ x →
      (h₁.nameRev x (h.revs r).name).revs r' = h.revs r' := fun hr' hne =>
    (update_of_ne hne ..).trans (hu.revs hr')
  have hself : (h₁.nameRev x (h.revs r).name).revs x = { h₁.revs x with name := (h.revs r).name } :=
    update_self ..
  have hmild : Mild (fun _ => "") h₁ (h₁.nameRev x (h.revs r).name) := mild_nameRev ..
  refine ⟨hu.mild.trans hmild, hrevs hs.old_latest hxL,
    fun r' hr' => hrevs (hold r' hr') (hx r' hr'), fun hr' => ?_, hu.store, hu.old, ?_, ?_, ?_, ?_,
    ?_, hu.latest.mild hmild (hu.mild.old hr.old) rfl⟩
  · rw [← hu.revs hr']
    exact revs_setRev Revision.hash (by rfl) _
  all_goals rw [hself]
  · exact hu.branch
  · exact hu.same_data
  · exact hu.hash
  · exact hu.lastUpdate

variable (hn : Named M env data h L (before ++ r :: later) r l x h2)
include hn

/-- Only the revision has the key of the child in the merged list, or the child with its data. -/
theorem Named.data_of_merged {r' : Ref}
    (hr' : r' ∈ mergedRefs h2 (before ++ r :: later) (before ++ x :: later))
    (hkey : h2.keyAt M field r' = h.keyAt M field r) : (h2.revs r').data = data := by
  rw [mergedRefs_of_cover fun old hold => by
    obtain hmem | rfl := mem_replaced_cases (r := x) hold
    · exact ⟨old, hmem, rfl⟩
    · exact ⟨x, by simp, by rw [hn.name, hn.revs old hold]⟩] at hr'
  obtain ⟨c, hc, rfl⟩ := mem_map.mp hr'
  rw [data_keptRef]
  rw [keyAt, data_keptRef] at hkey
  obtain rfl | hmem := mem_middle_cases hc
  · exact hn.same_data
  · have hc : c ∈ before ++ r :: later := mem_middle_of_mem r hmem
    rw [hn.revs c hc] at hkey
    exact absurd (hs.kids.eq_of_keyAt hc (by simp) hkey)
      (ne_of_mem_middle hs.kids.nodup hmem)

/-- Whether the hash of the root changes can be told from the memory before. -/
theorem Named.relists_iff (hdata : (h.revs r).data ≠ data) : h.Relists M name r l data ↔
    (nextRoot M name h2 b L (mergedRefs h2 (before ++ r :: later) (before ++ x :: later))).hash ≠
      (h2.revs L).hash := by
  obtain ⟨before', later', hmerged, hmerged'⟩ := hs.mergedRefs_replace (by simp) hn.revs hn.revs
    hn.name (by rwa [hn.same_data])
  rw [hs.kids.mergedRefs_self] at hmerged
  have hhashes : (before' ++ x :: later').filterMap (fun r' => (h2.revs r').hash) =
      (before' ++ r :: later').filterMap fun r' =>
        if r' = r then h.nextHash M l data else (h.revs r').hash :=
    filterMap_hash_replace (fun r' hr' => ⟨ne_of_mem_middle (hmerged ▸ hs.kids.nodup) hr',
      by rw [hn.revs r' (hmerged ▸ mem_middle_of_mem r hr')]⟩) hn.hash
  rw [hmerged', hs.nextRoot_hash_ne_iff hn.root hn.hashes hhashes, Heap.Relists, hs.refsAt, hmerged]

/-- The revision is saved under the name of the child. -/
theorem Named.finalizeResult_eq (hr' : Relisted M name field h2 b L' rs h3)
    (hstore : h.store = some s) (hup : env.up = true) : finalizeResult M env (some x) h3 =
      .ok (some x) (h3.saveRev s (h.revs r).name x data) := by
  have hr := hs.kids.kid r (by simp)
  have hx := hr'.revs hn.old
  have htxid : (h3.branches (h3.revs x).branch).txid = "" := by
    rw [hx, hn.branch, hr'.mild.txid (hn.mild.old hr.old_branch), hn.mild.txid hr.old_branch]
    exact hr.txid
  rw [finalizeResult_of_stored (hr'.store.trans (hn.store.trans hstore)) hup htxid, hx, hn.name,
    hn.same_data]

theorem Named.placed (hkey : h.keyAt M field r = k)
    (hrack : Rack M name field h2 b L (before ++ r :: later))
    (hr' : Relisted M name field h2 b L' rs h3) (hrs : ∀ r' ∈ rs, h2.Old r')
    (hlisted : (h.revs r).data = data ∨ h.Relists M name r l data →
      ∀ r' ∈ rs, h2.keyAt M field r' = k → (h2.revs r').data = data)
    (hkept : ¬ ((h.revs r).data = data ∨ h.Relists M name r l data) → rs = before ++ r :: later) :
    Placed M env name field k data s h b r l (before ++ r :: later) x L' rs
      (h3.saveRev s (h.revs r).name x data) := by
  have hr := hs.kids.kid r (by simp)
  have hold : ∀ r' ∈ before ++ r :: later, h.Old r' := fun _ => hs.old
  have hsaved : Mild (fun _ => "") h3 (h3.saveRev s (h.revs r).name x data) := mild_saveRev ..
  rw [show (h.revs r).name = childName name k by rw [hs.named r (by simp), hkey]] at hsaved ⊢
  refine ⟨(hr'.rack hrack).mild hsaved hr'.latest, rfl, update_self .., ?_, ?_,
    fun hdata r' hmem hkey' => ?_, fun hdata => ⟨hkept hdata, fun r' hmem => ?_, ?_⟩⟩
  · rw [← hn.same_data, ← hr'.revs hn.old]
    rfl
  · rw [← hn.lastUpdate, ← hr'.revs hn.old]
    rfl
  · have hsame : (h3.saveRev s (childName name k) x data).revs r' = h2.revs r' :=
      hr'.revs (hrs r' hmem)
    rw [keyAt, hsame] at hkey'
    rw [hsame]
    exact hlisted hdata r' hmem hkey'
  · exact (hr'.revs (hn.mild.old (hold r' hmem))).trans (hn.revs r' hmem)
  · refine hn.latest.mild (hr'.mild.trans (mild_saveRev ..)) (hn.mild.old hr.old) ?_
    rw [hn.revs r (by simp)]
    exact hr'.branches _ (hs.kids.apart r (by simp))

end Naming

theorem Updated.placed {s : Store δ} (hu : Updated M env (fun _ => "") data h r l x h₁)
    (hs : Labelled M name field h b L (before ++ r :: later)) (hkey : h.keyAt M field r = k)
    (hhash : h.nextHash M l data ≠ (h.revs r).hash) (hstore : h.store = some s)
    (hup : env.up = true) :
    ∃ L' rs h', endUpdate M env b L name k before r later x h₁ = .ok (some x) h' ∧
      Placed M env name field k data s h b r l (before ++ r :: later) x L' rs h' := by
  have hr := hs.kids.kid r (by simp)
  have hn := hu.named hs hhash
  have hrack := hu.rack hs.toShelf (by simp)
  obtain ⟨L', h3, hend, hr'⟩ := hrack.endUpdate_of_new env k hu.old
    (by rw [hu.hash, hu.revs hr.old]; exact hhash)
  rw [show childName name k = (h.revs r).name by rw [hs.named r (by simp), hkey]] at hr'
  set h2 := h₁.nameRev x (h.revs r).name
  have hrack2 := hrack.mild (mild_nameRev .. : Mild (fun _ => "") h₁ h2) hrack.latest
  have hold : ∀ r' ∈ before ++ r :: later, h2.Old r' := fun _ => hrack2.old
  have hrun := hend.trans (hn.finalizeResult_eq hs hr' hstore hup)
  by_cases hsame : (nextRoot M name h2 b L (mergedRefs h2 (before ++ r :: later)
      (before ++ x :: later))).hash = (h2.revs L).hash
  · rw [if_pos hsame] at hr'
    refine ⟨L', _, _, hrun, hn.placed hs hkey hrack2 hr' hold (fun hdata r' hmem hkey' => ?_)
      fun _ => rfl⟩
    rw [keyAt, hn.revs r' hmem] at hkey'
    have heq := hs.kids.eq_of_keyAt hmem (by simp) (hkey'.trans hkey.symm)
    rw [hn.revs r' hmem, heq]
    by_contra hdiffers
    exact (hn.relists_iff hs hdiffers).mp (hdata.resolve_left hdiffers) hsame
  · rw [if_neg hsame] at hr'
    refine ⟨L', _, _, hrun, hn.placed hs hkey hrack2 hr' (fun r' hmem => hrack2.old_merged
      (forall_mem_replaced hn.old hold) r' (mem_of_mem_eraseP hmem)) (fun _ r' hmem hkey' =>
        hn.data_of_merged hs (mem_of_mem_eraseP hmem) (hkey'.trans hkey.symm)) fun hdata => ?_⟩
    rw [not_or] at hdata
    exact absurd ((hn.relists_iff hs hdata.1).mpr hsame) hdata.2

end Updated

/-! ### Reloads after an update -/

section Reloading

variable [DecidableEq δ] [DecidableEq η]

omit [DecidableEq δ] in
theorem dropKid_data (h : Heap τ δ η) (L : Ref) (name : String) (rs : List Ref) (hash : Option η)
    (r : Ref) : ((h.dropKid L name rs hash).revs r).data = (h.revs r).data := by
  unfold dropKid
  split_ifs
  · exact congrArg DataRevision.data (setKids_config ..)
  · rfl

/-- A reload of data that the child with the key has, or of a key that no child has, returns
them. -/
theorem Rack.verifyPersistedEntry_of_listed (hs : Rack M name field h b L rs) (env : Env)
    (txid : String) (version : ℕ)
    (hdata : ∀ r ∈ rs, h.keyAt M field r = k → (h.revs r).data = data) :
    ∃ x h', verifyPersistedEntry M env data name field.key k txid version h = .ok x h' ∧
      (h'.revs x).data = data := by
  unfold verifyPersistedEntry
  by_cases hpresent : ∃ r ∈ rs, h.keyAt M field r = k
  · obtain ⟨r, hfind⟩ : ∃ r, (rs.find? fun r => h.keyAt M field r = k) = some r :=
      Option.isSome_iff_exists.mp (find?_isSome.mpr (by simpa using hpresent))
    obtain ⟨hkey, before, later, rfl, hbefore⟩ := find?_eq_some_iff_append.mp hfind
    rw [decide_eq_true_eq] at hkey
    have hsame := hdata r (by simp) hkey
    refine ⟨r, _, (bind_of_ok (hs.verifyLook_of_first (fun r' hr' => ?_) hkey)).trans
      (hs.verifyWrite_keep env fun hnew => hnew.1 hsame), ?_⟩
    · simpa using hbefore r' hr'
    · rw [← hsame, reread_self]
      rfl
  · push Not at hpresent
    obtain ⟨x, h2, L', rs', h', hrun, -, hp, hr, -⟩ :=
      hs.verifyWrite_missing env k txid data version fun _ => hs.old
    refine ⟨x, h', (bind_of_ok (hs.verifyLook_of_absent hpresent)).trans hrun, ?_⟩
    rw [hr.revs hp.old, hp.same_data]

/-- A reload of other data than those of the child returns them when they are newer and have
another hash. -/
theorem Rack.verifyPersistedEntry_of_other {before later : List Ref}
    (hs : Rack M name field h b L (before ++ r :: later)) (env : Env) (txid : String)
    (version : ℕ) (hbefore : ∀ r' ∈ before, h.keyAt M field r' ≠ k)
    (hkey : h.keyAt M field r = k) (hlatest : HasLatest h r) (hdata : (h.revs r).data ≠ data) :
    ∃ x h', verifyPersistedEntry M env data name field.key k txid version h = .ok x h' ∧
      ((h'.revs x).data = data ↔ (h.revs r).version < version ∧
        M.digest.data (h.revs r).hasRoot data ≠ (h.revs r).config.hash) := by
  unfold verifyPersistedEntry
  by_cases hversion : (h.revs r).version < version
  · obtain ⟨x, h2, L', rs', h3, hrun, hx, -, hr, -⟩ :=
      hs.verifyWrite_newer env k txid (fun _ => hs.old) hlatest hdata hversion
    refine ⟨x, _, (bind_of_ok (hs.verifyLook_of_first hbefore hkey)).trans hrun, ?_⟩
    rw [dropKid_data, hr.revs hx.old, and_iff_right hversion]
    constructor
    · intro hsame hdigest
      rw [hx.same hdigest, hx.mild.data (hs.old (by simp))] at hsame
      exact hdata hsame
    · exact fun hdigest => (hx.isNew hdigest).2.1
  · refine ⟨r, _, (bind_of_ok (hs.verifyLook_of_first hbefore hkey)).trans
      (hs.verifyWrite_keep env fun hnew => hversion hnew.2), ?_⟩
    rw [reread_self]
    exact iff_of_false hdata fun hnew => hversion hnew.1

/-! ### Entries under a path after a write -/

def Store.nextVersion (s : Store δ) (path : String) : ℕ := ((s.lookup path).map Prod.snd).getD 0 + 1

omit [DecidableEq δ] [DecidableEq η] in
theorem mem_readable_put {s : Store δ} {path : String} {e : Σ _ : String, δ × ℕ}
    (htype : M.messages.typeOf data = field.classType) :
    e ∈ readable M field path (s.put path data) ↔
      e = ⟨path, data, s.nextVersion path⟩ ∨ e.1 ≠ path ∧ e ∈ readable M field path s := by
  obtain ⟨name', blob⟩ := e
  rw [mem_readable_iff, mem_readable_iff]
  by_cases heq : name' = path
  · subst heq
    have hlookup : (s.put name' data).lookup name' = some (data, s.nextVersion name') :=
      AList.lookup_insert _
    have hparses : Parses M field (data, s.nextVersion name') := by
      rw [Parses, ← htype, M.messages.unmarshal_typeOf]
      rfl
    simp only [hlookup, ne_eq, not_true_eq_false, false_and, or_false, Sigma.mk.injEq, true_and,
      heq_eq_eq, Option.some.injEq]
    constructor
    · rintro ⟨⟨rfl, -⟩, -⟩
      rfl
    · rintro rfl
      exact ⟨⟨rfl, prefix_rfl⟩, hparses⟩
  · have hlookup : (s.put path data).lookup name' = s.lookup name' := AList.lookup_insert_ne heq
    have hne : (⟨name', blob⟩ : Σ _ : String, δ × ℕ) ≠ ⟨path, data, s.nextVersion path⟩ :=
      fun h => heq (congrArg Sigma.fst h)
    simp [hlookup, heq, hne]

end Reloading

/-! ### Updates that are seen -/

section Seen

variable [DecidableEq δ] [DecidableEq η] {h' : Heap τ δ η} {L' : Ref} {time : ℕ}

/-- Whether the cached revision of an update is fresh when it is read. -/
def Heap.FreshAt (h : Heap τ δ η) (M : Model τ δ η) (env : Env) (time : ℕ) (l : Ref) (data : δ) :
    Prop :=
  if h.Stamped M l data then time < env.now + dataRefreshPeriod
  else isFresh ⟨"", time, true⟩ (h.revs l) = true

/-- Whether a reload after an update gives the data: no other name that begins with the path can
be read, and the child that is listed has the data, has been replaced or is older. -/
def Heap.Reloads (h : Heap τ δ η) (M : Model τ δ η) (name : String) (field : ChildType τ)
    (k : String) (r l : Ref) (data : δ) (s : Store δ) : Prop :=
  (∀ e ∈ readable M field (childName name k) s, e.1 = childName name k) ∧
    (((h.revs r).data = data ∨ h.Relists M name r l data) ∨
      (h.revs r).version < s.nextVersion (childName name k) ∧
        M.digest.data (h.revs r).hasRoot data ≠ (h.revs r).config.hash)

instance (h : Heap τ δ η) (M : Model τ δ η) (env : Env) (time : ℕ) (l : Ref) (data : δ) :
    Decidable (h.FreshAt M env time l data) :=
  inferInstanceAs (Decidable (if h.Stamped M l data then time < env.now + dataRefreshPeriod
    else isFresh ⟨"", time, true⟩ (h.revs l) = true))

instance (h : Heap τ δ η) (M : Model τ δ η) (name : String) (field : ChildType τ) (k : String)
    (r l : Ref) (data : δ) (s : Store δ) : Decidable (h.Reloads M name field k r l data s) :=
  inferInstanceAs (Decidable (_ ∧ _))

theorem Placed.isFresh_iff (hp : Placed M env name field k data s h b r l kids x L' rs h') :
    isFresh ⟨"", time, true⟩ (h'.revs x) = true ↔ h.FreshAt M env time l data := by
  have hlast := hp.lastUpdate
  unfold Heap.FreshAt
  split_ifs at hlast ⊢ with hstamped
  · simp [isFresh, hlast]
  · simp only [isFresh, hlast]

/-- What the comparison with the stored entry gives after an update. -/
theorem Placed.verify
    (hp : Placed M env name field k data s h b r l (before ++ r :: later) x L' rs h')
    (hs : Labelled M name field h b L (before ++ r :: later)) (hkey : h.keyAt M field r = k)
    (env' : Env) (version : ℕ) :
    ∃ y h'', verifyPersistedEntry M env' data name field.key k "" version h' = .ok y h'' ∧
      ((h''.revs y).data = data ↔ ((h.revs r).data = data ∨ h.Relists M name r l data) ∨
        (h.revs r).version < version ∧
          M.digest.data (h.revs r).hasRoot data ≠ (h.revs r).config.hash) := by
  by_cases hlisted : (h.revs r).data = data ∨ h.Relists M name r l data
  · obtain ⟨y, h'', hrun, hdata⟩ := hp.rack.verifyPersistedEntry_of_listed env' "" version
      (hp.listed hlisted)
    exact ⟨y, h'', hrun, iff_of_true hdata (.inl hlisted)⟩
  · obtain ⟨rfl, hrevs, hlatest⟩ := hp.kept hlisted
    have hr := hrevs r (by simp)
    rw [not_or] at hlisted
    obtain ⟨y, h'', hrun, hdata⟩ := hp.rack.verifyPersistedEntry_of_other env' "" version
      (fun r' hr' => by
        rw [keyAt, hrevs r' (by simp [hr'])]
        exact hs.kids.keyAt_ne_of_before hkey r' hr')
      (by rw [keyAt, hr]; exact hkey) hlatest (by rw [hr]; exact hlisted.1)
    rw [hr] at hdata
    exact ⟨y, h'', hrun, hdata.trans (or_iff_right (not_or.mpr hlisted)).symm⟩

variable [DecidableEq τ]

/-- What a read of the path gives after an update. -/
theorem Placed.rootGet_iff
    (hp : Placed M env name field k data s h b r l (before ++ r :: later) x L' rs h')
    (hs : Labelled M name field h b L (before ++ r :: later)) (hkey : h.keyAt M field r = k)
    (hk : Segment k) (htype : M.messages.typeOf data = field.classType) (depth : ℤ) :
    (∃ h'', rootGet M ⟨"", time, true⟩ (entryPath name k) depth false h' = .ok (.one data) h'') ↔
      h.FreshAt M env time l data ∨ h.Reloads M name field k r l data s := by
  by_cases hfresh : isFresh ⟨"", time, true⟩ (h'.revs x) = true
  · rw [hp.rack.rootGet_of_fresh rfl hp.cache hfresh, hp.same_data]
    exact iff_of_true ⟨h', rfl⟩ (.inl (hp.isFresh_iff.mp hfresh))
  · rw [hp.rack.rootGet_of_expired rfl hp.cache (by simpa using hfresh) hp.store, ← hp.isFresh_iff,
      or_iff_right hfresh]
    have hkeyed : loadKey M field k data = k :=
      (loadKey_eq_iff hs.toShelf hs.isString).mpr (by rw [if_neg hk.ne_empty]; exact hk.whole)
    have hown : (⟨childName name k, data, s.nextVersion (childName name k)⟩ :
        Σ _ : String, δ × ℕ) ∈ readable M field (childName name k)
          (s.put (childName name k) data) := (mem_readable_put htype).mpr (.inl rfl)
    by_cases hall : ∀ e ∈ readable M field (childName name k) s, e.1 = childName name k
    · have hone : readable M field (childName name k) (s.put (childName name k) data) =
          [⟨childName name k, data, s.nextVersion (childName name k)⟩] := by
        refine perm_singleton.mp ((perm_ext_iff_of_nodup (readable_nodup _ _)
          (nodup_singleton _)).mpr fun e => ?_)
        rw [mem_readable_put htype, mem_singleton, or_iff_left]
        exact fun he => he.1 (hall e he.2)
      obtain ⟨y, h'', hverify, hdata⟩ :=
        hp.verify hs hkey ⟨"", time, true⟩ (s.nextVersion (childName name k))
      have hload := load_of_verified hp.rack hs.isString hp.store rfl L' hone
        (by rw [← htype]; exact M.messages.unmarshal_typeOf data) (by rw [hkeyed]; exact hverify)
      rw [bind_of_ok hload, Heap.Reloads, and_iff_right hall, ← hdata]
      constructor
      · rintro ⟨h₁, hret⟩
        cases hret
        rfl
      · intro hsame
        exact ⟨h'', by rw [← hsame]; rfl⟩
    · -- with a second entry the read gives a list
      refine iff_of_false ?_ fun hreloads => hall hreloads.1
      rintro ⟨h'', hrun⟩
      push Not at hall
      obtain ⟨e, he, hne⟩ := hall
      obtain ⟨loaded, h₁, hload, hret⟩ := bind_ok_iff.mp hrun
      have hlength := length_load hp.rack hs.isString hp.store rfl L' hload
      have hsub : [⟨childName name k, data, s.nextVersion (childName name k)⟩, e] ⊆
          readable M field (childName name k) (s.put (childName name k) data) := by
        simp only [cons_subset, nil_subset, and_true]
        exact ⟨hown, (mem_readable_put htype).mpr (.inr ⟨hne, he⟩)⟩
      have hnodup : [⟨childName name k, data, s.nextVersion (childName name k)⟩, e].Nodup := by
        refine nodup_cons.mpr ⟨fun hmem => ?_, nodup_singleton e⟩
        exact hne (congrArg Sigma.fst (mem_singleton.mp hmem).symm)
      have hpair := (subperm_of_subset hnodup hsub).length_le
      match loaded, hlength, hret with
      | [], hlength, _ | [_], hlength, _ => simp [← hlength] at hpair
      | _ :: _ :: _, _, hret => cases hret

variable {h₁ : Heap τ δ η}

/-- What callers rely on: the result of an update, if there is one, has the data that were passed,
and a read of the path gives them; an update of a key that is not there has no result and writes
nothing. -/
def UpdateSeen (M : Model τ δ η) (env : Env) (time : ℕ) (name : String) (field : ChildType τ)
    (k : String) (data : δ) (h : Heap τ δ η) : Prop :=
  ∃ result h', rootUpdate M env (entryPath name k) data h = .ok result h' ∧
    (∀ x, result = some x → (h'.revs x).data = data ∧
      ∃ h'', rootGet M ⟨"", time, true⟩ (entryPath name k) 0 false h' = .ok (.one data) h'') ∧
    (some k ∉ h.keysAt M name field → result = none ∧ h'.store = h.store)

/-- Whether an update is seen: the key is empty, or there is a child with the key, the data are
those of the latest revision of its node or have another hash, the revision of the update has
another hash than the child, and a read finds it fresh or reloads the data. -/
def Heap.Seen (h : Heap τ δ η) (M : Model τ δ η) (env : Env) (time : ℕ) (name : String)
    (field : ChildType τ) (k : String) (data : δ) (s : Store δ) : Prop :=
  k = "" ∨ ∃ r ∈ h.refsAt name, h.keyAt M field r = k ∧
    ∃ l ∈ (h.branches (h.revs r).branch).latest,
      ((h.revs l).data = data ∨
        M.digest.data (h.revs l).hasRoot data ≠ (h.revs l).config.hash) ∧
      h.nextHash M l data ≠ (h.revs r).hash ∧
      (h.FreshAt M env time l data ∨ h.Reloads M name field k r l data s)

instance (h : Heap τ δ η) (M : Model τ δ η) (env : Env) (time : ℕ) (name : String)
    (field : ChildType τ) (k : String) (data : δ) (s : Store δ) :
    Decidable (h.Seen M env time name field k data s) :=
  inferInstanceAs (Decidable (_ ∨ ∃ r ∈ _, _ ∧ ∃ l ∈ _, _ ∧ _ ∧ (_ ∨ _)))

theorem not_updateSeen {result : Ref}
    (hrun : rootUpdate M env (entryPath name k) data h = finalizeResult M env (some result) h')
    (hdata : (h'.revs result).data ≠ data) : ¬ UpdateSeen M env time name field k data h := by
  obtain ⟨h₂, hfin, hsaved⟩ := finalizeResult_saved M env (fun _ => "") (some result) h'
  rintro ⟨result', h'', hrun', hseen, -⟩
  cases (hrun.trans hfin).symm.trans hrun'
  exact hdata ((congrArg DataRevision.data (hsaved.config result)).symm.trans (hseen result rfl).1)

/-- An update is seen exactly when it changes an entry that is there, as the hashes tell. -/
theorem update_seen_iff (hs : Labelled M name field h b L kids) (hstore : h.store = some s)
    (htxid : env.txid = "") (hup : env.up = true) (hk : '/' ∉ k.toList)
    (htype : M.messages.typeOf data = field.classType)
    (hroot : M.messages.typeOf (h.revs L).data ≠ field.classType) (time : ℕ) :
    UpdateSeen M env time name field k data h ↔ h.Seen M env time name field k data s := by
  have hstring := field.keyFromStr_eq hs.isString k
  have hL : (h.revs L).data ≠ data := fun heq => hroot (by rw [heq, htype])
  by_cases hempty : k = ""
  · subst hempty
    refine iff_of_true ?_ (.inl rfl)
    exact ⟨none, h, hs.rootUpdate_of_empty env htxid, nofun, fun _ => ⟨rfl, rfl⟩⟩
  have hsegment : Segment k := ⟨hempty, hk⟩
  rw [Heap.Seen, or_iff_right hempty, hs.refsAt]
  obtain ⟨before, r, later, rfl, hr, hkey⟩ | hpresent := h.middle_or_absent M field kids k
  · have hkid := hs.kids.kid r hr
    obtain ⟨l, hl⟩ := hkid.latest
    have hunique : (∃ r' ∈ before ++ r :: later, h.keyAt M field r' = k ∧
        ∃ l ∈ (h.branches (h.revs r').branch).latest,
          ((h.revs l).data = data ∨
            M.digest.data (h.revs l).hasRoot data ≠ (h.revs l).config.hash) ∧
          h.nextHash M l data ≠ (h.revs r').hash ∧
          (h.FreshAt M env time l data ∨ h.Reloads M name field k r' l data s)) ↔
        ((h.revs l).data = data ∨
          M.digest.data (h.revs l).hasRoot data ≠ (h.revs l).config.hash) ∧
        h.nextHash M l data ≠ (h.revs r).hash ∧
        (h.FreshAt M env time l data ∨ h.Reloads M name field k r l data s) := by
      constructor
      · rintro ⟨r', hr', hkey', l', hl', hcond⟩
        obtain rfl := hs.kids.eq_of_keyAt hr' hr (hkey'.trans hkey.symm)
        obtain rfl : l = l' := Option.some.inj (hl.latest.symm.trans hl')
        exact hcond
      · exact fun hcond => ⟨r, hr, hkey, l, hl.latest, hcond⟩
    rw [hunique]
    have hrun : ∀ {x h₁}, doUpdate M env (h.branches (h.revs r).branch).node (h.revs r).branch
        data h = .ok (some x) h₁ → rootUpdate M env (entryPath name k) data h =
          endUpdate M env b L name k before r later x h₁ := fun hdo => by
      rw [hs.rootUpdate_of_present env htxid hsegment (hkey.trans hstring.symm) hdo, hstring]
    have hsame : ∀ {x h₁}, Renewed (fun _ => "") h r x h₁ → (h₁.revs x).hash = (h.revs r).hash →
        doUpdate M env (h.branches (h.revs r).branch).node (h.revs r).branch data h =
          .ok (some x) h₁ → ¬ UpdateSeen M env time name field k data h :=
        fun {x h₁} hu hhash hdo => by
      have hclear : Mild (fun _ => "") h₁ _ := mild_clearRev_of_ne h₁ x r
      refine not_updateSeen ((hrun hdo).trans ((hu.rack hs.toShelf hr).endUpdate_of_same
        (by rw [hhash, hu.revs hkid.old]))) ?_
      rw [hclear.data (hu.mild.old hs.old_latest), hu.revs hs.old_latest]
      exact hL
    by_cases hdata : (h.revs l).data = data ∨
        M.digest.data (h.revs l).hasRoot data ≠ (h.revs l).config.hash
    · obtain ⟨x, h₁, hdo, hu⟩ := hkid.doUpdate_updated env hl htype (fun _ => "") rfl hdata
      rw [and_iff_right hdata]
      by_cases hhash : h.nextHash M l data = (h.revs r).hash
      · exact iff_of_false (hsame hu.toRenewed (hu.hash.trans hhash) hdo) fun hcond =>
          hcond.1 hhash
      · obtain ⟨L', rs, h', hplace, hp⟩ := hu.placed hs hkey hhash hstore hup
        rw [and_iff_right hhash, ← hp.rootGet_iff hs hkey hsegment htype 0]
        constructor
        · rintro ⟨result, h'', hupdate, hseen, -⟩
          cases ((hrun hdo).trans hplace).symm.trans hupdate
          exact (hseen x rfl).2
        · intro hget
          refine ⟨some x, h', (hrun hdo).trans hplace, fun x' hx' => ?_, fun habsent => ?_⟩
          · cases hx'
            exact ⟨hp.same_data, hget⟩
          · exact absurd (hs.mem_keysAt.mpr ⟨r, hr, hkey⟩) habsent
    · -- the hash of the data is that of the latest revision, which stays
      rw [not_or, not_not] at hdata
      have hdo := hkid.doUpdate_of_same env hl htype (.inr hdata.2)
      refine iff_of_false ?_ fun hcond => hcond.1.elim hdata.1 fun hne => hne hdata.2
      by_cases hhash : (h.revs l).hash = (h.revs r).hash
      · exact hsame (hkid.renewed_latest hl) hhash hdo
      · obtain ⟨L', h', hend, hr'⟩ := hs.endUpdate_of_new env k hl.old hhash
        have hname : Mild (fun _ => "") h (h.nameRev l (childName name k)) := mild_nameRev ..
        refine not_updateSeen ((hrun hdo).trans hend) ?_
        rw [hr'.mild.data (hname.old hl.old), hname.data hl.old]
        exact hdata.1
  · -- the revision of the root is the result
    refine iff_of_false (not_updateSeen (hs.rootUpdate_of_absent env htxid hsegment
      (by rwa [hstring])) hL) ?_
    · rintro ⟨r, hr, hkey, -⟩
      exact hpresent r hr hkey

def oneDevice : Heap DeviceType DeviceMessage DeviceHash :=
  callStep deviceModel "devices" (volthaHeap ∅) ⟨0, true, .add (.device "1" 0)⟩

theorem labelled_oneDevice : ∃ kids,
    Labelled deviceModel "devices" deviceField oneDevice ⟨"", 1⟩ ⟨"", 6⟩ kids := by
  obtain ⟨L, kids, hs, -⟩ := (labelled_volthaHeap ∅).add_sets ⟨"", 0, true⟩ rfl
    (rfl : deviceMessages.typeOf (.device "1" 0) = .device) fun _ => by decide +kernel
  have hL : (oneDevice.branches ⟨"", 1⟩).latest = some ⟨"", 6⟩ := by decide +kernel
  cases hs.latest.symm.trans hL
  exact ⟨kids, hs⟩

/-- The label of the device `1` is changed. -/
theorem update_seen_device_one :
    UpdateSeen deviceModel ⟨"", 1, true⟩ 2 "devices" deviceField "1" (.device "1" 1)
      oneDevice := by
  obtain ⟨kids, hs⟩ := labelled_oneDevice
  refine (update_seen_iff hs (s := storeOf [("1", 0)]) ?_ rfl rfl (by decide) rfl ?_ 2).mpr ?_
  · decide +kernel
  · decide +kernel
  · decide +kernel

def updateResult (result : EStateM.Result Err (Heap DeviceType DeviceMessage DeviceHash)
    (Option Ref)) : Option DeviceMessage × Option DeviceMessage :=
  match result with
  | .ok (some x) h => (some (h.revs x).data, (h.store.bind (·.lookup "")).map Prod.fst)
  | _ => (none, none)

/-- An update of the device `2`, which is not there, and an update of the device `1` to the data it
has both return the data of the root and write them under the empty name. -/
theorem update_returns_root :
    updateResult (rootUpdate deviceModel ⟨"", 1, true⟩ (entryPath "devices" "2") (.device "2" 0)
        oneDevice) = (some .voltha, some .voltha) ∧
      updateResult (rootUpdate deviceModel ⟨"", 1, true⟩ (entryPath "devices" "1") (.device "1" 0)
        oneDevice) = (some .voltha, some .voltha) ∧
      ¬ UpdateSeen deviceModel ⟨"", 1, true⟩ 1 "devices" deviceField "2" (.device "2" 0)
        oneDevice ∧
      ¬ UpdateSeen deviceModel ⟨"", 1, true⟩ 1 "devices" deviceField "1" (.device "1" 0)
        oneDevice := by
  have hseen : ∀ {k data}, updateResult (rootUpdate deviceModel ⟨"", 1, true⟩
      (entryPath "devices" k) data oneDevice) = (some .voltha, some .voltha) → data ≠ .voltha →
      ¬ UpdateSeen deviceModel ⟨"", 1, true⟩ 1 "devices" deviceField k data oneDevice := by
    rintro k data hresult hdata ⟨result, h', hrun, hseen, -⟩
    rw [hrun] at hresult
    cases result with
    | none => exact nomatch hresult
    | some x =>
      have hroot : (h'.revs x).data = .voltha := Option.some.inj (congrArg Prod.fst hresult)
      exact hdata ((hseen x rfl).1.symm.trans hroot)
  have habsent : updateResult (rootUpdate deviceModel ⟨"", 1, true⟩ (entryPath "devices" "2")
      (.device "2" 0) oneDevice) = (some .voltha, some .voltha) := by decide +kernel
  have hsame : updateResult (rootUpdate deviceModel ⟨"", 1, true⟩ (entryPath "devices" "1")
      (.device "1" 0) oneDevice) = (some .voltha, some .voltha) := by decide +kernel
  exact ⟨habsent, hsame, hseen habsent (by decide), hseen hsame (by decide)⟩

end Seen

end VolthaCore.Nodes
