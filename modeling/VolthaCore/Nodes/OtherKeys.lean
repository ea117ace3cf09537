import VolthaCore.Nodes.Reloads

/-! What a call on one key of a container leaves of the other children, and the data that the root
lists for a key. The keys are strings. An update keeps the others as long as the hashes of the
children differ, since the replaced child is dropped by its hash. -/

namespace VolthaCore.Nodes

open Outcome List Function Heap

variable {τ δ η : Type} {M : Model τ δ η} {name j : String} {field : ChildType τ}
  {h h' : Heap τ δ η} {b L r x : Ref} {kids kids' : List Ref} {data : δ}

/-! ### What the root lists -/

section Listed

variable {k : String}

def Heap.refsAt (h : Heap τ δ η) (name : String) : List Ref := (h.childrenAt name).reduceOption

def Heap.dataAt (h : Heap τ δ η) (M : Model τ δ η) (name : String) (field : ChildType τ)
    (k : String) : Option δ :=
  ((h.refsAt name).find? fun r => h.keyAt M field r = k).map fun r => (h.revs r).data

/-- The hash of the root with children of the given hashes in a container. -/
def Heap.hashListing (h : Heap τ δ η) (M : Model τ δ η) (name : String) (hashes : List η) :
    Option η :=
  (((h.nodes h.root).branches NONE).bind fun b => (h.branches b).latest).map fun latest =>
    M.rootHash h latest name hashes

/-- No two children of a container have the same hash. -/
def Heap.HashesDiffer (h : Heap τ δ η) (name : String) : Prop :=
  ((h.refsAt name).map fun r => (h.revs r).hash).Nodup

/-- What is needed for data to take the place of a child in a list: the hashes tell the data, the
revisions and the children apart, and with the list the root gets another hash than the recorded
one. -/
def Heap.Replaces (h : Heap τ δ η) (M : Model τ δ η) (name : String) (listed : List Ref) (r : Ref)
    (data : δ) : Prop :=
  M.digest.data (h.revs r).hasRoot data ≠ (h.revs r).config.hash ∧
    h.redoneHash M r data ≠ (h.revs r).hash ∧ h.HashesDiffer name ∧
    h.recordedHash ≠ h.hashListing M name (listed.filterMap fun r' =>
      if r' = r then h.redoneHash M r data else (h.revs r').hash)

/-- What is needed for an update of a child, unless it has the data: it is the latest revision of
its node, and can be replaced. -/
def Heap.UpdatesListed (h : Heap τ δ η) (M : Model τ δ η) (name : String) (r : Ref) (data : δ) :
    Prop :=
  (h.branches (h.revs r).branch).latest = some r ∧
    ((h.revs r).data = data ∨ h.Replaces M name (h.refsAt name) r data)

section

variable [DecidableEq η]

instance (h : Heap τ δ η) (name : String) : Decidable (h.HashesDiffer name) :=
  inferInstanceAs (Decidable (List.Nodup _))

instance (h : Heap τ δ η) (M : Model τ δ η) (name : String) (listed : List Ref) (r : Ref)
    (data : δ) : Decidable (h.Replaces M name listed r data) :=
  inferInstanceAs (Decidable (_ ∧ _ ∧ _ ∧ _))

instance [DecidableEq δ] (h : Heap τ δ η) (M : Model τ δ η) (name : String) (r : Ref) (data : δ) :
    Decidable (h.UpdatesListed M name r data) :=
  inferInstanceAs (Decidable (_ ∧ (_ ∨ _)))

end

section

variable (hs : Shelf M name field h b L kids)
include hs

theorem Shelf.refsAt : h.refsAt name = kids := by
  rw [Heap.refsAt, hs.childrenAt, List.reduceOption, filterMap_map]
  exact filterMap_some

theorem Shelf.hashListing (hashes : List η) :
    h.hashListing M name hashes = some (M.rootHash h L name hashes) := by
  rw [Heap.hashListing, hs.rootLatest]
  rfl

/-- Whether the next revision of the root has another hash can be told from the memory before. -/
theorem Shelf.nextRoot_hash_ne_iff {h2 : Heap τ δ η} {rs : List Ref} {hashes : List η}
    (hroot : h2.revs L = h.revs L) (hhash : ∀ {r}, h.Old r → (h2.revs r).hash = (h.revs r).hash)
    (hhashes : (rs.filterMap fun r => (h2.revs r).hash) = hashes) :
    (nextRoot M name h2 b L rs).hash ≠ (h2.revs L).hash ↔
      h.recordedHash ≠ h.hashListing M name hashes := by
  rw [nextRoot_hash, hhashes, rootHash_of_old hroot hhash hs.old_children, hroot, hs.recordedHash,
    hs.hashListing]
  exact ne_comm

theorem Shelf.dataAt_eq_some :
    h.dataAt M name field k = some data ↔
      ∃ r ∈ kids, h.keyAt M field r = k ∧ (h.revs r).data = data := by
  rw [Heap.dataAt, hs.refsAt, Option.map_eq_some_iff]
  constructor
  · rintro ⟨r, hfind, hdata⟩
    exact ⟨r, mem_of_find?_eq_some hfind, by simpa using find?_some hfind, hdata⟩
  · rintro ⟨r, hr, hkey, hdata⟩
    obtain ⟨r', hfind⟩ : ∃ r', (kids.find? fun r => h.keyAt M field r = k) = some r' :=
      Option.isSome_iff_exists.mp (find?_isSome.mpr ⟨r, hr, by simpa using hkey⟩)
    have hkey' : h.keyAt M field r' = k := by simpa using find?_some hfind
    obtain rfl := hs.kids.eq_of_keyAt (mem_of_find?_eq_some hfind) hr
      (hkey'.trans hkey.symm)
    exact ⟨r', hfind, hdata⟩

theorem Shelf.dataAt_eq_none :
    h.dataAt M name field k = none ↔ ∀ r ∈ kids, h.keyAt M field r ≠ k := by
  simp [Heap.dataAt, hs.refsAt]

end

theorem filterMap_hash_replace {before later : List Ref} {hash : Option η}
    (hothers : ∀ r' ∈ before ++ later, r' ≠ r ∧ (h'.revs r').hash = (h.revs r').hash)
    (hx : (h'.revs x).hash = hash) :
    (before ++ x :: later).filterMap (fun r' => (h'.revs r').hash) =
      (before ++ r :: later).filterMap fun r' => if r' = r then hash else (h.revs r').hash := by
  have hpart : ∀ rs : List Ref, (∀ r' ∈ rs, r' ∈ before ++ later) →
      rs.filterMap (fun r' => (h'.revs r').hash) =
        rs.filterMap fun r' => if r' = r then hash else (h.revs r').hash := fun rs hrs =>
    filterMap_congr fun r' hr' => by
      rw [if_neg (hothers r' (hrs r' hr')).1, (hothers r' (hrs r' hr')).2]
  rw [filterMap_append, filterMap_append, filterMap_cons, filterMap_cons,
    hpart before fun r' => mem_append_left _, hpart later fun r' => mem_append_right _,
    hx, if_pos rfl]

variable {L' : Ref}

theorem Shelf.dataAt_congr (hs : Shelf M name field h b L kids)
    (hs' : Shelf M name field h' b L' kids')
    (hkids : ∀ r ∈ kids, h.keyAt M field r = k → r ∈ kids' ∧ (h'.revs r).data = (h.revs r).data)
    (hkids' : ∀ r ∈ kids', h'.keyAt M field r = k → r ∈ kids ∧ (h'.revs r).data = (h.revs r).data) :
    h'.dataAt M name field k = h.dataAt M name field k := by
  refine Option.ext fun d => ?_
  rw [hs'.dataAt_eq_some, hs.dataAt_eq_some]
  constructor
  · rintro ⟨r, hr, hk, hd⟩
    obtain ⟨hr', hsame⟩ := hkids' r hr hk
    refine ⟨r, hr', ?_, hsame.symm.trans hd⟩
    rw [Heap.keyAt, ← hsame]
    exact hk
  · rintro ⟨r, hr, hk, hd⟩
    obtain ⟨hr', hsame⟩ := hkids r hr hk
    refine ⟨r, hr', ?_, hsame.trans hd⟩
    rw [Heap.keyAt, hsame]
    exact hk

end Listed

/-! ### Calls and the other children -/

section Aside

variable {h₂ : Heap τ δ η} {L' : Ref} {rs before later : List Ref} {v : Option δ}

/-- What a call on the key `j` leaves of the other children of a container. -/
structure Aside (M : Model τ δ η) (field : ChildType τ) (j : String) (h : Heap τ δ η)
    (kids : List Ref) (h' : Heap τ δ η) (kids' : List Ref) : Prop where
  old : ∀ {r}, h.Old r → h'.Old r
  config : ∀ {r}, h.Old r → (h'.revs r).config = (h.revs r).config
  name : ∀ {r}, h.Old r → (h'.revs r).name = (h.revs r).name
  others : ∀ {r}, h'.keyAt M field r ≠ j → (r ∈ kids' ↔ r ∈ kids)

theorem keyAt_congr (hconfig : (h'.revs r).config = (h.revs r).config) :
    h'.keyAt M field r = h.keyAt M field r := by
  rw [Heap.keyAt, Revision.data, hconfig]
  rfl

theorem Aside.dataAt {k : String} (ha : Aside M field j h kids h' kids')
    (hs : Shelf M name field h b L kids) (hs' : Shelf M name field h' b L' kids') (hne : k ≠ j) :
    h'.dataAt M name field k = h.dataAt M name field k := by
  have hdata : ∀ r ∈ kids, (h'.revs r).data = (h.revs r).data := fun r hr =>
    congrArg DataRevision.data (ha.config (hs.old hr))
  refine hs.dataAt_congr hs' (fun r hr hk => ⟨(ha.others ?_).mpr hr, hdata r hr⟩) fun r hr hk => ?_
  · rwa [keyAt_congr (ha.config (hs.old hr)), hk]
  · have hr' := (ha.others (by rwa [hk])).mp hr
    exact ⟨hr', hdata r hr'⟩

/-- A call has made `v` of the key `j` in a container and left the other children. -/
def Sets (M : Model τ δ η) (name : String) (field : ChildType τ) (j : String) (v : Option δ)
    (b : Ref) (h : Heap τ δ η) (kids : List Ref) (h' : Heap τ δ η) : Prop :=
  ∃ L' kids', Labelled M name field h' b L' kids' ∧ Aside M field j h kids h' kids' ∧
    h'.dataAt M name field j = v

theorem Labelled.of_names (hs : Labelled M name field h b L kids)
    (hmild : Mild (field.keyOf M) h h') (hlatest : (h'.branches b).latest = some L)
    (hname : ∀ {r}, h.Old r → (h'.revs r).name = (h.revs r).name) :
    Labelled M name field h' b L kids where
  toShelf := hs.toShelf.mild hmild hlatest
  isString := hs.isString
  named r hr := by
    have hold := hs.old hr
    rw [hname hold, hs.named r hr, hmild.keyAt hold]
  root_name := (hname hs.old_latest).trans hs.root_name

theorem Labelled.grows (hs : Labelled M name field h b L kids) (hg : Grows (field.keyOf M) h h')
    (hb : h'.branches b = h.branches b) : Labelled M name field h' b L kids :=
  hs.of_names hg.mild (by rw [hb]; exact hs.latest) fun hr => by rw [hg.revs hr]

theorem Sets.saved {h'' : Heap τ δ η} (hset : Sets M name field j v b h kids h')
    (hsaved : Saved (field.keyOf M) h' h'') : Sets M name field j v b h kids h'' := by
  obtain ⟨L', kids', hs, ha, hdata⟩ := hset
  have hs' : Labelled M name field h'' b L' kids' :=
    hs.of_names hsaved.mild (by rw [hsaved.branches]; exact hs.latest) fun _ => hsaved.name _
  have hsame : ∀ r, (h''.revs r).data = (h'.revs r).data := fun r =>
    congrArg DataRevision.data (hsaved.config r)
  refine ⟨L', kids', hs', ⟨fun hr => hsaved.mild.old (ha.old hr),
    fun hr => (hsaved.config _).trans (ha.config hr), fun hr => (hsaved.name _).trans (ha.name hr),
    fun hkey => ha.others (by rwa [keyAt_congr (hsaved.config _)] at hkey)⟩, ?_⟩
  rw [hs.dataAt_congr hs'.toShelf (fun r hr _ => ⟨hr, hsame r⟩) fun r hr _ => ⟨hr, hsame r⟩, hdata]

/-- A call that changes nothing. -/
theorem Labelled.sets_self (hs : Labelled M name field h b L kids)
    (hdata : h.dataAt M name field j = v) : Sets M name field j v b h kids h :=
  ⟨L, kids, hs, ⟨id, fun _ => rfl, fun _ => rfl, fun _ => .rfl⟩, hdata⟩

theorem Relisted.labelled (hr : Relisted M name field h b L' rs h')
    (hs : Labelled M name field h b L kids) (hkids : Kids M field h b rs)
    (hnamed : ∀ r ∈ rs, (h.revs r).name = childName name (h.keyAt M field r)) :
    Labelled M name field h' b L' rs where
  toShelf := hr.shelf hs.toShelf hkids
  isString := hs.isString
  named r hr' := by
    rw [hr.revs (hkids.kid r hr').old, hnamed r hr', hr.mild.keyAt (hkids.kid r hr').old]
  root_name := by
    rw [hr.same_name hs.latest]
    exact hs.root_name

/-- The root lists a child `x` with the key `j` and the other children as before. -/
theorem Relisted.sets (hr : Relisted M name field h₂ b L' rs h')
    (hs : Labelled M name field h b L kids) (hg : Grows (field.keyOf M) h h₂)
    (hb : h₂.branches b = h.branches b) (hkids : Kids M field h₂ b rs) (hx : x ∈ rs)
    (hkey : h₂.keyAt M field x = j) (hname : (h₂.revs x).name = childName name j)
    (hdata : (h₂.revs x).data = data) (hmem : ∀ r ∈ rs, r = x ∨ r ∈ kids)
    (hothers : ∀ r ∈ kids, h.keyAt M field r ≠ j → r ∈ rs) :
    Sets M name field j (some data) b h kids h' := by
  have hs₂ := hs.grows hg hb
  have hg' := hg.trans hr.toGrows
  have hold := (hkids.kid x hx).old
  have hxkey : h'.keyAt M field x = j := (hr.mild.keyAt hold).trans hkey
  have hs' := hr.labelled hs₂ hkids fun r hmem' => by
    obtain rfl | hmem' := hmem r hmem'
    · rw [hname, hkey]
    · exact hs₂.named r hmem'
  refine ⟨L', rs, hs', ⟨hg'.mild.old, hg'.mild.config, fun hr' => by rw [hg'.revs hr'],
    fun {r} hne => ⟨fun hr' => ?_, fun hr' => hothers r hr' ?_⟩⟩,
    hs'.dataAt_eq_some.mpr ⟨x, hx, hxkey, by rw [hr.revs hold, hdata]⟩⟩
  · refine (hmem r hr').resolve_left ?_
    rintro rfl
    exact hne hxkey
  · rwa [hg'.mild.keyAt (hs.old hr')] at hne

theorem setKids_of_ne (hne : r ≠ L) : (h.setKids L name rs).revs r = h.revs r :=
  update_of_ne hne ..

theorem setKids_config (h : Heap τ δ η) (L : Ref) (name : String) (rs : List Ref) (r : Ref) :
    ((h.setKids L name rs).revs r).config = (h.revs r).config :=
  revs_setRev Revision.config (by rfl) r

theorem setKids_name (h : Heap τ δ η) (L : Ref) (name : String) (rs : List Ref) (r : Ref) :
    ((h.setKids L name rs).revs r).name = (h.revs r).name :=
  revs_setRev Revision.name (by rfl) r

theorem Labelled.dropChild (hs : Labelled M name field h b L (before ++ r :: later)) (env : Env)
    (path : String) :
    Labelled M name field ((h.dropEntry env path).setKids L name (before ++ later)) b L
      (before ++ later) where
  toShelf := hs.dropChild_shelf env path
  isString := hs.isString
  named r' hr' := by
    have hsub : r' ∈ before ++ r :: later := mem_middle_of_mem r hr'
    rw [setKids_name, dropEntry_revs, hs.named r' hsub, Heap.keyAt, Heap.keyAt, Revision.data,
      Revision.data, setKids_config, dropEntry_revs]
  root_name := by
    rw [setKids_name, dropEntry_revs]
    exact hs.root_name

theorem Labelled.remove_sets [DecidableEq η] (hs : Labelled M name field h b L kids) (env : Env)
    (htxid : env.txid = "") (hj : Segment j) :
    Sets M name field j none b h kids (after (rootRemove M env (entryPath name j)) h) := by
  have hstring := field.keyFromStr_eq hs.isString j
  obtain ⟨before, r, later, rfl, hr, hrkey⟩ | hpresent := h.middle_or_absent M field kids j
  · rw [after_of_ok (hs.rootRemove_of_present env htxid hj (hrkey.trans hstring.symm))]
    have hs' := hs.dropChild env (h.revs r).name
    set h1 := (h.dropEntry env (h.revs r).name).setKids L name (before ++ later) with hh1
    have hconfig : ∀ r', (h1.revs r').config = (h.revs r').config := fun r' => by
      rw [hh1, setKids_config, dropEntry_revs]
    refine ⟨L, before ++ later, hs', ⟨(mild_dropEntry h env _ : Mild (field.keyOf M) h _).old,
      fun _ => hconfig _, fun _ => ?_, fun {r'} hne => ⟨mem_middle_of_mem r, fun hr' => ?_⟩⟩,
      hs'.dataAt_eq_none.mpr fun r' hr' heq => ?_⟩
    · rw [hh1, setKids_name, dropEntry_revs]
    · refine (mem_middle_cases hr').resolve_left ?_
      rintro rfl
      exact hne ((keyAt_congr (hconfig r')).trans hrkey)
    · rw [keyAt_congr (hconfig r')] at heq
      exact ne_of_mem_middle hs.kids.nodup hr'
        (hs.kids.eq_of_keyAt (mem_middle_of_mem r hr') hr (heq.trans hrkey.symm))
  · rw [hs.rootRemove_of_absent env htxid hj.whole fun _ => by rwa [hstring]]
    exact hs.sets_self (hs.dataAt_eq_none.mpr hpresent)

variable [DecidableEq δ] [DecidableEq η]

/-- An addition keeps the data of a key that is there. A new key is listed when the root gets
another hash with it. -/
theorem Labelled.add_sets (hs : Labelled M name field h b L kids) (env : Env)
    (htxid : env.txid = "") (htype : M.messages.typeOf data = field.classType)
    (hadds : some (field.keyOf M data) ∉ h.keysAt M name field →
      h.recordedHash ≠ h.hashWith M name data) :
    Sets M name field (field.keyOf M data)
      (some ((h.dataAt M name field (field.keyOf M data)).getD data)) b h kids
      (after (rootAdd M env (containerPath name) data) h) := by
  have hstring := M.messages.attributeString_eq hs.lookup hs.isString data
  obtain ⟨before, r, later, rfl, hr, hrkey⟩ | hpresent :=
    h.middle_or_absent M field kids (field.keyOf M data)
  · obtain ⟨h1, hfin, hsaved⟩ := finalizeResult_saved M env (field.keyOf M) (some r) h
    have hdata := hs.dataAt_eq_some.mpr ⟨r, hr, hrkey, rfl⟩
    rw [after_of_ok ((hs.rootAdd_apply env htxid
      (hs.addChild_of_present env (hrkey.trans hstring.symm))).trans hfin), hdata]
    exact (hs.sets_self hdata).saved hsaved
  · obtain ⟨x, h1, L', h2, hrun, -, hp, hkids, hr⟩ := hs.rootAdd_of_absent env htxid htype hpresent
    rw [if_neg (hadds fun hmem => by
      obtain ⟨r, hr, hkey⟩ := hs.mem_keysAt.mp hmem
      exact hpresent r hr hkey).symm] at hr
    obtain ⟨h3, hfin, hsaved⟩ := finalizeResult_saved M env (field.keyOf M) (some x) h2
    rw [after_of_ok (hrun.trans hfin), hs.dataAt_eq_none.mpr hpresent, Option.getD_none]
    exact (hr.sets hs hp.toGrows (hp.branches hs.old_branch) hkids (by simp) hp.keyAt
      (hp.name.trans (congrArg _ hstring)) hp.same_data (by simp [or_comm])
      fun r hr' _ => mem_append_left _ hr').saved hsaved

/-! ### A revision in the place of a child -/

omit [DecidableEq η] in
theorem Kids.mergedRefs_self (hk : Kids M field h b kids) : mergedRefs h kids kids = kids := by
  rw [mergedRefs_of_cover fun old hold => ⟨old, hold, rfl⟩,
    map_congr_left fun r hr => hk.keptRef_of_mem hr]
  exact map_id kids

omit [DecidableEq η] in
/-- A revision with the name of a child and other data takes its place among the merged
children. -/
theorem Labelled.mergedRefs_replace (hs : Labelled M name field h b L kids) (hr : r ∈ kids)
    (hkids : ∀ r' ∈ kids, h₂.revs r' = h.revs r')
    (hcopy : ∀ r' ∈ before ++ r :: later, h₂.revs r' = h.revs r')
    (hname : (h₂.revs x).name = (h.revs r).name) (hdata : (h.revs r).data ≠ (h₂.revs x).data) :
    ∃ before' later', mergedRefs h kids (before ++ r :: later) = before' ++ r :: later' ∧
      mergedRefs h₂ kids (before ++ x :: later) = before' ++ x :: later' := by
  have hfilter : (kids.filter fun old =>
      ∀ r' ∈ before ++ x :: later, (h₂.revs r').name ≠ (h₂.revs old).name) =
      kids.filter fun old => ∀ r' ∈ before ++ r :: later, (h.revs r').name ≠ (h.revs old).name := by
    refine filter_congr fun old hold => decide_eq_decide.mpr ?_
    simp only [forall_mem_append, forall_mem_cons, hname, hkids old hold]
    have hsame : ∀ r' ∈ before ++ r :: later,
        ((h₂.revs r').name ≠ (h.revs old).name ↔ (h.revs r').name ≠ (h.revs old).name) :=
      fun r' hr' => by rw [hcopy r' hr']
    exact and_congr (forall₂_congr fun r' hr' => hsame r' (by simp [hr'])) (and_congr Iff.rfl
      (forall₂_congr fun r' hr' => hsame r' (by simp [hr'])))
  have hkept : keptRef h₂ kids x = x := by
    obtain heq | ⟨hmem, hname', hdata'⟩ := keptRef_cases h₂ kids x
    · exact heq
    · rw [hkids _ hmem] at hname' hdata'
      rw [hname, hs.named _ hmem, hs.named r hr] at hname'
      rw [hs.kids.eq_of_keyAt hmem hr (childName_injective hname')] at hdata'
      exact absurd hdata' hdata
  have hold : ∀ r' ∈ before ++ r :: later, keptRef h₂ kids r' = keptRef h kids r' := fun r' hr' =>
    keptRef_congr hkids (hcopy r' hr')
  refine ⟨(kids.filter fun old => ∀ r' ∈ before ++ r :: later,
    (h.revs r').name ≠ (h.revs old).name) ++ before.map (keptRef h kids),
    later.map (keptRef h kids), ?_, ?_⟩
  · rw [mergedRefs, map_append, map_cons, hs.kids.keptRef_of_mem hr, append_assoc]
  · rw [mergedRefs, hfilter, map_append, map_cons, hkept,
      map_congr_left fun r' hr' => hold r' (by simp [hr']),
      map_congr_left (l := later) fun r' hr' => hold r' (by simp [hr']), append_assoc]

/-- A new revision `x` of the child `r`, with its name and other data. -/
structure Succeeds (M : Model τ δ η) (field : ChildType τ) (data : δ) (h : Heap τ δ η) (r x : Ref)
    (h₂ : Heap τ δ η) : Prop extends Grows (field.keyOf M) h h₂ where
  branches : ∀ b', b' ≠ (h.revs r).branch → h₂.branches b' = h.branches b'
  old : h₂.Old x
  branch : (h₂.revs x).branch = (h.revs r).branch
  name : (h₂.revs x).name = (h.revs r).name
  same_data : (h₂.revs x).data = data
  hash : (h₂.revs x).hash = h.redoneHash M r data

omit [DecidableEq δ] [DecidableEq η] in
theorem Redone.succeeds (hx : Redone M field data h r x h₂)
    (hdigest : M.digest.data (h.revs r).hasRoot data ≠ (h.revs r).config.hash) :
    Succeeds M field data h r x h₂ := by
  obtain ⟨hnew, hdata, hhash⟩ := hx.isNew hdigest
  exact ⟨⟨hx.mild, fun hr => hx.revs hr fun heq => hnew (heq ▸ hr), hx.store⟩,
    fun _ _ => by rw [hx.branches], hx.old, hx.branch, hx.name, hdata, hhash⟩

theorem Updated.succeeds {env : Env} (hu : Updated M env (field.keyOf M) data h r r x h₂)
    (hlatest : (h.branches (h.revs r).branch).latest = some r) (hdata : (h.revs r).data ≠ data) :
    Succeeds M field data h r x h₂ := by
  have hrev := hu.rev
  rw [Heap.updatedRev, if_neg hdata] at hrev
  refine ⟨hu.toGrows, hu.branches, hu.old, hu.branch, by rw [hrev]; rfl, hu.same_data, ?_⟩
  rw [hrev, Heap.redoneHash, hlatest]
  rfl

/-- The root gets another hash with the list `rs`, in which `x` has the place of the child `r`, and
no child in it has the hash of `r`. -/
structure Swapped (M : Model τ δ η) (name : String) (field : ChildType τ) (h h₂ : Heap τ δ η)
    (b L : Ref) (kids : List Ref) (r x : Ref) (rs : List Ref) : Prop where
  gate : (nextRoot M name h₂ b L rs).hash ≠ (h₂.revs L).hash
  undropped : ∀ r' ∈ rs, (h₂.revs r').hash ≠ (h.revs r).hash
  listed : Kids M field h₂ b rs
  mem : x ∈ rs
  cases : ∀ r' ∈ rs, r' = x ∨ r' ∈ kids ∧ r' ≠ r
  others : ∀ r' ∈ kids, r' ≠ r → r' ∈ rs

section

variable (hx : Succeeds M field data h r x h₂) (hs : Labelled M name field h b L kids)
  (hr : r ∈ kids) (hkey : field.keyOf M data = h.keyAt M field r)
include hx hs hr hkey

omit [DecidableEq η] in
theorem Succeeds.swapped (hcopy : ∀ r' ∈ before ++ r :: later, h.Old r')
    (hperm : (mergedRefs h kids (before ++ r :: later)).Perm kids) (hdata : (h.revs r).data ≠ data)
    (hreplaces : h.Replaces M name (mergedRefs h kids (before ++ r :: later)) r data) :
    Swapped M name field h h₂ b L kids r x (mergedRefs h₂ kids (before ++ x :: later)) := by
  obtain ⟨-, hhash, hdiffer, hgate⟩ := hreplaces
  obtain ⟨before', later', hmerged, hmerged'⟩ := hs.mergedRefs_replace hr
    (fun r' hr' => hx.revs (hs.old hr')) (fun r' hr' => hx.revs (hcopy r' hr')) hx.name
    (by rwa [hx.same_data])
  rw [hmerged] at hperm hgate
  rw [hmerged']
  have hother : ∀ r' ∈ before' ++ later', r' ∈ kids ∧ r' ≠ r := fun r' hr' =>
    ⟨hperm.mem_iff.mp (mem_middle_of_mem _ hr'),
      ne_of_mem_middle (hperm.nodup_iff.mpr hs.kids.nodup) hr'⟩
  have hcases : ∀ r' ∈ before' ++ x :: later', r' = x ∨ r' ∈ kids ∧ r' ≠ r := fun r' hr' =>
    (mem_middle_cases hr').imp_right (hother r')
  have hold := (hs.kids.kid r hr).old
  refine ⟨?_, fun r' hr' heq => ?_, ?_, by simp, hcases, fun r' hr' hne =>
    mem_middle_of_mem x ((mem_middle_cases (hperm.mem_iff.mpr hr')).resolve_left hne)⟩
  · refine (hs.nextRoot_hash_ne_iff (hx.revs hs.old_latest) hx.toGrows.hash
      (filterMap_hash_replace (fun r' hr' => ⟨(hother r' hr').2, ?_⟩) hx.hash)).mpr hgate
    exact hx.toGrows.hash (hs.old (hother r' hr').1)
  · obtain rfl | ⟨hmem, hne⟩ := hcases r' hr'
    · exact hhash (hx.hash.symm.trans heq)
    · rw [hx.revs (hs.old hmem)] at heq
      rw [Heap.HashesDiffer, hs.refsAt] at hdiffer
      exact hne (inj_on_of_nodup_map hdiffer hmem hr heq)
  · refine ((hs.kids.mild hx.mild).perm hperm).replace hx.old ?_ ?_
    · rw [hx.branch, hx.revs hold]
    · rw [Heap.keyAt, hx.same_data, hkey, hx.mild.keyAt hold]

omit [DecidableEq δ] [DecidableEq η] in
theorem Succeeds.sets (hswap : Swapped M name field h h₂ b L kids r x rs)
    (hlist : Relisted M name field h₂ b L' rs h') (hrkey : h.keyAt M field r = j) :
    Sets M name field j (some data) b h kids h' := by
  subst hrkey
  refine hlist.sets hs hx.toGrows (hx.branches b fun heq => hs.kids.apart r hr heq.symm)
    hswap.listed hswap.mem ?_ (hx.name.trans (hs.named r hr)) hx.same_data
    (fun r' hr' => (hswap.cases r' hr').imp_right And.left) fun r' hr' hne =>
      hswap.others r' hr' fun heq => hne (by rw [heq])
  rw [Heap.keyAt, hx.same_data, hkey]

end

variable [DecidableEq τ]

/-- The update of a child that is the latest revision of its node puts the new revision in its
place. -/
theorem Labelled.rootUpdate_of_other (hs : Labelled M name field h b L kids) (env : Env)
    (htxid : env.txid = "") (hj : Segment j) (hr : r ∈ kids) (hrkey : h.keyAt M field r = j)
    (hlatest : (h.branches (h.revs r).branch).latest = some r)
    (htype : M.messages.typeOf data = field.classType) (hkey : field.keyOf M data = j)
    (hdata : (h.revs r).data ≠ data) (hreplaces : h.Replaces M name kids r data) :
    ∃ x h₁ L' rs h', rootUpdate M env (entryPath name j) data h = finalizeResult M env (some x) h' ∧
      Updated M env (field.keyOf M) data h r r x h₁ ∧ Succeeds M field data h r x h₁ ∧
      Swapped M name field h h₁ b L kids r x rs ∧ Relisted M name field h₁ b L' rs h' := by
  have hstring := field.keyFromStr_eq hs.isString j
  have hk := hs.kids.kid r hr
  obtain ⟨l, hl⟩ := hk.latest
  obtain rfl : r = l := Option.some.inj (hlatest.symm.trans hl.latest)
  obtain ⟨x, h₁, hdo, hu⟩ := hk.doUpdate_updated env hl htype (field.keyOf M)
    (hkey.trans hrkey.symm) (.inr hreplaces.1)
  have hx := hu.succeeds hlatest hdata
  obtain ⟨before, later, rfl⟩ := append_of_mem hr
  have hmerged := hs.kids.mergedRefs_self
  have hswap := hx.swapped hs hr (hkey.trans hrkey.symm) (fun _ => hs.old) (by rw [hmerged]) hdata
    (by rwa [hmerged])
  have hname : h₁.nameRev x (childName name j) = h₁ := by
    rw [← hrkey, ← hs.named r hr, ← hx.name]
    exact congrArg (fun revs => { h₁ with revs }) (update_eq_self x h₁.revs)
  obtain ⟨L', h', hend, hlist⟩ := (hu.rack hs.toShelf hr).endUpdate_of_new env j hu.old
    (by rw [hx.hash, hx.revs hk.old]; exact hreplaces.2.1)
  rw [hname, if_neg hswap.gate, relisted, eraseP_of_forall_not fun r' hr' => by
    simpa [hx.revs hk.old] using hswap.undropped r' hr'] at hlist
  have hrun := hs.rootUpdate_of_present env htxid hj (hrkey.trans hstring.symm) hdo
  rw [hstring, hend] at hrun
  exact ⟨x, h₁, L', _, h', hrun, hu, hx, hswap, hlist⟩

/-- The update of a child that has the data, or of a key that is not there, saves the root. -/
theorem Labelled.rootUpdate_of_kept (hs : Labelled M name field h b L kids) (env : Env)
    (htxid : env.txid = "") (hj : Segment j) (htype : M.messages.typeOf data = field.classType)
    (hsame : ∀ r ∈ kids, h.keyAt M field r = j →
      (h.branches (h.revs r).branch).latest = some r ∧ (h.revs r).data = data) :
    rootUpdate M env (entryPath name j) data h = finalizeResult M env (some L) h := by
  have hstring := field.keyFromStr_eq hs.isString j
  obtain ⟨before, r, later, rfl, hr, hrkey⟩ | hpresent := h.middle_or_absent M field kids j
  · obtain ⟨hlatest, hdata⟩ := hsame r hr hrkey
    rw [hs.rootUpdate_of_present env htxid hj (hrkey.trans hstring.symm) (doUpdate_of_same
      (htype.trans (hs.kids.kid r hr).type.symm) hlatest (.inl hdata)),
      hs.endUpdate_of_same rfl, if_pos rfl]
  · exact hs.rootUpdate_of_absent env htxid hj (by rwa [hstring])

theorem Labelled.update_sets (hs : Labelled M name field h b L kids) (env : Env)
    (htxid : env.txid = "") (hj : Segment j)
    (htype : M.messages.typeOf data = field.classType) (hkey : field.keyOf M data = j)
    (hupdates : ∀ r ∈ h.refsAt name, h.keyAt M field r = j → h.UpdatesListed M name r data) :
    Sets M name field j ((h.dataAt M name field j).map fun _ => data) b h kids
      (after (rootUpdate M env (entryPath name j) data) h) := by
  rw [hs.refsAt] at hupdates
  by_cases hother : ∃ r ∈ kids, h.keyAt M field r = j ∧ (h.revs r).data ≠ data
  · obtain ⟨r, hr, hrkey, hdata⟩ := hother
    obtain ⟨hlatest, hreplaces⟩ := hupdates r hr hrkey
    rw [hs.refsAt] at hreplaces
    obtain ⟨x, h₁, L', rs, h₂, hrun, -, hx, hswap, hlist⟩ := hs.rootUpdate_of_other env htxid hj hr
      hrkey hlatest htype hkey hdata (hreplaces.resolve_left hdata)
    obtain ⟨h₃, hfin, hsaved⟩ := finalizeResult_saved M env (field.keyOf M) (some x) h₂
    rw [after_of_ok (hrun.trans hfin), hs.dataAt_eq_some.mpr ⟨r, hr, hrkey, rfl⟩]
    exact (hx.sets hs hr (hkey.trans hrkey.symm) hswap hlist hrkey).saved hsaved
  · push Not at hother
    obtain ⟨h₁, hfin, hsaved⟩ := finalizeResult_saved M env (field.keyOf M) (some L) h
    rw [after_of_ok ((hs.rootUpdate_of_kept env htxid hj htype fun r hr hrkey =>
      ⟨(hupdates r hr hrkey).1, hother r hr hrkey⟩).trans hfin)]
    refine (hs.sets_self ?_).saved hsaved
    cases hm : h.dataAt M name field j with
    | none => rfl
    | some d =>
      obtain ⟨r, hr, hrkey, rfl⟩ := hs.dataAt_eq_some.mp hm
      rw [hother r hr hrkey, Option.map_some]

end Aside

end VolthaCore.Nodes
