import VolthaCore.Lib.Runs
import VolthaCore.Nodes.Visibility

/-! A container of the root as a finite map from keys to data. A read is answered by the cache,
by the tree or by the store; the map is what the store has, and the cache and the tree have parts
of it. The hash of the root stays when a child is removed, so that the same child can be added
again without being listed: then the store and the cache have it, and the tree has not. -/

namespace VolthaCore.Nodes

open Outcome List Option Function AList Heap

variable {τ δ η : Type} {M : Model τ δ η} {field : ChildType τ} {h h' h₂ : Heap τ δ η}
  {b r L x : Ref} {kids : List Ref} {name k : String} {n : ℕ} {m : String → Option δ} {data : δ}
  {s : Store δ}

/-! ### Hashes of different data -/

section Hashes

variable {r' : Ref}

/-- Different contents have different hashes. -/
structure Digest.Injective (D : Digest δ η) : Prop where
  data : ∀ hasRoot, Function.Injective (D.data hasRoot)
  content : ∀ {config config' path path' hashes hashes'},
    D.content config path hashes = D.content config' path' hashes' →
      config = config' ∧ path = path' ∧ hashes = hashes'

/-- A child is the latest revision of its node, and its hashes are those of its data. -/
structure Current (M : Model τ δ η) (h : Heap τ δ η) (r : Ref) : Prop where
  latest : (h.branches (h.revs r).branch).latest = some r
  hasRoot : (h.revs r).hasRoot = false
  config : (h.revs r).config.hash = M.digest.data false (h.revs r).data
  hash : ∃ path hashes,
    (h.revs r).hash = some (M.digest.content (h.revs r).config.hash path hashes)

theorem Current.congr (hc : Current M h r) (hconfig : (h'.revs r).config = (h.revs r).config)
    (hhash : (h'.revs r).hash = (h.revs r).hash)
    (hbranch : (h'.revs r).branch = (h.revs r).branch)
    (hroot : (h'.revs r).hasRoot = (h.revs r).hasRoot)
    (hlatest : (h'.branches (h.revs r).branch).latest = (h.branches (h.revs r).branch).latest) :
    Current M h' r where
  latest := by rw [hbranch, hlatest, hc.latest]
  hasRoot := hroot.trans hc.hasRoot
  config := by
    rw [Revision.data, hconfig]
    exact hc.config
  hash := by
    rw [hhash, hconfig]
    exact hc.hash

theorem Current.of_revs (hc : Current M h r) (hrev : h'.revs r = h.revs r)
    (hbranch : h'.branches (h.revs r).branch = h.branches (h.revs r).branch) :
    Current M h' r := by
  refine hc.congr ?_ ?_ ?_ ?_ (by rw [hbranch])
  all_goals rw [hrev]

theorem Current.data_eq (hinj : M.digest.Injective) (hc : Current M h r) (hc' : Current M h r')
    (hhash : (h.revs r).hash = (h.revs r').hash) : (h.revs r).data = (h.revs r').data := by
  obtain ⟨path, hashes, heq⟩ := hc.hash
  obtain ⟨path', hashes', heq'⟩ := hc'.hash
  rw [heq, heq', Option.some.injEq] at hhash
  have hconfig := (hinj.content hhash).1
  rw [hc.config, hc'.config] at hconfig
  exact hinj.data false hconfig

theorem Kids.hashes_nodup (hk : Kids M field h b kids) (hinj : M.digest.Injective)
    (hcurrent : ∀ r ∈ kids, Current M h r) : (kids.map fun r => (h.revs r).hash).Nodup := by
  refine hk.nodup.map_on fun r hr r' hr' hhash => hk.eq_of_keyAt hr hr' ?_
  rw [keyAt, (hcurrent r hr).data_eq hinj (hcurrent r' hr') hhash, keyAt]

theorem firstHash_content (M : Model τ δ η) (hasRoot : Bool) (txid : String) (data : δ) :
    ∃ hashes, firstHash M hasRoot txid data =
      M.digest.content (M.digest.data hasRoot data) "" hashes := by
  unfold firstHash
  cases M.messages.height data <;> exact ⟨_, rfl⟩

end Hashes

/-! ### The map -/

section Maps

/-- The tree has a part of the map. -/
structure Grounded (M : Model τ δ η) (name : String) (field : ChildType τ)
    (m : String → Option δ) (h : Heap τ δ η) (b L : Ref) (rs : List Ref) :
    Prop extends Labelled M name field h b L rs where
  current : ∀ r ∈ rs, Current M h r
  listed : ∀ r ∈ rs, m (h.keyAt M field r) = some (h.revs r).data
  recorded : Recorded M h L

/-- The cache has a part of the map, and the store has the map. -/
structure Backed (M : Model τ δ η) (name : String) (field : ChildType τ) (n : ℕ)
    (m : String → Option δ) (h : Heap τ δ η) : Prop where
  cached : ∀ {k e}, h.cache (childName name k) = some e →
    h.Old e ∧ m k = some (h.revs e).data
  stored : ∃ s, h.store = some s ∧ ∀ k, (s.lookup (childName name k)).map Prod.fst = m k
  typed : ∀ {k d}, m k = some d → k.length = n ∧ '/' ∉ k.toList ∧
    M.messages.typeOf d = field.classType ∧ field.keyOf M d = k

/-- The memory and the store agree with a map from keys of the length `n` to data. -/
structure Coherent (M : Model τ δ η) (name : String) (field : ChildType τ) (n : ℕ)
    (m : String → Option δ) (h : Heap τ δ η) (b L : Ref) (rs : List Ref) :
    Prop extends Grounded M name field m h b L rs, Backed M name field n m h

/-- A container without children, of which nothing is cached or stored, is an empty map. -/
theorem coherent_of_empty (hs : Labelled M name field h b L []) (hrecorded : Recorded M h L)
    (hcache : ∀ k, h.cache (childName name k) = none) (hstore : h.store = some s)
    (hempty : ∀ k, s.lookup (childName name k) = none) (n : ℕ) :
    Coherent M name field n (fun _ => none) h b L [] where
  toGrounded := ⟨hs, nofun, nofun, hrecorded⟩
  cached {k e} he := by
    rw [hcache k] at he
    exact nomatch he
  stored := ⟨s, hstore, fun k => by rw [hempty k]; rfl⟩
  typed := nofun

theorem Grounded.saved (hg : Grounded M name field m h b L kids) (s : Store δ) (path : String)
    (x : Ref) (data : δ) : Grounded M name field m (h.saveRev s path x data) b L kids :=
  ⟨hg.of_names (mild_saveRev ..) hg.latest fun _ => rfl,
    fun r hr => (hg.current r hr).of_revs rfl rfl, hg.listed, hg.recorded⟩

/-- The root lists a child `x` with the key `k` and children with other keys. -/
theorem Grounded.relisted {L' : Ref} {rs : List Ref} (hg : Grounded M name field m h b L kids)
    (hgrows : Grows (field.keyOf M) h h₂) (hb : h₂.branches b = h.branches b)
    (hr : Relisted M name field h₂ b L' rs h') (hkids : Kids M field h₂ b rs)
    (hname : (h₂.revs x).name = childName name k) (hkey : h₂.keyAt M field x = k)
    (hdata : (h₂.revs x).data = data) (hcurrent : Current M h₂ x)
    (hmem : ∀ r ∈ rs, r = x ∨ r ∈ kids ∧ h.keyAt M field r ≠ k ∧
      h₂.branches (h.revs r).branch = h.branches (h.revs r).branch) :
    Grounded M name field (update m k (some data)) h' b L' rs := by
  have hs₂ := hg.toLabelled.grows hgrows hb
  have hold : ∀ r ∈ rs, h₂.Old r := fun r hr => (hkids.kid r hr).old
  refine ⟨hr.labelled hs₂ hkids fun r hr' => ?_, fun r hr' => ?_, fun r hr' => ?_, ?_⟩
  · obtain rfl | hr' := hmem r hr'
    · rw [hname, hkey]
    · exact hs₂.named r hr'.1
  · refine Current.of_revs ?_ (hr.revs (hold r hr')) (hr.branches _ (hkids.apart r hr'))
    obtain rfl | ⟨hr', -, hbranch⟩ := hmem r hr'
    · exact hcurrent
    · exact (hg.current r hr').of_revs (hgrows.revs (hg.old hr')) hbranch
  · rw [hr.mild.keyAt (hold r hr'), hr.revs (hold r hr')]
    obtain rfl | ⟨hr', hne, -⟩ := hmem r hr'
    · rw [hkey, update_self, hdata]
    · have hr₂ := hg.old hr'
      rw [hgrows.mild.keyAt hr₂, update_of_ne hne, hgrows.revs hr₂]
      exact hg.listed r hr'
  · obtain hsame | hnew := hr.recorded
    · obtain rfl := Option.some.inj (hs₂.latest.symm.trans hsame)
      have hg' := hgrows.trans hr.toGrows
      have hL := hg'.revs hg.old_latest
      exact hg.recorded.congr (by rw [hL]) (by rw [hL]) hg'.hash hg.old_children
    · exact hnew

variable (hb : Backed M name field n m h)
include hb

theorem Backed.lookup (hstore : h.store = some s) (k : String) :
    (s.lookup (childName name k)).map Prod.fst = m k := by
  obtain ⟨s0, hs0, hall⟩ := hb.stored
  obtain rfl : s = s0 := Option.some.inj (hstore.symm.trans hs0)
  exact hall k

theorem Backed.put {v : Option δ} {s' : Store δ}
    (hold : ∀ {r}, h.Old r → h'.Old r ∧ (h'.revs r).data = (h.revs r).data)
    (hcache : ∀ j, j ≠ k → h'.cache (childName name j) = h.cache (childName name j))
    (hcached : ∀ e, h'.cache (childName name k) = some e → h'.Old e ∧ v = some (h'.revs e).data)
    (hstore : h.store = some s) (hstore' : h'.store = some s')
    (hlookup : ∀ j, j ≠ k → s'.lookup (childName name j) = s.lookup (childName name j))
    (hlookup' : (s'.lookup (childName name k)).map Prod.fst = v)
    (htyped : ∀ d, v = some d → k.length = n ∧ '/' ∉ k.toList ∧
      M.messages.typeOf d = field.classType ∧ field.keyOf M d = k) :
    Backed M name field n (update m k v) h' where
  cached {j e} he := by
    by_cases hj : j = k
    · subst hj
      rw [update_self]
      exact hcached e he
    · rw [hcache j hj] at he
      obtain ⟨he, hdata⟩ := hb.cached he
      rw [update_of_ne hj, (hold he).2]
      exact ⟨(hold he).1, hdata⟩
  stored := by
    refine ⟨s', hstore', fun j => ?_⟩
    by_cases hj : j = k
    · rw [hj, update_self, hlookup']
    · rw [update_of_ne hj, hlookup j hj, hb.lookup hstore]
  typed {j d} hd := by
    by_cases hj : j = k
    · subst hj
      rw [update_self] at hd
      exact htyped d hd
    · rw [update_of_ne hj] at hd
      exact hb.typed hd

variable (hstore : h.store = some s) (hk : k.length = n)
include hstore hk

/-- What is stored under a path of the container belongs to the path itself. -/
theorem Backed.eq_of_begins {path : String} {blob : δ × ℕ} (hlookup : s.lookup path = some blob)
    (hbegins : (childName name k).toList <+: path.toList) :
    path = childName name k ∧ m k = some blob.1 := by
  obtain ⟨rest, hrest⟩ := hbegins
  have hpath : path = childName name (k ++ String.ofList rest) := by
    apply String.toList_inj.mp
    rw [← hrest]
    simp [childName]
  have hm : m (k ++ String.ofList rest) = some blob.1 := by
    rw [← hb.lookup hstore, ← hpath, hlookup]
    rfl
  -- keys have the same length
  have hlength := (hb.typed hm).1
  rw [String.length_append, hk, String.length_ofList] at hlength
  obtain rfl : rest = [] := length_eq_zero_iff.mp (by omega)
  rw [String.ofList_nil, String.append_empty] at hpath hm
  exact ⟨hpath, hm⟩

theorem Backed.readable_of_none (hm : m k = none) :
    readable M field (childName name k) s = [] := by
  refine eq_nil_iff_forall_not_mem.mpr fun e he => ?_
  rw [mem_readable_iff] at he
  have hsome := (hb.eq_of_begins hstore hk he.1.1 he.1.2).2
  rw [hm] at hsome
  exact nomatch hsome

theorem Backed.readable_of_some (hm : m k = some data) :
    ∃ version, readable M field (childName name k) s = [⟨childName name k, data, version⟩] := by
  have hown := hb.lookup hstore k
  rw [hm, map_eq_some_iff] at hown
  obtain ⟨⟨d, version⟩, hlookup, rfl⟩ := hown
  have hparses : Parses M field (d, version) := by
    rw [Parses, ← (hb.typed hm).2.2.1, M.messages.unmarshal_typeOf]
    rfl
  refine ⟨version, perm_singleton.mp ((perm_ext_iff_of_nodup (readable_nodup _ _)
    (nodup_singleton _)).mpr fun e => ?_)⟩
  rw [mem_readable_iff, mem_singleton]
  constructor
  · rintro ⟨⟨hpath, hbegins⟩, -⟩
    obtain ⟨path, blob⟩ := e
    obtain rfl := (hb.eq_of_begins hstore hk hpath hbegins).1
    rw [hlookup] at hpath
    cases hpath
    rfl
  · rintro rfl
    exact ⟨⟨hlookup, prefix_rfl⟩, hparses⟩

end Maps

/-! ### Reads -/

section Reads

variable {L' : Ref} {rs : List Ref}

theorem Planted.current {path : String} (hp : Planted M "" field path data h x h₂)
    (hstore : h.store.isSome = true) : Current M h₂ x := by
  have hnone : h.store.isNone = false := by rw [isNone_eq_false_iff, hstore]
  obtain ⟨hashes, hfirst⟩ := firstHash_content M h.store.isNone "" data
  refine ⟨hp.latest, hp.hasRoot.trans hnone, ?_, "", hashes, ?_⟩
  · rw [hp.same_data, hp.config, hnone]
  · rw [hp.hash, hp.config, hfirst]

theorem Grounded.plant (hg : Grounded M name field m h b L kids) (hstore : h.store.isSome = true)
    (hkey : field.keyOf M data = k) (htype : M.messages.typeOf data = field.classType)
    (habsent : ∀ r ∈ kids, h.keyAt M field r ≠ k)
    (hp : Planted M "" field (childName name k) data h x h₂)
    (hr : Relisted M name field h₂ b L' rs h') (hrs : rs = kids ∨ rs = kids ++ [x]) :
    Grounded M name field (update m k (some data)) h' b L' rs := by
  refine hg.relisted hp.toGrows (hp.branches hg.old_branch) hr ?_ hp.name (hp.keyAt.trans hkey)
    hp.same_data (hp.current hstore) fun r hr' => ?_
  · obtain rfl | rfl := hrs
    · exact hg.kids.mild hp.mild
    · exact hp.concat htype hg.kids hg.old_branch (by rwa [hkey])
  · have hmem : r = x ∨ r ∈ kids := by
      obtain rfl | rfl := hrs
      · exact .inr hr'
      · simpa [or_comm] using hr'
    exact hmem.imp_right fun hr => ⟨hr, habsent r hr, hp.branches (hg.kids.kid r hr).old_branch⟩

theorem Coherent.stamp (hc : Coherent M name field n m h b L kids) (hr : r ∈ kids)
    (now version : ℕ) : Coherent M name field n m (h.reread r now version) b L kids := by
  set h' := h.reread r now version with hh'
  have hmild : Mild (field.keyOf M) h h' := mild_reread ..
  have hhash : ∀ r', (h'.revs r').hash = (h.revs r').hash := revs_setRev Revision.hash (by rfl)
  have hname : ∀ r', (h'.revs r').name = (h.revs r').name := revs_setRev Revision.name (by rfl)
  have hroot : ∀ r', (h'.revs r').hasRoot = (h.revs r').hasRoot :=
    revs_setRev Revision.hasRoot (by rfl)
  have hold : ∀ r' ∈ kids, h.Old r' := fun _ => hc.old
  refine ⟨⟨hc.of_names hmild hc.latest fun _ => hname _, fun r' hr' => ?_, fun r' hr' => ?_, ?_⟩,
    ?_⟩
  · exact (hc.current r' hr').congr (hmild.config (hold r' hr')) (hhash r')
      (hmild.branch (hold r' hr')) (hroot r') rfl
  · rw [hmild.keyAt (hold r' hr'), hmild.data (hold r' hr')]
    exact hc.listed r' hr'
  · exact hc.recorded.congr (hhash L) (hmild.children hc.old_latest) (fun _ => hhash _)
      hc.old_children
  · -- the child has the value of its key
    obtain ⟨s, hstore, hall⟩ := hc.stored
    have hm := hc.listed r hr
    rw [← update_eq_self (h.keyAt M field r) m]
    refine hc.put (fun hr' => ⟨hmild.old hr', hmild.data hr'⟩) (fun j hj => ?_)
      (fun e he => ?_) hstore hstore (fun _ _ => rfl) (hall _) fun d => hc.typed
    · rw [hh', reread, setCache_cache, hc.named r hr,
        update_of_ne fun heq => hj (childName_injective heq)]
      rfl
    · rw [hh', reread, setCache_cache, hc.named r hr, update_self] at he
      cases he
      exact ⟨hmild.old (hold r hr), by rw [hm, hmild.data (hold r hr)]⟩

/-- What a read gives for a value of the map. -/
def Found.ofOption : Option δ → Found δ
  | none => .nothing
  | some data => .one data

variable [DecidableEq τ] [DecidableEq δ]

theorem childName_ne_empty (name k : String) : childName name k ≠ "" := fun heq => by
  simpa [childName] using congrArg String.toList heq

/-- Without its children the data of a child are those of the latest revision. -/
theorem getData_zero (hl : (h.branches (h.revs r).branch).latest = some r) :
    getData M r 0 h = .ok (h.revs r).data h := by
  have hwith : ∀ getBelow, revGetWith M getBelow 0 r h = .ok (h.revs r).data h := fun getBelow => by
    unfold revGetWith
    rw [getRev_bind, getLatest_bind hl, getRev_bind, if_pos rfl]
    rfl
  unfold getData
  rw [getRev_bind, getLatest_bind hl]
  cases M.stack
  · exact hwith _
  · exact hwith _

/-- What the tree has under the path of an entry. -/
theorem Rack.getPath_entry (hs : Rack M name field h b L kids) (hk : Segment k) (stack : ℕ) :
    getPath M stack h.root L (childName name k) 0 h = (do
      match ← findRevByKey M field.key (field.keyFromStr k) (kids.map some) with
      | none => return .nothing
      | some (_, childRev) => return .one (← getData M childRev 0) : Op τ δ η (Found δ)) h := by
  have hne := childName_ne_empty name k
  have hpart : partition (childName name k) = (name, k) := partition_slash hs.segment.whole k
  have hfilter : (some field).filter (·.isContainer) = some field := by
    rw [filter_some, if_pos hs.container]
  have hwith : ∀ getBelow, getPathWith M getBelow h.root L (childName name k) 0 h = (do
      match ← findRevByKey M field.key (field.keyFromStr k) (kids.map some) with
      | none => return .nothing
      | some (_, childRev) => return .one (← getData M childRev 0) :
        Op τ δ η (Found δ)) h := fun getBelow => by
    unfold getPathWith
    rw [if_neg hne, hpart]
    dsimp only
    rw [getRev_bind, getNode_bind, hs.lookup, hfilter]
    dsimp only
    rewrite [if_pos hs.keyed, if_pos hk.ne_empty, partition_whole hk.whole, hs.children]
    rfl
  cases stack
  · exact hwith _
  · exact hwith _

variable (hc : Coherent M name field n m h b L kids) (hk : Segment k)
include hc hk

/-- What memory has of an entry that is not cached. -/
theorem Coherent.getFromMemory_of_uncached (env : Env)
    (hcache : h.cache (childName name k) = none) :
    getFromMemory M env h.root L (childName name k) 0 h =
      .ok (if ∃ r ∈ kids, h.keyAt M field r = k then .ofOption (m k) else .nothing) h := by
  have hs := hc.toShelf
  have hstring := field.keyFromStr_eq hc.isString k
  have hmemory : getFromMemory M env h.root L (childName name k) 0 h =
      getPath M (childName name k).length h.root L (childName name k) 0 h := by
    unfold getFromMemory
    rw [cacheGet_bind, hcache]
    dsimp only
    rw [getRev_bind, hs.latest_branch, getLatest_bind hs.latest]
  rw [hmemory, hs.getPath_entry hk, hstring]
  split_ifs with hlisted
  · obtain ⟨r, hr, hkey⟩ := hlisted
    have hdata := hc.listed r hr
    have hcurrent := hc.current r hr
    obtain ⟨before, later, rfl⟩ := append_of_mem hr
    rw [bind_of_ok (findRevByKey_of_first (hs.kids.keyAt_ne_of_before hkey) hkey)]
    dsimp only
    rw [bind_of_ok (getData_zero hcurrent.latest), ← hkey, hdata]
    rfl
  · push Not at hlisted
    rw [bind_of_ok (findRevByKey_of_notMem hlisted)]
    rfl

variable [DecidableEq η]

theorem Coherent.load (hlen : k.length = n) (now : ℕ) :
    ∃ loaded h' L' kids', loadFromPersistence M ⟨"", now, true⟩ L (childName name k) "" h =
        .ok loaded h' ∧ foundData (loaded.map h'.revs) .nothing = .ofOption (m k) ∧
      Coherent M name field n m h' b L' kids' := by
  have hs := hc.toLabelled
  obtain ⟨s, hstore, hall⟩ := hc.stored
  cases hm : m k with
  | none =>
    exact ⟨[], h, L, kids, load_of_none hs hstore rfl L (hc.readable_of_none hstore hlen hm), rfl,
      hc⟩
  | some data =>
    obtain ⟨version, hone⟩ := hc.readable_of_some hstore hlen hm
    obtain ⟨-, -, htype, hkey⟩ := hc.typed hm
    have hdata : M.messages.unmarshal field.classType data = some data := by
      rw [← htype]
      exact M.messages.unmarshal_typeOf data
    have hload : loadKey M field k data = k :=
      (loadKey_eq_iff hs.toShelf hs.isString).mpr (by rw [if_neg hk.ne_empty]; exact hk.whole)
    suffices hverify : ∃ x h' L' kids', verifyPersistedEntry M ⟨"", now, true⟩ data name field.key k
        "" version h = .ok x h' ∧ (h'.revs x).data = data ∧
          Coherent M name field n m h' b L' kids' by
      obtain ⟨x, h', L', kids', hverify, hx, hc'⟩ := hverify
      exact ⟨[x], h', L', kids', load_of_verified hs.toRack hs.isString hstore rfl L hone hdata
        (by rwa [hload]), congrArg Found.one hx, hc'⟩
    obtain ⟨before, r, later, rfl, hr, hrkey⟩ | hlisted := h.middle_or_absent M field kids k
    · have hsame : (h.revs r).data = data := by
        have := hc.listed r hr
        rw [hrkey, hm] at this
        exact (Option.some.inj this).symm
      refine ⟨r, _, L, _, (bind_of_ok (hs.verifyLook_of_first (hs.kids.keyAt_ne_of_before hrkey)
        hrkey)).trans (hs.verifyWrite_keep _ fun hnew => hnew.1 hsame), ?_, hc.stamp hr now _⟩
      rw [reread_self, ← hsame]
      rfl
    · obtain ⟨x, h₂, L', rs, h', hrun, hcached, hp, hr, hrs⟩ :=
        hs.verifyWrite_missing ⟨"", now, true⟩ k "" data version fun _ => hs.old
      rw [(hs.kids.mild hp.mild).mergedRefs_concat fun r hr => by
        rw [hp.mild.keyAt (hs.old hr), hp.keyAt, hkey]
        exact hlisted r hr] at hrs
      have hg := hc.plant (by rw [hstore]; rfl) hkey htype hlisted hp hr (by
        rw [hrs]
        split_ifs
        · exact .inl rfl
        · exact .inr rfl)
      have hxdata : (h'.revs x).data = data := by rw [hr.revs hp.old, hp.same_data]
      have hcache : h'.cache = update h.cache (childName name k) (some x) := by
        rw [hr.cache (hp.rack hs.toRack).latest (by rw [hp.revs hs.old_latest, hs.root_name]),
          hcached]
      have hmild := hp.mild.trans hr.mild
      have hb : Backed M name field n (update m k (m k)) h' := by
        refine hc.put (fun hr' => ⟨hmild.old hr', hmild.data hr'⟩) (fun j hj => ?_)
          (fun e he => ?_) hstore (by rw [hr.store, hp.store, hstore]) (fun _ _ => rfl) (hall k)
          fun d => hc.typed
        · rw [hcache, update_of_ne fun heq => hj (childName_injective heq)]
        · rw [hcache, update_self] at he
          cases he
          exact ⟨hr.mild.old hp.old, by rw [hm, hxdata]⟩
      rw [← hm, update_eq_self] at hg
      rw [update_eq_self] at hb
      exact ⟨x, h', L', rs, (bind_of_ok (hs.verifyLook_of_absent hlisted)).trans hrun, hxdata, hg,
        hb⟩

theorem Coherent.get (hlen : k.length = n) (now : ℕ) :
    ∃ h' L' kids', rootGet M ⟨"", now, true⟩ (entryPath name k) 0 false h =
        .ok (.ofOption (m k)) h' ∧ Coherent M name field n m h' b L' kids' := by
  have hs := hc.toRack
  obtain ⟨s, hstore, -⟩ := hc.stored
  obtain ⟨loaded, h', L', kids', hload, hfound, hc'⟩ := hc.load hk hlen now
  have hloaded : (do
      let loaded ← loadFromPersistence M ⟨"", now, true⟩ L (childName name k) ""
      return foundData (← getRevs loaded) .nothing : Op τ δ η (Found δ)) h =
        .ok (.ofOption (m k)) h' := by
    rw [bind_of_ok hload, ← hfound]
    rfl
  cases hcache : h.cache (childName name k) with
  | some e =>
    by_cases hfresh : isFresh ⟨"", now, true⟩ (h.revs e) = true
    · refine ⟨h, L, kids, ?_, hc⟩
      rw [hs.rootGet_of_fresh rfl hcache hfresh, (hc.cached hcache).2]
      rfl
    · refine ⟨h', L', kids', ?_, hc'⟩
      rw [hs.rootGet_of_expired rfl hcache (by simpa using hfresh) hstore, hloaded]
  | none =>
    have hmemory := hc.getFromMemory_of_uncached hk ⟨"", now, true⟩ hcache
    by_cases hlisted : ∃ r ∈ kids, h.keyAt M field r = k
    · refine ⟨h, L, kids, ?_, hc⟩
      obtain ⟨r, hr, hkey⟩ := hlisted
      rw [if_pos ⟨r, hr, hkey⟩] at hmemory
      have hdata := hc.listed r hr
      rw [hkey] at hdata
      rw [hs.rootGet_entry rfl, bind_of_ok hmemory, hdata]
      rfl
    · refine ⟨h', L', kids', ?_, hc'⟩
      have hget : getStore h = .ok (some s) h := by
        rw [← hstore]
        rfl
      rw [if_neg hlisted] at hmemory
      rw [hs.rootGet_entry rfl, bind_of_ok hmemory, ← hloaded]
      exact bind_of_ok hget

end Reads

/-! ### Writes -/

section Writes

variable {before later : List Ref}

theorem Backed.save (hb : Backed M name field n m h)
    (hold : ∀ {r}, h.Old r → h₂.Old r ∧ (h₂.revs r).data = (h.revs r).data)
    (hcache : ∀ j, j ≠ k → h₂.cache (childName name j) = h.cache (childName name j))
    (hstore : h.store = some s) (hx : h₂.Old x) (hdata : (h₂.revs x).data = data)
    (htyped : k.length = n ∧ '/' ∉ k.toList ∧ M.messages.typeOf data = field.classType ∧
      field.keyOf M data = k) :
    Backed M name field n (update m k (some data))
      (h₂.saveRev s (childName name k) x data) := by
  refine hb.put hold (fun j hj => ?_) (fun e he => ?_) hstore rfl (fun j hj => ?_) ?_
    fun d hd => ?_
  · have hne : childName name j ≠ childName name k := fun heq => hj (childName_injective heq)
    exact (update_of_ne hne ..).trans (hcache j hj)
  · rw [saveRev, setStore_cache, setCache_cache, update_self] at he
    cases he
    exact ⟨hx, congrArg some hdata.symm⟩
  · exact lookup_insert_ne fun heq => hj (childName_injective heq)
  · rw [Store.put, lookup_insert]
    rfl
  · cases hd
    exact htyped

theorem Coherent.saveRoot (hc : Coherent M name field n m h b L kids) (hstore : h.store = some s)
    (x : Ref) (data : δ) :
    Coherent M name field n m (h.saveRev s "" x data) b L kids := by
  have hcache : ∀ j, update h.cache "" (some x) (childName name j) =
      h.cache (childName name j) := fun j => update_of_ne (childName_ne_empty name j) ..
  have hlookup : ∀ j, (s.put "" data).lookup (childName name j) = s.lookup (childName name j) :=
    fun j => lookup_insert_ne (childName_ne_empty name j)
  refine ⟨hc.toGrounded.saved .., ?_, ⟨_, rfl, fun j => by rw [hlookup, hc.toBacked.lookup hstore]⟩,
    hc.typed⟩
  intro j e he
  rw [saveRev, setStore_cache, setCache_cache, hcache] at he
  exact hc.cached he

/-- The recorded hash of the root is not that of as many children with other hashes. -/
theorem Recorded.rootHash_ne {hashes : List η} (hr : Recorded M h L) (hinj : M.digest.Injective)
    (hchildren : ((h.revs L).getChildren name).entries = kids.map some)
    (hlength : hashes.length = (kids.filterMap fun r => (h.revs r).hash).length)
    (hne : hashes ≠ kids.filterMap fun r => (h.revs r).hash) :
    some (M.rootHash h L name hashes) ≠ (h.revs L).hash := by
  obtain ⟨config, path, covered, hhash, hcovers⟩ := hr
  obtain ⟨first, last, hsplit⟩ := hashesWith_split h (h.revs L).children name
  rw [hhash, Model.rootHash, ne_eq, Option.some.injEq]
  intro heq
  have hsame := (hinj.content heq).2.2
  rw [hashesOf_children hchildren, ← hsame, hsplit, hsplit] at hcovers
  rcases hcovers with hcovers | hcovers
  · exact hne (append_cancel_left (append_cancel_right hcovers))
  · simp only [length_append] at hcovers
    omega

variable [DecidableEq η]

theorem Coherent.remove (hc : Coherent M name field n m h b L kids) (hk : Segment k)
    (hagrees : m k ≠ none → ∃ r ∈ kids, h.keyAt M field r = k) (now : ℕ) :
    ∃ L' kids', Coherent M name field n (update m k none)
      (after (rootRemove M ⟨"", now, true⟩ (entryPath name k)) h) b L' kids' := by
  have hs := hc.toLabelled
  have hstring := field.keyFromStr_eq hs.isString k
  obtain ⟨before, r, later, rfl, hr, hkey⟩ | hlisted := h.middle_or_absent M field kids k
  · rw [after_of_ok (hs.rootRemove_of_present ⟨"", now, true⟩ rfl hk
      (hkey.trans hstring.symm)), hs.named r hr, hkey]
    obtain ⟨s, hstore, -⟩ := hc.stored
    set h' := (h.dropEntry ⟨"", now, true⟩ (childName name k)).setKids L name (before ++ later)
      with hh'
    have hsub : (before ++ later).Sublist (before ++ r :: later) :=
      (sublist_cons_self r later).append_left before
    have hrevs : ∀ r' ∈ before ++ later, h'.revs r' = h.revs r' := fun r' hr' => by
      rw [hh', setKids_of_ne (hs.ne_latest (hsub.subset hr')), dropEntry_revs]
    have hconfig : ∀ r', (h'.revs r').config = (h.revs r').config := fun r' => by
      rw [hh', setKids_config, dropEntry_revs]
    have hbranches : h'.branches = h.branches := dropEntry_branches ..
    refine ⟨L, before ++ later, ⟨hs.dropChild _ _, fun r' hr' => ?_, fun r' hr' => ?_, ?_⟩, ?_⟩
    · exact (hc.current r' (hsub.subset hr')).of_revs (hrevs r' hr') (by rw [hbranches])
    · have hne : h.keyAt M field r' ≠ k := fun heq =>
        ne_of_mem_middle hs.kids.nodup hr'
          (hs.kids.eq_of_keyAt (hsub.subset hr') hr (heq.trans hkey.symm))
      rw [keyAt_congr (hconfig r'), update_of_ne hne, hrevs r' hr']
      exact hc.listed r' (hsub.subset hr')
    · have hdropped : Recorded M (h.dropEntry ⟨"", now, true⟩ (childName name k)) L := by
        unfold Recorded hashesOf
        rw [dropEntry_revs]
        exact hc.recorded
      refine hdropped.setKids ?_ hsub
      rw [dropEntry_revs]
      exact hs.children
    · have hcache : h'.cache = update h.cache (childName name k) none :=
        dropEntry_cache ..
      have hstore' : h'.store = some (s.delete (childName name k)) :=
        congrArg (Option.map (Store.delete (childName name k))) hstore
      refine hc.put (fun {r'} hr' => ⟨?_, congrArg DataRevision.data (hconfig r')⟩)
        (fun j hj => ?_) (fun e he => ?_) hstore hstore' (fun j hj => ?_) ?_
        fun _ hv => ?_
      · exact (mild_dropEntry h ⟨"", now, true⟩ (childName name k) :
          Mild (field.keyOf M) h _).old hr'
      · rw [hcache, update_of_ne fun heq => hj (childName_injective heq)]
      · rw [hcache, update_self] at he
        cases he
      · exact lookup_erase_ne fun heq => hj (childName_injective heq)
      · rw [Store.delete, lookup_erase]
        rfl
      · cases hv
  · -- the key is not in the map either
    have hm : m k = none := by_contra fun hne =>
      (hagrees hne).elim fun r hr => hlisted r hr.1 hr.2
    rw [hs.rootRemove_of_absent ⟨"", now, true⟩ rfl hk.whole fun _ => by rwa [hstring], ← hm,
      update_eq_self]
    exact ⟨L, kids, hc⟩

variable [DecidableEq δ]

theorem Coherent.add (hc : Coherent M name field n m h b L kids)
    (hk : Segment (field.keyOf M data)) (hlen : (field.keyOf M data).length = n)
    (htype : M.messages.typeOf data = field.classType)
    (hagrees : m (field.keyOf M data) ≠ none → ∃ r ∈ kids,
      h.keyAt M field r = field.keyOf M data) (now : ℕ) :
    ∃ L' kids', Coherent M name field n
      (if (m (field.keyOf M data)).isSome then m
        else update m (field.keyOf M data) (some data))
      (after (rootAdd M ⟨"", now, true⟩ (containerPath name) data) h) b L' kids' := by
  have hs := hc.toLabelled
  obtain ⟨s, hstore, -⟩ := hc.stored
  have hstring : M.messages.attributeString field.key data = field.keyOf M data :=
    M.messages.attributeString_eq hs.lookup hs.isString data
  set k := field.keyOf M data with hkey
  obtain ⟨before, r, later, rfl, hr, hrkey⟩ | hlisted := h.middle_or_absent M field kids k
  · have hm := hc.listed r hr
    rw [hrkey] at hm
    have hkid := hs.kids.kid r hr
    have hfin : finalizeResult M ⟨"", now, true⟩ (some r) h = _ :=
      finalizeResult_of_stored hstore rfl hkid.txid
    rw [hs.named r hr, hrkey] at hfin
    rw [after_of_ok ((hs.rootAdd_apply ⟨"", now, true⟩ rfl
      (hs.addChild_of_present _ (hrkey.trans hstring.symm))).trans hfin),
      if_pos (by rw [hm]; rfl)]
    have hsame : ∀ {r}, h.Old r → h.Old r ∧ (h.revs r).data = (h.revs r).data := fun hr => ⟨hr, rfl⟩
    have hb := hc.save hsame (fun _ _ => rfl) hstore hkid.old rfl (hc.typed hm)
    rw [← hm, update_eq_self] at hb
    exact ⟨L, _, hc.toGrounded.saved .., hb⟩
  · have hm : m k = none := by_contra fun hne =>
      (hagrees hne).elim fun r hr => hlisted r hr.1 hr.2
    obtain ⟨x, h₁, L', h₂, hrun, hcache, hp, -, hr⟩ :=
      hs.rootAdd_of_absent ⟨"", now, true⟩ rfl htype hlisted
    rw [hstring] at hp
    have hg := hc.plant (by rw [hstore]; rfl) rfl htype hlisted hp hr (by
      split_ifs
      · exact .inl rfl
      · exact .inr rfl)
    have hmild : Mild (field.keyOf M) h h₂ := hp.mild.trans hr.mild
    have hx := hr.revs hp.old
    have hfin : finalizeResult M ⟨"", now, true⟩ (some x) h₂ = _ :=
      finalizeResult_of_stored (by rw [hr.store, hp.store, hstore]) rfl
        ((hp.kid rfl htype).mild hr.mild).txid
    rw [hx, hp.name, hp.same_data] at hfin
    rw [after_of_ok (hrun.trans hfin), if_neg (by rw [hm]; exact Bool.false_ne_true)]
    refine ⟨L', _, hg.saved .., hc.save (fun hr' => ⟨hmild.old hr', hmild.data hr'⟩)
      (fun j _ => ?_) hstore (hr.mild.old hp.old) (by rw [hx, hp.same_data])
      ⟨hlen, hk.whole, htype, rfl⟩⟩
    rw [hr.cache (hp.rack hs.toRack).latest (by rw [hp.revs hs.old_latest, hs.root_name]), hcache]

omit [DecidableEq η] [DecidableEq δ] in
/-- Other data have another hash, and so have the revision and the root with it. -/
theorem Grounded.replaces (hinj : M.digest.Injective) (hg : Grounded M name field m h b L kids)
    (hr : r ∈ kids) (hdata : (h.revs r).data ≠ data) : h.Replaces M name kids r data := by
  have hc := hg.current r hr
  have hdigest : M.digest.data (h.revs r).hasRoot data ≠ (h.revs r).config.hash := by
    rw [hc.hasRoot, hc.config]
    exact fun heq => hdata (hinj.data false heq).symm
  obtain ⟨path, hashes, hhash⟩ := hc.hash
  obtain ⟨path', hashes', hredone⟩ : ∃ path hashes, h.redoneHash M r data = some
      (M.digest.content (M.digest.data (h.revs r).hasRoot data) path hashes) := by
    rw [Heap.redoneHash, hc.latest]
    exact ⟨_, _, rfl⟩
  have hne : h.redoneHash M r data ≠ (h.revs r).hash := by
    rw [hredone, hhash]
    exact fun heq => hdigest (hinj.content (Option.some.inj heq)).1
  refine ⟨hdigest, hne, ?_, ?_⟩
  · rw [Heap.HashesDiffer, hg.refsAt]
    exact hg.kids.hashes_nodup hinj hg.current
  · -- the lists of hashes differ in one place
    rw [hg.recordedHash, hg.hashListing]
    obtain ⟨before, later, rfl⟩ := append_of_mem hr
    have hother : ∀ rs : List Ref, (∀ r' ∈ rs, r' ∈ before ++ later) →
        (rs.filterMap fun r' => if r' = r then h.redoneHash M r data else (h.revs r').hash) =
          rs.filterMap fun r' => (h.revs r').hash := fun rs hrs =>
      filterMap_congr fun r' hr' => if_neg (ne_of_mem_middle hg.kids.nodup (hrs r' hr'))
    refine (hg.recorded.rootHash_ne hinj hg.children ?_ ?_).symm
    all_goals rw [filterMap_append, filterMap_append, filterMap_cons, filterMap_cons, if_pos rfl,
      hother before fun _ => mem_append_left _, hother later fun _ => mem_append_right _, hredone,
      hhash]
    · simp
    · rw [hredone, hhash] at hne
      exact fun heq => hne (congrArg some (List.cons.inj (append_cancel_left heq)).1)

variable [DecidableEq τ]

theorem Coherent.replaced (hinj : M.digest.Injective)
    (hc : Coherent M name field n m h b L kids) (hk : Segment k)
    (htype : M.messages.typeOf data = field.classType) (hkey : field.keyOf M data = k)
    (hr : r ∈ kids) (hrkey : h.keyAt M field r = k) (hdata : (h.revs r).data ≠ data) (now : ℕ) :
    ∃ L' kids', Coherent M name field n (update m k (some data))
      (after (rootUpdate M ⟨"", now, true⟩ (entryPath name k) data) h) b L' kids' := by
  have hs := hc.toLabelled
  have hcurrent := hc.current r hr
  have hreplaces := hc.replaces hinj hr hdata
  obtain ⟨s, hstore, -⟩ := hc.stored
  have hname : (h.revs r).name = childName name k := by rw [hs.named r hr, hrkey]
  obtain ⟨x, h₁, L', rs, h₂, hrun, hu, hx, hswap, hlist⟩ := hs.rootUpdate_of_other ⟨"", now, true⟩
    rfl hk hr hrkey hcurrent.latest htype hkey hdata hreplaces
  have hrev := hu.rev
  rw [updatedRev, if_neg hdata] at hrev
  have hstamped : h.Stamped M r data := ⟨hdata, by
    have := hreplaces.2.1
    rwa [redoneHash, hcurrent.latest] at this, by rw [hname]; exact childName_ne_empty name k⟩
  obtain ⟨hxlatest, hcache⟩ := hu.stamped hstamped
  have hxcurrent : Current M h₁ x := by
    refine ⟨by rw [hx.branch, hxlatest], ?_, ?_, ?_⟩
    all_goals rw [hrev]
    · exact hcurrent.hasRoot
    · exact congrArg (fun hasRoot => M.digest.data hasRoot data) hcurrent.hasRoot
    · exact ⟨_, _, rfl⟩
  have hb := hx.branches b fun heq => hs.kids.apart r hr heq.symm
  have hg := hc.relisted hx.toGrows hb hlist hswap.listed (hx.name.trans hname)
    (by rw [keyAt, hx.same_data, hkey]) hx.same_data hxcurrent fun r' hr' =>
      (hswap.cases r' hr').imp_right fun h => ⟨h.1,
        fun heq => h.2 (hs.kids.eq_of_keyAt h.1 hr (heq.trans hrkey.symm)),
        hx.branches _ fun heq => h.2 (hs.kids.eq_of_branch h.1 hr heq)⟩
  have hrevs := hlist.revs hx.old
  have hfin : finalizeResult M ⟨"", now, true⟩ (some x) h₂ = _ :=
    finalizeResult_of_stored (hlist.store.trans (hx.store.trans hstore)) rfl
      ((hswap.listed.kid x hswap.mem).mild hlist.mild).txid
  rw [hrevs, hx.name, hname, hx.same_data] at hfin
  have hmild : Mild (field.keyOf M) h h₂ := hx.mild.trans hlist.mild
  rw [after_of_ok (hrun.trans hfin)]
  refine ⟨_, _, hg.saved .., hc.save (fun hr' => ⟨hmild.old hr', hmild.data hr'⟩)
    (fun j hj => ?_) hstore (hlist.mild.old hx.old) (by rw [hrevs, hx.same_data]) ?_⟩
  · rw [hlist.cache (by rw [hb]; exact hs.latest) (by rw [hx.revs hs.old_latest, hs.root_name]),
      hcache, hname, update_of_ne fun heq => hj (childName_injective heq)]
  · have hm := hc.listed r hr
    rw [hrkey] at hm
    exact ⟨(hc.typed hm).1, hk.whole, htype, hkey⟩

theorem Coherent.update (hinj : M.digest.Injective) (hc : Coherent M name field n m h b L kids)
    (hk : Segment k) (htype : M.messages.typeOf data = field.classType)
    (hkey : field.keyOf M data = k)
    (hagrees : m k ≠ none → ∃ r ∈ kids, h.keyAt M field r = k) (now : ℕ) :
    ∃ L' kids', Coherent M name field n
      (if (m k).isSome then update m k (some data) else m)
      (after (rootUpdate M ⟨"", now, true⟩ (entryPath name k) data) h) b L' kids' := by
  have hs := hc.toLabelled
  obtain ⟨s, hstore, -⟩ := hc.stored
  by_cases hother : ∃ r ∈ kids, h.keyAt M field r = k ∧ (h.revs r).data ≠ data
  · obtain ⟨r, hr, hrkey, hdata⟩ := hother
    have hm := hc.listed r hr
    rw [hrkey] at hm
    rw [if_pos (by rw [hm]; rfl)]
    exact hc.replaced hinj hk htype hkey hr hrkey hdata now
  · -- nothing changes, and the revision of the root is saved
    push Not at hother
    have hfin : finalizeResult M ⟨"", now, true⟩ (some L) h = _ :=
      finalizeResult_of_stored hstore rfl (by rw [hs.latest_branch]; exact hs.txid)
    rw [hs.root_name] at hfin
    rw [after_of_ok ((hs.rootUpdate_of_kept ⟨"", now, true⟩ rfl hk htype fun r hr hrkey =>
      ⟨(hc.current r hr).latest, hother r hr hrkey⟩).trans hfin)]
    have hm : (if (m k).isSome then Function.update m k (some data) else m) = m := by
      split_ifs with hsome
      · obtain ⟨r, hr, hrkey⟩ := hagrees (isSome_iff_ne_none.mp hsome)
        rw [← hother r hr hrkey, ← hc.listed r hr, hrkey, update_eq_self]
      · rfl
    rw [hm]
    exact ⟨L, kids, hc.saveRoot hstore L _⟩

end Writes

/-! ### Requests -/

section Requests

variable [DecidableEq τ] [DecidableEq δ] [DecidableEq η]

/-- A request to a container, at some time: a change of it, or `Get(/c/key)`. -/
inductive Request (δ : Type) where
  | change (now : ℕ) (change : Change δ)
  | get (now : ℕ) (key : String)

/-- The memory and the map after a request. -/
def requestStep (M : Model τ δ η) (name : String) (field : ChildType τ)
    (s : Heap τ δ η × (String → Option δ)) : Request δ → Heap τ δ η × (String → Option δ)
  | .change now change =>
    (callStep M name s.1 ⟨now, true, change⟩, change.onMap M field s.2)
  | .get now key =>
    (after (rootGet M ⟨"", now, true⟩ (entryPath name key) 0 false) s.1, s.2)

/-- The data are of the type of the container, an update carries the key it addresses, and keys
have the length `n` and no slash. -/
def Request.Fits (M : Model τ δ η) (field : ChildType τ) (n : ℕ) : Request δ → Prop
  | .change _ c => c.Fits M field ∧ '/' ∉ (c.key M field).toList ∧ (c.key M field).length = n
  | .get _ key => '/' ∉ key.toList ∧ key.length = n

/-- What is needed for a request: the key is not empty, and the root lists the key of a change
when the store has it. -/
def Request.Meets (M : Model τ δ η) (name : String) (field : ChildType τ) (h : Heap τ δ η) :
    Request δ → Prop
  | .change _ c => c.key M field ≠ "" ∧
      ((h.store.bind (·.lookup (childName name (c.key M field)))).isSome = true →
        some (c.key M field) ∈ h.keysAt M name field)
  | .get _ key => key ≠ ""

instance (M : Model τ δ η) (field : ChildType τ) (n : ℕ) (request : Request δ) :
    Decidable (request.Fits M field n) :=
  match request with
  | .change _ _ => inferInstanceAs (Decidable (_ ∧ _ ∧ _))
  | .get _ _ => inferInstanceAs (Decidable (_ ∧ _))

instance (M : Model τ δ η) (name : String) (field : ChildType τ) (h : Heap τ δ η)
    (request : Request δ) : Decidable (request.Meets M name field h) :=
  match request with
  | .change _ _ => inferInstanceAs (Decidable (_ ∧ (_ → _)))
  | .get _ _ => inferInstanceAs (Decidable (_ ≠ _))

theorem Coherent.change (hinj : M.digest.Injective) (hc : Coherent M name field n m h b L kids)
    {now : ℕ} {change : Change δ} (hfits : (Request.change now change).Fits M field n)
    (hmeets : (Request.change now change).Meets M name field h) :
    ∃ L' kids', Coherent M name field n (change.onMap M field m)
      (callStep M name h ⟨now, true, change⟩) b L' kids' := by
  obtain ⟨hfits, hslash, hlen⟩ := hfits
  obtain ⟨hne, hagrees⟩ := hmeets
  have hlisted : m (change.key M field) ≠ none →
      ∃ r ∈ kids, h.keyAt M field r = change.key M field := fun hm => by
    obtain ⟨s, hstore, hall⟩ := hc.stored
    refine hc.mem_keysAt.mp (hagrees ?_)
    rw [hstore, bind_some, ← isSome_map, hall, isSome_iff_ne_none]
    exact hm
  cases change with
  | add data => exact hc.add ⟨hne, hslash⟩ hlen hfits hlisted now
  | update key data =>
    exact hc.update hinj ⟨hne, hslash⟩ hfits.2.1
      (hfits.2.2.trans (field.keyFromStr_eq hc.isString key)) hlisted now
  | remove key => exact hc.remove ⟨hne, hslash⟩ hlisted now

theorem Coherent.step {s : Heap τ δ η × (String → Option δ)} {request : Request δ}
    (hinj : M.digest.Injective) (hc : Coherent M name field n s.2 s.1 b L kids)
    (hfits : request.Fits M field n) (hmeets : request.Meets M name field s.1) :
    ∃ L' kids', Coherent M name field n (requestStep M name field s request).2
      (requestStep M name field s request).1 b L' kids' := by
  cases request with
  | change now c => exact hc.change hinj hfits hmeets
  | get now key =>
    obtain ⟨h', L', kids', hget, hc'⟩ := hc.get ⟨hmeets, hfits.1⟩ hfits.2 now
    rw [requestStep, after_of_ok hget]
    exact ⟨L', kids', hc'⟩

/-- After a run in which every request meets its condition, a read of any key, at any time, gives
its value in the map. -/
theorem reads_follow_map (hinj : M.digest.Injective) (hc : Coherent M name field n m h b L kids)
    {requests : List (Request δ)} (hfits : ∀ request ∈ requests, request.Fits M field n)
    (hmeets : Runs.Along (requestStep M name field)
      (fun s request => request.Meets M name field s.1) requests (h, m)) :
    let s := Runs.run (requestStep M name field) requests (h, m)
    ∀ k now, Segment k → k.length = n →
      ∃ h', rootGet M ⟨"", now, true⟩ (entryPath name k) 0 false s.1 =
        .ok (.ofOption (s.2 k)) h' := by
  obtain ⟨L', kids', hc'⟩ := Runs.run_invariant
    (P := fun s => ∃ L kids, Coherent M name field n s.2 s.1 b L kids)
    (fun _ _ hreq ⟨_, _, hc⟩ => hc.step hinj hreq.1 hreq.2)
    ((Runs.along_of_forall hfits _).and hmeets) ⟨L, kids, hc⟩
  intro s k now hk hlen
  obtain ⟨h', -, -, hget, -⟩ := hc'.get hk hlen now
  exact ⟨h', hget⟩

theorem deviceModel_injective : deviceModel.digest.Injective where
  data _ _ _ heq := (DeviceHash.data.inj heq).2
  content {_ _ _ _ hashes hashes'} heq := by
    have hfoldr : ∀ hashes hashes' : List DeviceHash,
        hashes.foldr DeviceHash.cons .nil = hashes'.foldr .cons .nil → hashes = hashes' := by
      intro hashes
      induction hashes with
      | nil =>
        rintro (_ | _) heq
        · rfl
        · exact nomatch heq
      | cons hash hashes ih =>
        rintro (_ | ⟨hash', hashes'⟩) heq
        · exact nomatch heq
        · obtain ⟨rfl, htail⟩ := DeviceHash.cons.inj heq
          rw [ih hashes' htail]
    obtain ⟨hconfig, hpath, hhashes⟩ := DeviceHash.content.inj heq
    exact ⟨hconfig, hpath, hfoldr hashes hashes' hhashes⟩

theorem coherent_volthaHeap (n : ℕ) : Coherent deviceModel "devices" deviceField n (fun _ => none)
    (volthaHeap ∅) ⟨"", 1⟩ ⟨"", 2⟩ [] :=
  coherent_of_empty (labelled_volthaHeap ∅) ⟨_, _, [], rfl, .inl rfl⟩ (fun _ => rfl) rfl
    (fun _ => rfl) n

/-- The devices `1` and `2` are added and changed, and reads find the entries expired. -/
theorem reads_follow_devices :
    let s := Runs.run (requestStep deviceModel "devices" deviceField)
      [.change 0 (.add (.device "1" 0)), .change 1 (.add (.device "2" 0)),
        .change 2 (.update "1" (.device "1" 1)), .get 9000 "1", .change 9001 (.remove "2"),
        .change 9002 (.add (.device "1" 2)), .get 20000 "2"] (volthaHeap ∅, fun _ => none)
    ∀ k now, Segment k → k.length = 1 →
      ∃ h', rootGet deviceModel ⟨"", now, true⟩ (entryPath "devices" k) 0 false s.1 =
        .ok (.ofOption (s.2 k)) h' :=
  reads_follow_map deviceModel_injective (coherent_volthaHeap 1) (by decide) (by decide +kernel)

/-- What a read of the device `1` gives after a run, and what the map has. -/
def runResult (requests : List (Request DeviceMessage)) :
    Found DeviceMessage × Option DeviceMessage :=
  let s := Runs.run (requestStep deviceModel "devices" deviceField) requests
    (volthaHeap ∅, fun _ => none)
  (match rootGet deviceModel ⟨"", 10, true⟩ (entryPath "devices" "1") 0 false s.1 with
    | .ok found _ => found
    | .error _ _ => .nothing, s.2 "1")

/-- The device `1` is removed and added again as it was. The root does not list it, so that an
update or a removal does not find it, and a read still gives it. -/
theorem reads_lost_changes :
    runResult [.change 0 (.add (.device "1" 0)), .change 1 (.remove "1"),
        .change 2 (.add (.device "1" 0)), .change 3 (.update "1" (.device "1" 1))] =
      (.one (.device "1" 0), some (.device "1" 1)) ∧
    runResult [.change 0 (.add (.device "1" 0)), .change 1 (.remove "1"),
        .change 2 (.add (.device "1" 0)), .change 3 (.remove "1")] =
      (.one (.device "1" 0), none) := by
  decide +kernel

end Requests

end VolthaCore.Nodes
