import VolthaCore.Lib.Runs
import VolthaCore.Nodes.OtherKeys

/-! Calls on one key of a container while another entry is reloaded from the store. A reload copies
the children of the root in a first step and writes the merge of this copy with the listed
children in a second one, so that a call between the two can be undone. -/

namespace VolthaCore.Nodes

open Outcome List

variable {τ δ η : Type} {M : Model τ δ η} {name j : String} {field : ChildType τ}
  {h h' : Heap τ δ η} {b L r x : Ref} {kids : List Ref}

/-! ### Copies of the children -/

section Copies

variable {k : String} {kids' copy : List Ref} {data : δ} {found : Option (ℕ × Ref)}

/-- What is known of the children that a reload of the key `k` has copied, while calls on the key
`j` are made: they are the listed ones, `j` apart. -/
structure Copied (M : Model τ δ η) (name : String) (field : ChildType τ) (j k : String)
    (h : Heap τ δ η) (kids copy : List Ref) (found : Option (ℕ × Ref)) : Prop where
  old : ∀ r ∈ copy, h.Old r
  named : ∀ r ∈ copy, (h.revs r).name = childName name (h.keyAt M field r)
  keys : (copy.map (h.keyAt M field)).Nodup
  others : ∀ {r}, h.keyAt M field r ≠ j → (r ∈ copy ↔ r ∈ kids)
  found_none : found = none → ∀ r ∈ copy, h.keyAt M field r ≠ k
  found_some : ∀ idx r, found = some (idx, r) → h.keyAt M field r = k ∧
    ∃ before later, copy = before ++ r :: later ∧ idx = before.length

theorem Copied.aside (hc : Copied M name field j k h kids copy found)
    (hs : Labelled M name field h b L kids) (ha : Aside M field j h kids h' kids') :
    Copied M name field j k h' kids' copy found := by
  have hkey : ∀ r ∈ copy, h'.keyAt M field r = h.keyAt M field r := fun r hr =>
    keyAt_congr (ha.config (hc.old r hr))
  refine ⟨fun r hr => ha.old (hc.old r hr), fun r hr => ?_, ?_, fun {r} hne => ?_,
    fun hnone r hr => ?_, fun idx r hfound => ?_⟩
  · rw [hkey r hr, ha.name (hc.old r hr), hc.named r hr]
  · rw [map_congr_left hkey]
    exact hc.keys
  · rw [ha.others hne]
    constructor
    · intro hr
      exact (hc.others (by rwa [← hkey r hr])).mp hr
    · intro hr
      exact (hc.others (by rwa [← keyAt_congr (ha.config (hs.old hr))])).mpr hr
  · rw [hkey r hr]
    exact hc.found_none hnone r hr
  · obtain ⟨hk, before, later, hcopy, hidx⟩ := hc.found_some idx r hfound
    rw [hkey r (by simp [hcopy])]
    exact ⟨hk, before, later, hcopy, hidx⟩

variable (hs : Labelled M name field h b L kids)
include hs

theorem Labelled.verifyLook_copied (j k : String) :
    ∃ found, verifyLook M name field.key k h = .ok (kids.map some, found) h ∧
      Copied M name field j k h kids kids found := by
  have hold : ∀ r ∈ kids, h.Old r := fun _ => hs.old
  obtain ⟨before, r, later, rfl, hr, hkey⟩ | hpresent := h.middle_or_absent M field kids k
  · refine ⟨_, hs.verifyLook_of_first (hs.kids.keyAt_ne_of_before hkey) hkey,
      hold, hs.named, hs.kids.keys, fun _ => .rfl, nofun, fun idx r' hfound => ?_⟩
    cases hfound
    exact ⟨hkey, before, later, rfl, rfl⟩
  · exact ⟨none, hs.verifyLook_of_absent hpresent, hold, hs.named, hs.kids.keys,
      fun _ => .rfl, fun _ => hpresent, nofun⟩

variable [DecidableEq δ]

/-- When what was copied of `j` is still there, the merge with the copy keeps all children. -/
theorem Labelled.mergedRefs_perm (hc : Copied M name field j k h kids copy found)
    (hj : ∀ r ∈ copy, h.keyAt M field r = j → h.dataAt M name field j = some (h.revs r).data) :
    (mergedRefs h kids copy).Perm kids := by
  have hkept : ∀ r ∈ copy, keptRef h kids r ∈ kids := fun r hr => by
    by_cases hkey : h.keyAt M field r = j
    · obtain ⟨r', hr', hkey', hdata⟩ := hs.dataAt_eq_some.mp (hj r hr hkey)
      have hname : (h.revs r').name = (h.revs r).name := by
        rw [hs.named r' hr', hc.named r hr, hkey', hkey]
      obtain ⟨old, hfind⟩ : ∃ old,
          (kids.reverse.find? fun old => (h.revs old).name = (h.revs r).name) = some old :=
        Option.isSome_iff_exists.mp
          (find?_isSome.mpr ⟨r', mem_reverse.mpr hr', by simpa using hname⟩)
      have hold : old ∈ kids := mem_reverse.mp (mem_of_find?_eq_some hfind)
      have hname' : (h.revs old).name = (h.revs r).name := by simpa using find?_some hfind
      obtain rfl : old = r' := hs.kids.eq_of_keyAt hold hr' (childName_injective
        (by rw [← hs.named old hold, ← hs.named r' hr', hname, hname']))
      unfold keptRef
      rw [hfind]
      dsimp only
      rwa [if_pos hdata]
    · have hmem := (hc.others hkey).mp hr
      rwa [hs.kids.keptRef_of_mem hmem]
  have hkey : ∀ r, h.keyAt M field (keptRef h kids r) = h.keyAt M field r := fun r => by
    rw [Heap.keyAt, data_keptRef, Heap.keyAt]
  have hnodup : (copy.map (keptRef h kids)).Nodup := by
    refine List.Nodup.of_map (h.keyAt M field) ?_
    rw [map_map, show h.keyAt M field ∘ keptRef h kids = h.keyAt M field from funext hkey]
    exact hc.keys
  refine (perm_ext_iff_of_nodup ?_ hs.kids.nodup).mpr fun r => ?_
  · refine (hs.kids.nodup.filter _).append hnodup fun r hr hr' => ?_
    obtain ⟨r', hmem, rfl⟩ := mem_map.mp hr'
    have hnone := (mem_filter.mp hr).2
    rw [decide_eq_true_eq] at hnone
    exact hnone r' hmem (name_keptRef h kids r').symm
  · rw [mergedRefs, mem_append, mem_filter, mem_map, decide_eq_true_eq]
    constructor
    · rintro (⟨hr, -⟩ | ⟨r', hr', rfl⟩)
      · exact hr
      · exact hkept r' hr'
    · intro hr
      by_cases hcover : ∃ r' ∈ copy, (h.revs r').name = (h.revs r).name
      · obtain ⟨r', hr', hname⟩ := hcover
        have hsame : childName name (h.keyAt M field r') = childName name (h.keyAt M field r) := by
          rw [← hc.named r' hr', hname, hs.named r hr]
        exact .inr ⟨r', hr', hs.kids.eq_of_keyAt (hkept r' hr') hr
          ((hkey r').trans (childName_injective hsame))⟩
      · push Not at hcover
        exact .inl ⟨hr, hcover⟩

theorem Labelled.mergedRefs_concat {key : δ → String} (hg : Grows key h h')
    (hcopy : ∀ r ∈ copy, h.Old r) (hkey : ∀ r ∈ kids, h'.keyAt M field r ≠ h'.keyAt M field x)
    (hname : ∀ r ∈ kids, (h'.revs x).name ≠ (h'.revs r).name) :
    mergedRefs h' kids (copy ++ [x]) = mergedRefs h kids copy ++ [x] := by
  have hkids : ∀ r ∈ kids, h'.revs r = h.revs r := fun r hr => hg.revs (hs.old hr)
  have hfilter : (kids.filter fun old => ∀ r ∈ copy ++ [x], (h'.revs r).name ≠ (h'.revs old).name) =
      kids.filter fun old => ∀ r ∈ copy, (h.revs r).name ≠ (h.revs old).name := by
    refine filter_congr fun old hold => decide_eq_decide.mpr ?_
    rw [forall_mem_append, forall_mem_singleton, and_iff_left (hname old hold)]
    refine forall₂_congr fun r hr => ?_
    rw [hg.revs (hcopy r hr), hkids old hold]
  rw [mergedRefs, hfilter, map_append, map_singleton, Kids.keptRef_of_fresh hkey,
    map_congr_left fun r hr => keptRef_congr hkids (hg.revs (hcopy r hr)), mergedRefs, append_assoc]

end Copies

/-! ### The second step of a reload -/

section Writes

variable [DecidableEq δ] [DecidableEq η] {copy : List Ref} {found : Option (ℕ × Ref)}

structure Entry (δ : Type) where
  key : String
  data : δ
  version : ℕ

/-- What is needed for a write of an entry from a copy of the children. What was copied of `j` is
still there; a child is replaced when the hashes tell its revisions apart and the entry is newer;
the root gets another hash than the recorded one. -/
def Entry.Writes (M : Model τ δ η) (name : String) (field : ChildType τ) (j : String)
    (entry : Entry δ) (h : Heap τ δ η) (copy : List Ref) (found : Option (ℕ × Ref)) : Prop :=
  match found with
  | some (_, r) => (h.revs r).data = entry.data ∨
      (∀ r' ∈ copy, h.keyAt M field r' = j →
        h.dataAt M name field j = some (h.revs r').data) ∧
      (h.revs r).version < entry.version ∧
      h.Replaces M name (mergedRefs h (h.refsAt name) copy) r entry.data
  | none => (∀ r' ∈ copy, h.keyAt M field r' = j →
        h.dataAt M name field j = some (h.revs r').data) ∧
      h.recordedHash ≠ h.hashListing M name (((mergedRefs h (h.refsAt name) copy).filterMap
        fun r' => (h.revs r').hash) ++ [firstHash M h.store.isNone "" entry.data])

instance (M : Model τ δ η) (name : String) (field : ChildType τ) (j : String) (entry : Entry δ)
    (h : Heap τ δ η) (copy : List Ref) (found : Option (ℕ × Ref)) :
    Decidable (entry.Writes M name field j h copy found) :=
  match found with
  | some (_, _) => inferInstanceAs (Decidable (_ ∨ _ ∧ _ ∧ _))
  | none => inferInstanceAs (Decidable (_ ∧ _))

section

variable {entry : Entry δ} (hs : Labelled M name field h b L kids)
  (hc : Copied M name field j entry.key h kids copy found) (hne : entry.key ≠ j) (env : Env)
include hs hc hne

theorem Labelled.verifyWrite_of_same {idx : ℕ} (hfound : found = some (idx, r))
    (hdata : (h.revs r).data = entry.data) :
    ∃ x h', verifyWrite M env entry.data name entry.key "" entry.version (copy.map some) found h =
        .ok x h' ∧ Sets M name field entry.key (some entry.data) b h kids h' := by
  obtain ⟨hkey, before, later, rfl, -⟩ := hc.found_some idx r hfound
  have hr : r ∈ kids := (hc.others (by rwa [hkey])).mp (by simp)
  rw [hfound]
  refine ⟨r, _, hs.verifyWrite_keep env fun hnew => hnew.1 hdata,
    (hs.sets_self (hs.dataAt_eq_some.mpr ⟨r, hr, hkey, hdata⟩)).saved ⟨mild_reread .., rfl, ?_, ?_⟩⟩
  · exact Heap.revs_setRev Revision.config (by rfl)
  · exact Heap.revs_setRev Revision.name (by rfl)

variable (hentry : field.keyOf M entry.data = entry.key)
  (hwrites : entry.Writes M name field j h copy found)
include hentry hwrites

theorem Labelled.verifyWrite_of_newer {idx : ℕ} (hfound : found = some (idx, r))
    (hdata : (h.revs r).data ≠ entry.data) :
    ∃ x h', verifyWrite M env entry.data name entry.key "" entry.version (copy.map some) found h =
        .ok x h' ∧ Sets M name field entry.key (some entry.data) b h kids h' := by
  obtain ⟨hkey, before, later, rfl, rfl⟩ := hc.found_some idx r hfound
  subst hfound
  obtain ⟨hj, hversion, hreplaces⟩ := hwrites.resolve_left hdata
  rw [hs.refsAt] at hreplaces
  have hr : r ∈ kids := (hc.others (by rwa [hkey])).mp (by simp)
  have hrkey := hentry.trans hkey.symm
  obtain ⟨x, h₂, L', rs, h₃, hrun, hredone, -, hlist, hrs⟩ := hs.verifyWrite_newer env entry.key ""
    hc.old (hs.kids.kid r hr).hasLatest hdata hversion
  -- the new revision takes the place of the child in the merged list
  have hx := hredone.succeeds hreplaces.1
  have hswap := hx.swapped hs hr hrkey hc.old (hs.mergedRefs_perm hc hj) hdata hreplaces
  rw [if_neg hswap.gate] at hrs
  subst hrs
  have hdrop : h₃.dropKid L' name (mergedRefs h₂ kids (before ++ x :: later)) (h.revs r).hash =
      h₃ := by
    refine if_neg ?_
    rintro ⟨r', hr', heq⟩
    rw [hlist.revs (hswap.listed.kid r' hr').old] at heq
    exact hswap.undropped r' hr' heq
  rw [hdrop] at hrun
  exact ⟨x, h₃, hrun, hx.sets hs hr hrkey hswap hlist hkey⟩

variable (htype : M.messages.typeOf entry.data = field.classType)
include htype

theorem Labelled.verifyWrite_of_missing (hfound : found = none) :
    ∃ x h', verifyWrite M env entry.data name entry.key "" entry.version (copy.map some) found h =
        .ok x h' ∧ Sets M name field entry.key (some entry.data) b h kids h' := by
  have hnone := hc.found_none hfound
  subst hfound
  obtain ⟨hj, hgate⟩ := hwrites
  obtain ⟨x, h₂, L', rs, h₃, hrun, -, hp, hlist, hrs⟩ :=
    hs.verifyWrite_missing env entry.key "" entry.data entry.version hc.old
  -- the key is not listed either
  have habsent : ∀ r' ∈ kids, h.keyAt M field r' ≠ entry.key := fun r' hr' heq =>
    hnone r' ((hc.others (by rwa [heq])).mpr hr') heq
  have hmerged : mergedRefs h₂ kids (copy ++ [x]) = mergedRefs h kids copy ++ [x] := by
    refine hs.mergedRefs_concat hp.toGrows hc.old (fun r' hr' => ?_) fun r' hr' heq => ?_
    · rw [hp.keyAt, hentry, hp.mild.keyAt (hs.old hr')]
      exact habsent r' hr'
    · rw [hp.name, hp.revs (hs.old hr'), hs.named r' hr'] at heq
      exact habsent r' hr' (childName_injective heq).symm
  have hperm := hs.mergedRefs_perm hc hj
  set merged := mergedRefs h kids copy
  have hhashes : (merged ++ [x]).filterMap (fun r' => (h₂.revs r').hash) =
      (merged.filterMap fun r' => (h.revs r').hash) ++
        [firstHash M h.store.isNone "" entry.data] := by
    rw [filterMap_append, filterMap_congr fun r' hr' =>
      hp.toGrows.hash (hs.old (hperm.mem_iff.mp hr'))]
    simp [hp.hash]
  rw [hs.refsAt, ← hs.nextRoot_hash_ne_iff (hp.revs hs.old_latest) hp.toGrows.hash hhashes,
    ← hmerged] at hgate
  rw [if_neg hgate, hmerged] at hrs
  subst hrs
  refine ⟨x, h₃, hrun, hlist.sets hs hp.toGrows (hp.branches hs.old_branch) (hp.concat htype
    (hs.kids.perm hperm) hs.old_branch fun r' hr' => ?_) (by simp) (hp.keyAt.trans hentry) hp.name
    hp.same_data (fun r' hr' => ?_) fun r' hr' _ => mem_append_left _ (hperm.mem_iff.mpr hr')⟩
  · rw [hentry]
    exact habsent r' (hperm.mem_iff.mp hr')
  · rw [mem_append, mem_singleton, hperm.mem_iff] at hr'
    exact hr'.symm

theorem Labelled.verifyWrite_sets :
    ∃ x h', verifyWrite M env entry.data name entry.key "" entry.version (copy.map some) found h =
        .ok x h' ∧ Sets M name field entry.key (some entry.data) b h kids h' := by
  match hfound : found with
  | none => exact hs.verifyWrite_of_missing hc hne env hentry hwrites htype rfl
  | some (idx, r) =>
    by_cases hdata : (h.revs r).data = entry.data
    · exact hs.verifyWrite_of_same hc hne env rfl hdata
    · exact hs.verifyWrite_of_newer hc hne env hentry hwrites rfl hdata

end

end Writes

/-! ### Calls between the two steps of a reload -/

section Races

variable [DecidableEq τ] [DecidableEq δ] [DecidableEq η] {entry : Entry δ}

/-- How far a reload has come. -/
inductive Stage where
  | waiting
  | looked (children : List (Option Ref)) (found : Option (ℕ × Ref))
  | finished
  deriving DecidableEq

/-- The memory, the reload of one entry, and the container as a map, as the calls change it. -/
structure Race (τ δ η : Type) where
  heap : Heap τ δ η
  stage : Stage
  map : String → Option δ

/-- A call, or one of the two steps of the reload. -/
inductive Move (δ : Type) where
  | call (call : Call δ)
  | look
  | write (now : ℕ) (up : Bool)

def raceStep (M : Model τ δ η) (name : String) (field : ChildType τ) (entry : Entry δ)
    (s : Race τ δ η) : Move δ → Race τ δ η
  | .call call =>
    { s with heap := callStep M name s.heap call, map := call.change.onMap M field s.map }
  | .look =>
    match s.stage, verifyLook M name field.key entry.key s.heap with
    | .waiting, .ok (children, found) h => { s with heap := h, stage := .looked children found }
    | _, _ => s
  | .write now up =>
    match s.stage with
    | .looked children found =>
      { s with
        heap := after (verifyWrite M ⟨"", now, up⟩ entry.data name entry.key "" entry.version
          children found) s.heap
        stage := .finished }
    | _ => s

/-- The calls fit the container and are on the key `j`. -/
def Move.IsOn (M : Model τ δ η) (field : ChildType τ) (j : String) : Move δ → Prop
  | .call c => c.change.Fits M field ∧ c.change.key M field = j
  | _ => True

/-- What is needed for a change to be made: with the child of a new key the root gets another hash
than the recorded one, a path has a key, and the child of an update can be replaced. -/
def Change.Takes (M : Model τ δ η) (name : String) (field : ChildType τ) (h : Heap τ δ η) :
    Change δ → Prop
  | .add data => some (field.keyOf M data) ∉ h.keysAt M name field →
      h.recordedHash ≠ h.hashWith M name data
  | .update key data => key ≠ "" ∧
      ∀ r ∈ h.refsAt name, h.keyAt M field r = key → h.UpdatesListed M name r data
  | .remove key => key ≠ ""

/-- What is needed for a step: a change is made, and the entry can be written. -/
def Move.Keeps (M : Model τ δ η) (name : String) (field : ChildType τ) (j : String)
    (entry : Entry δ) (s : Race τ δ η) : Move δ → Prop
  | .call c => c.change.Takes M name field s.heap
  | .look => True
  | .write _ _ =>
    match s.stage with
    | .looked children found =>
      entry.Writes M name field j s.heap children.reduceOption found
    | _ => True

instance (M : Model τ δ η) (field : ChildType τ) (j : String) (move : Move δ) :
    Decidable (move.IsOn M field j) :=
  match move with
  | .call _ => inferInstanceAs (Decidable (_ ∧ _ = _))
  | .look | .write _ _ => .isTrue trivial

instance (M : Model τ δ η) (name : String) (field : ChildType τ) (h : Heap τ δ η)
    (change : Change δ) : Decidable (change.Takes M name field h) :=
  match change with
  | .add _ => inferInstanceAs (Decidable (_ ∉ _ → _ ≠ _))
  | .update _ _ => inferInstanceAs (Decidable (_ ≠ _ ∧ ∀ r ∈ _, _ = _ → _))
  | .remove _ => inferInstanceAs (Decidable (_ ≠ _))

instance (M : Model τ δ η) (name : String) (field : ChildType τ) (j : String) (entry : Entry δ)
    (s : Race τ δ η) (move : Move δ) : Decidable (move.Keeps M name field j entry s) :=
  match move, s with
  | .call c, s => inferInstanceAs (Decidable (c.change.Takes M name field s.heap))
  | .look, _ => .isTrue trivial
  | .write _ _, ⟨h, .looked children found, _⟩ =>
    inferInstanceAs (Decidable (entry.Writes M name field j h children.reduceOption found))
  | .write _ _, ⟨_, .waiting, _⟩ | .write _ _, ⟨_, .finished, _⟩ => .isTrue trivial

theorem Labelled.callStep_sets {h : Heap τ δ η} {call : Call δ} {map : String → Option δ}
    (hs : Labelled M name field h b L kids) (hfits : call.change.Fits M field)
    (htakes : call.change.Takes M name field h)
    (hmap : h.dataAt M name field (call.change.key M field) = map (call.change.key M field)) :
    Sets M name field (call.change.key M field)
      (call.change.onMap M field map (call.change.key M field)) b h kids
      (callStep M name h call) := by
  obtain ⟨now, up, change⟩ := call
  cases change with
  | add data =>
    rw [Change.key] at hmap ⊢
    rw [Change.onMap_add, ← hmap]
    exact hs.add_sets ⟨"", now, up⟩ rfl hfits htakes
  | update key data =>
    obtain ⟨hkey, htype, hdata⟩ := hfits
    rw [Change.key] at hmap ⊢
    rw [Change.onMap_update, ← hmap]
    exact hs.update_sets ⟨"", now, up⟩ rfl ⟨htakes.1, hkey⟩ htype
      (hdata.trans (field.keyFromStr_eq hs.isString key)) htakes.2
  | remove key =>
    rw [Change.key, Change.onMap, Function.update_self]
    exact hs.remove_sets ⟨"", now, up⟩ rfl ⟨htakes, hfits⟩

/-- What holds in a race: the container is in order, and the copied children are known. -/
structure Race.Inv (M : Model τ δ η) (name : String) (field : ChildType τ) (j : String)
    (entry : Entry δ) (b : Ref) (s : Race τ δ η) : Prop where
  listed : ∃ L kids, Labelled M name field s.heap b L kids ∧
    ∀ children found, s.stage = .looked children found →
      ∃ copy, children = copy.map some ∧ Copied M name field j entry.key s.heap kids copy found
  map : s.heap.dataAt M name field j = s.map j
  written : s.stage = .finished → s.heap.dataAt M name field entry.key = some entry.data

theorem Race.Inv.step {s : Race τ δ η} {move : Move δ} (hi : s.Inv M name field j entry b)
    (hne : entry.key ≠ j) (htype : M.messages.typeOf entry.data = field.classType)
    (hentry : field.keyOf M entry.data = entry.key) (hon : move.IsOn M field j)
    (hkeeps : move.Keeps M name field j entry s) :
    (raceStep M name field entry s move).Inv M name field j entry b := by
  obtain ⟨⟨L, kids, hs, hcopied⟩, hmap, hwritten⟩ := hi
  cases move with
  | call call =>
    obtain ⟨hfits, rfl⟩ := hon
    obtain ⟨L', kids', hs', ha, hdata⟩ := hs.callStep_sets hfits hkeeps hmap
    refine ⟨⟨L', kids', hs', fun children found hstage => ?_⟩, hdata, fun hstage => ?_⟩
    · obtain ⟨copy, hcopy, hc⟩ := hcopied children found hstage
      exact ⟨copy, hcopy, hc.aside hs ha⟩
    · exact (ha.dataAt hs.toShelf hs'.toShelf hne).trans (hwritten hstage)
  | look =>
    obtain ⟨found, hlook, hc⟩ := hs.verifyLook_copied j entry.key
    rw [raceStep, hlook]
    cases hstage : s.stage with
    | waiting =>
      refine ⟨⟨L, kids, hs, fun children' found' hstage' => ?_⟩, hmap, nofun⟩
      cases hstage'
      exact ⟨kids, rfl, hc⟩
    | looked children found | finished => exact ⟨⟨L, kids, hs, hcopied⟩, hmap, hwritten⟩
  | write now up =>
    rw [raceStep]
    cases hstage : s.stage with
    | waiting | finished => exact ⟨⟨L, kids, hs, hcopied⟩, hmap, hwritten⟩
    | looked children found =>
      obtain ⟨copy, rfl, hc⟩ := hcopied children found hstage
      rw [Move.Keeps, hstage] at hkeeps
      have hwrites : entry.Writes M name field j s.heap copy found := by
        simpa [List.reduceOption, filterMap_map] using hkeeps
      obtain ⟨x, h', hrun, L', kids', hs', ha, hkey⟩ :=
        hs.verifyWrite_sets hc hne ⟨"", now, up⟩ hentry hwrites htype
      dsimp only
      rw [after_of_ok hrun]
      exact ⟨⟨L', kids', hs', nofun⟩, (ha.dataAt hs.toShelf hs'.toShelf hne.symm).trans hmap,
        fun _ => hkey⟩

/-- Calls on the key `j` are interleaved with the two steps of the reload of another entry. When
the steps keep their conditions, the container has under `j` what the calls make of a map, and after
the reload it has the entry. -/
theorem reload_keeps_calls {h : Heap τ δ η} (hs : Labelled M name field h b L kids)
    (hne : entry.key ≠ j) (htype : M.messages.typeOf entry.data = field.classType)
    (hentry : field.keyOf M entry.data = entry.key) {moves : List (Move δ)}
    (hon : ∀ move ∈ moves, move.IsOn M field j)
    (hkeeps : Runs.Along (raceStep M name field entry)
      (fun s move => move.Keeps M name field j entry s) moves
      ⟨h, .waiting, h.dataAt M name field⟩) :
    let s := Runs.run (raceStep M name field entry) moves
      ⟨h, .waiting, h.dataAt M name field⟩
    s.heap.dataAt M name field j = s.map j ∧
      (s.stage = .finished → s.heap.dataAt M name field entry.key = some entry.data) := by
  have hinv := Runs.run_invariant (P := fun s => Race.Inv M name field j entry b s)
    (fun s move hmove hi => hi.step hne htype hentry hmove.1 hmove.2)
    ((Runs.along_of_forall hon _).and hkeeps) ⟨⟨L, kids, hs, nofun⟩, rfl, nofun⟩
  exact ⟨hinv.map, hinv.written⟩

/-- The devices `1` and `2`: the first one is changed by calls, the second one is reloaded. -/
def deviceRace (moves : List (Move DeviceMessage)) :
    Race DeviceType DeviceMessage DeviceHash :=
  let h := volthaHeap (storeOf [("2", 0)])
  Runs.run (raceStep deviceModel "devices" deviceField ⟨"2", .device "2" 0, 1⟩) moves
    ⟨h, .waiting, h.dataAt deviceModel "devices" deviceField⟩

/-- The device `1` is added between the two steps of the reload, updated later on, removed and added
again with another label. -/
theorem reload_keeps_device_one :
    let s := deviceRace [.look, .call ⟨0, true, .add (.device "1" 0)⟩, .write 1 true,
      .call ⟨2, true, .update "1" (.device "1" 1)⟩, .call ⟨3, true, .remove "1"⟩,
      .call ⟨4, true, .add (.device "1" 2)⟩]
    s.heap.dataAt deviceModel "devices" deviceField "1" = s.map "1" ∧
      (s.stage = .finished →
        s.heap.dataAt deviceModel "devices" deviceField "2" = some (.device "2" 0)) :=
  reload_keeps_calls (labelled_volthaHeap _) (by decide) rfl rfl (by decide) (by decide +kernel)

/-- How far the reload is, what the calls make of the device `1`, and what is listed. -/
def raceResult (s : Race DeviceType DeviceMessage DeviceHash) :
    Stage × Option DeviceMessage × Option DeviceMessage :=
  (s.stage, s.map "1", s.heap.dataAt deviceModel "devices" deviceField "1")

/-- An update or a removal of the device `1` between the two steps of the reload is undone. -/
theorem reload_undoes_calls :
    raceResult (deviceRace [.call ⟨0, true, .add (.device "1" 0)⟩, .look,
        .call ⟨1, true, .update "1" (.device "1" 1)⟩, .write 2 true]) =
      (.finished, some (.device "1" 1), some (.device "1" 0)) ∧
    raceResult (deviceRace [.call ⟨0, true, .add (.device "1" 0)⟩, .look,
        .call ⟨1, true, .remove "1"⟩, .write 2 true]) =
      (.finished, none, some (.device "1" 0)) := by
  decide +kernel

end Races

end VolthaCore.Nodes
