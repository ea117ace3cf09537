import VolthaCore.Lib.Runs
import VolthaCore.Nodes.Calls

/-! The keys of the children of a container. In a run of calls from an empty container no two
children get the same key, and an addition of a new key adds its child, under a condition on the
additions: a key that is not a string is compared in two different printed forms, and the hash of
the root decides whether a new list of children is kept. -/

namespace VolthaCore.Nodes

open Outcome List Runs

/-! ### Unique keys -/

section Uniqueness

variable {τ δ η : Type} [DecidableEq τ] [DecidableEq δ] [DecidableEq η] {M : Model τ δ η}
  {name : String} {field : ChildType τ} {h : Heap τ δ η} {b L : Ref} {kids : List Ref}
  {call : Call δ}

/-- The addition of a key to a container: a key that is not a string is a new one, and with the
child of a new key the root does not get the hash that is recorded for it. -/
def Change.AddsKey (M : Model τ δ η) (name : String) (field : ChildType τ) (h : Heap τ δ η) :
    Change δ → Prop
  | .add data =>
      (field.isString = false → some (field.keyOf M data) ∉ h.keysAt M name field) ∧
      (some (field.keyOf M data) ∉ h.keysAt M name field →
        h.recordedHash ≠ h.hashWith M name data)
  | _ => True

instance (M : Model τ δ η) (name : String) (field : ChildType τ) (h : Heap τ δ η)
    (change : Change δ) : Decidable (change.AddsKey M name field h) :=
  match change with
  | .add _ => inferInstanceAs (Decidable ((_ = _ → _ ∉ _) ∧ (_ ∉ _ → _ ≠ _)))
  | .update _ _ | .remove _ => .isTrue trivial

omit [DecidableEq τ] in
theorem Shelf.after_add (hs : Shelf M name field h b L kids) (env : Env) (htxid : env.txid = "")
    {data : δ} (htype : M.messages.typeOf data = field.classType)
    (hadds : (Change.add data).AddsKey M name field h) :
    (∃ L' kids', Shelf M name field (after (rootAdd M env (containerPath name) data) h) b L'
        kids') ∧
      (some (field.keyOf M data) ∉ h.keysAt M name field →
        some (field.keyOf M data) ∈
          (after (rootAdd M env (containerPath name) data) h).keysAt M name field) := by
  by_cases hnew : some (field.keyOf M data) ∉ h.keysAt M name field
  · have hfresh : ∀ r ∈ kids, h.keyAt M field r ≠ field.keyOf M data := fun r hr heq =>
      hnew (hs.mem_keysAt.mpr ⟨r, hr, heq⟩)
    obtain ⟨x, h1, L', h2, hrun, -, hp, hkids, hr⟩ := hs.rootAdd_of_absent env htxid htype hfresh
    rw [if_neg (hadds.2 hnew).symm] at hr
    obtain ⟨h3, hfin, hsaved⟩ := finalizeResult_saved M env (field.keyOf M) (some x) h2
    rw [after_of_ok (hrun.trans hfin)]
    have hs2 : Shelf M name field h2 b L' (kids ++ [x]) :=
      ⟨hr.rack (hp.rack hs.toRack), hkids.mild hr.mild⟩
    refine ⟨⟨_, _, hs2.saved hsaved⟩, fun _ => (hs2.saved hsaved).mem_keysAt.mpr
      ⟨x, by simp, ?_⟩⟩
    rw [hsaved.mild.keyAt (hs2.kids.kid x (by simp)).old, hr.mild.keyAt hp.old, hp.keyAt]
  · -- a string that is there is found
    have hstring : field.isString = true := by
      by_contra hne
      exact hnew (hadds.1 (by simpa using hne))
    obtain ⟨r, hr, hkey⟩ := hs.mem_keysAt.mp (not_not.mp hnew)
    obtain ⟨before, later, rfl⟩ := append_of_mem hr
    obtain ⟨h3, hfin, hsaved⟩ := finalizeResult_saved M env (field.keyOf M) (some r) h
    rw [after_of_ok ((hs.rootAdd_apply env htxid (hs.addChild_of_present env
      (hkey.trans (M.messages.attributeString_eq hs.lookup hstring data).symm))).trans hfin)]
    exact ⟨⟨L, _, hs.saved hsaved⟩, fun hnew' => absurd hnew' hnew⟩

theorem Shelf.after_update (hs : Shelf M name field h b L kids) (env : Env)
    (htxid : env.txid = "") {k : String} {data : δ} (hk : '/' ∉ k.toList)
    (htype : M.messages.typeOf data = field.classType)
    (hkey : field.keyOf M data = field.keyFromStr k) :
    ∃ L' kids', Shelf M name field (after (rootUpdate M env (entryPath name k) data) h) b L'
      kids' := by
  by_cases hempty : k = ""
  · subst hempty
    rw [after_of_ok (hs.rootUpdate_of_empty env htxid)]
    exact ⟨L, kids, hs⟩
  · have hsegment : Segment k := ⟨hempty, hk⟩
    obtain ⟨before, r, later, rfl, hr, hrkey⟩ | hpresent :=
      h.middle_or_absent M field kids (field.keyFromStr k)
    · have hk := hs.kids.kid r hr
      obtain ⟨l, hl⟩ := hk.latest
      obtain ⟨x, h1, hdo, hren, hxkey⟩ :=
        hk.doUpdate_renewed env hl htype (hkey.trans hrkey.symm)
      have hrun := hs.rootUpdate_of_present env htxid hsegment hrkey hdo
      have hs1 : Shelf M name field h1 b L _ := ⟨hren.rack hs hr, hs.kids.mild hren.mild⟩
      by_cases hhash : (h1.revs x).hash = (h1.revs r).hash
      · have hmild : Mild (field.keyOf M) h1 _ := mild_clearRev_of_ne h1 x r
        obtain ⟨h2, hfin, hsaved⟩ := finalizeResult_saved M env (field.keyOf M) (some L)
          (if x = r then h1 else h1.clearRev x)
        rw [after_of_ok (hrun.trans ((hs1.endUpdate_of_same hhash).trans hfin))]
        exact ⟨L, _, (hs1.mild hmild (by split_ifs <;> exact hs1.latest)).saved hsaved⟩
      · obtain ⟨L', h2, hend, hlist⟩ := hs1.endUpdate_of_new env
          (field.keyFromStr k) hren.old hhash
        obtain ⟨h3, hfin, hsaved⟩ := finalizeResult_saved M env (field.keyOf M) (some x) h2
        rw [after_of_ok (hrun.trans (hend.trans hfin))]
        have hmild : Mild (field.keyOf M) h1 (h1.nameRev x (childName name (field.keyFromStr k))) :=
          mild_nameRev ..
        have hs2 := hs1.mild hmild hs1.latest
        have hr1 := (hs1.kids.kid r hr).old
        refine ⟨L', _, (hlist.shelf hs2 ?_).saved hsaved⟩
        split_ifs
        · exact hs2.kids
        · refine hs2.kids.relisted ?_ (hmild.old hren.old) ?_
          · rw [hmild.keyAt hren.old, hxkey, hmild.keyAt hr1, hren.mild.keyAt hk.old]
          · rw [hmild.branch hren.old, hren.branch, hmild.branch hr1, hren.revs hk.old]
    · obtain ⟨h3, hfin, hsaved⟩ := finalizeResult_saved M env (field.keyOf M) (some L) h
      rw [after_of_ok ((hs.rootUpdate_of_absent env htxid hsegment hpresent).trans hfin)]
      exact ⟨L, kids, hs.saved hsaved⟩

omit [DecidableEq τ] [DecidableEq δ] in
theorem Shelf.after_remove (hs : Shelf M name field h b L kids) (env : Env)
    (htxid : env.txid = "") {k : String} (hk : '/' ∉ k.toList) :
    ∃ L' kids', Shelf M name field (after (rootRemove M env (entryPath name k)) h) b L'
      kids' := by
  by_cases hpresent : k ≠ "" ∧ ∃ r ∈ kids, h.keyAt M field r = field.keyFromStr k
  · obtain ⟨hempty, r, hr, hrkey⟩ := hpresent
    obtain ⟨before, later, rfl⟩ := append_of_mem hr
    rw [after_of_ok (hs.rootRemove_of_present env htxid ⟨hempty, hk⟩ hrkey)]
    exact ⟨L, before ++ later, hs.dropChild_shelf env _⟩
  · push Not at hpresent
    rw [hs.rootRemove_of_absent env htxid hk hpresent]
    exact ⟨L, kids, hs⟩

theorem Shelf.callStep (hs : Shelf M name field h b L kids) (hfits : call.change.Fits M field)
    (hadds : call.change.AddsKey M name field h) :
    (∃ L' kids', Shelf M name field (callStep M name h call) b L' kids') ∧
      ∀ data, call.change = .add data → some (field.keyOf M data) ∉ h.keysAt M name field →
        some (field.keyOf M data) ∈ (Nodes.callStep M name h call).keysAt M name field := by
  unfold Nodes.callStep Call.exec
  cases hchange : call.change with
  | add data =>
    rw [hchange] at hfits hadds
    obtain ⟨hs', hadded⟩ := hs.after_add call.env rfl hfits hadds
    refine ⟨hs', fun data' hdata' => ?_⟩
    cases hdata'
    exact hadded
  | update key data =>
    rw [hchange] at hfits
    obtain ⟨hk, htype, hkey⟩ := hfits
    exact ⟨hs.after_update call.env rfl hk htype hkey, fun _ hdata => nomatch hdata⟩
  | remove key =>
    rw [hchange] at hfits
    exact ⟨hs.after_remove call.env rfl hfits, fun _ hdata => nomatch hdata⟩

end Uniqueness

/-! ### A device with ports -/

section Ports

/-- A device and its ports, with the number of a port and its label. -/
inductive PortMessage where
  | device
  | port (number : ℕ) (label : String)
  deriving DecidableEq

inductive PortType where
  | device
  | port
  deriving DecidableEq

def PortMessage.type : PortMessage → PortType
  | .device => .device
  | .port _ _ => .port

/-- How `fmt` prints a number as a string. -/
def printedNumber (digits : String) : String := "%!s(uint32=" ++ digits ++ ")"

def portField : ChildType PortType where
  isContainer := true
  key := "port_no"
  keyFromStr := printedNumber
  isString := false
  classType := .port
  keyFromStr_eq h := nomatch h

def portMessages : Messages PortType PortMessage where
  typeOf := PortMessage.type
  childrenFields
    | .device => AList.singleton "ports" portField
    | .port => ∅
  attributeText _
    | .device => ""
    | .port number _ => printedNumber (toString number)
  attributeString _ _ := "<uint32 Value>"
  attributeString_eq {t name field} hfield hstring := by
    cases t with
    | device =>
      cases mem_singleton.mp (GoMap.mem_entries_iff.mpr hfield)
      exact nomatch hstring
    | port => exact nomatch hfield
  attributeString_ne _ _ _ d' heq := by
    have hfirst := congrArg (fun s => s.toList.head?) heq
    cases d' <;> simp [printedNumber] at hfirst
  values _ _ := []
  withValues _ _ d := d
  height _ := 0
  height_lt h := nomatch h
  unmarshal t d := if d.type = t then some d else none
  unmarshal_typeOf d := if_pos rfl

/-- A hash is the list of the messages that it covers, each with whether the root is covered. -/
def portModel : Model PortType PortMessage (List (Bool × PortMessage)) where
  messages := portMessages
  digest := ⟨fun hasRoot d => [(hasRoot, d)], fun config _ children => config ++ children.flatten⟩
  fieldOrder := .listed
  blobOrder := .listed
  stack := 1

/-- A device without ports that is kept in a store: its revision does not know the root. -/
def portHeap : Heap PortType PortMessage (List (Bool × PortMessage)) where
  revs _ := ⟨⟨.device, [(false, .device)]⟩, ∅, some [(false, .device)], ⟨"", 1⟩, "", none, 1, false⟩
  branches _ := ⟨⟨"", 0⟩, "", some ⟨"", 2⟩⟩
  nodes _ := ⟨.device, Function.update (fun _ => none) NONE (some ⟨"", 1⟩)⟩
  next _ := 3
  cache _ := none
  store := some ∅
  dirtyNodes _ := []
  root := ⟨"", 0⟩

theorem shelf_portHeap : Shelf portModel "ports" portField portHeap ⟨"", 1⟩ ⟨"", 2⟩ [] where
  segment := ⟨by decide, by decide⟩
  lookup := rfl
  container := rfl
  keyed := by decide
  old_root := by decide
  branch := rfl
  old_branch := by decide
  txid := rfl
  latest := rfl
  old_latest := by decide
  latest_branch := rfl
  children := rfl
  old_children _ _ hr := nomatch hr
  kids := ⟨nofun, nofun, .nil, .nil⟩

end Ports

end VolthaCore.Nodes
