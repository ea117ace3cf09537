import VolthaCore.Lib.Runs
import VolthaCore.Nodes.Reloads
import VolthaCore.Nodes.TransactionCalls

/-! Transactions beside reads. What a transaction does to entries, and its cancellation, is not
seen by the reads without a transaction, unless one of its operations writes to what it shares with
them: a revision that has a name goes to the cache, a saved revision of another branch to the cache
and the store, and a removal changes the latest revision of the root in place. -/

namespace VolthaCore.Nodes

open Outcome

variable {τ δ η : Type}

section Actions

/-- What happens to the data model: a read without a transaction, or something that the
transaction does. -/
inductive Action (δ : Type) where
  | read (path : String) (depth : ℤ) (reconcile : Bool)
  | start
  | get (path : String) (depth : ℤ) (reconcile : Bool)
  | update (name key : String) (data : δ)
  | add (name : String) (data : δ)
  | remove (name key : String)
  | cancel

/-- An action, with its time and whether the key-value store answers. -/
structure Turn (δ : Type) where
  now : ℕ
  up : Bool
  action : Action δ

def Turn.env (turn : Turn δ) (txid : String) : Env := ⟨txid, turn.now, turn.up⟩

def Turn.isRead (turn : Turn δ) : Bool :=
  match turn.action with
  | .read .. => true
  | _ => false

variable [DecidableEq τ] [DecidableEq δ] [DecidableEq η]

/-- The memory after a turn, whether the operation returns or fails. -/
def turnStep (M : Model τ δ η) (txid : String) (h : Heap τ δ η) (turn : Turn δ) : Heap τ δ η :=
  match turn.action with
  | .read path depth reconcile => after (rootGet M (turn.env "") path depth reconcile) h
  | .start => after (makeTxBranch (turn.env txid) txid) h
  | .get path depth reconcile => after (rootGet M (turn.env txid) path depth reconcile) h
  | .update name key data => after (rootUpdate M (turn.env txid) (entryPath name key) data) h
  | .add name data => after (rootAdd M (turn.env txid) (containerPath name) data) h
  | .remove name key => after (rootRemove M (turn.env txid) (entryPath name key)) h
  | .cancel => after (deleteTxBranch txid) h

/-- What a turn answers to those without a transaction. -/
def turnAnswer (M : Model τ δ η) (h : Heap τ δ η) (turn : Turn δ) :
    List (Except Err (Found δ)) :=
  match turn.action with
  | .read path depth reconcile => [outcome (rootGet M (turn.env "") path depth reconcile) h]
  | _ => []

def answers (M : Model τ δ η) (txid : String) : List (Turn δ) → Heap τ δ η →
    List (Except Err (Found δ))
  | [], _ => []
  | turn :: turns, h => turnAnswer M h turn ++ answers M txid turns (turnStep M txid h turn)

end Actions

/-! ### Turns that stay within the transaction -/

section Discreet

/-- A keyed container of the root. -/
def Heap.keyedField (h : Heap τ δ η) (M : Model τ δ η) (name : String) : Option (ChildType τ) :=
  ((M.messages.childrenFields (h.nodes h.root).type).lookup name).filter fun field =>
    field.isContainer ∧ field.key ≠ ""

/-- The latest revision of the root in an open transaction. -/
def Heap.txLatest (h : Heap τ δ η) (txid : String) : Option Ref :=
  ((h.nodes h.root).branches txid).bind fun b => (h.branches b).latest

theorem Heap.opened {M : Model τ δ η} {txid name : String} {field : ChildType τ} {L : Ref}
    {h : Heap τ δ η} (hname : Segment name) (hfield : h.keyedField M name = some field)
    (hlatest : h.txLatest txid = some L) : ∃ b, Opened M txid name field b L h := by
  obtain ⟨b, hb, hl⟩ := Option.bind_eq_some_iff.mp hlatest
  obtain ⟨hlookup, hkeyed⟩ := Option.filter_eq_some_iff.mp hfield
  rw [decide_eq_true_eq] at hkeyed
  exact ⟨b, hname, hlookup, hkeyed.1, hkeyed.2, hb, hl⟩

instance (s : String) : Decidable (Segment s) :=
  decidable_of_iff (s ≠ "" ∧ '/' ∉ s.toList) ⟨fun hs => ⟨hs.1, hs.2⟩, fun hs => ⟨hs.1, hs.2⟩⟩

variable [DecidableEq τ] [DecidableEq δ] [DecidableEq η]

/-- The transaction does something to an entry of a container when it is open, and what it does
there meets a condition. -/
def Heap.InOpen (h : Heap τ δ η) (M : Model τ δ η) (txid name : String)
    (C : ChildType τ → Ref → Prop) : Prop :=
  Segment name ∧ match h.keyedField M name, h.txLatest txid with
    | some field, some L => C field L
    | _, _ => False

instance (h : Heap τ δ η) (M : Model τ δ η) (txid name : String) (C : ChildType τ → Ref → Prop)
    [∀ field L, Decidable (C field L)] : Decidable (h.InOpen M txid name C) :=
  match hf : h.keyedField M name, hl : h.txLatest txid with
  | some field, some L =>
    decidable_of_iff (Segment name ∧ C field L) (by rw [Heap.InOpen, hf, hl])
  | none, _ => .isFalse (by rw [Heap.InOpen, hf]; exact And.right)
  | some _, none => .isFalse (by rw [Heap.InOpen, hf, hl]; exact And.right)

/-- What may hold of the child with a key: none is there, or the one that is there. -/
def Heap.AtChild (h : Heap τ δ η) (M : Model τ δ η) (L : Ref) (name keyName value : String)
    (absent : Prop) (present : Ref → Prop) : Prop :=
  match h.listed M L name keyName value with
  | .error _ => True
  | .ok none => absent
  | .ok (some (_, c)) => present c

instance (h : Heap τ δ η) (M : Model τ δ η) (L : Ref) (name keyName value : String)
    (absent : Prop) (present : Ref → Prop) [Decidable absent] [∀ c, Decidable (present c)] :
    Decidable (h.AtChild M L name keyName value absent present) :=
  match hl : h.listed M L name keyName value with
  | .error _ => .isTrue (by rw [Heap.AtChild, hl]; trivial)
  | .ok none => decidable_of_iff absent (by rw [Heap.AtChild, hl])
  | .ok (some (_, c)) => decidable_of_iff (present c) (by rw [Heap.AtChild, hl])

/-- A turn that writes to nothing that the transaction shares with others. -/
def Turn.Discreet (M : Model τ δ η) (txid : String) (h : Heap τ δ η) (turn : Turn δ) : Prop :=
  match turn.action with
  | .get path depth reconcile =>
    ¬ h.HasEntries (turn.env txid) (stripSlashes path) ∨
      reconcile = false ∧ h.remembers M (turn.env txid) path depth = true
  | .update name key data => Segment key ∧ h.InOpen M txid name fun field L =>
      h.AtChild M L name field.key (field.keyFromStr key) (h.Settled txid L)
        fun c => h.Updates M txid L c data
  | .add name data => h.InOpen M txid name fun field L =>
      h.AtChild M L name field.key (M.messages.attributeString field.key data)
        (h.store = none ∧ (h.revs L).name = "") fun c => h.Settled txid c
  | .remove name key => Segment key ∧ h.InOpen M txid name fun field L =>
      h.AtChild M L name field.key (field.keyFromStr key) True
        fun c => L.owner = txid ∧ h.cache (h.revs c).name = none
  | _ => True

instance (M : Model τ δ η) (txid : String) (h : Heap τ δ η) (turn : Turn δ) :
    Decidable (turn.Discreet M txid h) :=
  match turn with
  | ⟨_, _, .get _ _ _⟩ => inferInstanceAs (Decidable (¬ _ ∨ _ = _ ∧ _ = _))
  | ⟨_, _, .update _ _ _⟩ => inferInstanceAs (Decidable (Segment _ ∧ Heap.InOpen _ _ _ _ _))
  | ⟨_, _, .add _ _⟩ => inferInstanceAs (Decidable (Heap.InOpen _ _ _ _ _))
  | ⟨_, _, .remove _ _⟩ => inferInstanceAs (Decidable (Segment _ ∧ Heap.InOpen _ _ _ _ _))
  | ⟨_, _, .read _ _ _⟩ | ⟨_, _, .start⟩ | ⟨_, _, .cancel⟩ => .isTrue trivial

end Discreet

/-! ### The two runs -/

section Runs

variable {M : Model τ δ η} {txid name : String} {h h' : Heap τ δ η}

/-- The memory does not know of the transaction yet. -/
structure Unused (txid : String) (h : Heap τ δ η) : Prop where
  closed : Closed txid h
  unopened : ∀ n, (h.nodes n).branches txid = none

theorem Unused.isolated (hu : Unused txid h) : Isolated txid h h where
  alike := .refl h
  closed := hu.closed
  owned :=
    { branch := fun {n _} _ hb => by simp [hu.unopened n] at hb
      latest := fun {n _ _} _ hb => by simp [hu.unopened n] at hb }

theorem Heap.InOpen.opened {C : ChildType τ → Ref → Prop} (hopen : h.InOpen M txid name C) :
    ∃ field b L, Opened M txid name field b L h ∧ C field L := by
  obtain ⟨hname, hopen⟩ := hopen
  split at hopen
  · rename_i field L hfield hlatest
    obtain ⟨b, ho⟩ := Heap.opened hname hfield hlatest
    exact ⟨field, b, L, ho, hopen⟩
  · exact hopen.elim

theorem Heap.AtChild.cases {L : Ref} {keyName value : String} {absent : Prop} {present : Ref → Prop}
    (hat : h.AtChild M L name keyName value absent present) :
    (h.listed M L name keyName value = .ok none → absent) ∧
      ∀ idx c, h.listed M L name keyName value = .ok (some (idx, c)) → present c := by
  unfold Heap.AtChild at hat
  refine ⟨fun hl => ?_, fun idx c hl => ?_⟩
  · rwa [hl] at hat
  · rwa [hl] at hat

variable [DecidableEq τ] [DecidableEq δ] [DecidableEq η] {turn : Turn δ}

theorem Isolated.read (hi : Isolated txid h h') (htxid : txid ≠ "") (hkey : NONE ≠ txid)
    (hread : turn.isRead = true) :
    turnAnswer M h' turn = turnAnswer M h turn ∧
      Isolated txid (turnStep M txid h turn) (turnStep M txid h' turn) := by
  obtain ⟨now, up, action⟩ := turn
  cases action with
  | read path depth reconcile =>
    have hblind : Blind txid (rootGet M ⟨"", now, up⟩ path depth reconcile) fun _ => True :=
      Blind.rootGet rfl (Ne.symm htxid) hkey path depth reconcile
    exact ⟨congrArg (fun answer => [answer]) (hblind.outcome_eq hi).symm, hblind.after hi⟩
  | _ => cases hread

theorem Tidy.turnStep (hs : Tidy txid h) (htxid : txid ≠ "") (hkey : NONE ≠ txid)
    (hturn : turn.Discreet M txid h) (hread : turn.isRead = false) :
    Within txid h (turnStep M txid h turn) := by
  obtain ⟨now, up, action⟩ := turn
  let env : Env := ⟨txid, now, up⟩
  have htidy : Tidy env.txid h := hs
  cases action with
  | read path depth reconcile => cases hread
  | start => exact (Stays.makeTxBranch htidy hkey).within
  | get path depth reconcile =>
    exact (Stays.rootGet htidy htxid hturn).within
  | update name key data =>
    obtain ⟨field, b, L, ho, hat⟩ := hturn.2.opened
    exact (Stays.rootUpdate htidy htxid hkey ho hturn.1 hat.cases.1
      hat.cases.2).within
  | add name data =>
    obtain ⟨field, b, L, ho, hat⟩ := Heap.InOpen.opened hturn
    exact (Stays.rootAdd htidy htxid ho hat.cases.1 hat.cases.2).within
  | remove name key =>
    obtain ⟨field, b, L, ho, hat⟩ := hturn.2.opened
    exact (Stays.rootRemove htidy htxid ho hturn.1 hat.cases.2).within
  | cancel => exact (Stays.deleteTxBranch hs).within

theorem Isolated.run (hi : Isolated txid h h') (htxid : txid ≠ "") (hkey : NONE ≠ txid)
    {turns : List (Turn δ)} (hturns : Runs.Along (turnStep M txid) (fun h turn =>
      turn.Discreet M txid h) turns h') :
    answers M txid turns h' = answers M txid (turns.filter Turn.isRead) h ∧
      Isolated txid (Runs.run (turnStep M txid) (turns.filter Turn.isRead) h)
        (Runs.run (turnStep M txid) turns h') := by
  induction turns generalizing h h' with
  | nil => exact ⟨rfl, hi⟩
  | cons turn turns ih =>
    cases hread : turn.isRead with
    | true =>
      obtain ⟨hanswer, hi'⟩ := hi.read htxid hkey hread (M := M)
      obtain ⟨hanswers, hend⟩ := ih hi' hturns.2
      rw [List.filter_cons_of_pos hread]
      refine ⟨?_, hend⟩
      rw [answers, answers, hanswer, hanswers]
    | false =>
      have hi' := hi.within (hi.tidy.turnStep htxid hkey hturns.1 hread)
      obtain ⟨hanswers, hend⟩ := ih hi' hturns.2
      rw [List.filter_cons_of_neg (by simp [hread])]
      refine ⟨?_, hend⟩
      have hnone : turnAnswer M h' turn = [] := by
        obtain ⟨now, up, action⟩ := turn
        cases action <;> first | rfl | cases hread
      rw [answers, hnone, List.nil_append, hanswers]

end Runs

/-! ### A transaction on devices -/

section Devices

/-- A root without a key-value store that lists the device `1`, as it came with the first data of
the root. -/
def firstDevices : Heap DeviceType DeviceMessage DeviceHash :=
  { volthaHeap ∅ with
    revs := fun r =>
      if r = ⟨"", 2⟩ then
        { config := ⟨.voltha, .data true .voltha⟩
          children := AList.singleton "devices" (some [some ⟨"", 5⟩])
          hash := some (.content (.data true .voltha) ""
            (.cons (.content (.data true (.device "1" 0)) "" .nil) .nil))
          branch := ⟨"", 1⟩, name := "", lastUpdate := none, version := 1, hasRoot := true }
      else
        { config := ⟨.device "1" 0, .data true (.device "1" 0)⟩, children := ∅
          hash := some (.content (.data true (.device "1" 0)) "" .nil), branch := ⟨"", 4⟩
          name := "", lastUpdate := none, version := 1, hasRoot := true }
    branches := fun b =>
      if b = ⟨"", 1⟩ then ⟨⟨"", 0⟩, "", some ⟨"", 2⟩⟩ else ⟨⟨"", 3⟩, "", some ⟨"", 5⟩⟩
    nodes := fun n =>
      if n = ⟨"", 0⟩ then ⟨.voltha, Function.update (fun _ => none) NONE (some ⟨"", 1⟩)⟩
      else ⟨.device, Function.update (fun _ => none) NONE (some ⟨"", 4⟩)⟩
    next := fun _ => 6
    store := none }

/-- The only branch of a node is one of others. -/
theorem owner_of_update {b c : Ref} {key : String} (hb : b.owner = "")
    (hc : Function.update (fun _ => none) NONE (some b) key = some c) : c.owner ≠ "t" := by
  rw [Function.update_apply] at hc
  split_ifs at hc
  cases hc
  rw [hb]
  decide

theorem unused_firstDevices : Unused "t" firstDevices where
  closed :=
    { root := by decide
      rev := fun {r} _ => by
        unfold firstDevices
        dsimp only
        split_ifs
        · refine ⟨by decide, ?_⟩
          rw [← AList.insert_empty]
          exact Unlisted.insert (fun _ _ hr => by cases hr) (by simp)
        · exact ⟨by decide, fun _ _ hr => by cases hr⟩
      branch := fun {b} _ => by
        unfold firstDevices
        dsimp only
        split_ifs
        · exact ⟨by decide, fun hl => by cases hl; decide⟩
        · exact ⟨by decide, fun hl => by cases hl; decide⟩
      node := fun {n key b} _ _ hb => by
        unfold firstDevices at hb
        dsimp only at hb
        split_ifs at hb
        · exact owner_of_update rfl hb
        · exact owner_of_update rfl hb
      cache := fun hr => by cases hr }
  unopened := fun n => by
    unfold firstDevices
    dsimp only
    split_ifs
    · decide
    · decide

theorem unused_volthaHeap (s : Store DeviceMessage) : Unused "t" (volthaHeap s) where
  closed :=
    { root := show "" ≠ "t" by decide
      rev := fun _ => ⟨show "" ≠ "t" by decide, fun _ _ hr => by cases hr⟩
      branch := fun _ => ⟨show "" ≠ "t" by decide, fun hl => by cases hl; decide⟩
      node := fun _ _ hb => owner_of_update rfl hb
      cache := fun hr => by cases hr }
  unopened := fun _ => show Function.update (fun _ => none) NONE (some ⟨"", 1⟩) "t" = none by decide

end Devices

end VolthaCore.Nodes
