import VolthaCore.DataModel.Conflicts

/-! The data of a node in a merge. The merged revision is built on the revision of the
transaction as soon as the configuration of either side is not the one of the fork, and a
revision whose children are updated has a configuration of its own. So the data of the
transaction's side is kept, and a change that only the `NONE` branch has made to the data is
undone by every merge that produces a revision. -/

namespace VolthaCore.DataModel

section Branch

variable {δ α ω : Type} [DecidableEq δ] [DecidableEq α] {c : Commit δ} {A : Access α}
  {mergeChild : α → Logged Err ω (Option α)} {b : Branches (RevisionOf δ α)}
  {merged : Option (RevisionOf δ α) × RevisionOf δ α} {log : List ω}

/-- Where one side has other data than the fork, the merge keeps the transaction's data. -/
theorem getData_of_mergedRevision {rev : RevisionOf δ α} {dryRun : Bool}
    (h : mergedRevision c A mergeChild dryRun b = some rev)
    (hchanged : b.none.getData ≠ b.origin.getData ∨ b.latest.getData ≠ b.none.getData) :
    rev.getData = b.latest.getData := by
  have hconfig : configChanged b.origin b.latest b.none = true := by
    unfold configChanged
    split_ifs with hsame
    · have hnone : b.none.getData = b.origin.getData := congrArg DataRevision.data hsame
      have hlatest := hchanged.resolve_left (not_not.mpr hnone)
      exact decide_eq_true fun h => hlatest (congrArg DataRevision.data h.symm)
    · rfl
  rw [RevisionOf.getData, (config_of_mergedRevision h).1, if_pos hconfig]
  rfl

/-- What a merge of revisions keeps of the data, for any way to merge the children. -/
theorem mergeBranchOf_data_iff (h : (mergeBranchOf c A mergeChild false b).Gives merged log) :
    (∀ rev, merged.1 = some rev →
      (b.latest.getData = b.origin.getData → b.none.getData ≠ b.origin.getData →
        rev.getData = b.none.getData) ∧
      (b.latest.getData ≠ b.origin.getData → b.none.getData = b.origin.getData →
        rev.getData = b.latest.getData)) ↔
    (b.latest.getData = b.origin.getData → b.none.getData ≠ b.origin.getData →
      Childless c.schema b) := by
  obtain ⟨heq, -⟩ := mergeBranchOf_gives h
  have hsome := isSome_of_yields h.returns
  rw [heq]
  constructor
  · intro hdata hlatest hnone
    by_contra hchildren
    obtain ⟨rev, hrev⟩ := Option.isSome_iff_exists.mp (hsome.mpr hchildren)
    have hkept := (hdata rev hrev).1 hlatest hnone
    rw [getData_of_mergedRevision hrev (.inl hnone), hlatest] at hkept
    exact hnone hkept.symm
  · intro hchildren rev hrev
    have hnot : ¬Childless c.schema b := hsome.mp (Option.isSome_of_eq_some hrev)
    refine ⟨fun hlatest hnone => absurd (hchildren hlatest hnone) hnot, fun hlatest hnone => ?_⟩
    exact getData_of_mergedRevision hrev (.inr (hnone ▸ hlatest))

end Branch

section Trees

variable {δ : Type} [DecidableEq δ]

def Revision.getData (n : ℕ) (rev : Revision δ n) : δ := (Revision.config n rev).data

/-- Only the `NONE` branch has changed the data of the node. -/
def OnlyNoneChanged (n : ℕ) (b : Branches (Revision δ n)) : Prop :=
  Revision.getData n b.latest = Revision.getData n b.origin ∧
    Revision.getData n b.none ≠ Revision.getData n b.origin

/-- Only the transaction has changed the data of the node. -/
def OnlyTransactionChanged (n : ℕ) (b : Branches (Revision δ n)) : Prop :=
  Revision.getData n b.latest ≠ Revision.getData n b.origin ∧
    Revision.getData n b.none = Revision.getData n b.origin

/-- There are no children to list in a merged revision: `NONE` has no child fields, and no
keyed field differs. -/
def NoChildren (schema : Schema δ) : (n : ℕ) → Branches (Revision δ n) → Prop
  | 0, b => Childless (α := Empty) schema b
  | n + 1, b => Childless (α := Child (Revision δ n)) schema b

/-- The merged revision of a node keeps a change that only one side has made to the data, whichever
side it is, if and only if it is not the `NONE` branch or no revision comes of the merge. -/
theorem mergeBranch_keeps_data_iff {c : Commit δ} {n : ℕ} {b : Branches (Revision δ n)}
    {merged : Option (Revision δ n) × Revision δ n} {log : List (Touched δ)}
    (h : (mergeBranch c false n b).Gives merged log) :
    (∀ rev, merged.1 = some rev →
      (OnlyNoneChanged n b → Revision.getData n rev = Revision.getData n b.none) ∧
      (OnlyTransactionChanged n b → Revision.getData n rev = Revision.getData n b.latest)) ↔
    ¬OnlyNoneChanged n b ∨ NoChildren c.schema n b := by
  rw [← imp_iff_not_or]
  simp only [OnlyNoneChanged, OnlyTransactionChanged, and_imp]
  cases n with
  | zero =>
    obtain ⟨log', hrun, -⟩ := mergeBranch_zero_gives.mp h
    exact mergeBranchOf_data_iff (α := Empty) hrun
  | succ n =>
    obtain ⟨log', hrun, -⟩ := mergeBranch_succ_gives.mp h
    exact mergeBranchOf_data_iff hrun

end Trees

/-! ### A root that `NONE` has renamed -/

def valueRoot (ref : ℕ) (value : String) (devices : List Leaf) :
    RevisionOf (String × String) Leaf :=
  { rootRevision ref "devices" devices with config := ⟨ref, ("root", value), "root" ++ value⟩ }

/-- `NONE` has changed the value, the transaction has added a device: the merged revision has the
old value. -/
theorem none_data_is_undone :
    let origin := valueRoot 1 "old" []
    let latest := valueRoot 2 "old" [.plain (leafRevision 3 "olt" "")]
    let none := valueRoot 4 "new" []
    OnlyNoneChanged 1 ⟨origin, latest, none⟩ ∧ ∃ rev rest log,
      (mergeBranch rootCommit false 1 ⟨origin, latest, none⟩).Gives (some rev, rest) log ∧
        Revision.getData 1 rev = ("root", "old") ∧ Revision.getData 1 none = ("root", "new") := by
  intro origin latest none
  refine ⟨⟨rfl, by decide⟩, _, _, _, rfl, by decide, rfl⟩

/-- The transaction has changed the value, `NONE` has added a device. -/
theorem mergeBranch_keeps_transaction_data :
    let origin := valueRoot 1 "old" []
    let latest := valueRoot 2 "new" []
    let none := valueRoot 3 "old" [.plain (leafRevision 4 "olt" "")]
    ∃ merged log, (mergeBranch rootCommit false 1 ⟨origin, latest, none⟩).Gives merged log ∧
      OnlyTransactionChanged 1 ⟨origin, latest, none⟩ ∧
      ∀ rev, merged.1 = some rev →
        (OnlyNoneChanged 1 ⟨origin, latest, none⟩ →
          Revision.getData 1 rev = Revision.getData 1 none) ∧
        (OnlyTransactionChanged 1 ⟨origin, latest, none⟩ →
          Revision.getData 1 rev = Revision.getData 1 latest) := by
  intro origin latest none
  obtain ⟨merged, log, hrun⟩ : ∃ merged log,
      (mergeBranch rootCommit false 1 ⟨origin, latest, none⟩).Gives merged log := ⟨_, _, rfl⟩
  refine ⟨merged, log, hrun, ⟨by decide, rfl⟩, ?_⟩
  exact (mergeBranch_keeps_data_iff hrun).mpr (.inl fun h => h.2 rfl)

end VolthaCore.DataModel
