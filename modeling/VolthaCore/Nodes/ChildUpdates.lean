import VolthaCore.Nodes.Keys

/-! An update of the children of a field loses no child: the new revision has one child for each
name among the existing children and the provided ones, with the provided data where there is
some, and an existing child stays unless its data changes. -/

namespace VolthaCore.Nodes

open Outcome List
open DataModel (entriesOf entriesOf_appendChildren)

variable {τ δ η : Type} {h : Heap τ δ η} {olds cs : List Ref}

def Heap.names (h : Heap τ δ η) (rs : List Ref) : List String := rs.map fun r => (h.revs r).name

/-- The children that come of existing and provided ones: one for each name, with the provided
data; an existing child stays when its name is not provided or its data is, and a provided one
is taken when there is no existing child of its name and data. -/
structure MergedByName (h : Heap τ δ η) (olds cs kids : List Ref) : Prop where
  distinct : (h.names kids).Nodup
  names : ∀ n, n ∈ h.names kids ↔ n ∈ h.names olds ∨ n ∈ h.names cs
  data : ∀ k ∈ kids, ∀ c ∈ cs, (h.revs k).name = (h.revs c).name →
    (h.revs k).data = (h.revs c).data
  kept : ∀ old ∈ olds, (∀ c ∈ cs, (h.revs c).name = (h.revs old).name →
    (h.revs c).data = (h.revs old).data) → old ∈ kids
  taken : ∀ c ∈ cs, (∀ old ∈ olds, (h.revs old).name = (h.revs c).name →
    (h.revs old).data ≠ (h.revs c).data) → c ∈ kids

variable [DecidableEq δ]

theorem keptRef_of_distinct (hdistinct : (h.names olds).Nodup) {old c : Ref} (hold : old ∈ olds)
    (hname : (h.revs old).name = (h.revs c).name) (hdata : (h.revs old).data = (h.revs c).data) :
    keptRef h olds c = old := by
  unfold keptRef
  split
  · rename_i found hfind
    have hfound : (h.revs found).name = (h.revs c).name := by simpa using find?_some hfind
    have hmem := mem_reverse.mp (mem_of_find?_eq_some hfind)
    obtain rfl := inj_on_of_nodup_map hdistinct hmem hold (hfound.trans hname.symm)
    rw [if_pos hdata]
  · rename_i hfind
    exact absurd hname (by simpa using find?_eq_none.mp hfind old (mem_reverse.mpr hold))

theorem names_mergedRefs (h : Heap τ δ η) (olds cs : List Ref) :
    h.names (mergedRefs h olds cs) =
      h.names (olds.filter fun old => ∀ r ∈ cs, (h.revs r).name ≠ (h.revs old).name) ++
        h.names cs := by
  simp [Heap.names, mergedRefs, name_keptRef, Function.comp_def]

theorem mergedByName (holds : (h.names olds).Nodup) (hcs : (h.names cs).Nodup) :
    MergedByName h olds cs (mergedRefs h olds cs) where
  distinct := by
    rw [names_mergedRefs]
    refine .append (holds.sublist (filter_sublist.map _)) hcs fun n hn hn' => ?_
    obtain ⟨old, hold, rfl⟩ := mem_map.mp hn
    obtain ⟨c, hc, hname⟩ := mem_map.mp hn'
    exact of_decide_eq_true (mem_filter.mp hold).2 c hc hname
  names n := by
    rw [names_mergedRefs, mem_append]
    refine ⟨Or.imp_left fun hn => ?_, fun hn => ?_⟩
    · exact (filter_sublist.map _).subset hn
    · by_cases hc : n ∈ h.names cs
      · exact .inr hc
      obtain ⟨old, hold, rfl⟩ := mem_map.mp (hn.resolve_right hc)
      refine .inl (mem_map_of_mem (mem_filter.mpr ⟨hold, decide_eq_true ?_⟩))
      exact fun c hmem hname => hc (hname ▸ mem_map_of_mem hmem)
  data k hk c hc hname := by
    rcases mem_append.mp hk with hk | hk
    · exact absurd hname.symm (of_decide_eq_true (mem_filter.mp hk).2 c hc)
    · obtain ⟨c', hc', rfl⟩ := mem_map.mp hk
      rw [name_keptRef] at hname
      rw [data_keptRef, inj_on_of_nodup_map hcs hc' hc hname]
  kept old hold hsame := by
    refine mem_append.mpr ?_
    by_cases hc : ∃ c ∈ cs, (h.revs c).name = (h.revs old).name
    · obtain ⟨c, hc, hname⟩ := hc
      have hkept := keptRef_of_distinct holds hold hname.symm (hsame c hc hname).symm
      exact .inr (mem_map.mpr ⟨c, hc, hkept⟩)
    · push Not at hc
      exact .inl (mem_filter.mpr ⟨hold, decide_eq_true hc⟩)
  taken c hc hnew := by
    refine mem_append_right _ (mem_map.mpr ⟨c, hc, ?_⟩)
    obtain heq | ⟨hmem, hname, hdata⟩ := keptRef_cases h olds c
    · exact heq
    · exact absurd hdata (hnew _ hmem hname)

/-- The new revision is the only change of the memory. It has the merged children in the field,
and the children of the latest revision of the branch in all others. -/
theorem updateChildren_loses_no_child {M : Model τ δ η} {env : Env} {r l branch : Ref}
    {name : String} (hl : (h.branches branch).latest = some l)
    (hex : ((h.revs l).getChildren name).entries = olds.map some)
    (holds : (h.names olds).Nodup) (hcs : (h.names cs).Nodup) :
    ∃ rev kids, updateChildren M env r name (cs.map some) branch h =
        .ok (h.fresh env.txid) (h.addRev env.txid rev) ∧
      (rev.getChildren name).entries = kids.map some ∧ MergedByName h olds cs kids ∧
      (∀ other ≠ name, (rev.getChildren other).entries = ((h.revs l).getChildren other).entries ∧
        (other ∈ rev.children ↔ other ∈ (h.revs l).children)) ∧
      rev.data = (h.revs r).data ∧ rev.name = (h.revs r).name := by
  unfold updateChildren
  rw [getRev_bind, getLatest_bind hl, getRev_bind, bind_of_ok (updatedChildren_apply hex cs)]
  refine ⟨_, _, newRev_rehash M env h _, ?_, mergedByName holds hcs, fun other hother => ?_, rfl,
    rfl⟩
  · simp only [Revision.getChildren, AList.lookup_insert]
    rfl
  · have hfield := entriesOf_appendChildren (h.revs l).children other
    unfold entriesOf at hfield
    simp [Revision.getChildren, hother, hfield]

/-- Ports 1 and 2 exist; port 2 is provided with another label, and port 3 is new. -/
def portChildren : Heap PortType PortMessage (List (Bool × PortMessage)) :=
  let port (number : ℕ) (label : String) : Revision PortMessage (List (Bool × PortMessage)) :=
    { portHeap.revs ⟨"", 0⟩ with config := ⟨.port number label, []⟩, name := toString number }
  { portHeap with
    next := fun _ => 7
    revs := fun r => match r.num with
      | 2 => { portHeap.revs r with
          children := (∅ : GoMap String _).insert "ports" (some [some ⟨"", 3⟩, some ⟨"", 4⟩]) }
      | 3 => port 1 "old"
      | 4 => port 2 "old"
      | 5 => port 2 "new"
      | _ => port 3 "new" }

theorem port_children_merged :
    let cs : List Ref := [⟨"", 5⟩, ⟨"", 6⟩]
    ∃ rev kids, updateChildren portModel ⟨"", 0, true⟩ ⟨"", 2⟩ "ports" (cs.map some) ⟨"", 1⟩
        portChildren = .ok ⟨"", 7⟩ (portChildren.addRev "" rev) ∧
      (rev.getChildren "ports").entries = kids.map some ∧
      MergedByName portChildren [⟨"", 3⟩, ⟨"", 4⟩] cs kids ∧
      (∀ other ≠ "ports", (rev.getChildren other).entries =
          ((portChildren.revs ⟨"", 2⟩).getChildren other).entries ∧
        (other ∈ rev.children ↔ other ∈ (portChildren.revs ⟨"", 2⟩).children)) ∧
      rev.data = .device ∧ rev.name = "" :=
  updateChildren_loses_no_child rfl rfl (by decide) (by decide)

end VolthaCore.Nodes
