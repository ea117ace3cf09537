import Mathlib.Data.List.AList
import VolthaCore.Lib.OrderedMap
import VolthaCore.OpenFlow.FlowUtils

/-! The rules that a decomposition hands out: for every device an ordered map of
flows, keyed by the flow identifier, and one of groups. Flows and groups are only
added under identifiers that are not taken, while a whole entry of a device is
overwritten. The rules of several flows are collected device by device. -/

namespace VolthaCore.OpenFlow

open OrderedMap

/-- The flows and groups for one device. A group is kept with the key it was
added under, since adding reads the identifier of its description and collecting
the one of its statistics. -/
structure FlowsAndGroups where
  flows : OrderedMap OfpFlowStats.id
  groups : OrderedMap (Prod.fst : UInt32 × OfpGroupEntry → UInt32)

namespace FlowsAndGroups

def newFlowsAndGroups : FlowsAndGroups := ⟨.empty, .empty⟩

def listFlows (fg : FlowsAndGroups) : List OfpFlowStats := fg.flows.items

def listGroups (fg : FlowsAndGroups) : List OfpGroupEntry := fg.groups.items.map Prod.snd

def addFlow (fg : FlowsAndGroups) (flow : OfpFlowStats) : FlowsAndGroups :=
  { fg with flows := fg.flows.addIfAbsent flow }

def addGroup (fg : FlowsAndGroups) (group : OfpGroupEntry) : FlowsAndGroups :=
  { fg with groups := fg.groups.addIfAbsent (group.desc.groupId, group) }

/-- Add what the other entry has and this one has not. -/
def addFrom (fg other : FlowsAndGroups) : FlowsAndGroups where
  flows := fg.flows.addAll other.listFlows
  groups := fg.groups.addAll (other.listGroups.map fun g => (g.stats.groupId, g))

def ofFlow (flow : OfpFlowStats) : FlowsAndGroups := newFlowsAndGroups.addFlow flow

def ofGroup (group : OfpGroupEntry) : FlowsAndGroups := newFlowsAndGroups.addGroup group

@[simp] theorem listFlows_ofFlow (flow : OfpFlowStats) : (ofFlow flow).listFlows = [flow] :=
  addIfAbsent_empty flow

@[simp] theorem listGroups_ofFlow (flow : OfpFlowStats) : (ofFlow flow).listGroups = [] := rfl

@[simp] theorem listFlows_ofGroup (group : OfpGroupEntry) : (ofGroup group).listFlows = [] := rfl

@[simp] theorem listGroups_ofGroup (group : OfpGroupEntry) :
    (ofGroup group).listGroups = [group] := by
  simp [ofGroup, addGroup, listGroups, newFlowsAndGroups, addIfAbsent_empty]

end FlowsAndGroups

abbrev DeviceRules := AList fun _ : String => FlowsAndGroups

namespace DeviceRules

open FlowsAndGroups List AList

/-- Overwrite the entry of a device. -/
def addFlowsAndGroup (dr : DeviceRules) (deviceId : String) (fg : FlowsAndGroups) : DeviceRules :=
  dr.insert deviceId fg

def createEntryIfNotExist (dr : DeviceRules) (deviceId : String) : DeviceRules :=
  if deviceId ∈ dr then dr else dr.insert deviceId newFlowsAndGroups

def addFlow (dr : DeviceRules) (deviceId : String) (flow : OfpFlowStats) : DeviceRules :=
  dr.insert deviceId (((dr.lookup deviceId).getD newFlowsAndGroups).addFlow flow)

def clearFlows (dr : DeviceRules) (deviceId : String) : DeviceRules :=
  match dr.lookup deviceId with
  | none => dr
  | some fg => dr.insert deviceId { fg with flows := .empty }

/-- Create the entry of a device where it is missing and add to it. -/
def addFrom (dr : DeviceRules) (deviceId : String) (fg : FlowsAndGroups) : DeviceRules :=
  let dr := dr.createEntryIfNotExist deviceId
  dr.insert deviceId (((dr.lookup deviceId).getD newFlowsAndGroups).addFrom fg)

def collect (dr other : DeviceRules) : DeviceRules :=
  other.entries.foldl (fun acc e => acc.addFrom e.1 e.2) dr

def flowsOf (dr : DeviceRules) (deviceId : String) : List OfpFlowStats :=
  match dr.lookup deviceId with
  | none => []
  | some fg => fg.listFlows

variable {dr other : DeviceRules} {d d' : String} {x : OfpFlowStats}

theorem flowsOf_eq_nil (h : d ∉ dr.keys) : dr.flowsOf d = [] := by
  unfold flowsOf
  rw [lookup_eq_none.mpr fun hd => h (AList.mem_keys.mp hd)]

theorem lookup_addFrom_self (dr : DeviceRules) (d : String) (fg : FlowsAndGroups) :
    (dr.addFrom d fg).lookup d =
      some (((dr.lookup d).getD newFlowsAndGroups).addFrom fg) := by
  unfold addFrom createEntryIfNotExist
  rw [lookup_insert]
  split_ifs with h
  · rfl
  · rw [lookup_insert, lookup_eq_none.mpr h]
    rfl

theorem lookup_addFrom_ne (dr : DeviceRules) (hne : d ≠ d') (fg : FlowsAndGroups) :
    (dr.addFrom d' fg).lookup d = dr.lookup d := by
  unfold addFrom createEntryIfNotExist
  rw [lookup_insert_ne hne]
  split_ifs
  · rfl
  · rw [lookup_insert_ne hne]

/-- Adding entries, each for a device of its own, in the order in which they are listed. -/
theorem lookup_foldl_addFrom (es : List (Σ _ : String, FlowsAndGroups))
    (hes : es.NodupKeys) (dr : DeviceRules) (d : String) :
    (es.foldl (fun acc e => acc.addFrom e.1 e.2) dr).lookup d =
      match es.dlookup d with
      | none => dr.lookup d
      | some fg => some (((dr.lookup d).getD newFlowsAndGroups).addFrom fg) := by
  induction es generalizing dr with
  | nil => rfl
  | cons e es ih =>
    obtain ⟨d', fg⟩ := e
    rw [nodupKeys_cons] at hes
    rw [foldl_cons, ih hes.2]
    by_cases hd : d = d'
    · subst hd
      rw [dlookup_cons_eq, dlookup_eq_none.mpr hes.1]
      exact lookup_addFrom_self dr d fg
    · rw [dlookup_cons_ne _ _ hd, lookup_addFrom_ne dr hd]

/-- Collecting touches the entries of the devices that the other rules name. -/
theorem lookup_collect (dr other : DeviceRules) (d : String) :
    (dr.collect other).lookup d =
      match other.lookup d with
      | none => dr.lookup d
      | some fg => some (((dr.lookup d).getD newFlowsAndGroups).addFrom fg) :=
  lookup_foldl_addFrom other.entries other.nodupKeys dr d

theorem flowsOf_getD (dr : DeviceRules) (d : String) :
    ((dr.lookup d).getD newFlowsAndGroups).listFlows = dr.flowsOf d := by
  unfold flowsOf
  cases dr.lookup d <;> rfl

theorem flowsOf_collect (dr other : DeviceRules) (d : String) :
    (dr.collect other).flowsOf d =
      (((dr.lookup d).getD newFlowsAndGroups).flows.addAll (other.flowsOf d)).items := by
  rw [← flowsOf_getD, lookup_collect]
  unfold flowsOf
  cases other.lookup d <;> rfl

theorem mem_flowsOf_collect (hx : x ∈ (dr.collect other).flowsOf d) :
    x ∈ dr.flowsOf d ∨ x ∈ other.flowsOf d := by
  unfold flowsOf at hx
  rw [lookup_collect] at hx
  cases ho : other.lookup d with
  | none =>
    rw [ho] at hx
    exact .inl hx
  | some fg =>
    rw [ho] at hx
    rcases mem_addAll _ _ hx with h | h
    · exact .inl (flowsOf_getD dr d ▸ h)
    · exact .inr (by simpa [flowsOf, ho] using h)

theorem subset_flowsOf_collect (other : DeviceRules) (hx : x ∈ dr.flowsOf d) :
    x ∈ (dr.collect other).flowsOf d := by
  unfold flowsOf
  rw [lookup_collect]
  cases ho : other.lookup d with
  | none => simpa [flowsOf] using hx
  | some fg =>
    rw [← flowsOf_getD] at hx
    exact subset_addAll _ _ hx

/-- A collected flow is there or another one with its identifier is. -/
theorem exists_id_flowsOf_collect (dr : DeviceRules) (hx : x ∈ other.flowsOf d) :
    ∃ y ∈ (dr.collect other).flowsOf d, y.id = x.id := by
  unfold flowsOf at hx ⊢
  rw [lookup_collect]
  cases ho : other.lookup d with
  | none => simp [ho] at hx
  | some fg =>
    rw [ho] at hx
    exact exists_key_addAll _ _ hx

/-! ### Rules that carry flows only -/

/-- Every entry has exactly one flow and no group. -/
def SingleFlows (dr : DeviceRules) : Prop :=
  ∀ d fg, dr.lookup d = some fg → (∃ flow, fg.listFlows = [flow]) ∧ fg.listGroups = []

/-- Every entry has a flow and no group. -/
def FlowsOnly (dr : DeviceRules) : Prop :=
  ∀ d fg, dr.lookup d = some fg → fg.listFlows ≠ [] ∧ fg.listGroups = []

theorem SingleFlows.flowsOnly (h : dr.SingleFlows) : dr.FlowsOnly := by
  intro d fg hl
  obtain ⟨⟨flow, hflow⟩, hgroups⟩ := h d fg hl
  exact ⟨by simp [hflow], hgroups⟩

theorem singleFlows_empty : SingleFlows ∅ := by
  intro d fg h
  simp at h

theorem SingleFlows.addFlowsAndGroup (h : dr.SingleFlows) (d : String) (flow : OfpFlowStats) :
    (dr.addFlowsAndGroup d (ofFlow flow)).SingleFlows := by
  intro d' fg hl
  unfold DeviceRules.addFlowsAndGroup at hl
  by_cases hd : d' = d
  · subst hd
    rw [lookup_insert, Option.some.injEq] at hl
    subst hl
    exact ⟨⟨flow, listFlows_ofFlow flow⟩, listGroups_ofFlow flow⟩
  · rw [lookup_insert_ne hd] at hl
    exact h d' fg hl

theorem lookup_clearFlows_ne (dr : DeviceRules) (hne : d' ≠ d) :
    (dr.clearFlows d).lookup d' = dr.lookup d' := by
  unfold clearFlows
  cases dr.lookup d with
  | none => rfl
  | some fg => exact lookup_insert_ne hne

theorem SingleFlows.replaceFlow (h : dr.SingleFlows) (d : String) (flow : OfpFlowStats) :
    ((dr.clearFlows d).addFlow d flow).SingleFlows := by
  intro d' fg hl
  unfold DeviceRules.addFlow at hl
  by_cases hd : d' = d
  · subst hd
    rw [lookup_insert, Option.some.injEq] at hl
    subst hl
    unfold DeviceRules.clearFlows
    cases hd : dr.lookup d' with
    | none =>
      rw [hd]
      exact ⟨⟨flow, listFlows_ofFlow flow⟩, listGroups_ofFlow flow⟩
    | some fg =>
      simp only [lookup_insert, Option.getD_some]
      exact ⟨⟨flow, listFlows_ofFlow flow⟩, (h d' fg hd).2⟩
  · rw [lookup_insert_ne hd, lookup_clearFlows_ne dr hd] at hl
    exact h d' fg hl

theorem SingleFlows.eq_of_mem (h : dr.SingleFlows) {y : OfpFlowStats} (hx : x ∈ dr.flowsOf d)
    (hy : y ∈ dr.flowsOf d) : x = y := by
  unfold flowsOf at hx hy
  cases hl : dr.lookup d with
  | none => simp [hl] at hx
  | some fg =>
    obtain ⟨⟨flow, hflow⟩, -⟩ := h d fg hl
    simp only [hl, hflow, mem_singleton] at hx hy
    rw [hx, hy]

theorem FlowsOnly.lookup_eq_none_iff (h : dr.FlowsOnly) (d : String) :
    dr.lookup d = none ↔ dr.flowsOf d = [] := by
  unfold flowsOf
  cases hd : dr.lookup d with
  | none => simp
  | some fg => simpa using (h d fg hd).1

end DeviceRules

end VolthaCore.OpenFlow
