import VolthaCore.Decomposition.Union
import VolthaCore.Lib.GoMap

/-! `DecomposeRules` as the loop of the source: the rules of each flow are added to those of
the flows before it, the devices that were given any are recorded, and what is returned is
filtered by them. The map of rules of a flow is visited in any order. Nothing is filtered
out, and what is returned for a list is the union of what is returned for its flows. -/

namespace VolthaCore.Decomposition

open OpenFlow Outcome FlowsAndGroups List AList
open DeviceRules (flowsOf_collect flowsOf_getD)

/-! ### The loop -/

structure RuleLoop where
  deviceRules : DeviceRules
  devicesToUpdate : GoMap String String

def addDecomposed (order : VisitOrder (Σ _ : String, FlowsAndGroups)) (s : RuleLoop)
    (decomposedRules : DeviceRules) : RuleLoop :=
  (order.visit decomposedRules.entries).foldl (fun s e =>
    ⟨s.deviceRules.addFrom e.1 e.2, s.devicesToUpdate.insert e.1 e.1⟩) s

def filterRules (dr : DeviceRules) (deviceIds : GoMap String String) : DeviceRules :=
  GoMap.filter dr fun deviceID _ => deviceID ∈ deviceIds

section Loop

variable (H : HashEnv) (T : Topology) (order : VisitOrder (Σ _ : String, FlowsAndGroups))
  (groups : List OfpGroupEntry) (route : RouteLookup)

def decomposeRulesLoop : List OfpFlowStats → RuleLoop → Except Err RuleLoop
  | [], s => .ok s
  | flow :: rest, s => do
    let part ← decomposeFlow H T flow groups route
    decomposeRulesLoop rest (addDecomposed order s part.rules)

def filteredRules (flows : List OfpFlowStats) : Except Err DeviceRules := do
  let s ← decomposeRulesLoop H T order groups route flows ⟨∅, ∅⟩
  return filterRules s.deviceRules s.devicesToUpdate

end Loop

/-- The loop has the rules `dr`, and every device with rules is recorded. -/
structure Holds (s : RuleLoop) (dr : DeviceRules) : Prop where
  same : ∀ d, s.deviceRules.lookup d = dr.lookup d
  recorded : ∀ d ∈ s.deviceRules, d ∈ s.devicesToUpdate

variable {order : VisitOrder (Σ _ : String, FlowsAndGroups)} {s : RuleLoop} {dr : DeviceRules}

theorem Holds.addRound (h : ∀ d ∈ s.deviceRules, d ∈ s.devicesToUpdate)
    (e : Σ _ : String, FlowsAndGroups) :
    ∀ d ∈ s.deviceRules.addFrom e.1 e.2, d ∈ s.devicesToUpdate.insert e.1 e.1 := by
  intro d hd
  rw [mem_insert]
  by_cases hde : d = e.1
  · exact .inl hde
  · refine .inr (h d ?_)
    rwa [← lookup_isSome, DeviceRules.lookup_addFrom_ne _ hde, lookup_isSome] at hd

theorem Holds.addDecomposed (h : Holds s dr) (part : DeviceRules) :
    Holds (addDecomposed order s part) (dr.collect part) := by
  have hperm := order.perm part.entries
  have hnodup : (order.visit part.entries).NodupKeys :=
    (perm_nodupKeys hperm).mpr part.nodupKeys
  unfold Decomposition.addDecomposed
  have hsplit : ∀ (es : List (Σ _ : String, FlowsAndGroups)) (s : RuleLoop),
      (es.foldl (fun s e => (⟨s.deviceRules.addFrom e.1 e.2,
        s.devicesToUpdate.insert e.1 e.1⟩ : RuleLoop)) s).deviceRules =
      es.foldl (fun acc e => acc.addFrom e.1 e.2) s.deviceRules := by
    intro es
    induction es with
    | nil => intro s; rfl
    | cons e es ih => intro s; exact ih _
  constructor
  · intro d
    rw [hsplit, DeviceRules.lookup_foldl_addFrom _ hnodup, DeviceRules.lookup_collect, h.same d,
      perm_dlookup d hnodup hperm]
    rfl
  · exact List.foldlRecOn (order.visit part.entries) _
      (motive := fun s : RuleLoop => ∀ d ∈ s.deviceRules, d ∈ s.devicesToUpdate) h.recorded
      fun _ hs e _ => Holds.addRound hs e

theorem Holds.lookup_filterRules (h : Holds s dr) (d : String) :
    (filterRules s.deviceRules s.devicesToUpdate).lookup d = dr.lookup d := by
  unfold filterRules
  rw [GoMap.lookup_filter, ← h.same d]
  cases hd : s.deviceRules.lookup d with
  | none => rfl
  | some fg =>
    have hmem : d ∈ s.deviceRules := lookup_isSome.mp (by simp [hd])
    simp [Option.filter, h.recorded d hmem]

variable {H : HashEnv} {T : Topology} {groups : List OfpGroupEntry} {route : RouteLookup}
  {flows flows' : List OfpFlowStats} {rules rules' : DeviceRules}

theorem decomposeRulesLoop_ok_iff {s' : RuleLoop} :
    decomposeRulesLoop H T order groups route flows s = .ok s' ↔
      ∃ parts,
        List.Forall₂ (fun f part => decomposeFlow H T f groups route = .ok part) flows parts ∧
        s' = parts.foldl (fun s part => addDecomposed order s part.rules) s := by
  induction flows generalizing s with
  | nil =>
    simp only [decomposeRulesLoop, Except.ok.injEq, forall₂_nil_left_iff, exists_eq_left, foldl_nil]
    exact eq_comm
  | cons flow rest ih =>
    rw [decomposeRulesLoop, except_bind_ok_iff]
    simp only [ih]
    constructor
    · rintro ⟨part, hpart, parts, hparts, rfl⟩
      exact ⟨part :: parts, .cons hpart hparts, rfl⟩
    · rintro ⟨_, hall, rfl⟩
      obtain ⟨part, parts, hpart, hparts, rfl⟩ := forall₂_cons_left_iff.mp hall
      exact ⟨part, hpart, parts, hparts, rfl⟩

theorem filteredRules_ok (h : filteredRules H T order groups route flows = .ok rules) :
    ∃ dec, decomposeRules H T flows groups route = .ok dec ∧
      ∀ d, rules.lookup d = dec.rules.lookup d := by
  obtain ⟨s', hloop, h⟩ := except_bind_ok_iff.mp h
  cases h
  obtain ⟨parts, hparts, rfl⟩ := decomposeRulesLoop_ok_iff.mp hloop
  refine ⟨_, decomposeRules_ok_iff.mpr ⟨parts, hparts, rfl⟩, ?_⟩
  have hholds : ∀ (parts : List Decomposed) (s : RuleLoop) (dr : DeviceRules), Holds s dr →
      Holds (parts.foldl (fun s part => addDecomposed order s part.rules) s)
        (parts.foldl (fun acc part => acc.collect part.rules) dr) := by
    intro parts
    induction parts with
    | nil => exact fun s dr h => h
    | cons part parts ih => exact fun s dr h => ih _ _ (h.addDecomposed part.rules)
  have hstart : Holds ⟨∅, ∅⟩ ∅ := ⟨fun _ => rfl, fun d hd => absurd hd (notMem_empty d)⟩
  exact (hholds parts _ _ hstart).lookup_filterRules

theorem exists_filteredRules_iff (order : VisitOrder (Σ _ : String, FlowsAndGroups)) :
    (∃ rules, filteredRules H T order groups route flows = .ok rules) ↔
      ∀ f ∈ flows, ∃ part, decomposeFlow H T f groups route = .ok part := by
  constructor
  · rintro ⟨rules, h⟩ f hf
    obtain ⟨dec, hdec, -⟩ := filteredRules_ok h
    exact decomposeFlow_of_mem hdec hf
  · intro h
    obtain ⟨dec, hdec⟩ := exists_decomposeRules h
    obtain ⟨parts, hparts, -⟩ := decomposeRules_ok_iff.mp hdec
    have hloop : decomposeRulesLoop H T order groups route flows ⟨∅, ∅⟩ = .ok _ :=
      decomposeRulesLoop_ok_iff.mpr ⟨parts, hparts, rfl⟩
    exact ⟨_, except_bind_ok_iff.mpr ⟨_, hloop, rfl⟩⟩

/-! ### The union over the flows -/

def flowIds (rules : DeviceRules) (d : String) : List UInt64 := (rules.flowsOf d).map (·.id)

section

variable (h : filteredRules H T order groups route flows = .ok rules)
include h

theorem filteredRules_flowsOf :
    ∃ dec, decomposeRules H T flows groups route = .ok dec ∧
      ∀ d, rules.flowsOf d = dec.rules.flowsOf d := by
  obtain ⟨dec, hdec, hlookup⟩ := filteredRules_ok h
  refine ⟨dec, hdec, fun d => ?_⟩
  unfold DeviceRules.flowsOf
  rw [hlookup]

theorem mem_flowIds_filteredRules (d : String) (id : UInt64) :
    id ∈ flowIds rules d ↔
      ∃ f ∈ flows, ∃ part, decomposeFlow H T f groups route = .ok part ∧
        id ∈ flowIds part.rules d := by
  obtain ⟨dec, hdec, hflows⟩ := filteredRules_flowsOf h
  unfold flowIds
  rw [hflows]
  constructor
  · intro hid
    obtain ⟨x, hx, rfl⟩ := mem_map.mp hid
    obtain ⟨f, hf, hxf⟩ := mem_decomposeRules hdec hx
    obtain ⟨part, hpart⟩ := decomposeFlow_of_mem hdec hf
    rw [ruleFlows, hpart] at hxf
    exact ⟨f, hf, part, hpart, mem_map_of_mem hxf⟩
  · rintro ⟨f, hf, part, hpart, hid⟩
    obtain ⟨x, hx, rfl⟩ := mem_map.mp hid
    obtain ⟨y, hy, hyx⟩ := exists_id_decomposeRules hdec hf (d := d) (x := x)
      (by rw [ruleFlows, hpart]; exact hx)
    exact mem_map.mpr ⟨y, hy, hyx⟩

/-- Where the identifiers separate the rules of the flows, so do the rules themselves form the
union. -/
theorem mem_flowsOf_filteredRules
    (hid : ∀ d, ∀ f ∈ flows, ∀ g ∈ flows, ∀ x ∈ ruleFlows H T groups f d route,
      ∀ y ∈ ruleFlows H T groups g d route, x.id = y.id → x = y)
    (d : String) (x : OfpFlowStats) :
    x ∈ rules.flowsOf d ↔ ∃ f ∈ flows, x ∈ ruleFlows H T groups f d route := by
  obtain ⟨dec, hdec, hflows⟩ := filteredRules_flowsOf h
  rw [hflows]
  constructor
  · exact fun hx => mem_decomposeRules hdec hx
  · rintro ⟨f, hf, hx⟩
    obtain ⟨y, hy, hyx⟩ := exists_id_decomposeRules hdec hf hx
    obtain ⟨g, hg, hyg⟩ := mem_decomposeRules hdec hy
    rwa [hid d g hg f hf y hyg x hx hyx] at hy

end

/-! ### Concatenation -/

/-- Collecting is associative, as far as the flows go. -/
theorem flowsOf_collect_collect (a b c : DeviceRules) (d : String) :
    ((a.collect b).collect c).flowsOf d = (a.collect (b.collect c)).flowsOf d := by
  have hentry : ((((a.collect b).lookup d).getD newFlowsAndGroups).flows) =
      ((a.lookup d).getD newFlowsAndGroups).flows.addAll (b.flowsOf d) := by
    ext1
    rw [← flowsOf_collect]
    exact flowsOf_getD _ d
  rw [flowsOf_collect, flowsOf_collect, hentry, flowsOf_collect,
    ← flowsOf_getD b]
  exact congrArg OrderedMap.items (OrderedMap.addAll_addAll _ _ _)

theorem flowsOf_collect_congr {a a' b b' : DeviceRules} {d : String}
    (h : a.flowsOf d = a'.flowsOf d) (h' : b.flowsOf d = b'.flowsOf d) :
    (a.collect b).flowsOf d = (a'.collect b').flowsOf d := by
  have hentry : ((a.lookup d).getD newFlowsAndGroups).flows =
      ((a'.lookup d).getD newFlowsAndGroups).flows := by
    ext1
    exact (flowsOf_getD a d).trans (h.trans (flowsOf_getD a' d).symm)
  rw [flowsOf_collect, flowsOf_collect, hentry, h']

theorem flowsOf_foldl_collect (parts : List Decomposed) (dr : DeviceRules) (d : String) :
    (parts.foldl (fun acc part => acc.collect part.rules) dr).flowsOf d =
      (dr.collect (parts.foldl (fun acc part => acc.collect part.rules) ∅)).flowsOf d := by
  induction parts using List.reverseRecOn with
  | nil => rfl
  | append_singleton parts part ih =>
    simp only [foldl_append, foldl_cons, foldl_nil]
    rw [flowsOf_collect_congr ih rfl, flowsOf_collect_collect]

theorem flowsOf_filteredRules_append {rules1 rules2 : DeviceRules}
    (h1 : filteredRules H T order groups route flows = .ok rules1)
    (h2 : filteredRules H T order groups route flows' = .ok rules2)
    (h : filteredRules H T order groups route (flows ++ flows') = .ok rules) (d : String) :
    rules.flowsOf d = (rules1.collect rules2).flowsOf d := by
  obtain ⟨dec1, hdec1, hflows1⟩ := filteredRules_flowsOf h1
  obtain ⟨dec2, hdec2, hflows2⟩ := filteredRules_flowsOf h2
  obtain ⟨dec, hdec, hflows⟩ := filteredRules_flowsOf h
  obtain ⟨parts1, hparts1, rfl⟩ := decomposeRules_ok_iff.mp hdec1
  obtain ⟨parts2, hparts2, rfl⟩ := decomposeRules_ok_iff.mp hdec2
  have hall := decomposeRules_ok_iff.mpr ⟨_, rel_append hparts1 hparts2, rfl⟩
  cases hall.symm.trans hdec
  rw [hflows, flowsOf_collect_congr (hflows1 d) (hflows2 d), foldl_append]
  exact flowsOf_foldl_collect parts2 _ d

/-! ### Lists of flows -/

/-- For any route lookup that is a function of the two ports: a list decomposes when each of its
flows does; its identifiers on a device are those of its flows, and its rules are theirs where no
two different rules share an identifier; the order of the flows does not matter; and a
concatenation has the merged rules. -/
theorem decomposeRules_union (H : HashEnv) (T : Topology) (groups : List OfpGroupEntry)
    (route : RouteLookup) (order : VisitOrder (Σ _ : String, FlowsAndGroups))
    (flows : List OfpFlowStats) :
    ((∃ rules, filteredRules H T order groups route flows = .ok rules) ↔
      ∀ f ∈ flows, ∃ part, decomposeFlow H T f groups route = .ok part) ∧
    (∀ rules, filteredRules H T order groups route flows = .ok rules →
      (∀ d id, id ∈ flowIds rules d ↔ ∃ f ∈ flows, ∃ part,
        decomposeFlow H T f groups route = .ok part ∧ id ∈ flowIds part.rules d) ∧
      ((∀ d, ∀ f ∈ flows, ∀ g ∈ flows, ∀ x ∈ ruleFlows H T groups f d route,
        ∀ y ∈ ruleFlows H T groups g d route, x.id = y.id → x = y) →
        ∀ d x, x ∈ rules.flowsOf d ↔ ∃ f ∈ flows, x ∈ ruleFlows H T groups f d route)) ∧
    (∀ flows', flows.Perm flows' →
      ((∃ rules, filteredRules H T order groups route flows = .ok rules) ↔
        ∃ rules', filteredRules H T order groups route flows' = .ok rules') ∧
      ∀ rules rules', filteredRules H T order groups route flows = .ok rules →
        filteredRules H T order groups route flows' = .ok rules' →
        ∀ d id, id ∈ flowIds rules d ↔ id ∈ flowIds rules' d) ∧
    ∀ flows',
      ((∃ rules, filteredRules H T order groups route (flows ++ flows') = .ok rules) ↔
        (∃ rules₁, filteredRules H T order groups route flows = .ok rules₁) ∧
          ∃ rules₂, filteredRules H T order groups route flows' = .ok rules₂) ∧
      ∀ rules₁ rules₂ rules, filteredRules H T order groups route flows = .ok rules₁ →
        filteredRules H T order groups route flows' = .ok rules₂ →
        filteredRules H T order groups route (flows ++ flows') = .ok rules →
        ∀ d, rules.flowsOf d = (rules₁.collect rules₂).flowsOf d := by
  refine ⟨exists_filteredRules_iff order, fun rules h => ⟨mem_flowIds_filteredRules h,
    mem_flowsOf_filteredRules h⟩, fun flows' hperm => ⟨?_, fun rules rules' h h' d id => ?_⟩,
    fun flows' => ⟨?_, fun rules₁ rules₂ rules => flowsOf_filteredRules_append⟩⟩
  · rw [exists_filteredRules_iff, exists_filteredRules_iff]
    exact forall_congr' fun f => by rw [hperm.mem_iff]
  · rw [mem_flowIds_filteredRules h, mem_flowIds_filteredRules h']
    exact exists_congr fun f => by rw [hperm.mem_iff]
  · rw [exists_filteredRules_iff, exists_filteredRules_iff, exists_filteredRules_iff]
    exact forall_mem_append

end VolthaCore.Decomposition
