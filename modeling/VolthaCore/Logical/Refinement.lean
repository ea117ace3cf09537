import VolthaCore.Lib.Runs
import VolthaCore.Logical.Tables

/-! The flow tables of the devices against the flow table of the logical device. A
device should hold the rules into which the flows decompose, but it is only told
what to add and what to delete. The two agree by key as long as flows do not share
the rules that one of them gives up: a deleted flow takes its rules with it even
if another flow has them too, and a replaced flow leaves its rules behind. -/

namespace VolthaCore.Logical

open OpenFlow Decomposition Devices Outcome Runs List

variable {H : HashEnv} {T : Topology}

/-! ### Device tables by key -/

section Keys
variable {env : Env} {metadata : Option FlowMetadata} {rules : DeviceRules} {w w' : World}
  {d : String}

theorem deviceFlows_of_add (h : Updated env .add metadata w w' d (rules.lookup d)) :
    w'.deviceFlows d = (Table.merge flowKey (rules.flowsOf d) (w.deviceFlows d)).all := by
  unfold DeviceRules.flowsOf World.deviceFlows
  cases hl : rules.lookup d with
  | none =>
    rw [hl] at h
    rw [show w'.devices d = w.devices d from h]
    simp
  | some fg =>
    rw [hl] at h
    obtain ⟨a, a', ha, hrun, ha'⟩ := h
    simp only [ha, ha', SyncedAgent.stored_flows, addFlowsAndGroups_ok hrun]

theorem mem_keys_of_delete (h : Updated env .delete metadata w w' d (rules.lookup d))
    (k : FlowKey) :
    k ∈ (w'.deviceFlows d).map flowKey ↔
      k ∈ (w.deviceFlows d).map flowKey ∧ k ∉ (rules.flowsOf d).map flowKey := by
  unfold DeviceRules.flowsOf World.deviceFlows
  cases hl : rules.lookup d with
  | none =>
    rw [hl] at h
    rw [show w'.devices d = w.devices d from h]
    simp
  | some fg =>
    rw [hl] at h
    obtain ⟨a, a', ha, hrun, ha'⟩ := h
    simp only [ha, ha', SyncedAgent.stored_flows, deleteFlowsAndGroups_ok hrun]
    exact Table.mem_keys_removeAll flowKey
end Keys

/-! ### Refinement -/

/-- The devices hold the keys that the decomposition of the flow table gives them. -/
def DevicesRefine (H : HashEnv) (T : Topology) (w : World) : Prop :=
  ∃ dec, decomposeRules H T w.agent.logicalDevice.flows w.agent.logicalDevice.flowGroups = .ok dec ∧
    ∀ d k, k ∈ (w.deviceFlows d).map flowKey ↔ k ∈ (dec.rules.flowsOf d).map flowKey

/-- What the flow requests maintain: the devices hold the rule keys of the flows of
the table. -/
structure HoldsRules (H : HashEnv) (T : Topology) (w : World) (groups : List OfpGroupEntry)
    (flows : List OfpFlowStats) : Prop where
  decomposes : ∀ f ∈ flows, ∃ part, decomposeFlow H T f groups = .ok part
  separated : Separated H T groups flows
  keys : ∀ d k, k ∈ (w.deviceFlows d).map flowKey ↔ ∃ f ∈ flows, k ∈ ruleKeys H T groups f d

/-- No flow of the one list has a rule of a flow of the other. -/
def Unshared (H : HashEnv) (T : Topology) (groups : List OfpGroupEntry)
    (deleted kept : List OfpFlowStats) : Prop :=
  ∀ d, ∀ f ∈ deleted, ∀ g ∈ kept, ∀ k ∈ ruleKeys H T groups f d, k ∉ ruleKeys H T groups g d

/-- A flow request neither leaves rules behind nor takes away rules that other flows
have: what a replaced flow had is still a rule of the new table, deleted flows share
no rule with those that stay, and the hash separates the rules of an added flow from
all others. -/
def KeepsRules (H : HashEnv) (T : Topology) (ld : LogicalDevice) (mod : OfpFlowMod) : Prop :=
  match mod.command with
  | .add => ∀ addition, flowAddition H ld.flows mod = some addition →
      Separated H T ld.flowGroups (addition.flow :: ld.flows) ∧
      ∀ old ∈ addition.replaced, ∀ d, ∀ k ∈ ruleKeys H T ld.flowGroups old d,
        ∃ f ∈ addition.flows, k ∈ ruleKeys H T ld.flowGroups f d
  | .delete => Unshared H T ld.flowGroups (ld.flows.filter (deletes H mod))
      (ld.flows.filter fun f => !deletes H mod f)
  | .deleteStrict => ∀ removal, flowRemoval H ld.flows mod = some removal →
      Unshared H T ld.flowGroups [removal.flow] removal.flows
  | _ => True

section Refinement
variable {env : Env} {metadata : Option FlowMetadata} {dec : DecomposedFlows} {w w' : World}
  {groups : List OfpGroupEntry} {flows : List OfpFlowStats}

section

variable (h : HoldsRules H T w groups flows)
include h

theorem HoldsRules.exists_dec :
    ∃ dec, decomposeRules H T flows groups = .ok dec ∧
      ∀ d k, k ∈ (w.deviceFlows d).map flowKey ↔ k ∈ (dec.rules.flowsOf d).map flowKey := by
  obtain ⟨dec, hdec⟩ := exists_decomposeRules h.decomposes
  refine ⟨dec, hdec, fun d k => ?_⟩
  rw [h.keys, mem_keys_decomposeRules hdec h.separated]

/-- Adding the rules of a flow that takes its place in the table. -/
theorem HoldsRules.add {addition : FlowAddition} {mod : OfpFlowMod}
    (hadd : flowAddition H flows mod = some addition)
    (hdec : decomposeRules H T [addition.flow] groups = .ok dec)
    (hupdated : ∀ d, Updated env .add metadata w w' d (dec.rules.lookup d))
    (hsep : Separated H T groups (addition.flow :: flows))
    (hold : ∀ old ∈ addition.replaced, ∀ d, ∀ k ∈ ruleKeys H T groups old d,
      ∃ f ∈ addition.flows, k ∈ ruleKeys H T groups f d) :
    HoldsRules H T w' groups addition.flows := by
  obtain ⟨rest, hnew, hbefore⟩ := flowAddition_perm hadd
  have hrest : ∀ f ∈ rest, f ∈ flows := fun f hf =>
    hbefore.mem_iff.mpr (mem_append_right _ hf)
  have hsub : ∀ f ∈ addition.flows, f ∈ addition.flow :: flows := fun f hf => by
    rcases mem_cons.mp (hnew.mem_iff.mp hf) with rfl | hf
    · simp
    · exact mem_cons_of_mem _ (hrest f hf)
  refine ⟨fun f hf => ?_, hsep.mono hsub, fun d k => ?_⟩
  · rcases mem_cons.mp (hsub f hf) with rfl | hf
    · exact decomposeFlow_of_mem hdec (by simp)
    · exact h.decomposes f hf
  · rw [deviceFlows_of_add (hupdated d), Table.mem_keys_merge, h.keys,
      mem_keys_decomposeRules hdec (hsep.mono (by simp)) d k]
    constructor
    · rintro (⟨f, hf, hk⟩ | ⟨f, hf, hk⟩)
      · -- a flow of the old table is replaced or still there
        rcases mem_append.mp (hbefore.mem_iff.mp hf) with hf | hf
        · exact hold f (Option.mem_toList.mp hf) d k hk
        · exact ⟨f, hnew.mem_iff.mpr (mem_cons_of_mem _ hf), hk⟩
      · obtain rfl := mem_singleton.mp hf
        exact ⟨_, hnew.mem_iff.mpr (by simp), hk⟩
    · rintro ⟨f, hf, hk⟩
      rcases mem_cons.mp (hsub f hf) with rfl | hf
      · exact .inr ⟨_, by simp, hk⟩
      · exact .inl ⟨f, hf, hk⟩

/-- Deleting the rules of flows that share none with those that stay. -/
theorem HoldsRules.remove {deleted kept : List OfpFlowStats}
    (hmem : ∀ f, f ∈ flows ↔ f ∈ deleted ∨ f ∈ kept)
    (hdec : decomposeRules H T deleted groups = .ok dec)
    (hupdated : ∀ d, Updated env .delete metadata w w' d (dec.rules.lookup d))
    (hunshared : Unshared H T groups deleted kept) : HoldsRules H T w' groups kept := by
  have hdeleted : ∀ f ∈ deleted, f ∈ flows := fun f hf => (hmem f).mpr (.inl hf)
  have hkept : ∀ f ∈ kept, f ∈ flows := fun f hf => (hmem f).mpr (.inr hf)
  refine ⟨fun f hf => h.decomposes f (hkept f hf), h.separated.mono hkept, fun d k => ?_⟩
  rw [mem_keys_of_delete (hupdated d), h.keys,
    mem_keys_decomposeRules hdec (h.separated.mono hdeleted) d k]
  constructor
  · rintro ⟨⟨f, hf, hk⟩, hnot⟩
    rcases (hmem f).mp hf with hf | hf
    · exact absurd ⟨f, hf, hk⟩ hnot
    · exact ⟨f, hf, hk⟩
  · rintro ⟨g, hg, hk⟩
    refine ⟨⟨g, hkept g hg, hk⟩, ?_⟩
    rintro ⟨f, hf, hkf⟩
    exact hunshared d f hf g hg k hkf hk

end

/-- Every flow request that returns keeps the devices in step with the flow table. -/
theorem HoldsRules.step {mod : OfpFlowMod} (hrun : (Request.flow mod).run env w = .ok () w')
    (hkeeps : KeepsRules env.hash env.topology w.agent.logicalDevice mod)
    (h : HoldsRules env.hash env.topology w w.agent.logicalDevice.flowGroups
      w.agent.logicalDevice.flows) :
    HoldsRules env.hash env.topology w' w'.agent.logicalDevice.flowGroups
      w'.agent.logicalDevice.flows := by
  unfold KeepsRules at hkeeps
  obtain ⟨hcommand, hrun⟩ | ⟨hcommand, hrun⟩ | ⟨hcommand, hrun⟩ := Request.flow_run_ok hrun <;>
    simp only [hcommand] at hkeeps
  · obtain ⟨-, rfl⟩ | ⟨addition, metadata, dec, hadd, -, hdec, hupdated, hld⟩ := flowAdd_ok hrun
    · exact h
    · obtain ⟨hsep, hold⟩ := hkeeps addition hadd
      rw [hld]
      exact h.add hadd hdec hupdated hsep hold
  · obtain ⟨-, rfl⟩ | ⟨metadata, dec, hdec, hupdated, hld⟩ := flowDelete_ok hrun
    · exact h
    · rw [hld]
      refine h.remove (fun f => ?_) hdec hupdated hkeeps
      simp only [mem_filter, Bool.not_eq_true']
      cases deletes env.hash mod f <;> simp
  · obtain ⟨removal, metadata, dec, hremoval, hdec, hupdated, hld⟩ := flowDeleteStrict_ok hrun
    rw [hld]
    refine h.remove (fun f => ?_) hdec hupdated (hkeeps removal hremoval)
    rw [← (flowRemoval_perm hremoval).mem_iff, mem_cons, mem_singleton]

end Refinement

/-! ### Runs -/

def flowStep (w : World) (r : Env × OfpFlowMod) : World := requestStep w (r.1, .flow r.2)

/-- A request that returns, under the fixed hash and topology. -/
structure Returns (H : HashEnv) (T : Topology) (w : World) (r : Env × OfpFlowMod) : Prop where
  hash : r.1.hash = H
  topology : r.1.topology = T
  returns : returns ((Request.flow r.2).run r.1) w = true

/-- Device tables that start empty follow the flow table through every run of flow
requests that return and keep the rules of the other flows. -/
theorem devicesRefine_of_keepsRules {inputs : List (Env × OfpFlowMod)} {w₀ : World}
    (hflows : w₀.agent.logicalDevice.flows = []) (hdevices : ∀ d, w₀.deviceFlows d = [])
    (hreturns : Along flowStep (Returns H T) inputs w₀)
    (hkeeps : Along flowStep (fun w r => KeepsRules H T w.agent.logicalDevice r.2) inputs w₀) :
    DevicesRefine H T (run flowStep inputs w₀) := by
  refine HoldsRules.exists_dec (run_invariant
    (P := fun w => HoldsRules H T w w.agent.logicalDevice.flowGroups w.agent.logicalDevice.flows)
    ?_ (hreturns.and hkeeps) ?_)
  · rintro w ⟨env, mod⟩ ⟨⟨rfl, rfl, hok⟩, hkeeps⟩ h
    obtain ⟨_, hrun⟩ := returns_iff.mp hok
    exact h.step hrun hkeeps
  · rw [hflows]
    exact ⟨by simp, by simp [Separated], by simp [hdevices]⟩

theorem devicesRefine_of_add_and_delete :
    DevicesRefine sizeHash oneLeaf (run flowStep
      [(workingEnv sizeHash oneLeaf, leafMod .add),
        (workingEnv sizeHash oneLeaf, leafMod .deleteStrict),
        (workingEnv sizeHash oneLeaf, leafMod .add)] emptyWorld) := by
  have hadds : KeepsRules sizeHash oneLeaf {} (leafMod .add) := by
    intro addition hadd
    obtain rfl := Option.some.inj hadd
    exact ⟨separated_singleton _, by simp⟩
  refine devicesRefine_of_keepsRules rfl (fun d => ?_)
    ⟨⟨rfl, rfl, by decide⟩, ⟨rfl, rfl, by decide⟩, ⟨rfl, rfl, by decide⟩, trivial⟩
    ⟨hadds, ?_, hadds, trivial⟩
  · simp [emptyWorld, deviceFlows_oneLeafWorld]
  · intro removal hremoval
    obtain rfl := Option.some.inj hremoval
    intro d f _ g hg
    cases hg

/-- Two flows that differ in their flags have the same rule on the leaf device, and
deleting one of them takes the rule away. -/
theorem deleted_flow_takes_shared_rule :
    Along flowStep (Returns sizeHash oneLeaf)
      [(workingEnv sizeHash oneLeaf, leafMod .add), (workingEnv sizeHash oneLeaf, leafMod .add 1),
        (workingEnv sizeHash oneLeaf, leafMod .deleteStrict 1)] emptyWorld ∧
    ¬ DevicesRefine sizeHash oneLeaf (run flowStep
      [(workingEnv sizeHash oneLeaf, leafMod .add), (workingEnv sizeHash oneLeaf, leafMod .add 1),
        (workingEnv sizeHash oneLeaf, leafMod .deleteStrict 1)] emptyWorld) := by
  refine ⟨⟨⟨rfl, rfl, by decide⟩, ⟨rfl, rfl, by decide⟩, ⟨rfl, rfl, by decide⟩, trivial⟩, ?_⟩
  rintro ⟨dec, hdec, hkeys⟩
  obtain rfl := Except.ok.inj hdec
  have hkey := (hkeys "onu" ⟨0, 0, 0, 0,
    some ⟨.oxm, [.openflowBasic (inPort 1), .openflowBasic (tunnelId 1)]⟩⟩).mpr (by decide)
  exact absurd hkey (by decide)

end VolthaCore.Logical
