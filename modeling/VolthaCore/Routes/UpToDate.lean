import Mathlib.Data.Finset.Prod
import VolthaCore.Routes.Shape

/-! When the count check of the route table can be trusted. The check compares
numbers of ports and routes only, while the ports of the logical device change
before the table follows. Equal numbers mean equal ports as long as the recorded
ports and the ports of the device never differ in both directions, that is, when
no port is added while a deleted one is still recorded and none is deleted while
an added one is not recorded yet. -/

namespace VolthaCore.Routes

open Decomposition List Runs

/-- The ports of the logical device beside its route table. -/
structure Routed where
  ports : List LogicalPort
  dr : DeviceRoutes

inductive Event where
  | addLogicalPort (lp : LogicalPort)
  | deleteLogicalPort (id : String)
  | deleteLogicalPorts (deviceId : String)
  | buildRoutes (env : Env)
  | updateRoutes (env : Env) (lp : LogicalPort)

def step (s : Routed) : Event → Routed
  | .addLogicalPort lp => { s with ports := s.ports ++ [lp] }
  | .deleteLogicalPort id => { s with ports := s.ports.eraseP (·.id = id) }
  | .deleteLogicalPorts deviceId => { s with ports := s.ports.filter (·.deviceId ≠ deviceId) }
  | .buildRoutes env => { s with dr := afterCall (computeRoutes env s.ports) s.dr }
  | .updateRoutes env lp => { s with dr := afterCall (addPort env lp s.ports) s.dr }

def Routed.init : Routed := ⟨[], newDeviceRoutes⟩

/-- The table has both routes for every NNI and UNI port of the device, and no route of
another port. -/
structure Fits (ports : List LogicalPort) (dr : DeviceRoutes) : Prop where
  complete : ∀ n ∈ nniPorts ports, ∀ u ∈ uniPorts ports,
    (⟨n.portNo, u.portNo⟩ : PathID) ∈ dr.routes ∧ (⟨u.portNo, n.portNo⟩ : PathID) ∈ dr.routes
  current : ∀ p ∈ dr.routes, p.ingress ∈ portNumbers ports ∧ p.egress ∈ portNumbers ports

/-- Ports are added while all recorded ports are still there, and deleted while all ports
are recorded or the deleted ones are not. A port whose routes are added is still there,
or all ports are recorded. -/
def Orderly (N : Numbering) (s : Routed) : Event → Prop
  | .addLogicalPort lp => N.port lp.portNo = lp ∧ lp.portNo ∉ portNumbers s.ports ∧
      ∀ x ∈ s.dr.logicalPorts, x ∈ s.ports
  | .deleteLogicalPort id => (∀ x ∈ s.ports, x ∈ s.dr.logicalPorts) ∨
      ∀ x ∈ s.dr.logicalPorts, x.id ≠ id
  | .deleteLogicalPorts deviceId => (∀ x ∈ s.ports, x ∈ s.dr.logicalPorts) ∨
      ∀ x ∈ s.dr.logicalPorts, x.deviceId ≠ deviceId
  | .buildRoutes env => env.Honest
  | .updateRoutes env lp => env.Honest ∧ N.port lp.portNo = lp ∧
      (lp ∈ s.ports ∨ ∀ x ∈ s.ports, x ∈ s.dr.logicalPorts)

/-- The recorded ports differ from those of the device in one direction at most. -/
def OneWay (ports recorded : List LogicalPort) : Prop :=
  (portNumbers recorded).Nodup ∧
    ((∀ x ∈ recorded, x ∈ ports) ∨ ∀ x ∈ ports, x ∈ recorded)

structure Synced (N : Numbering) (s : Routed) : Prop where
  table : SoundOver N (OneWay s.ports) s.dr
  lists : N.Lists s.ports
  numbers : (portNumbers s.ports).Nodup

variable {N : Numbering} {s : Routed} {ports recorded : List LogicalPort} {lp : LogicalPort}

theorem oneWay_nil : OneWay ports [] := ⟨nodup_nil, .inl (by simp)⟩

theorem oneWay_self (h : (portNumbers ports).Nodup) : OneWay ports ports := ⟨h, .inl fun _ => id⟩

theorem OneWay.withPort (h : OneWay ports recorded) (hrec : N.Lists recorded)
    (hlp : N.port lp.portNo = lp) (hkeep : lp ∈ ports ∨ ∀ x ∈ ports, x ∈ recorded) :
    OneWay ports (withPort recorded lp) := by
  have hsup : (∀ x ∈ ports, x ∈ recorded) → ∀ x ∈ ports, x ∈ Routes.withPort recorded lp :=
    fun hall x hx => (mem_withPort_iff hlp hrec).mpr (.inl (hall x hx))
  refine ⟨?_, ?_⟩
  · unfold Routes.withPort
    split_ifs with hno
    · exact h.1
    · rw [portNumbers, map_append, nodup_append]
      refine ⟨h.1, by simp, fun a ha b hb hab => hno ?_⟩
      obtain ⟨x, hx, rfl⟩ := mem_map.mp ha
      rw [map_singleton, mem_singleton] at hb
      exact any_eq_true.mpr ⟨x, hx, by simp [hab, hb]⟩
  · rcases h.2 with hsub | hall
    · refine hkeep.imp (fun hmem x hx => ?_) hsup
      rcases (mem_withPort_iff hlp hrec).mp hx with hx | rfl
      · exact hsub x hx
      · exact hmem
    · exact .inr (hsup hall)

/-- A deletion keeps the ports one way apart. -/
theorem Synced.delete {ports' : List LogicalPort} (h : Synced N s) (hsub : ports'.Sublist s.ports)
    (hkeep : (∀ x ∈ s.ports, x ∈ s.dr.logicalPorts) ∨
      ∀ x ∈ s.dr.logicalPorts, x ∈ s.ports → x ∈ ports') :
    Synced N { s with ports := ports' } := by
  refine ⟨⟨h.table.1, h.table.2.1, ?_⟩, fun x hx => h.lists x (hsub.subset hx),
    h.numbers.sublist (hsub.map _)⟩
  rcases h.table.2.2 with hrec | hall
  · rcases hkeep with hall | hkeep
    · exact .inr fun x hx => hall x (hsub.subset hx)
    · exact .inl fun x hx => hkeep x hx (hrec x hx)
  · exact .inr fun x hx => hall x (hsub.subset hx)

theorem Synced.step {e : Event} (h : Synced N s) (he : Orderly N s e) : Synced N (step s e) := by
  cases e with
  | addLogicalPort lp =>
    obtain ⟨hlp, hfresh, hrec⟩ := he
    refine ⟨⟨h.table.1, h.table.2.1, .inl fun x hx => mem_append_left _ (hrec x hx)⟩, ?_, ?_⟩
    · intro x hx
      rcases mem_append.mp hx with hx | hx
      · exact h.lists x hx
      · rw [mem_singleton.mp hx]
        exact hlp
    · change (portNumbers (s.ports ++ [lp])).Nodup
      rw [portNumbers, map_append, nodup_append]
      refine ⟨h.numbers, by simp, fun a ha b hb hab => hfresh ?_⟩
      rw [map_singleton, mem_singleton] at hb
      rwa [← hb, ← hab]
  | deleteLogicalPort id =>
    refine h.delete eraseP_sublist (he.imp_right fun hne x hx hmem => ?_)
    exact (mem_eraseP_of_neg (by simpa using hne x hx)).mpr hmem
  | deleteLogicalPorts deviceId =>
    refine h.delete filter_sublist (he.imp_right fun hne x hx hmem => ?_)
    exact mem_filter.mpr ⟨hmem, by simpa using hne x hx⟩
  | buildRoutes env =>
    exact ⟨(triple_computeRoutes_sound he h.lists oneWay_nil (oneWay_self h.numbers)).after
      (s := Build.mk s.dr 0) h.table, h.lists, h.numbers⟩
  | updateRoutes env lp =>
    obtain ⟨henv, hlp, hkeep⟩ := he
    obtain ⟨⟨tail, hs⟩, hone⟩ := h.table
    exact ⟨(triple_addPort_sound henv hlp h.lists oneWay_nil (oneWay_self h.numbers)).after
      (s := Build.mk s.dr 0) ⟨h.table, hone.withPort hs.lists hlp hkeep⟩, h.lists, h.numbers⟩

/-! ### Counting routes -/

def pathsBetween (roots unis : Finset UInt32) : Finset PathID :=
  (roots ×ˢ unis).image (fun x => ⟨x.1, x.2⟩) ∪ (roots ×ˢ unis).image fun x => ⟨x.2, x.1⟩

variable {tail : UInt32 → UInt32 × Hop} {dr : DeviceRoutes} {p : PathID}
  {roots unis : Finset UInt32}

theorem mem_pathsBetween : p ∈ pathsBetween roots unis ↔
    p.ingress ∈ roots ∧ p.egress ∈ unis ∨ p.ingress ∈ unis ∧ p.egress ∈ roots := by
  obtain ⟨a, b⟩ := p
  simp [pathsBetween, and_comm]

theorem card_pathsBetween_le : (pathsBetween roots unis).card ≤ roots.card * unis.card * 2 := by
  calc (pathsBetween roots unis).card
    _ ≤ (roots ×ˢ unis).card + (roots ×ˢ unis).card :=
      (Finset.card_union_le _ _).trans (Nat.add_le_add Finset.card_image_le Finset.card_image_le)
    _ = roots.card * unis.card * 2 := by rw [Finset.card_product, Nat.mul_two]

def uniNumbers (dr : DeviceRoutes) : Finset UInt32 :=
  (portNumbers (uniPorts dr.logicalPorts)).toFinset

theorem mem_uniNumbers {u : UInt32} :
    u ∈ uniNumbers dr ↔ ∃ x ∈ dr.logicalPorts, x.rootPort = false ∧ x.portNo = u := by
  simp [uniNumbers, portNumbers, mem_uniPorts, and_assoc]

section

variable (h : SoundWith N tail dr)
include h

theorem SoundWith.mem_uniNumbers_iff {n : UInt32} (hn : n ∈ portNumbers dr.logicalPorts) :
    n ∈ uniNumbers dr ↔ (N.port n).rootPort = false := by
  rw [mem_uniNumbers]
  obtain ⟨lp, hlp, rfl⟩ := mem_map.mp hn
  constructor
  · rintro ⟨x, hx, hr, hno⟩
    rw [← hno, h.lists x hx]
    exact hr
  · intro hr
    exact ⟨lp, hlp, by rwa [h.lists lp hlp] at hr, rfl⟩

/-- Every route leads from an NNI port to a UNI port or back. -/
theorem SoundWith.keys_subset :
    dr.routes.keys.toFinset ⊆ pathsBetween dr.rootPorts (uniNumbers dr) := by
  intro p hp
  have hmem : p ∈ dr.routes := mem_toFinset.mp hp
  obtain ⟨r, hr⟩ := GoMap.mem_iff_exists_lookup.mp hmem
  rw [mem_pathsBetween, h.mem_rootPorts_iff (h.recorded p hmem),
    h.mem_rootPorts_iff (h.egress_recorded hmem), h.mem_uniNumbers_iff (h.recorded p hmem),
    h.mem_uniNumbers_iff (h.egress_recorded hmem)]
  cases h.shaped p r hr with
  | down n u hn hu => exact .inl ⟨hn, hu⟩
  | up n u hn hu => exact .inr ⟨hu, hn⟩

theorem SoundWith.card_add_card (hnodup : (portNumbers dr.logicalPorts).Nodup) :
    dr.rootPorts.card + (uniNumbers dr).card = dr.logicalPorts.length := by
  have hcard : ∀ f : LogicalPort → Bool,
      (portNumbers (dr.logicalPorts.filter f)).toFinset.card = (dr.logicalPorts.filter f).length :=
    fun f => (toFinset_card_of_nodup (hnodup.sublist (filter_sublist.map _))).trans
      (length_map _)
  rw [h.roots, uniNumbers, nniPorts, uniPorts, hcard, hcard]
  exact (length_eq_length_filter_add _).symm

/-- As many routes as there are pairs of an NNI and a UNI port, both ways, are all of them. -/
theorem SoundWith.keys_eq
    (hcount : dr.routes.keys.length = dr.rootPorts.card * (uniNumbers dr).card * 2) :
    dr.routes.keys.toFinset = pathsBetween dr.rootPorts (uniNumbers dr) := by
  refine Finset.eq_of_subset_of_card_le h.keys_subset ?_
  rw [toFinset_card_of_nodup dr.routes.keys_nodup, hcount]
  exact card_pathsBetween_le

end

/-- Equally many ports that differ in one direction at most are the same. -/
theorem OneWay.mem_iff (h : OneWay ports recorded) (hports : (portNumbers ports).Nodup)
    (hlen : recorded.length = ports.length) {x : LogicalPort} : x ∈ recorded ↔ x ∈ ports := by
  rcases h.2 with hsub | hsup
  · have hperm := (List.Nodup.of_map _ h.1).subperm hsub
    exact (hperm.perm_of_length_le hlen.ge).mem_iff
  · have hperm := (List.Nodup.of_map _ hports).subperm hsup
    exact (hperm.perm_of_length_le hlen.le).mem_iff.symm

theorem Synced.fits (h : Synced N s) (hup : isUpToDate s.dr (some s.ports) = true) :
    Fits s.ports s.dr := by
  obtain ⟨⟨tail, hs⟩, hone⟩ := h.table
  simp only [isUpToDate, Bool.and_eq_true, decide_eq_true_eq] at hup
  obtain ⟨hlen, hroutes⟩ := hup
  have hsame : ∀ x, x ∈ s.dr.logicalPorts ↔ x ∈ s.ports := fun _ => hone.mem_iff h.numbers hlen
  have hcards := hs.card_add_card hone.1
  have huni : (s.ports.length : Int) - s.dr.rootPorts.card = (uniNumbers s.dr).card := by omega
  rw [huni] at hroutes
  have hkeys := hs.keys_eq (by exact_mod_cast hroutes)
  have hmem : ∀ p : PathID, p ∈ s.dr.routes ↔
      p ∈ pathsBetween s.dr.rootPorts (uniNumbers s.dr) := fun p => by
    rw [← hkeys, mem_toFinset]
    rfl
  constructor
  · intro n hn u hu
    obtain ⟨hnports, hnroot⟩ := mem_nniPorts.mp hn
    obtain ⟨huports, huroot⟩ := mem_uniPorts.mp hu
    have hnnumber : n.portNo ∈ s.dr.rootPorts := by
      rw [hs.roots, mem_toFinset, mem_portNumbers_nniPorts]
      exact ⟨n, (hsame n).mpr hnports, hnroot, rfl⟩
    have hunumber : u.portNo ∈ uniNumbers s.dr :=
      mem_uniNumbers.mpr ⟨u, (hsame u).mpr huports, huroot, rfl⟩
    rw [hmem, hmem, mem_pathsBetween, mem_pathsBetween]
    exact ⟨.inl ⟨hnnumber, hunumber⟩, .inr ⟨hunumber, hnnumber⟩⟩
  · have hnumbers : ∀ n ∈ portNumbers s.dr.logicalPorts, n ∈ portNumbers s.ports := by
      intro n hn
      obtain ⟨x, hx, rfl⟩ := mem_map.mp hn
      exact mem_map_of_mem ((hsame x).mp hx)
    exact fun p hp => ⟨hnumbers _ (hs.recorded p hp), hnumbers _ (hs.egress_recorded hp)⟩

theorem synced_init : Synced N Routed.init :=
  ⟨⟨sound_newDeviceRoutes, oneWay_nil⟩, by simp [Numbering.Lists, Routed.init], nodup_nil⟩

/-- In every orderly run of port changes and route builds, a table that passes the count check
has the routes of the present ports and no others. -/
theorem isUpToDate_sound {events : List Event}
    (h : Runs.Along step (Orderly N) events Routed.init)
    (hup : isUpToDate (Runs.run step events Routed.init).dr
      (some (Runs.run step events Routed.init).ports) = true) :
    Fits (Runs.run step events Routed.init).ports (Runs.run step events Routed.init).dr :=
  (run_invariant (fun _ _ he hs => hs.step he) h synced_init).fits hup

/-- A UNI port is replaced by another before the routes are built again: the numbers are the
same, the ports are not. -/
theorem replaced_port_passes_count_check :
    let s := Runs.run step [.addLogicalPort (nniPort 10), .addLogicalPort (uniPort 2),
      .buildRoutes oneOnu, .deleteLogicalPorts "onu", .addLogicalPort (uniPort 3)] Routed.init
    isUpToDate s.dr (some s.ports) = true ∧
      (⟨10, 3⟩ : PathID) ∉ s.dr.routes ∧ (⟨10, 2⟩ : PathID) ∈ s.dr.routes ∧
      2 ∉ portNumbers s.ports := by
  decide +kernel

def growing : List Event :=
  [.addLogicalPort (nniPort 10), .addLogicalPort (uniPort 2), .buildRoutes oneOnu,
    .addLogicalPort (uniPort 3), .updateRoutes oneOnu (uniPort 3)]

theorem growing_orderly : Runs.Along step (Orderly oneOnuNumbering) growing Routed.init :=
  ⟨⟨by decide, by decide, by decide⟩, ⟨by decide, by decide, by decide⟩, oneOnu_honest,
    ⟨by decide, by decide, by decide +kernel⟩, ⟨oneOnu_honest, by decide, .inl (by decide)⟩,
    trivial⟩

theorem isUpToDate_sound_growing :
    Runs.Along step (Orderly oneOnuNumbering) growing Routed.init ∧
    isUpToDate (Runs.run step growing Routed.init).dr
      (some (Runs.run step growing Routed.init).ports) = true ∧
    Fits (Runs.run step growing Routed.init).ports (Runs.run step growing Routed.init).dr := by
  have hup : isUpToDate (run step growing Routed.init).dr
      (some (run step growing Routed.init).ports) = true := by
    decide +kernel
  exact ⟨growing_orderly, hup, isUpToDate_sound growing_orderly hup⟩

end VolthaCore.Routes
