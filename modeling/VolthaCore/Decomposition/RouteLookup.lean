import VolthaCore.Decomposition.Traps
import VolthaCore.Lib.DistinctKeys

/-! The route lookup over a table of two-hop routes that come in pairs, as every run of the route
computation leaves it. The number 0 stands for no port, so an agent that has recorded it as an
NNI port takes a request without any port for one that leaves through this port. -/

namespace VolthaCore.Decomposition

open Routes List

/-- Every route has two hops, its reverse is there too, and there is one route for each pair
of ports. -/
structure TwoHopPairs (T : Topology) : Prop where
  keys : (T.routes.map Prod.fst).Nodup
  two_hops : ∀ r ∈ T.routes, ∃ first second, r.2 = [first, second]
  paired : ∀ r ∈ T.routes, (reversePath r.1, getReverseRoute r.2) ∈ T.routes

variable {T T' : Topology} {N : Numbering} {ports : List LogicalPort} {dr : DeviceRoutes}

/-- The tables that the route computation leaves behind are of this kind. -/
theorem Offers.twoHopPairs {tail : UInt32 → UInt32 × Hop} (ho : Offers N ports dr T)
    (hs : SoundWith N tail dr) : TwoHopPairs T where
  keys := by
    rw [(ho.routes.map Prod.fst).nodup_iff, map_map]
    exact dr.routes.nodupKeys
  two_hops := by
    rintro ⟨q, path⟩ hr
    exact length_eq_two.mp (hs.two_hops q path (ho.mem_routes.mp hr))
  paired := by
    rintro ⟨q, path⟩ hr
    have hpath := ho.mem_routes.mp hr
    obtain ⟨path', hpath'⟩ := GoMap.mem_iff_exists_lookup.mp
      (hs.paired q (GoMap.mem_iff_exists_lookup.mpr ⟨path, hpath⟩))
    have hrev : path' = getReverseRoute path :=
      (hs.shaped _ _ hpath').unique (hs.shaped q path hpath).reverse
    exact ho.mem_routes.mpr (hrev ▸ hpath')

/-! ### What each lookup answers -/

/-- Two hops, or an error that is not a panic. -/
def TwoHopsOrError (answer : Except Err (List Hop)) : Prop :=
  (∃ first second, answer = .ok [first, second]) ∨
    ∃ e, answer = .error e ∧ ∀ reason, e ≠ .crash reason

theorem twoHopsOrError_ok (first second : Hop) : TwoHopsOrError (.ok [first, second]) :=
  .inl ⟨first, second, rfl⟩

theorem twoHopsOrError_status (code : Code) (desc : String) :
    TwoHopsOrError (.error (.status code desc)) :=
  .inr ⟨_, rfl, fun _ h => by cases h⟩

section Lookups

variable (hT : TwoHopPairs T)
include hT

theorem getPreCalculatedRoute_iff {ingress egress : UInt32} {path : List Hop} :
    getPreCalculatedRoute T ingress egress = .ok path ↔ (⟨ingress, egress⟩, path) ∈ T.routes := by
  have hiff : Table.lookup Prod.fst T.routes ⟨ingress, egress⟩ =
      some (⟨ingress, egress⟩, path) ↔ _ := Table.lookup_eq_some_iff hT.keys
  have hpred : (fun r : PathID × List Hop => decide (r.1 = ⟨ingress, egress⟩)) =
      fun r => ingress = r.1.ingress && egress = r.1.egress := by
    funext ⟨⟨n, m⟩, path⟩
    rw [Bool.eq_iff_iff]
    simp only [decide_eq_true_eq, PathID.mk.injEq, Bool.and_eq_true]
    rw [eq_comm (a := n), eq_comm (a := m)]
  rw [Table.lookup, hpred] at hiff
  simp only [and_true] at hiff
  rw [← hiff]
  unfold getPreCalculatedRoute
  cases hfind : T.routes.find? fun r => ingress = r.1.ingress && egress = r.1.egress with
  | none => simp
  | some r =>
    obtain ⟨⟨n, m⟩, path'⟩ := r
    have hkey := find?_some hfind
    simp only [Bool.and_eq_true, decide_eq_true_eq] at hkey
    obtain ⟨rfl, rfl⟩ := hkey
    simp

variable (ingress egress : UInt32)
include ingress egress

theorem getPreCalculatedRoute_answer :
    TwoHopsOrError (getPreCalculatedRoute T ingress egress) := by
  unfold getPreCalculatedRoute
  split
  next r hr =>
    obtain ⟨first, second, hpath⟩ := hT.two_hops r (mem_of_find?_eq_some hr)
    rw [hpath]
    exact twoHopsOrError_ok first second
  next => exact twoHopsOrError_status _ _

theorem upstreamHalfRoute_answer :
    TwoHopsOrError (upstreamHalfRoute T ingress egress) := by
  unfold upstreamHalfRoute
  split
  next r hr =>
    obtain ⟨first, second, hpath⟩ := hT.two_hops r (mem_of_find?_eq_some hr)
    rw [hpath]
    exact twoHopsOrError_ok _ second
  next => exact twoHopsOrError_status _ _

theorem downstreamHalfRoute_cases :
    (∃ r ∈ T.routes, r.1.ingress = ingress ∧ ∃ first second, r.2 = [first, second] ∧
      downstreamHalfRoute T ingress egress = .ok [first, {}]) ∨
    ((∀ r ∈ T.routes, r.1.ingress ≠ ingress) ∧
      downstreamHalfRoute T ingress egress = .error (noRoute "downstream " ingress egress)) := by
  unfold downstreamHalfRoute
  cases hfind : T.routes.find? fun r => r.1.ingress = ingress with
  | none =>
    refine .inr ⟨fun r hr => ?_, rfl⟩
    simpa using find?_eq_none.mp hfind r hr
  | some r =>
    have hr := mem_of_find?_eq_some hfind
    obtain ⟨first, second, hpath⟩ := hT.two_hops r hr
    refine .inl ⟨r, hr, by simpa using find?_some hfind, first, second, hpath, ?_⟩
    simp only [hpath]
    rfl

theorem getPortRoute_answer :
    TwoHopsOrError (getPortRoute T ingress egress) := by
  unfold getPortRoute
  split_ifs
  · exact upstreamHalfRoute_answer hT ingress egress
  · rcases downstreamHalfRoute_cases hT ingress egress with
      ⟨r, -, -, first, second, -, h⟩ | ⟨-, h⟩
    · rw [h]
      exact twoHopsOrError_ok first {}
    · rw [h]
      exact twoHopsOrError_status _ _
  · exact getPreCalculatedRoute_answer hT ingress egress

theorem getRoute_answer :
    TwoHopsOrError (getRoute T ingress egress) := by
  unfold getRoute
  split_ifs
  · exact twoHopsOrError_ok _ _
  · exact upstreamHalfRoute_answer hT ingress egress
  · unfold getFirstNNIPort
    cases (getNNIPorts T).head? with
    | none => exact twoHopsOrError_status _ _
    | some nni => exact getPortRoute_answer hT ingress nni
  · exact getPortRoute_answer hT ingress egress

end Lookups

/-! ### The route between two ports, and from one -/

theorem getRoute_of_no_egress {ingress : UInt32} (h : ingress = 0 → isNNIPort T 0 = false) :
    getRoute T ingress 0 = downstreamHalfRoute T ingress 0 := by
  have hcond : ¬(decide (ingress = 0) && isNNIPort T 0) = true := by
    simpa using h
  unfold getRoute getPortRoute
  rw [if_neg (by decide), if_neg hcond, if_pos rfl]

/-- Two hops or an error for all ports; between two ports the stored route and an error exactly
when there is none; without an egress port the first hop of a stored route from the ingress port.
Where neither port is given, 0 is not the number of an NNI port. -/
theorem getRoute_sound (hT : TwoHopPairs T) (ingress egress : UInt32) :
    TwoHopsOrError (getRoute T ingress egress) ∧
    (ingress ≠ 0 → egress ≠ 0 → isControllerPort egress = false →
      (∀ path, getRoute T ingress egress = .ok path ↔ (⟨ingress, egress⟩, path) ∈ T.routes) ∧
      ((∃ e, getRoute T ingress egress = .error e) ↔
        ∀ path, (⟨ingress, egress⟩, path) ∉ T.routes)) ∧
    (egress = 0 → (ingress = 0 → isNNIPort T 0 = false) →
      (∀ path, getRoute T ingress egress = .ok path →
        ∃ r ∈ T.routes, r.1.ingress = ingress ∧ ∃ first second, r.2 = [first, second] ∧
          path = [first, {}]) ∧
      ((∃ e, getRoute T ingress egress = .error e) ↔ ∀ r ∈ T.routes, r.1.ingress ≠ ingress)) := by
  refine ⟨getRoute_answer hT ingress egress, fun hingress hegress hcontroller => ?_, ?_⟩
  · rw [getRoute_of_ports hingress hegress hcontroller]
    refine ⟨fun path => getPreCalculatedRoute_iff hT, ?_⟩
    have hiff : ∀ path, getPreCalculatedRoute T ingress egress = .ok path ↔ _ :=
      fun _ => getPreCalculatedRoute_iff hT
    cases hroute : getPreCalculatedRoute T ingress egress with
    | error e =>
      rw [hroute] at hiff
      simpa using fun path hmem => (hiff path).mpr hmem
    | ok path =>
      rw [hroute] at hiff
      simpa using ⟨path, (hiff path).mp rfl⟩
  · rintro rfl hnni
    rw [getRoute_of_no_egress hnni]
    rcases downstreamHalfRoute_cases hT ingress 0 with
      ⟨r, hr, hingress, first, second, hpath, h⟩ | ⟨hnone, h⟩
    · rw [h]
      refine ⟨fun path heq => ?_, ?_⟩
      · cases heq
        exact ⟨r, hr, hingress, first, second, hpath, rfl⟩
      · constructor
        · rintro ⟨e, he⟩
          cases he
        · intro hnone
          exact absurd hingress (hnone r hr)
    · rw [h]
      refine ⟨fun path heq => ?_, fun _ => hnone, fun _ => ⟨_, rfl⟩⟩
      cases heq

theorem twoHopPairs_oneLeaf : TwoHopPairs oneLeaf where
  keys := by decide
  two_hops r hr := length_eq_two.mp (by revert r; decide)
  paired := by decide

theorem getRoute_sound_leaf :
    TwoHopPairs oneLeaf ∧ TwoHopsOrError (getRoute oneLeaf 1 0) ∧
      getRoute oneLeaf 1 0 = .ok [⟨"onu", 1, 2⟩, {}] ∧
      ∃ r ∈ oneLeaf.routes, r.1.ingress = 1 ∧ ∃ first second, r.2 = [first, second] ∧
        [⟨"onu", 1, 2⟩, {}] = [first, ({} : Hop)] := by
  obtain ⟨hanswer, -, hhalf⟩ := getRoute_sound twoHopPairs_oneLeaf 1 0
  exact ⟨twoHopPairs_oneLeaf, hanswer, rfl, (hhalf rfl (by decide)).1 _ rfl⟩

/-- In every run a lookup ends in two hops or an error, and the route back is the reverse of the
route there, in all orders of visits. -/
theorem getRoute_reverse {calls : List Call} (hcalls : ∀ c ∈ calls, c.Fits N)
    (hdr : dr = Runs.run Call.step calls newDeviceRoutes) (ho : Offers N ports dr T)
    (ho' : Offers N ports dr T') (n m : UInt32) :
    TwoHopsOrError (getRoute T n m) ∧
    (n ≠ 0 → m ≠ 0 → isControllerPort n = false → isControllerPort m = false →
      ∀ path, getRoute T n m = .ok path → getRoute T' m n = .ok (getReverseRoute path)) := by
  obtain ⟨tail, hs⟩ : Sound N dr := hdr ▸ sound_newDeviceRoutes.run hcalls
  have hT := ho.twoHopPairs hs
  refine ⟨getRoute_answer hT n m, fun hn hm hcn hcm path h => ?_⟩
  rw [getRoute_of_ports hn hm hcm, getPreCalculatedRoute_iff hT] at h
  rw [getRoute_of_ports hm hn hcn, getPreCalculatedRoute_iff (ho'.twoHopPairs hs)]
  exact ho'.mem_routes.mpr (ho.mem_routes.mp (hT.paired _ h))

theorem getRoute_reverse_uplink :
    getRoute (oltTopology [10] [2] (uplinkRoutes 10 2)) 10 2 =
      .ok (getReverseRoute [⟨"onu", 2, 1⟩, ⟨"olt", 1, 10⟩]) :=
  have hfits : (Call.computeRoutes oneOnu (oltPorts [10] [2])).Fits oneOnuNumbering :=
    ⟨oneOnu_honest, by decide⟩
  have ho := oltTopology_offers (by decide) (by decide +kernel) (by decide +kernel)
  (getRoute_reverse (forall_mem_singleton.mpr hfits) rfl ho ho 2 10).2 (by decide) (by decide)
    (by decide) (by decide) _ rfl

/-- The uplink of the root device has number 0: a request without ports is answered with the
second hop of the upstream route, and the route from 0 does not start with an empty hop. -/
theorem getRoute_port_zero :
    let T : Topology := { oneLeaf with
      routes := [(⟨1, 0⟩, [⟨"onu", 1, 2⟩, ⟨"olt", 1, 0⟩]), (⟨0, 1⟩, [⟨"olt", 0, 1⟩, ⟨"onu", 2, 1⟩])]
      rootPorts := [0], logicalPortsNo := [(1, false), (0, true)], ports := [1, 0] }
    TwoHopPairs T ∧ getRoute T 0 0 = .ok [{}, ⟨"olt", 1, 0⟩] ∧
      ¬∃ r ∈ T.routes, r.1.ingress = 0 ∧ ∃ first second, r.2 = [first, second] ∧
        [{}, ⟨"olt", 1, 0⟩] = [first, ({} : Hop)] := by
  intro T
  refine ⟨⟨by decide, ?_, by decide⟩, rfl, ?_⟩
  · exact fun r hr => length_eq_two.mp (by revert r; decide)
  · rintro ⟨r, -, -, first, second, -, h⟩
    exact absurd (List.cons.inj (List.cons.inj h).2).1 (by decide)

end VolthaCore.Decomposition
