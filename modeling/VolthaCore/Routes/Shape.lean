import VolthaCore.Lib.Runs
import VolthaCore.Routes.Steps

/-! The shape of the route table after any sequence of calls. A route leads from
an NNI port through a port of the root device and one more hop, or it is the
reverse of such a route. The way below the root device depends only on the UNI
port: all NNI ports share it, and this is why the copy of an NNI port's routes
may visit the table in any order and meet keys that it has already written. -/

namespace VolthaCore.Routes

open Decomposition Devices Outcome List Function Runs GoMap

variable {lps : List LogicalPort} {lp new from_ : LogicalPort} {n : UInt32} {m : RouteMap}

/-- The logical port of each number; all NNI ports are on the root device. -/
structure Numbering where
  port : UInt32 → LogicalPort
  root : String
  nni_on_root : ∀ n, (port n).rootPort = true → (port n).deviceId = root

/-- The number of each listed port determines it. -/
def Numbering.Lists (N : Numbering) (lps : List LogicalPort) : Prop :=
  ∀ lp ∈ lps, N.port lp.portNo = lp

instance (N : Numbering) (lps : List LogicalPort) : Decidable (N.Lists lps) :=
  inferInstanceAs (Decidable (∀ lp ∈ lps, N.port lp.portNo = lp))

/-- A lookup returns the device it was asked for, which does not have itself as a peer. -/
def Env.Honest (env : Env) : Prop :=
  ∀ id device, env.Finds id device →
    device.id = id ∧ ∀ port ∈ device.ports, ∀ peer ∈ port.peers, peer.deviceId ≠ id

def reversePath (p : PathID) : PathID := ⟨p.egress, p.ingress⟩

def portNumbers (lps : List LogicalPort) : List UInt32 := lps.map (·.portNo)

def uniPorts (lps : List LogicalPort) : List LogicalPort := lps.filter (!·.rootPort)

variable {u : UInt32} {e : Err}

theorem mem_nniPorts : lp ∈ nniPorts lps ↔ lp ∈ lps ∧ lp.rootPort = true := by
  simp [nniPorts]

theorem mem_uniPorts : lp ∈ uniPorts lps ↔ lp ∈ lps ∧ lp.rootPort = false := by
  simp [uniPorts]

/-- A route between an NNI and a UNI port, where `tail` is the way below the root device. -/
inductive RouteFor (N : Numbering) (tail : UInt32 → UInt32 × Hop) : PathID → List Hop → Prop
  | down (n u : UInt32) (hn : (N.port n).rootPort = true) (hu : (N.port u).rootPort = false) :
      RouteFor N tail ⟨n, u⟩ (downRoute (N.port n) (tail u))
  | up (n u : UInt32) (hn : (N.port n).rootPort = true) (hu : (N.port u).rootPort = false) :
      RouteFor N tail ⟨u, n⟩ (getReverseRoute (downRoute (N.port n) (tail u)))

/-- The shape of a table over recorded ports, where `tail` gives the ways below the root
device. -/
structure SoundWith (N : Numbering) (tail : UInt32 → UInt32 × Hop) (dr : DeviceRoutes) : Prop where
  lists : N.Lists dr.logicalPorts
  roots : dr.rootPorts = (portNumbers (nniPorts dr.logicalPorts)).toFinset
  shaped : ∀ p r, dr.routes.lookup p = some r → RouteFor N tail p r
  paired : ∀ p ∈ dr.routes, reversePath p ∈ dr.routes
  recorded : ∀ p ∈ dr.routes, p.ingress ∈ portNumbers dr.logicalPorts

def Sound (N : Numbering) (dr : DeviceRoutes) : Prop := ∃ tail, SoundWith N tail dr

variable {N : Numbering} {tail : UInt32 → UInt32 × Hop} {p : PathID} {r : List Hop}
  {dr : DeviceRoutes} {env : Env} {w : PathID × List Hop} {c : Call}

theorem getReverseRoute_downRoute (nni : LogicalPort) (t : UInt32 × Hop) :
    getReverseRoute (downRoute nni t) =
      [⟨t.2.deviceID, t.2.egress, t.2.ingress⟩, ⟨nni.deviceId, t.1, nni.devicePortNo⟩] := rfl

theorem getReverseRoute_getReverseRoute (route : List Hop) :
    getReverseRoute (getReverseRoute route) = route := by
  simp [getReverseRoute, map_reverse, comp_def]

theorem soundWith_of_no_routes (hlists : N.Lists dr.logicalPorts)
    (hroots : dr.rootPorts = (portNumbers (nniPorts dr.logicalPorts)).toFinset)
    (hroutes : dr.routes = ∅) : SoundWith N tail dr where
  lists := hlists
  roots := hroots
  shaped := by simp [hroutes]
  paired := by simp [hroutes]
  recorded := by simp [hroutes]

theorem soundWith_recordPorts (h : N.Lists lps) :
    SoundWith N tail (recordPorts lps) := soundWith_of_no_routes h rfl rfl

theorem soundWith_newDeviceRoutes : SoundWith N tail newDeviceRoutes :=
  soundWith_of_no_routes (by simp [Numbering.Lists, newDeviceRoutes]) rfl rfl

theorem sound_newDeviceRoutes : Sound N newDeviceRoutes :=
  ⟨fun _ => (0, {}), soundWith_newDeviceRoutes⟩

theorem RouteFor.down_of {nni : LogicalPort} {t : UInt32 × Hop} (hport : N.port n = nni)
    (hn : nni.rootPort = true) (hu : (N.port u).rootPort = false) (ht : tail u = t) :
    RouteFor N tail ⟨n, u⟩ (downRoute nni t) := by
  subst hport ht
  exact .down n u hn hu

section

variable (h : RouteFor N tail p r)
include h

theorem RouteFor.length_eq : r.length = 2 := by
  cases h <;> rfl

theorem RouteFor.unique {r' : List Hop} (h' : RouteFor N tail p r') :
    r = r' := by
  cases h with
  | down n u hn hu =>
    cases h' with
    | down => rfl
    | up _ _ hn' => simp [hn'] at hu
  | up n u hn hu =>
    cases h' with
    | down _ _ hn' => simp [hn'] at hu
    | up => rfl

theorem RouteFor.reverse :
    RouteFor N tail (reversePath p) (getReverseRoute r) := by
  cases h with
  | down n u hn hu => exact .up n u hn hu
  | up n u hn hu =>
    rw [getReverseRoute_getReverseRoute]
    exact .down n u hn hu

theorem RouteFor.of_tail_eq {tail' : UInt32 → UInt32 × Hop}
    (heq : ∀ u, u = p.ingress ∨ u = p.egress → (N.port u).rootPort = false → tail u = tail' u) :
    RouteFor N tail' p r := by
  cases h with
  | down n u hn hu =>
    rw [heq u (.inr rfl) hu]
    exact .down n u hn hu
  | up n u hn hu =>
    rw [heq u (.inl rfl) hu]
    exact .up n u hn hu

end

/-! ### Copies -/

section Copy

theorem RouteFor.copyWrites (hnew : N.port new.portNo = new) (hnewRoot : new.rootPort = true)
    (hfromRoot : (N.port from_.portNo).rootPort = true) (h : RouteFor N tail p r)
    (hw : w ∈ copyWrites new from_ ⟨p, r⟩) : RouteFor N tail w.1 w.2 := by
  cases h with
  | down n u hn' hu =>
    have hne : u ≠ from_.portNo := by
      rintro rfl
      simp [hfromRoot] at hu
    simp only [Routes.copyWrites, downRoute, if_neg hne] at hw
    split_ifs at hw
    · simp only [append_nil, singleton_append, mem_cons, not_mem_nil, or_false] at hw
      rcases hw with rfl | rfl
      · exact .down_of hnew hnewRoot hu rfl
      · exact .down n u hn' hu
    · simp only [append_nil, nil_append, mem_singleton] at hw
      rw [hw]
      exact .down n u hn' hu
  | up n u hn' hu =>
    have hne : u ≠ from_.portNo := by
      rintro rfl
      simp [hfromRoot] at hu
    simp only [Routes.copyWrites, getReverseRoute_downRoute, if_neg hne] at hw
    split_ifs at hw
    · simp only [nil_append, singleton_append, mem_cons, not_mem_nil, or_false] at hw
      rcases hw with rfl | rfl
      · exact (RouteFor.down_of hnew hnewRoot hu rfl).reverse
      · exact .up n u hn' hu
    · simp only [append_nil, nil_append, mem_singleton] at hw
      rw [hw]
      exact .up n u hn' hu

variable {q : PathID}

theorem exists_copyWrites_iff (htwo : r.length = 2) :
    (∃ w ∈ copyWrites new from_ ⟨p, r⟩, w.1 = q) ↔
      q = p ∨ p.ingress = from_.portNo ∧ q = ⟨new.portNo, p.egress⟩ ∨
        p.egress = from_.portNo ∧ q = ⟨p.ingress, new.portNo⟩ := by
  obtain ⟨first, second, rfl⟩ := length_eq_two.mp htwo
  unfold copyWrites
  by_cases hin : p.ingress = from_.portNo <;> by_cases heg : p.egress = from_.portNo <;>
    simp [hin, heg, eq_comm, or_comm, or_left_comm]

theorem mem_copied_iff (htwo : ∀ p r, m.lookup p = some r → r.length = 2) :
    q ∈ copied env new from_ m ↔ q ∈ m ∨
      (∃ p ∈ m, p.ingress = from_.portNo ∧ q = ⟨new.portNo, p.egress⟩) ∨
        ∃ p ∈ m, p.egress = from_.portNo ∧ q = ⟨p.ingress, new.portNo⟩ := by
  have hvisit : ∀ p r, (⟨p, r⟩ : Σ _ : PathID, List Hop) ∈ env.order.visit m.entries ↔
      m.lookup p = some r := fun p r =>
    (env.order.perm m.entries).mem_iff.trans mem_entries_iff
  unfold copied
  rw [mem_writeAll]
  simp only [mem_flatMap, AList.notMem_empty, or_false]
  constructor
  · rintro ⟨w, ⟨⟨p, r⟩, he, hw⟩, rfl⟩
    have hp := (hvisit p r).mp he
    have hmem : p ∈ m := mem_iff_exists_lookup.mpr ⟨r, hp⟩
    rcases (exists_copyWrites_iff (htwo p r hp)).mp ⟨w, hw, rfl⟩ with h | h | h
    · exact .inl (h ▸ hmem)
    · exact .inr (.inl ⟨p, hmem, h⟩)
    · exact .inr (.inr ⟨p, hmem, h⟩)
  · intro h
    have hof : ∀ p ∈ m, (q = p ∨ p.ingress = from_.portNo ∧ q = ⟨new.portNo, p.egress⟩ ∨
        p.egress = from_.portNo ∧ q = ⟨p.ingress, new.portNo⟩) →
        ∃ w, (∃ a ∈ env.order.visit m.entries, w ∈ copyWrites new from_ a) ∧ w.1 = q := by
      intro p hp hq
      obtain ⟨r, hr⟩ := mem_iff_exists_lookup.mp hp
      obtain ⟨w, hw, hwq⟩ := (exists_copyWrites_iff (htwo p r hr)).mpr hq
      exact ⟨w, ⟨⟨p, r⟩, (hvisit p r).mpr hr, hw⟩, hwq⟩
    rcases h with h | ⟨p, hp, h⟩ | ⟨p, hp, h⟩
    · exact hof q h (.inl rfl)
    · exact hof p hp (.inr (.inl h))
    · exact hof p hp (.inr (.inr h))

theorem shaped_copied (hnew : N.port new.portNo = new) (hnewRoot : new.rootPort = true)
    (hfromRoot : (N.port from_.portNo).rootPort = true)
    (h : ∀ p r, m.lookup p = some r → RouteFor N tail p r) (p : PathID) (r : List Hop)
    (hr : (copied env new from_ m).lookup p = some r) : RouteFor N tail p r := by
  rcases lookup_writeAll_cases hr with hw | ⟨-, hr⟩
  · obtain ⟨⟨q, s⟩, he, hw⟩ := mem_flatMap.mp hw
    have hq := mem_entries_iff.mp ((env.order.perm m.entries).mem_iff.mp he)
    exact (h q s hq).copyWrites hnew hnewRoot hfromRoot hw
  · simp at hr

end Copy

theorem SoundWith.two_hops (h : SoundWith N tail dr) (p : PathID) (r : List Hop)
    (hr : dr.routes.lookup p = some r) : r.length = 2 := (h.shaped p r hr).length_eq

theorem SoundWith.egress_recorded (h : SoundWith N tail dr) (hp : p ∈ dr.routes) :
    p.egress ∈ portNumbers dr.logicalPorts := h.recorded _ (h.paired p hp)

theorem SoundWith.copied (h : SoundWith N tail dr) (hmem : new ∈ dr.logicalPorts)
    (hnewRoot : new.rootPort = true) (hfrom : from_ ∈ dr.logicalPorts)
    (hfromRoot : from_.rootPort = true) :
    SoundWith N tail { dr with routes := copied env new from_ dr.routes } := by
  have hnew := h.lists new hmem
  have hfrom' : (N.port from_.portNo).rootPort = true := by rw [h.lists from_ hfrom, hfromRoot]
  refine ⟨h.lists, h.roots, shaped_copied hnew hnewRoot hfrom' h.shaped, fun q hq => ?_,
    fun q hq => ?_⟩
  · rw [mem_copied_iff h.two_hops] at hq ⊢
    rcases hq with hq | ⟨p, hp, hin, rfl⟩ | ⟨p, hp, heg, rfl⟩
    · exact .inl (h.paired q hq)
    · exact .inr (.inr ⟨reversePath p, h.paired p hp, hin, rfl⟩)
    · exact .inr (.inl ⟨reversePath p, h.paired p hp, heg, rfl⟩)
  · rw [mem_copied_iff h.two_hops] at hq
    rcases hq with hq | ⟨p, hp, hin, rfl⟩ | ⟨p, hp, heg, rfl⟩
    · exact h.recorded q hq
    · exact mem_map_of_mem hmem
    · exact h.recorded p hp

/-! ### The loop below an NNI port -/

theorem lookup_putRoute (route : List Hop) (p : PathID) :
    (putRoute n u route dr).routes.lookup p = if p = ⟨u, n⟩ then some (getReverseRoute route)
      else if p = ⟨n, u⟩ then some route else dr.routes.lookup p := by
  unfold putRoute
  simp only [lookup_insert_eq]

theorem mem_putRoute {route : List Hop} :
    p ∈ (putRoute n u route dr).routes ↔ p = ⟨u, n⟩ ∨ p = ⟨n, u⟩ ∨ p ∈ dr.routes := by
  unfold putRoute
  simp

/-- A sound table whose routes all start or end at one NNI port. -/
structure SoundVia (N : Numbering) (tail : UInt32 → UInt32 × Hop) (n : UInt32)
    (dr : DeviceRoutes) : Prop extends SoundWith N tail dr where
  only : ∀ p ∈ dr.routes, p.ingress = n ∨ p.egress = n

theorem SoundVia.cachePonPorts (h : SoundVia N tail n dr) (device : Device) :
    SoundVia N tail n (cachePonPorts device dr) :=
  ⟨⟨h.lists, h.roots, h.shaped, h.paired, h.recorded⟩, h.only⟩

/-- A new route changes the way to its UNI port, which only the one NNI port has. -/
theorem SoundVia.putRoute (h : SoundVia N tail n dr) (hn : (N.port n).rootPort = true)
    (hu : (N.port u).rootPort = false) (hnrec : n ∈ portNumbers dr.logicalPorts)
    (hurec : u ∈ portNumbers dr.logicalPorts) (t : UInt32 × Hop) :
    SoundVia N (Function.update tail u t) n (putRoute n u (downRoute (N.port n) t) dr) := by
  refine ⟨⟨h.lists, h.roots, fun q r hr => ?_, fun q hq => ?_, fun q hq => ?_⟩, fun q hq => ?_⟩
  · rw [lookup_putRoute] at hr
    split_ifs at hr with hup hdown
    · cases hr
      subst hup
      exact (RouteFor.down_of rfl hn hu (update_self ..)).reverse
    · cases hr
      subst hdown
      exact .down_of rfl hn hu (update_self ..)
    · -- an older route also goes through `n`, so it leads to another UNI port
      have hq := h.only q (mem_iff_exists_lookup.mpr ⟨r, hr⟩)
      refine (h.shaped q r hr).of_tail_eq fun v hv hvroot => ?_
      rw [update_of_ne]
      rintro rfl
      have hvn : v ≠ n := by
        rintro rfl
        simp [hn] at hvroot
      rcases hv with rfl | rfl <;> rcases hq with hq | hq
      · exact hvn hq
      · exact hup (by rw [← hq])
      · exact hdown (by rw [← hq])
      · exact hvn hq
  · rw [mem_putRoute] at hq ⊢
    rcases hq with rfl | rfl | hq
    · exact .inr (.inl rfl)
    · exact .inl rfl
    · exact .inr (.inr (h.paired q hq))
  · rcases mem_putRoute.mp hq with rfl | rfl | hq
    · exact hurec
    · exact hnrec
    · exact h.recorded q hq
  · rcases mem_putRoute.mp hq with rfl | rfl | hq
    · exact .inr rfl
    · exact .inl rfl
    · exact h.only q hq

/-- A sound table whose recorded ports have a property `R`. -/
def SoundOver (N : Numbering) (R : List LogicalPort → Prop) (dr : DeviceRoutes) : Prop :=
  Sound N dr ∧ R dr.logicalPorts

section Loop

variable {nni : LogicalPort}

/-- Below the NNI port there are other devices than its own. -/
def Env.HonestFor (env : Env) (nni : LogicalPort) : Prop :=
  ∀ d : FoundDevice env nni, d.root.id = nni.deviceId ∧ d.child.id ≠ nni.deviceId

theorem Env.Honest.honestFor (henv : env.Honest) (nni : LogicalPort) : env.HonestFor nni := by
  intro d
  obtain ⟨hroot, hpeers⟩ := henv _ _ d.root_found
  refine ⟨hroot, ?_⟩
  rw [(henv _ _ d.child_found).1]
  exact hpeers _ d.rootPort_mem _ d.peer_mem

/-- The logical port that is found below an NNI port is a UNI port. -/
theorem FoundPort.uni_listed (henv : env.HonestFor nni) (hlps : N.Lists lps) (hnni : nni ∈ lps)
    (hroot : nni.rootPort = true) (f : FoundPort env (physPortToLogicalPortMap lps) nni) :
    f.uni ∈ portNumbers lps ∧ (N.port f.uni).rootPort = false := by
  obtain ⟨lp, hlp, hdev, -, hno⟩ := exists_of_physPort f.listed
  refine ⟨hno ▸ mem_map_of_mem hlp, ?_⟩
  rw [← hno, hlps lp hlp]
  by_contra hlproot
  have hon := N.nni_on_root lp.portNo (by rw [hlps lp hlp]; simpa using hlproot)
  have honn := N.nni_on_root nni.portNo (by rw [hlps nni hnni]; exact hroot)
  rw [hlps lp hlp, hdev] at hon
  rw [hlps nni hnni] at honn
  exact (henv f.toFoundDevice).2 (hon.trans honn.symm)

/-- The way to a port that is found below an NNI port. -/
def FoundPort.way {phys : GoMap String UInt32} (f : FoundPort env phys nni) (pon : UInt32) :
    UInt32 × Hop := (f.rootPort.portNo, ⟨f.child.id, pon, f.childPort.portNo⟩)

theorem SoundVia.found (h : SoundVia N tail nni.portNo dr) (hports : dr.logicalPorts = lps)
    (henv : env.HonestFor nni) (hnni : nni ∈ lps) (hroot : nni.rootPort = true)
    (f : FoundPort env (physPortToLogicalPortMap lps) nni) (pon : UInt32) :
    SoundVia N (Function.update tail f.uni (f.way pon)) nni.portNo
      (Routes.putRoute nni.portNo f.uni (f.route pon) dr) := by
  have hlps : N.Lists lps := hports ▸ h.lists
  have huni := f.uni_listed henv hlps hnni hroot
  have hput := h.putRoute (by rw [hlps nni hnni]; exact hroot) huni.2
    (by rw [hports]; exact mem_map_of_mem hnni) (by rw [hports]; exact huni.1) (f.way pon)
  have hroute : f.route pon = downRoute nni (f.way pon) := by
    rw [FoundPort.route, (henv f.toFoundDevice).1]
    rfl
  rwa [hlps nni hnni, ← hroute] at hput

theorem triple_computeNNIRoutes_sound (henv : env.HonestFor nni) (hnni : nni ∈ lps)
    (hroot : nni.rootPort = true) :
    Triple (On fun dr => Sound N dr ∧ dr.logicalPorts = lps ∧ dr.routes = ∅)
      (computeNNIRoutes env (physPortToLogicalPortMap lps) nni)
      (fun _ => On (SoundOver N (· = lps))) fun _ _ => True := by
  have hloop : Triple
      (On fun dr => (∃ tail, SoundVia N tail nni.portNo dr) ∧ dr.logicalPorts = lps)
      (computeNNIRoutes env (physPortToLogicalPortMap lps) nni)
      (fun _ => On fun dr => (∃ tail, SoundVia N tail nni.portNo dr) ∧ dr.logicalPorts = lps)
      fun _ _ => True := by
    refine triple_computeNNIRoutes ?_ (fun _ _ _ _ => trivial) ?_
    · rintro id device dr _ ⟨⟨tail, h⟩, hports⟩
      exact ⟨⟨tail, h.cachePonPorts device⟩, hports⟩
    · rintro f pon dr' dr - - ⟨⟨tail, h⟩, hports⟩
      exact ⟨⟨_, h.found hports henv hnni hroot f pon.portNo⟩, hports⟩
  refine hloop.weaken (fun b hb => ?_) (fun _ b hb => ?_) fun _ _ => id
  · obtain ⟨⟨tail, hs⟩, hports, hempty⟩ := hb
    exact ⟨⟨tail, hs, by simp [hempty]⟩, hports⟩
  · obtain ⟨⟨tail, hs⟩, hports⟩ := hb
    exact ⟨⟨tail, hs.toSoundWith⟩, hports⟩

theorem triple_computeOtherNNIRoutes_sound (henv : env.Honest)
    {copyFrom : LogicalPort} (hfrom : copyFrom ∈ nniPorts lps) (nnis : List LogicalPort)
    (hnnis : ∀ nni ∈ nnis, nni ∈ nniPorts lps) :
    Triple (On (SoundOver N (· = lps)))
      (computeOtherNNIRoutes env (physPortToLogicalPortMap lps) copyFrom nnis)
      (fun _ => On (SoundOver N (· = lps))) fun _ _ => True := by
  induction nnis with
  | nil => exact Triple.pure fun _ hb => hb
  | cons nni nnis ih =>
    obtain ⟨hfrom, hfromRoot⟩ := mem_filter.mp hfrom
    obtain ⟨hnni, hroot⟩ := mem_filter.mp (hnnis nni (by simp))
    refine triple_getRoutes fun t => ?_
    split_ifs with hroutes
    · refine triple_copyFromExistingNNIRoutes ?_ ?_
      · rintro dr ⟨⟨⟨tail, h⟩, -⟩, -⟩
        exact h.two_hops
      · rintro dr ⟨⟨⟨tail, h⟩, hports⟩, -⟩
        exact ⟨⟨tail, h.copied (hports ▸ hnni) hroot (hports ▸ hfrom) hfromRoot⟩, hports⟩
    · refine Triple.bind ?_ fun _ => ih fun n hn => hnnis n (mem_cons_of_mem _ hn)
      refine (triple_computeNNIRoutes_sound (henv.honestFor nni) hnni hroot).pre fun b hb => ?_
      obtain ⟨⟨hs, hports⟩, rfl⟩ := hb
      exact ⟨hs, hports, eq_empty_of_length (by omega)⟩

theorem triple_computeAllRoutes_sound (henv : env.Honest) (hlps : N.Lists lps) :
    Triple (fun _ => True) (computeAllRoutes env lps) (fun _ => On (SoundOver N (· = lps)))
      fun _ _ => True := by
  have hrecord : Triple (fun _ => True) (modifyRoutes fun _ => recordPorts lps)
      (fun _ => On fun dr => dr = recordPorts lps) fun _ _ => True :=
    Triple.modify fun _ _ => rfl
  refine hrecord.bind fun _ => ?_
  split
  · exact Triple.throw fun _ _ => trivial
  · rename_i nni nnis hsplit
    have hmem : nni ∈ nniPorts lps := by simp [hsplit]
    obtain ⟨hnni, hroot⟩ := mem_filter.mp hmem
    have hfirst := triple_computeNNIRoutes_sound (N := N) (henv.honestFor nni) hnni hroot
    have hothers := triple_computeOtherNNIRoutes_sound (N := N) henv hmem nnis
      fun n hn => by simp [hsplit, hn]
    refine (hfirst.bind fun _ => hothers).pre fun b hb => ?_
    rw [On] at hb
    rw [On, hb]
    exact ⟨⟨fun _ => (0, {}), soundWith_recordPorts hlps⟩, rfl, rfl⟩

end Loop

theorem triple_computeRoutes_sound {R : List LogicalPort → Prop} (henv : env.Honest)
    (hlps : N.Lists lps) (hnil : R []) (hR : R lps) :
    Triple (On (SoundOver N R)) (computeRoutes env lps) (fun _ => On (SoundOver N R))
      fun _ => On (SoundOver N R) := by
  unfold computeRoutes
  split_ifs
  · exact Triple.throw fun _ hb => hb
  · refine triple_resetOnError ((triple_computeAllRoutes_sound henv hlps).weaken
      (fun _ _ => trivial) (fun _ b hb => ⟨hb.1, ?_⟩) fun _ _ => id)
      fun _ _ _ => ⟨sound_newDeviceRoutes, hnil⟩
    rw [hb.2]
    exact hR

/-! ### One more port -/

section AddPort

variable {ports : List LogicalPort}

theorem mem_withPort (hlp : N.port lp.portNo = lp) (hports : N.Lists ports) :
    lp ∈ withPort ports lp := by
  unfold withPort
  split_ifs with h
  · obtain ⟨lp', hmem, hno⟩ := any_eq_true.mp h
    rw [← hlp, ← of_decide_eq_true hno, hports lp' hmem]
    exact hmem
  · simp

theorem mem_withPort_iff (hlp : N.port lp.portNo = lp) (hports : N.Lists ports)
    {x : LogicalPort} : x ∈ withPort ports lp ↔ x ∈ ports ∨ x = lp := by
  constructor
  · intro hx
    unfold withPort at hx
    split_ifs at hx
    · exact .inl hx
    · simpa using hx
  · rintro (hx | rfl)
    · unfold withPort
      split_ifs
      · exact hx
      · exact mem_append_left _ hx
    · exact mem_withPort hlp hports

/-- The table with a port recorded and no new routes. -/
def portRecorded (lp : LogicalPort) (dr : DeviceRoutes) : DeviceRoutes :=
  addRootPort lp { dr with logicalPorts := withPort dr.logicalPorts lp }

theorem portRecorded_logicalPorts (lp : LogicalPort) (dr : DeviceRoutes) :
    (portRecorded lp dr).logicalPorts = withPort dr.logicalPorts lp := by
  unfold portRecorded addRootPort
  split_ifs <;> rfl

theorem portRecorded_routes (lp : LogicalPort) (dr : DeviceRoutes) :
    (portRecorded lp dr).routes = dr.routes := by
  unfold portRecorded addRootPort
  split_ifs <;> rfl

variable {R : List LogicalPort → Prop}

theorem mem_portRecorded_rootPorts :
    n ∈ (portRecorded lp dr).rootPorts ↔ n ∈ dr.rootPorts ∨ lp.rootPort = true ∧ n = lp.portNo := by
  unfold portRecorded addRootPort
  split_ifs with h
  · simp [h, or_comm]
  · simp [h]

theorem mem_portNumbers_nniPorts :
    n ∈ portNumbers (nniPorts ports) ↔ ∃ x ∈ ports, x.rootPort = true ∧ x.portNo = n := by
  simp [portNumbers, nniPorts, and_assoc]

theorem SoundWith.portRecorded (h : SoundWith N tail dr) (hlp : N.port lp.portNo = lp) :
    SoundWith N tail (portRecorded lp dr) := by
  have hmem := fun x => mem_withPort_iff hlp h.lists (x := x)
  refine ⟨?_, ?_, ?_, ?_, ?_⟩ <;> simp only [portRecorded_logicalPorts, portRecorded_routes]
  · intro x hx
    rcases (hmem x).mp hx with hx | rfl
    · exact h.lists x hx
    · exact hlp
  · ext n
    rw [mem_portRecorded_rootPorts, h.roots, mem_toFinset, mem_toFinset,
      mem_portNumbers_nniPorts, mem_portNumbers_nniPorts]
    constructor
    · rintro (⟨x, hx, hr, hn⟩ | ⟨hr, rfl⟩)
      · exact ⟨x, (hmem x).mpr (.inl hx), hr, hn⟩
      · exact ⟨lp, (hmem lp).mpr (.inr rfl), hr, rfl⟩
    · rintro ⟨x, hx, hr, rfl⟩
      rcases (hmem x).mp hx with hx | rfl
      · exact .inl ⟨x, hx, hr, rfl⟩
      · exact .inr ⟨hr, rfl⟩
  · exact h.shaped
  · exact h.paired
  · intro p hp
    obtain ⟨x, hx, hn⟩ := mem_map.mp (h.recorded p hp)
    exact mem_map.mpr ⟨x, (hmem x).mpr (.inl hx), hn⟩

theorem mem_flatMap_uniWrites {nnis : List LogicalPort} {t : UInt32 × Hop} :
    w ∈ nnis.flatMap (uniWrites lp t) ↔ ∃ nni ∈ nnis,
      w = (⟨nni.portNo, lp.portNo⟩, downRoute nni t) ∨
        w = (⟨lp.portNo, nni.portNo⟩, getReverseRoute (downRoute nni t)) := by
  simp [uniWrites]

/-- The routes of a UNI port to all recorded NNI ports replace its older ones. -/
theorem SoundWith.uniAdded (h : SoundWith N tail dr) (hmem : lp ∈ dr.logicalPorts)
    (huni : lp.rootPort = false) {dr' : DeviceRoutes} {found : Port × PeerPort}
    (hports : dr'.logicalPorts = dr.logicalPorts) (hroots : dr'.rootPorts = dr.rootPorts)
    (hroutes : dr'.routes = writeAll dr.routes
      ((nniPorts dr.logicalPorts).flatMap (uniWrites lp (ponTail lp found)))) :
    SoundWith N (Function.update tail lp.portNo (ponTail lp found)) dr' := by
  have hlp := h.lists lp hmem
  have hu : (N.port lp.portNo).rootPort = false := by rw [hlp, huni]
  have hnni : ∀ nni ∈ nniPorts dr.logicalPorts,
      N.port nni.portNo = nni ∧ nni.rootPort = true ∧ nni ∈ dr.logicalPorts := fun nni hn => by
    obtain ⟨hn, hr⟩ := mem_filter.mp hn
    exact ⟨h.lists nni hn, hr, hn⟩
  refine ⟨hports ▸ h.lists, by rw [hroots, hports, h.roots], fun p r hr => ?_,
    fun p hp => ?_, fun p hp => ?_⟩
  · rw [hroutes] at hr
    rcases lookup_writeAll_cases hr with hw | ⟨hno, hr⟩
    · obtain ⟨nni, hn, hw⟩ := mem_flatMap_uniWrites.mp hw
      obtain ⟨hport, hroot, -⟩ := hnni nni hn
      have hdown := RouteFor.down_of hport hroot hu (update_self lp.portNo (ponTail lp found) tail)
      rcases hw with hw | hw <;> cases hw
      · exact hdown
      · exact hdown.reverse
    · -- a route that is kept does not end at the UNI port
      have hp : p ∈ dr.routes := mem_iff_exists_lookup.mpr ⟨r, hr⟩
      have hother : ∀ n u, (p = ⟨n, u⟩ ∨ p = ⟨u, n⟩) → (N.port n).rootPort = true →
          u ≠ lp.portNo := by
        rintro n u hpath hnroot rfl
        have hrec : n ∈ portNumbers dr.logicalPorts := by
          rcases hpath with rfl | rfl
          · exact h.recorded _ hp
          · exact h.egress_recorded hp
        obtain ⟨nni, hn, rfl⟩ := mem_map.mp hrec
        rw [h.lists nni hn] at hnroot
        have hin : nni ∈ nniPorts dr.logicalPorts := mem_filter.mpr ⟨hn, hnroot⟩
        rcases hpath with rfl | rfl
        · exact hno _ (mem_flatMap_uniWrites.mpr ⟨nni, hin, .inl rfl⟩) rfl
        · exact hno _ (mem_flatMap_uniWrites.mpr ⟨nni, hin, .inr rfl⟩) rfl
      cases h.shaped p r hr with
      | down n u hn hu' => exact .down_of rfl hn hu' (update_of_ne (hother n u (.inl rfl) hn) ..)
      | up n u hn hu' =>
        exact (RouteFor.down_of rfl hn hu' (update_of_ne (hother n u (.inr rfl) hn) ..)).reverse
  · rw [hroutes, mem_writeAll] at hp ⊢
    rcases hp with ⟨w, hw, rfl⟩ | hp
    · obtain ⟨nni, hn, rfl | rfl⟩ := mem_flatMap_uniWrites.mp hw
      · exact .inl ⟨_, mem_flatMap_uniWrites.mpr ⟨nni, hn, .inr rfl⟩, rfl⟩
      · exact .inl ⟨_, mem_flatMap_uniWrites.mpr ⟨nni, hn, .inl rfl⟩, rfl⟩
    · exact .inr (h.paired p hp)
  · rw [hports]
    rw [hroutes, mem_writeAll] at hp
    rcases hp with ⟨w, hw, rfl⟩ | hp
    · obtain ⟨nni, hn, rfl | rfl⟩ := mem_flatMap_uniWrites.mp hw
      · exact mem_map_of_mem (hnni nni hn).2.2
      · exact mem_map_of_mem hmem
    · exact h.recorded p hp

theorem triple_extendRoutes_sound (hnil : R []) :
    Triple (On fun dr => SoundOver N R dr ∧ lp ∈ dr.logicalPorts) (extendRoutes env lp)
      (fun _ => On (SoundOver N R)) fun _ => On (SoundOver N R) := by
  refine triple_getRoutes fun t => ?_
  rintro b ⟨⟨⟨⟨tail, hs⟩, hR⟩, hmem⟩, rfl⟩
  cases hfind : (nniPorts b.dr.logicalPorts).find? (·.portNo ≠ lp.portNo) with
  | none => exact ⟨⟨tail, hs⟩, hR⟩
  | some copyFrom =>
    obtain ⟨hfrom, hfromRoot⟩ := mem_nniPorts.mp (mem_of_find?_eq_some hfind)
    split_ifs with hroot
    · exact triple_copyFromExistingNNIRoutes (I := fun dr => dr = b.dr) (J := SoundOver N R)
        (fun dr hdr => hdr ▸ hs.two_hops)
        (fun dr hdr => hdr ▸ ⟨⟨tail, hs.copied hmem hroot hfrom hfromRoot⟩, hR⟩) b rfl
    · have honroot : ∀ nni ∈ nniPorts b.dr.logicalPorts, nni.deviceId = N.root := fun nni hn => by
        obtain ⟨hn, hr⟩ := mem_nniPorts.mp hn
        have hport := hs.lists nni hn
        have hdev := N.nni_on_root nni.portNo (by rw [hport]; exact hr)
        rwa [hport] at hdev
      have hadd : Triple (On fun dr => dr = b.dr)
          (resetOnError ((nniPorts b.dr.logicalPorts).forM (addUniPortRoutes env lp)))
          (fun _ => On (UniAdded env lp N.root b.dr (nniPorts b.dr.logicalPorts)))
          fun _ => On (SoundOver N R) :=
        triple_resetOnError (F := fun _ _ => True)
          (triple_addUniPortRoutes honroot (fun _ _ _ _ => trivial) fun _ _ _ _ _ _ _ => trivial)
          fun _ _ _ => ⟨sound_newDeviceRoutes, hnil⟩
      refine (hadd.weaken (fun _ => id) (fun _ b' h => ⟨?_, ?_⟩) fun _ _ => id) b rfl
      · rcases h.routes with ⟨-, hsame⟩ | ⟨found, -, hroutes⟩
        · exact ⟨tail, hsame ▸ hs⟩
        · exact ⟨_, hs.uniAdded hmem (by simpa using hroot) h.logicalPorts h.rootPorts hroutes⟩
      · rw [h.logicalPorts]
        exact hR

theorem triple_addPort_sound {lps : List LogicalPort} (henv : env.Honest)
    (hlp : N.port lp.portNo = lp) (hlps : N.Lists lps) (hnil : R []) (hR : R lps) :
    Triple (On fun dr => SoundOver N R dr ∧ R (withPort dr.logicalPorts lp)) (addPort env lp lps)
      (fun _ => On (SoundOver N R)) fun _ => On (SoundOver N R) := by
  refine triple_getRoutes fun t => ?_
  split_ifs
  · exact (triple_computeRoutes_sound henv hlps hnil hR).pre fun _ hb => hb.1.1
  · rintro b ⟨⟨⟨⟨tail, hs⟩, -⟩, hRport⟩, rfl⟩
    refine (triple_addPortAndVerifyPrecondition fun _ _ _ => ⟨sound_newDeviceRoutes, hnil⟩).bind
      (fun _ => Triple.bind (triple_modifyRoutes
        (J := fun dr => SoundOver N R dr ∧ lp ∈ dr.logicalPorts) fun dr hdr => ?_)
        fun _ => triple_extendRoutes_sound hnil) b rfl
    rw [hdr, ← portRecorded]
    refine ⟨⟨⟨tail, hs.portRecorded hlp⟩, ?_⟩, ?_⟩ <;> rw [portRecorded_logicalPorts]
    · exact hRport
    · exact mem_withPort hlp hs.lists

end AddPort

/-! ### Sequences of calls -/

/-- The ports of a call are numbered by `N` and the devices it reads are as they should be. -/
def Call.Fits (N : Numbering) : Call → Prop
  | .computeRoutes env lps => env.Honest ∧ N.Lists lps
  | .addPort env lp lps => env.Honest ∧ N.port lp.portNo = lp ∧ N.Lists lps

theorem Sound.step (h : Sound N dr) (hc : c.Fits N) : Sound N (c.step dr) := by
  have hb : On (SoundOver N fun _ => True) ⟨dr, 0⟩ := ⟨h, trivial⟩
  cases c with
  | computeRoutes env lps =>
    exact ((triple_computeRoutes_sound hc.1 hc.2 trivial trivial).after hb).1
  | addPort env lp lps =>
    exact ((triple_addPort_sound hc.1 hc.2.1 hc.2.2 trivial trivial).after ⟨hb, trivial⟩).1

theorem Sound.run {calls : List Call} (h : Sound N dr) (hcalls : ∀ c ∈ calls, c.Fits N) :
    Sound N (run Call.step calls dr) :=
  run_invariant (C := fun _ c => c.Fits N) (fun _ _ hc hs => Sound.step hs hc)
    (along_of_forall hcalls dr) h

theorem SoundWith.mem_rootPorts_iff (h : SoundWith N tail dr)
    (hn : n ∈ portNumbers dr.logicalPorts) :
    n ∈ dr.rootPorts ↔ (N.port n).rootPort = true := by
  rw [h.roots, mem_toFinset, mem_portNumbers_nniPorts]
  obtain ⟨lp, hlp, rfl⟩ := mem_map.mp hn
  constructor
  · rintro ⟨x, hx, hr, hno⟩
    rw [← hno, h.lists x hx]
    exact hr
  · intro hr
    exact ⟨lp, hlp, by rwa [h.lists lp hlp] at hr, rfl⟩

/-- After every sequence of calls, a route has two hops and connects an NNI port with a UNI
port; its reverse is there; and the hop at the NNI port is on the root device and uses the
port that the NNI port stands for. -/
theorem route_shape {calls : List Call} (hcalls : ∀ c ∈ calls, c.Fits N)
    (hr : (Runs.run Call.step calls newDeviceRoutes).routes.lookup p = some r) :
    r.length = 2 ∧
    Xor (p.ingress ∈ (Runs.run Call.step calls newDeviceRoutes).rootPorts)
      (p.egress ∈ (Runs.run Call.step calls newDeviceRoutes).rootPorts) ∧
    (Runs.run Call.step calls newDeviceRoutes).routes.lookup (reversePath p) =
      some (getReverseRoute r) ∧
    (p.ingress ∈ (Runs.run Call.step calls newDeviceRoutes).rootPorts →
      ∃ hop, r[0]? = some hop ∧ hop.deviceID = N.root ∧
        hop.ingress = (N.port p.ingress).devicePortNo) ∧
    (p.egress ∈ (Runs.run Call.step calls newDeviceRoutes).rootPorts →
      ∃ hop, r[1]? = some hop ∧ hop.deviceID = N.root ∧
        hop.egress = (N.port p.egress).devicePortNo) := by
  obtain ⟨tail, hs⟩ : Sound N (run Call.step calls newDeviceRoutes) :=
    sound_newDeviceRoutes.run hcalls
  generalize run Call.step calls newDeviceRoutes = dr at hr hs ⊢
  have hp : p ∈ dr.routes := mem_iff_exists_lookup.mpr ⟨r, hr⟩
  rw [hs.mem_rootPorts_iff (hs.recorded p hp), hs.mem_rootPorts_iff (hs.egress_recorded hp)]
  have hshaped := hs.shaped
  obtain ⟨r', hr'⟩ := mem_iff_exists_lookup.mp (hs.paired p hp)
  have hrev : r' = getReverseRoute r := (hshaped _ _ hr').unique (hshaped p r hr).reverse
  refine ⟨hs.two_hops p r hr, ?_, hrev ▸ hr', ?_⟩
  · cases hshaped p r hr with
    | down n u hn hu => exact .inl ⟨hn, by simp [hu]⟩
    | up n u hn hu => exact .inr ⟨hn, by simp [hu]⟩
  · cases hshaped p r hr with
    | down n u hn hu =>
      refine ⟨fun _ => ⟨_, rfl, N.nni_on_root n hn, rfl⟩, fun he => ?_⟩
      simp [hu] at he
    | up n u hn hu =>
      refine ⟨fun he => ?_, fun _ => ⟨_, rfl, N.nni_on_root n hn, rfl⟩⟩
      simp [hu] at he

def oneOnuNumbering : Numbering where
  port n := if 10 ≤ n then nniPort n else uniPort n
  root := "olt"
  nni_on_root n h := by
    split_ifs at h ⊢
    · rfl
    · cases h

theorem oneOnu_honest : oneOnu.Honest := by
  rintro id device ⟨i, h⟩
  unfold oneOnu at h
  dsimp only at h
  split_ifs at h with holt honu
  · cases h
    subst holt
    decide
  · cases h
    subst honu
    decide

theorem route_shape_one_uni :
    (Call.computeRoutes oneOnu [nniPort 10, uniPort 2]).Fits oneOnuNumbering ∧
    (Runs.run Call.step [.computeRoutes oneOnu [nniPort 10, uniPort 2]]
      newDeviceRoutes).routes.lookup ⟨10, 2⟩ = some [⟨"olt", 10, 1⟩, ⟨"onu", 1, 2⟩] ∧
    (Runs.run Call.step [.computeRoutes oneOnu [nniPort 10, uniPort 2]]
      newDeviceRoutes).routes.lookup ⟨2, 10⟩ = some [⟨"onu", 2, 1⟩, ⟨"olt", 1, 10⟩] := by
  have hfits : (Call.computeRoutes oneOnu [nniPort 10, uniPort 2]).Fits oneOnuNumbering :=
    ⟨oneOnu_honest, by decide⟩
  have hroute : (run Call.step [.computeRoutes oneOnu [nniPort 10, uniPort 2]]
      newDeviceRoutes).routes.lookup ⟨10, 2⟩ = some [⟨"olt", 10, 1⟩, ⟨"onu", 1, 2⟩] := by
    decide +kernel
  exact ⟨hfits, hroute, (route_shape (N := oneOnuNumbering) (by simpa using hfits) hroute).2.2.1⟩

/-! ### Failed calls -/

/-- The call gives up on too few ports before it looks at the table. -/
def Call.tooFewPorts (dr : DeviceRoutes) : Call → Bool
  | .computeRoutes _ lps => lps.length < 2
  | .addPort _ _ lps => dr.routes.keys.length = 0 && lps.length < 2

theorem hopAt_error {path : List Hop} {i : ℕ} (h : hopAt path i = .error e) :
    e = .crash "index out of range" := by
  unfold hopAt at h
  split at h <;> cases h
  rfl

theorem clone_error {key : PathID} {val : List Hop}
    (h : cloneIngress new key val m = .error e ∨ cloneEgress new key val m = .error e) :
    e = .crash "index out of range" := by
  have hhops : hopAt val 0 = .error e ∨ hopAt val 1 = .error e := by
    rcases h with h | h <;>
    · rcases except_bind_error_iff.mp h with h | ⟨first, -, h⟩
      · exact .inl h
      · rcases except_bind_error_iff.mp h with h | ⟨second, -, h⟩
        · exact .inr h
        · cases h
  rcases hhops with h | h <;> exact hopAt_error h

theorem copyEntry_error {entry : Σ _ : PathID, List Hop}
    (h : copyEntry new from_ m entry = .error e) : e = .crash "index out of range" := by
  rcases except_bind_error_iff.mp h with h | ⟨m', -, h⟩
  · split_ifs at h
    · exact clone_error (.inl h)
    · cases h
  · rcases except_bind_error_iff.mp h with h | ⟨m'', -, h⟩
    · split_ifs at h
      · exact clone_error (.inr h)
      · cases h
    · cases h

theorem foldlM_copyEntry_error {entries : List (Σ _ : PathID, List Hop)}
    (h : entries.foldlM (copyEntry new from_) m = .error e) : e = .crash "index out of range" := by
  induction entries generalizing m with
  | nil => cases h
  | cons entry entries ih =>
    rw [foldlM_cons] at h
    cases hentry : copyEntry new from_ m entry with
    | error e' =>
      rw [hentry] at h
      cases h
      exact copyEntry_error hentry
    | ok m' =>
      rw [hentry] at h
      exact ih h

/-- An error that is returned, not a panic, comes with an empty table. -/
def Cleared (e : Err) (b : Build) : Prop := (∀ reason, e ≠ .crash reason) → b.dr = newDeviceRoutes

theorem triple_resetOnError_cleared (x : RouteM Unit) :
    Triple (fun _ => True) (resetOnError x) (fun _ _ => True) Cleared := by
  have hx : Triple (fun _ => True) x (fun _ _ => True) fun _ _ => True := by
    intro b _
    cases x b <;> trivial
  exact triple_resetOnError hx fun _ _ _ _ => rfl

theorem triple_extendRoutes_cleared (env : Env) (lp : LogicalPort) :
    Triple (fun _ => True) (extendRoutes env lp) (fun _ _ => True) Cleared := by
  refine (triple_getRoutes (I := fun _ => True) fun t => ?_).pre fun _ _ => trivial
  split
  · exact Triple.pure fun _ _ => trivial
  · split_ifs
    · refine triple_getRoutes fun t => ?_
      split
      · rename_i e he
        exact Triple.throw fun _ _ hcrash => absurd (foldlM_copyEntry_error he) (hcrash _)
      · exact Triple.modify fun _ _ => trivial
    · exact (triple_resetOnError_cleared _).pre fun _ _ => trivial

theorem triple_exec_cleared (c : Call) :
    Triple (fun b => c.tooFewPorts b.dr = false) c.exec (fun _ _ => True) Cleared := by
  have hcompute : ∀ (env : Env) (lps : List LogicalPort), ¬lps.length < 2 →
      Triple (fun _ => True) (computeRoutes env lps) (fun _ _ => True) Cleared := by
    intro env lps hlen
    rw [computeRoutes, if_neg hlen]
    exact triple_resetOnError_cleared _
  cases c with
  | computeRoutes env lps =>
    intro b hb
    exact hcompute env lps (by simpa [Call.tooFewPorts] using hb) b trivial
  | addPort env lp lps =>
    refine (triple_getRoutes (I := fun dr => (Call.addPort env lp lps).tooFewPorts dr = false)
      fun t => ?_)
    rintro b ⟨hb, rfl⟩
    by_cases hroutes : b.dr.routes.keys.length = 0
    · rw [if_pos hroutes]
      refine hcompute env lps ?_ b trivial
      simpa [Call.tooFewPorts, hroutes] using hb
    · rw [if_neg hroutes]
      exact (triple_resetOnError_cleared _).bind (fun _ => Triple.bind (Q := fun _ _ => True)
        (Triple.modify fun _ _ => trivial) fun _ => triple_extendRoutes_cleared env lp) b trivial

theorem exec_of_tooFewPorts {b : Build} (h : c.tooFewPorts b.dr = true) :
    c.exec b = .error (.status .failedPrecondition "not-enough-logical-ports") b := by
  have hcompute : ∀ (env : Env) (lps : List LogicalPort), lps.length < 2 →
      computeRoutes env lps b =
        .error (.status .failedPrecondition "not-enough-logical-ports") b := by
    intro env lps hlen
    rw [computeRoutes, if_pos hlen]
    rfl
  cases c with
  | computeRoutes env lps => exact hcompute env lps (by simpa [Call.tooFewPorts] using h)
  | addPort env lp lps =>
    simp only [Call.tooFewPorts, Bool.and_eq_true, decide_eq_true_eq] at h
    exact (addPort_of_no_routes h.1).trans (hcompute env lps h.2)

/-- A call that returns an error leaves an empty table behind, unless it gave up on too few
ports: then it leaves the table as it was. -/
theorem failed_call_clears_iff {c : Call} {e : Err} {b : Build}
    (h : c.exec ⟨dr, 0⟩ = .error e b) (hcrash : ∀ reason, e ≠ .crash reason) :
    b.dr = newDeviceRoutes ↔ c.tooFewPorts dr = false ∨ dr = newDeviceRoutes := by
  cases hfew : c.tooFewPorts dr with
  | false => simp [(triple_exec_cleared c).failed hfew h hcrash]
  | true =>
    rw [exec_of_tooFewPorts hfew] at h
    cases h
    simp

/-- The routes of a deleted UNI port survive the rebuild with the one port that is left. -/
theorem stale_routes_after_failed_build :
    let built := afterCall (computeRoutes oneOnu [nniPort 10, uniPort 2]) newDeviceRoutes
    Outcome.returns (computeRoutes oneOnu [nniPort 10]) ⟨built, 0⟩ = false ∧
      (afterCall (computeRoutes oneOnu [nniPort 10]) built).routes.lookup ⟨10, 2⟩ =
        some [⟨"olt", 10, 1⟩, ⟨"onu", 1, 2⟩] := by
  decide +kernel

theorem failed_call_clears_iff_no_nni :
    let built := afterCall (computeRoutes oneOnu [nniPort 10, uniPort 2]) newDeviceRoutes
    (Call.computeRoutes oneOnu [uniPort 2, uniPort 3]).exec ⟨built, 0⟩ =
        .error (.status .failedPrecondition "no nni port") ⟨newDeviceRoutes, 0⟩ ∧
      (newDeviceRoutes = newDeviceRoutes ↔
        (Call.computeRoutes oneOnu [uniPort 2, uniPort 3]).tooFewPorts built = false ∨
          built = newDeviceRoutes) := by
  intro built
  have h : (Call.computeRoutes oneOnu [uniPort 2, uniPort 3]).exec ⟨built, 0⟩ =
      .error (.status .failedPrecondition "no nni port") ⟨newDeviceRoutes, 0⟩ := rfl
  exact ⟨h, failed_call_clears_iff h (by simp)⟩

end VolthaCore.Routes
