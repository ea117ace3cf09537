import VolthaCore.Routes.DeviceRoutes

/-! What the parts of a route build do, each stated once for every behaviour of
the device lookups: the keys of the physical ports, the copy of an NNI port's
routes as a list of writes, the loop below an NNI port as an invariant rule, and
the loop of a new UNI port over the NNI ports. -/

namespace VolthaCore.Routes

open Decomposition Devices Outcome List GoMap

/-! ### Physical ports -/

theorem colon_notMem_toDigits (n : ℕ) : ':' ∉ Nat.toDigits 10 n := by
  intro h
  have := Nat.isDigit_of_mem_toDigits (by decide) (by decide) h
  exact absurd this (by decide)

theorem toDigits_injective {m n : ℕ} (h : Nat.toDigits 10 m = Nat.toDigits 10 n) : m = n := by
  rw [← Nat.ofDigitChars_ten_toDigits (n := m), h, Nat.ofDigitChars_ten_toDigits]

theorem toList_concatDeviceIDPortID (d : String) (p : UInt32) :
    (concatDeviceIDPortID d p).toList = d.toList ++ ':' :: Nat.toDigits 10 p.toNat := by
  have hp : toString p = Nat.repr p.toNat := rfl
  simp [concatDeviceIDPortID, hp, Nat.repr_eq_ofList_toDigits]

theorem takeWhile_digits (n : ℕ) (l : List Char) :
    ((Nat.toDigits 10 n).reverse ++ ':' :: l).takeWhile (· ≠ ':') =
      (Nat.toDigits 10 n).reverse := by
  have hdigits : ∀ c ∈ (Nat.toDigits 10 n).reverse, (decide (c ≠ ':')) = true := by
    intro c hc
    simp only [ne_eq, decide_not, Bool.not_eq_true', decide_eq_false_iff_not]
    rintro rfl
    exact colon_notMem_toDigits n (mem_reverse.mp hc)
  rw [takeWhile_append_of_pos hdigits]
  simp

/-- A port number has no colon, so the last colon of the key separates its parts. -/
theorem concatDeviceIDPortID_inj : Function.Injective2 concatDeviceIDPortID := by
  intro d d' p p' h
  have hl := congrArg (List.reverse ∘ String.toList) h
  simp only [Function.comp_apply, toList_concatDeviceIDPortID, reverse_append,
    reverse_cons, append_assoc, singleton_append] at hl
  have hp := congrArg (List.takeWhile (· ≠ ':')) hl
  rw [takeWhile_digits, takeWhile_digits] at hp
  rw [hp] at hl
  have hd := (List.cons.inj (append_cancel_left hl)).2
  refine ⟨String.toList_inj.mp (reverse_injective hd), ?_⟩
  exact UInt32.toNat_inj.mp (toDigits_injective (reverse_injective hp))

theorem lookup_physPort (lps : List LogicalPort) (d : String) (p : UInt32) :
    (physPortToLogicalPortMap lps).lookup (concatDeviceIDPortID d p) =
      (lps.reverse.find? fun lp => lp.deviceId = d ∧ lp.devicePortNo = p).map (·.portNo) := by
  rw [physPortToLogicalPortMap, lookup_writeAll, ← map_reverse, find?_map, Option.map_map,
    AList.lookup_empty, Option.or_none]
  simp [Function.comp_def, concatDeviceIDPortID_inj.eq_iff]

/-- A physical port is mapped to the number of the logical port that is listed last for it. -/
theorem physPort_maps_to_last : Function.Injective2 concatDeviceIDPortID ∧
    ∀ lps d p, (physPortToLogicalPortMap lps).lookup (concatDeviceIDPortID d p) =
      (lps.reverse.find? fun lp => lp.deviceId = d ∧ lp.devicePortNo = p).map (·.portNo) :=
  ⟨concatDeviceIDPortID_inj, lookup_physPort⟩

variable {d : String} {p : UInt32} {lps : List LogicalPort}

theorem exists_of_physPort {n : UInt32}
    (h : (physPortToLogicalPortMap lps).lookup (concatDeviceIDPortID d p) = some n) :
    ∃ lp ∈ lps, lp.deviceId = d ∧ lp.devicePortNo = p ∧ lp.portNo = n := by
  rw [lookup_physPort] at h
  obtain ⟨lp, hfind, hn⟩ := Option.map_eq_some_iff.mp h
  obtain ⟨hd, hp⟩ : lp.deviceId = d ∧ lp.devicePortNo = p := by simpa using find?_some hfind
  exact ⟨lp, mem_reverse.mp (mem_of_find?_eq_some hfind), hd, hp, hn⟩

/-! ### Reading the table and the devices -/

section Rules

variable {env : Env} {I : DeviceRoutes → Prop} {E : Err → Build → Prop} {α : Type}

def On (I : DeviceRoutes → Prop) (b : Build) : Prop := I b.dr

variable {J : DeviceRoutes → Prop} {t : DeviceRoutes} {lp : LogicalPort} {root : String}
  {nnis : List LogicalPort}

theorem triple_modifyRoutes {f : DeviceRoutes → DeviceRoutes} (h : ∀ dr, I dr → J (f dr)) :
    Triple (On I) (modifyRoutes f) (fun _ => On J) E :=
  Triple.modify fun b hb => h b.dr hb

theorem triple_getRoutes {f : DeviceRoutes → RouteM α} {Q : α → Build → Prop}
    (h : ∀ t, Triple (On fun dr => I dr ∧ dr = t) (f t) Q E) :
    Triple (On I) (getRoutes >>= f) Q E :=
  fun b hb => h b.dr b ⟨hb, rfl⟩

/-- A failed computation leaves an empty table behind. -/
theorem triple_resetOnError {x : RouteM Unit} {Q : Unit → Build → Prop} {F : Err → Build → Prop}
    {P : Build → Prop} (h : Triple P x Q F)
    (hE : ∀ e b, F e b → E e ⟨newDeviceRoutes, b.lookups⟩) : Triple P (resetOnError x) Q E :=
  h.tryCatch fun e b hb => hE e b hb

/-- The device is one of the answers to lookups of the identifier. -/
def Env.Finds (env : Env) (deviceID : String) (device : Device) : Prop :=
  ∃ i, env.getDeviceFromModel i deviceID = .ok device

theorem getDevice_apply (env : Env) (deviceID : String) (b : Build) :
    getDevice env deviceID b = match env.getDeviceFromModel b.lookups deviceID with
      | .error e => .error e ⟨b.dr, b.lookups + 1⟩
      | .ok device => .ok device ⟨cachePonPorts device b.dr, b.lookups + 1⟩ := by
  change (match env.getDeviceFromModel b.lookups deviceID with
    | .error e => throw e
    | .ok device => do
      modifyRoutes (cachePonPorts device)
      return device : RouteM Device) ⟨b.dr, b.lookups + 1⟩ = _
  cases env.getDeviceFromModel b.lookups deviceID <;> rfl

theorem triple_getDevice (env : Env) (deviceID : String) {J : Device → DeviceRoutes → Prop}
    (hJ : ∀ device dr, env.Finds deviceID device → I dr → J device (cachePonPorts device dr))
    (hE : ∀ i e b, env.getDeviceFromModel i deviceID = .error e → I b.dr → E e b) :
    Triple (On I) (getDevice env deviceID)
      (fun device b => env.Finds deviceID device ∧ On (J device) b) E := by
  intro b hb
  rw [getDevice_apply]
  cases h : env.getDeviceFromModel b.lookups deviceID with
  | error e => exact hE _ e _ h hb
  | ok device => exact ⟨⟨b.lookups, h⟩, hJ device b.dr ⟨b.lookups, h⟩ hb⟩

/-! ### The routes below an NNI port -/

/-- A device that the loop below an NNI port reaches: a PON port of the root device has it
as a peer. -/
structure FoundDevice (env : Env) (nni : LogicalPort) where
  root : Device
  rootPort : Port
  peer : PeerPort
  child : Device
  root_found : env.Finds nni.deviceId root
  rootPort_mem : rootPort ∈ root.ports
  rootPort_type : rootPort.type = .ponOlt
  peer_mem : peer ∈ rootPort.peers
  child_found : env.Finds peer.deviceId child

/-- A UNI port of such a device, with a logical port that stands for it. -/
structure FoundPort (env : Env) (phys : GoMap String UInt32) (nni : LogicalPort) extends
    FoundDevice env nni where
  childPort : Port
  uni : UInt32
  childPort_mem : childPort ∈ child.ports
  childPort_type : childPort.type = .ethernetUni
  listed : phys.lookup (concatDeviceIDPortID child.id childPort.portNo) = some uni

def FoundPort.route {phys : GoMap String UInt32} {nni : LogicalPort} (f : FoundPort env phys nni)
    (childPonPort : UInt32) : List Hop :=
  [⟨f.root.id, nni.devicePortNo, f.rootPort.portNo⟩,
    ⟨f.child.id, childPonPort, f.childPort.portNo⟩]

/-- The failures of the loop below an NNI port. -/
inductive LoopFailure (env : Env) (nni : LogicalPort) (dr : DeviceRoutes) : Err → Prop
  | noRoot (i : ℕ) (e : Err) (h : env.getDeviceFromModel i nni.deviceId = .error e) :
      LoopFailure env nni dr e
  | noPorts (root : Device) (hroot : env.Finds nni.deviceId root) (h : root.ports = []) :
      LoopFailure env nni dr (.status .failedPrecondition ("no-port-" ++ root.id))
  | noChild (root : Device) (rootPort : Port) (peer : PeerPort) (i : ℕ) (e : Err)
      (hroot : env.Finds nni.deviceId root) (hport : rootPort ∈ root.ports)
      (htype : rootPort.type = .ponOlt) (hpeer : peer ∈ rootPort.peers)
      (h : env.getDeviceFromModel i peer.deviceId = .error e) : LoopFailure env nni dr e
  | noPonPort (d : FoundDevice env nni) (dr' : DeviceRoutes)
      (hread : dr = cachePonPorts d.child dr')
      (h : getDevicePonPorts dr d.child.id nni.deviceId = []) :
      LoopFailure env nni dr (.status .aborted ("no-child-pon-port-" ++ d.child.id))

theorem triple_addUniRoutes {phys : GoMap String UInt32} {nni : LogicalPort}
    (d : FoundDevice env nni) {pon : UInt32}
    (hput : ∀ f : FoundPort env phys nni, f.toFoundDevice = d → ∀ dr, I dr →
      I (putRoute nni.portNo f.uni (f.route pon) dr))
    {childPort : Port} (hmem : childPort ∈ d.child.ports) :
    Triple (On I) (addUniRoutes phys nni d.root d.rootPort d.child pon childPort)
      (fun _ => On I) E := by
  unfold addUniRoutes
  split_ifs with huni
  · split
    · exact Triple.pure fun _ hb => hb
    · rename_i uni hlisted
      exact triple_modifyRoutes (hput ⟨d, childPort, uni, hmem, huni, hlisted⟩ rfl)
  · exact Triple.pure fun _ hb => hb

/-! What the reads of devices keep and every written route keeps, the loop keeps. The PON
port of a route is the first one cached for its device at an earlier moment. -/

section Loop

variable {phys : GoMap String UInt32} {nni : LogicalPort}
  (hcache : ∀ id device dr, env.Finds id device → I dr → I (cachePonPorts device dr))
  (hE : ∀ e b, LoopFailure env nni b.dr e → I b.dr → E e b)
include hcache hE

variable {root : Device} {rootPort : Port} {peer : PeerPort} {K : DeviceRoutes → Prop}

theorem triple_addPeerRoutes_of (hroot : env.Finds nni.deviceId root)
    (hport : rootPort ∈ root.ports) (htype : rootPort.type = .ponOlt)
    (hpeer : peer ∈ rootPort.peers)
    (hports : ∀ (d : FoundDevice env nni) (pon : Port) (dr' : DeviceRoutes), d.root = root →
      d.rootPort = rootPort → d.peer = peer → I dr' →
      (getDevicePonPorts dr' d.child.id nni.deviceId).head? = some pon → Triple (On I)
        (d.child.ports.forM (addUniRoutes phys nni d.root d.rootPort d.child pon.portNo))
        (fun _ => On K) E) :
    Triple (On I) (addPeerRoutes env phys nni root rootPort peer) (fun _ => On K) E := by
  have hget := triple_getDevice env peer.deviceId (E := E)
    (J := fun child dr => I dr ∧ ∃ dr', dr = cachePonPorts child dr')
    (fun device dr hf hI => ⟨hcache _ device dr hf hI, dr, rfl⟩)
    fun i e b he => hE e b (.noChild root rootPort peer i e hroot hport htype hpeer he)
  refine hget.bind fun child => Triple.of_fact fun hchild => ?_
  let d : FoundDevice env nni := ⟨root, rootPort, peer, child, hroot, hport, htype, hpeer, hchild⟩
  refine triple_getRoutes fun t => ?_
  cases hpon : getDevicePonPorts t child.id nni.deviceId with
  | nil =>
    rintro b ⟨⟨hb, dr', hread⟩, rfl⟩
    exact hE _ b (.noPonPort d dr' hread hpon) hb
  | cons pon pons =>
    rintro b ⟨⟨hb, -⟩, rfl⟩
    exact hports d pon b.dr rfl rfl rfl hb (by rw [hpon]; rfl) b hb

theorem triple_computeNNIRoutes_of (hports : ∀ root, env.Finds nni.deviceId root →
      Triple (On I) (root.ports.forM (addRootPortRoutes env phys nni root)) (fun _ => On K) E) :
    Triple (On I) (computeNNIRoutes env phys nni) (fun _ => On K) E := by
  have hget := triple_getDevice env nni.deviceId (J := fun _ => I) (E := E)
    (fun device dr => hcache _ device dr)
    fun i e b he => hE e b (.noRoot i e he)
  refine hget.bind fun root => Triple.of_fact fun hroot => ?_
  split_ifs with hnone
  · exact Triple.throw fun b hb => hE _ b (.noPorts root hroot hnone) hb
  · exact hports root hroot

variable (hput : ∀ (f : FoundPort env phys nni) (pon : Port) (dr' dr : DeviceRoutes), I dr' →
    (getDevicePonPorts dr' f.child.id nni.deviceId).head? = some pon → I dr →
    I (putRoute nni.portNo f.uni (f.route pon.portNo) dr))
include hput

theorem triple_addPeerRoutes (hroot : env.Finds nni.deviceId root)
    (hport : rootPort ∈ root.ports) (htype : rootPort.type = .ponOlt)
    (hpeer : peer ∈ rootPort.peers) :
    Triple (On I) (addPeerRoutes env phys nni root rootPort peer) (fun _ => On I) E :=
  triple_addPeerRoutes_of hcache hE hroot hport htype hpeer fun d pon dr' _ _ _ hdr' hhead =>
    Triple.forM_keeps fun _ => triple_addUniRoutes d fun f hf dr =>
      hput f pon dr' dr hdr' (by rwa [hf])

theorem triple_addRootPortRoutes (hroot : env.Finds nni.deviceId root)
    (hport : rootPort ∈ root.ports) :
    Triple (On I) (addRootPortRoutes env phys nni root rootPort) (fun _ => On I) E := by
  unfold addRootPortRoutes
  split_ifs with htype
  · exact Triple.forM_keeps fun peer hpeer =>
      triple_addPeerRoutes hcache hE hput hroot hport htype hpeer
  · exact Triple.pure fun _ hb => hb

theorem triple_computeNNIRoutes :
    Triple (On I) (computeNNIRoutes env phys nni) (fun _ => On I) E :=
  triple_computeNNIRoutes_of hcache hE fun _ hroot => Triple.forM_keeps fun _ =>
    triple_addRootPortRoutes hcache hE hput hroot

end Loop

/-! ### Copies of an NNI port's routes -/

/-- The route from an NNI port through a port of its device and then a hop. -/
def downRoute (nni : LogicalPort) (tail : UInt32 × Hop) : List Hop :=
  [⟨nni.deviceId, nni.devicePortNo, tail.1⟩, tail.2]

def copyWrites (newNNIPort copyFromNNIPort : LogicalPort) (entry : Σ _ : PathID, List Hop) :
    List (PathID × List Hop) :=
  match entry.2 with
  | [first, second] =>
    (if entry.1.ingress = copyFromNNIPort.portNo then
      [(⟨newNNIPort.portNo, entry.1.egress⟩, downRoute newNNIPort (first.egress, second))]
    else []) ++
    (if entry.1.egress = copyFromNNIPort.portNo then
      [(⟨entry.1.ingress, newNNIPort.portNo⟩,
        [first, ⟨newNNIPort.deviceId, second.ingress, newNNIPort.devicePortNo⟩])]
    else []) ++ [(entry.1, entry.2)]
  | _ => []

theorem copyEntry_eq (new from_ : LogicalPort) (m : RouteMap) (entry : Σ _ : PathID, List Hop)
    (h : entry.2.length = 2) :
    copyEntry new from_ m entry = .ok (writeAll m (copyWrites new from_ entry)) := by
  obtain ⟨key, val⟩ := entry
  obtain ⟨first, second, rfl⟩ := length_eq_two.mp h
  unfold copyEntry copyWrites
  by_cases hin : key.ingress = from_.portNo <;> by_cases heg : key.egress = from_.portNo <;>
    simp [hin, heg, cloneIngress, cloneEgress, hopAt, pure, Except.pure, bind, Except.bind,
      downRoute]

theorem foldlM_copyEntry (new from_ : LogicalPort) (m : RouteMap)
    (entries : List (Σ _ : PathID, List Hop)) (h : ∀ e ∈ entries, e.2.length = 2) :
    entries.foldlM (copyEntry new from_) m =
      .ok (writeAll m (entries.flatMap (copyWrites new from_))) := by
  induction entries generalizing m with
  | nil => rfl
  | cons entry entries ih =>
    rw [foldlM_cons, copyEntry_eq new from_ m entry (h entry (by simp)), flatMap_cons,
      writeAll_append, ← ih _ fun e he => h e (mem_cons_of_mem _ he)]
    rfl

/-- The table after a copy, when all its routes have two hops. -/
def copied (env : Env) (new from_ : LogicalPort) (m : RouteMap) : RouteMap :=
  GoMap.writeAll ∅ ((env.order.visit m.entries).flatMap (copyWrites new from_))

theorem triple_copyFromExistingNNIRoutes {new from_ : LogicalPort}
    (htwo : ∀ dr, I dr → ∀ p r, dr.routes.lookup p = some r → r.length = 2)
    (hJ : ∀ dr, I dr → J { dr with routes := copied env new from_ dr.routes }) :
    Triple (On I) (copyFromExistingNNIRoutes env new from_) (fun _ => On J) E := by
  refine triple_getRoutes fun t => ?_
  rintro b ⟨hb, rfl⟩
  have hentries : ∀ e ∈ env.order.visit b.dr.routes.entries, e.2.length = 2 := fun e he =>
    htwo b.dr hb e.1 e.2 (mem_entries_iff.mp ((env.order.perm _).mem_iff.mp he))
  rw [foldlM_copyEntry _ _ _ _ hentries]
  exact hJ b.dr hb

/-! ### The routes of a new UNI port -/

theorem triple_findPonPort (env : Env) (deviceID peerDeviceID : String)
    (hE : firstPeer (getDevicePonPorts t deviceID peerDeviceID) = none →
      ∀ i e b, env.getDeviceFromModel i deviceID = .error e → E e b)
    (hnone : firstPeer (getDevicePonPorts t deviceID peerDeviceID) = none →
      ∀ device e b, env.Finds deviceID device → b.dr = cachePonPorts device t →
        firstPeer (getDevicePonPorts b.dr deviceID peerDeviceID) = none → E e b) :
    Triple (On fun dr => dr = t) (findPonPort env deviceID peerDeviceID)
      (fun found => On fun dr =>
        firstPeer (getDevicePonPorts dr deviceID peerDeviceID) = some found ∧
          (dr = t ∨ firstPeer (getDevicePonPorts t deviceID peerDeviceID) = none ∧
            ∃ device, env.Finds deviceID device ∧ dr = cachePonPorts device t)) E := by
  refine triple_getRoutes fun t' => ?_
  rintro b ⟨hb, rfl⟩
  cases hfound : firstPeer (getDevicePonPorts b.dr deviceID peerDeviceID) with
  | some found => exact ⟨hfound, .inl hb⟩
  | none =>
    rw [hb] at hfound
    have hget := triple_getDevice env deviceID (I := fun dr => dr = t)
      (J := fun device dr => dr = cachePonPorts device t) (E := E)
      (fun device dr _ hdr => by rw [hdr]) fun i e b he _ => hE hfound i e b he
    refine hget.bind (fun device => Triple.of_fact fun hdevice => triple_getRoutes fun t' => ?_) b
      hb
    rintro b ⟨hdr, rfl⟩
    cases hagain : firstPeer (getDevicePonPorts b.dr deviceID peerDeviceID) with
    | some found => exact ⟨hagain, .inr ⟨hfound, device, hdevice, hdr⟩⟩
    | none => exact hnone hfound device _ b hdevice hdr hagain

/-- The writes for a new UNI port and an NNI port. -/
def uniWrites (lp : LogicalPort) (tail : UInt32 × Hop) (nni : LogicalPort) :
    List (PathID × List Hop) :=
  [(⟨nni.portNo, lp.portNo⟩, downRoute nni tail),
    (⟨lp.portNo, nni.portNo⟩, getReverseRoute (downRoute nni tail))]

/-- The way from the device of the NNI ports to a UNI port through a PON port. -/
def ponTail (lp : LogicalPort) (found : Port × PeerPort) : UInt32 × Hop :=
  (found.2.portNo, ⟨lp.deviceId, found.1.portNo, lp.devicePortNo⟩)

/-- What the loop of a new UNI port has done to the table `t` after the given NNI ports,
which are all on the device `root`: one PON port serves them all. -/
structure UniAdded (env : Env) (lp : LogicalPort) (root : String) (t : DeviceRoutes)
    (nnis : List LogicalPort) (dr : DeviceRoutes) : Prop where
  logicalPorts : dr.logicalPorts = t.logicalPorts
  rootPorts : dr.rootPorts = t.rootPorts
  cache : dr.devicesPonPorts = t.devicesPonPorts ∨ ∃ device, env.Finds lp.deviceId device ∧
    dr.devicesPonPorts = (cachePonPorts device t).devicesPonPorts
  routes : nnis = [] ∧ dr = t ∨
    ∃ found, firstPeer (getDevicePonPorts dr lp.deviceId root) = some found ∧
      dr.routes = GoMap.writeAll t.routes (nnis.flatMap (uniWrites lp (ponTail lp found)))

theorem UniAdded.concat (nni : LogicalPort) {dr dr' : DeviceRoutes}
    (h : UniAdded env lp root t nnis dr) {found : Port × PeerPort}
    (hfound : firstPeer (getDevicePonPorts dr' lp.deviceId root) = some found)
    (hdr : dr' = dr ∨ firstPeer (getDevicePonPorts dr lp.deviceId root) = none ∧
      ∃ device, env.Finds lp.deviceId device ∧ dr' = cachePonPorts device dr) :
    UniAdded env lp root t (nnis ++ [nni])
      (putRoute nni.portNo lp.portNo (downRoute nni (ponTail lp found)) dr') := by
  have hwrite : ∀ dr'' : DeviceRoutes,
      (putRoute nni.portNo lp.portNo (downRoute nni (ponTail lp found)) dr'').routes =
        writeAll dr''.routes (uniWrites lp (ponTail lp found) nni) := fun _ => rfl
  rcases hdr with rfl | ⟨hnone, device, hdevice, rfl⟩
  · refine ⟨h.logicalPorts, h.rootPorts, h.cache, .inr ⟨found, hfound, ?_⟩⟩
    rcases h.routes with ⟨rfl, rfl⟩ | ⟨found', hfound', hroutes⟩
    · simp [hwrite]
    · obtain rfl : found' = found := Option.some.inj (hfound'.symm.trans hfound)
      rw [hwrite, hroutes, flatMap_append, writeAll_append, flatMap_singleton]
  · rcases h.routes with ⟨rfl, rfl⟩ | ⟨found', hfound', hroutes⟩
    · exact ⟨rfl, rfl, .inr ⟨device, hdevice, rfl⟩, .inr ⟨found, hfound, by simp [hwrite]; rfl⟩⟩
    · rw [hnone] at hfound'
      cases hfound'

theorem triple_addUniPortRoutes (hroot : ∀ nni ∈ nnis, nni.deviceId = root)
    (hE : ∀ i e b, env.getDeviceFromModel i lp.deviceId = .error e → E e b)
    (hnone : firstPeer (getDevicePonPorts t lp.deviceId root) = none →
      ∀ device e b, env.Finds lp.deviceId device → b.dr = cachePonPorts device t →
        firstPeer (getDevicePonPorts b.dr lp.deviceId root) = none → E e b) :
    Triple (On fun dr => dr = t) (nnis.forM (addUniPortRoutes env lp))
      (fun _ => On (UniAdded env lp root t nnis)) E := by
  have hstart : ∀ b, On (fun dr => dr = t) b → On (UniAdded env lp root t []) b := by
    rintro b rfl
    exact ⟨rfl, rfl, .inl rfl, .inl ⟨rfl, rfl⟩⟩
  refine (Triple.forM (I := fun done => On (UniAdded env lp root t done)) ?_).pre hstart
  intro done nni rest hsplit b hb
  have hnni : nni.deviceId = root := hroot nni (by simp [hsplit])
  have hfind := triple_findPonPort env lp.deviceId root (t := b.dr) (E := E) (fun _ => hE)
    fun hno device e b' hdevice hb' hno' => by
      rcases hb.routes with ⟨-, hbt⟩ | ⟨found, hfound, -⟩
      · rw [hbt] at hno hb'
        exact hnone hno device e b' hdevice hb' hno'
      · rw [hno] at hfound
        cases hfound
  have hround : Triple (On fun dr => dr = b.dr) (addUniPortRoutes env lp nni)
      (fun _ => On (UniAdded env lp root t (done ++ [nni]))) E := by
    unfold addUniPortRoutes
    rw [hnni]
    refine hfind.bind fun found => triple_modifyRoutes fun dr' hdr' => ?_
    have := UniAdded.concat nni hb hdr'.1 hdr'.2
    rwa [downRoute, ponTail, hnni] at this
  exact hround b rfl

/-- The new port is recorded, or the table is cleared when a kind of ports is missing. -/
theorem triple_addPortAndVerifyPrecondition
    (hE : ¬((withPort t.logicalPorts lp).any (·.rootPort) &&
      (withPort t.logicalPorts lp).any (!·.rootPort)) = true → ∀ e i, E e ⟨newDeviceRoutes, i⟩) :
    Triple (On fun dr => dr = t) (resetOnError (addPortAndVerifyPrecondition lp))
      (fun _ => On fun dr => dr = { t with logicalPorts := withPort t.logicalPorts lp }) E := by
  refine triple_resetOnError (F := fun _ _ => _) ?_ fun e b hb => hE hb e b.lookups
  refine Triple.bind (triple_modifyRoutes
    (J := fun dr => dr = { t with logicalPorts := withPort t.logicalPorts lp })
    fun dr hdr => by rw [hdr]) fun _ => triple_getRoutes fun t' => ?_
  rintro b ⟨hb, rfl⟩
  rw [hb]
  split_ifs with hkinds
  · exact hb
  · exact hkinds

theorem addPort_of_no_routes {b : Build} (h : b.dr.routes.keys.length = 0) :
    addPort env lp lps b = computeRoutes env lps b := by
  change (if b.dr.routes.keys.length = 0 then computeRoutes env lps else _) b = _
  rw [if_pos h]

end Rules

end VolthaCore.Routes
