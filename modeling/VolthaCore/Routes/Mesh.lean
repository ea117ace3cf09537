import VolthaCore.Routes.Shape

/-! Complete route tables over an OLT with ONUs below it. A rebuild from all
logical ports gives the routes between the first two NNI ports and every UNI port
that keeps its entry in the map of the physical ports, and no others: it is a
full mesh when there are at most two NNI ports and no two UNI ports stand for one
device port. Adding the ports one at a time, in any order, gives the same table. -/

namespace VolthaCore.Routes

open Decomposition Devices Outcome List

/-- An OLT with ONUs. Every ONU has one PON port with one peer, a PON port of the OLT that
lists the ONU; the PON ports of the OLT list nothing else. -/
structure Plant where
  olt : Device
  onus : List Device
  lookup : String → Except Err Device
  lookup_id : ∀ id device, lookup id = .ok device → device.id = id
  olt_found : lookup olt.id = .ok olt
  onu_found : ∀ onu ∈ onus, lookup onu.id = .ok onu
  olt_not_onu : ∀ onu ∈ onus, onu.id ≠ olt.id
  pon : ∀ onu ∈ onus, ∃ pon, ∃ oltPort ∈ olt.ports, onu.ports.filter isPonPort = [pon] ∧
    oltPort.type = .ponOlt ∧ pon.peers = [⟨olt.id, oltPort.portNo⟩] ∧
    ∃ peer ∈ oltPort.peers, peer.deviceId = onu.id
  peers : ∀ oltPort ∈ olt.ports, oltPort.type = .ponOlt → ∀ peer ∈ oltPort.peers,
    ∃ onu ∈ onus, peer.deviceId = onu.id ∧
      ∃ pon, onu.ports.filter isPonPort = [pon] ∧ pon.peers = [⟨olt.id, oltPort.portNo⟩]

namespace Plant

variable (P : Plant) {peer : PeerPort}

def env (order : VisitOrder (Σ _ : PathID, List Hop)) : Env := ⟨fun _ id => P.lookup id, order⟩

/-- The logical port stands for an uplink of the OLT or for a UNI port of an ONU. -/
def Stands (lp : LogicalPort) : Prop :=
  lp.rootPort = true ∧ lp.deviceId = P.olt.id ∧
    (∃ port ∈ P.olt.ports, port.type = .ethernetNni ∧ port.portNo = lp.devicePortNo) ∨
  lp.rootPort = false ∧ ∃ onu ∈ P.onus, lp.deviceId = onu.id ∧
    ∃ port ∈ onu.ports, port.type = .ethernetUni ∧ port.portNo = lp.devicePortNo

/-- The way from the OLT to a UNI port: the PON port of the OLT and the hop through the ONU. -/
def way (lp : LogicalPort) : UInt32 × Hop :=
  match P.lookup lp.deviceId with
  | .error _ => (0, {})
  | .ok onu =>
    match firstPeer (onu.ports.filter isPonPort) with
    | none => (0, {})
    | some found => ponTail lp found

def route (nni uni : LogicalPort) : List Hop :=
  [⟨P.olt.id, nni.devicePortNo, (P.way uni).1⟩, (P.way uni).2]

variable {P} in
theorem eq_of_finds {order : VisitOrder (Σ _ : PathID, List Hop)} {id : String}
    {device device' : Device} (h : P.lookup id = .ok device) (h' : (P.env order).Finds id device') :
    device' = device := by
  obtain ⟨_, h'⟩ := h'
  exact Except.ok.inj (h'.symm.trans h)

variable {P} in
theorem Stands.onu {lp : LogicalPort} (h : P.Stands lp) (hkind : lp.rootPort = false) :
    ∃ onu ∈ P.onus, lp.deviceId = onu.id ∧
      ∃ port ∈ onu.ports, port.type = .ethernetUni ∧ port.portNo = lp.devicePortNo := by
  rcases h with ⟨hroot, -⟩ | ⟨-, h⟩
  · simp [hroot] at hkind
  · exact h

theorem way_eq {onu : Device} (honu : onu ∈ P.onus) {pon : Port}
    (hpon : onu.ports.filter isPonPort = [pon]) (hpeer : pon.peers = [peer]) {lp : LogicalPort}
    (hlp : lp.deviceId = onu.id) : P.way lp = ponTail lp (pon, peer) := by
  unfold way
  rw [hlp, P.onu_found onu honu]
  simp [hpon, firstPeer, hpeer]

end Plant

/-! ### The cache of PON ports -/

def cachedPorts (dr : DeviceRoutes) (id : String) : List Port :=
  (dr.devicesPonPorts.lookup id).getD []

theorem getDevicePonPorts_eq (dr : DeviceRoutes) (id peerID : String) :
    getDevicePonPorts dr id peerID = (cachedPorts dr id).flatMap fun port =>
      (port.peers.filter fun peer => peer.deviceId = peerID).map fun _ => port := by
  unfold getDevicePonPorts cachedPorts
  cases dr.devicesPonPorts.lookup id <;> rfl

theorem cachedPorts_cachePonPorts (device : Device) (dr : DeviceRoutes) (id : String) :
    cachedPorts (cachePonPorts device dr) id =
      cachedPorts dr id ++ if id = device.id then device.ports.filter isPonPort else [] := by
  suffices h : ∀ (ports : List Port) (cache : GoMap String (List Port)),
      ((ports.foldl (cachePonPort device.id) cache).lookup id).getD [] =
        (cache.lookup id).getD [] ++ if id = device.id then ports else [] from h _ _
  intro ports
  induction ports with
  | nil => simp
  | cons port ports ih =>
    intro cache
    rw [foldl_cons, ih, cachePonPort, GoMap.lookup_insert_eq]
    by_cases hid : id = device.id
    · subst hid
      simp
    · simp [hid]

namespace Plant

variable (P : Plant)

/-- What is cached for an ONU is its PON port. -/
def CacheFits (dr : DeviceRoutes) : Prop :=
  ∀ onu ∈ P.onus, ∀ port ∈ cachedPorts dr onu.id, port ∈ onu.ports.filter isPonPort

variable {P} {dr dr' : DeviceRoutes} {device : Device}

theorem cacheFits_of_empty (h : dr.devicesPonPorts = ∅) : P.CacheFits dr := by
  intro onu _ port hport
  simp [cachedPorts, h] at hport

theorem CacheFits.congr (h : P.CacheFits dr)
    (hcache : dr'.devicesPonPorts = dr.devicesPonPorts) : P.CacheFits dr' := by
  unfold CacheFits cachedPorts
  rw [hcache]
  exact h

theorem CacheFits.cachePonPorts (h : P.CacheFits dr) {id : String}
    (hfound : P.lookup id = .ok device) : P.CacheFits (cachePonPorts device dr) := by
  intro onu honu port hport
  rw [cachedPorts_cachePonPorts] at hport
  rcases mem_append.mp hport with hold | hnew
  · exact h onu honu port hold
  · split_ifs at hnew with hid
    · -- a device with the identifier of the ONU is the ONU
      rw [P.lookup_id id device hfound] at hid
      rw [← hid, P.onu_found onu honu] at hfound
      cases hfound
      exact hnew
    · simp at hnew

variable {onu : Device} {pon : Port}

theorem CacheFits.head?_eq (h : P.CacheFits dr) (honu : onu ∈ P.onus) {port : Port}
    (hpon : onu.ports.filter isPonPort = [pon]) {peerID : String}
    (hport : (getDevicePonPorts dr onu.id peerID).head? = some port) : port = pon := by
  have hhead : port ∈ (getDevicePonPorts dr onu.id peerID).head? := by
    rw [hport]
    rfl
  have hmem := mem_of_mem_head? hhead
  rw [getDevicePonPorts_eq] at hmem
  obtain ⟨port', hport', hmem⟩ := mem_flatMap.mp hmem
  obtain ⟨-, -, rfl⟩ := mem_map.mp hmem
  have := h onu honu port' hport'
  rwa [hpon, mem_singleton] at this

theorem getDevicePonPorts_ne_nil (hmem : pon ∈ cachedPorts dr onu.id)
    (hpeer : pon.peers = [peer]) : getDevicePonPorts dr onu.id peer.deviceId ≠ [] := by
  rw [getDevicePonPorts_eq]
  refine ne_nil_of_mem (a := pon) (mem_flatMap.mpr ⟨pon, hmem, ?_⟩)
  simp [hpeer]

end Plant

/-! ### Meshes -/

/-- The path connects one of the NNI ports with one of the UNI ports, in either direction. -/
def Connects (nnis unis : List LogicalPort) (p : PathID) : Prop :=
  ∃ n ∈ nnis, ∃ u ∈ unis, p = ⟨n.portNo, u.portNo⟩ ∨ p = ⟨u.portNo, n.portNo⟩

/-- The table has exactly the routes between the NNI and the UNI ports. -/
structure Mesh (P : Plant) (nnis unis : List LogicalPort) (m : RouteMap) : Prop where
  domain : ∀ p, p ∈ m ↔ Connects nnis unis p
  down : ∀ n ∈ nnis, ∀ u ∈ unis, m.lookup ⟨n.portNo, u.portNo⟩ = some (P.route n u)
  up : ∀ n ∈ nnis, ∀ u ∈ unis,
    m.lookup ⟨u.portNo, n.portNo⟩ = some (getReverseRoute (P.route n u))

/-- The UNI ports that the map of the physical ports leads to. -/
def reachedPorts (lps : List LogicalPort) : List LogicalPort :=
  (uniPorts lps).filter fun u => (physPortToLogicalPortMap lps).lookup
    (concatDeviceIDPortID u.deviceId u.devicePortNo) = some u.portNo

section Build

variable {P : Plant} {order : VisitOrder (Σ _ : PathID, List Hop)} {N : Numbering}
  {lps : List LogicalPort} {nni : LogicalPort} {dr : DeviceRoutes}

/-- The ways of the plant, by the numbers of the ports. -/
def wayTo (P : Plant) (N : Numbering) (u : UInt32) : UInt32 × Hop := P.way (N.port u)

variable {u lp : LogicalPort} {nnis unis : List LogicalPort}

theorem mem_reachedPorts : u ∈ reachedPorts lps ↔ u ∈ uniPorts lps ∧
    (physPortToLogicalPortMap lps).lookup (concatDeviceIDPortID u.deviceId u.devicePortNo) =
      some u.portNo := by
  simp [reachedPorts]

section

variable (hdev : nni.deviceId = P.olt.id)
include hdev

/-- The device that is reached below the OLT is an ONU whose PON port leads back. -/
theorem Plant.found_onu (d : FoundDevice (P.env order) nni) :
    d.root = P.olt ∧ d.child ∈ P.onus ∧ ∃ pon, d.child.ports.filter isPonPort = [pon] ∧
      pon.peers = [⟨P.olt.id, d.rootPort.portNo⟩] := by
  have hroot : d.root = P.olt := eq_of_finds (hdev ▸ P.olt_found) d.root_found
  refine ⟨hroot, ?_⟩
  obtain ⟨onu, honu, hid, hpon⟩ :=
    P.peers d.rootPort (hroot ▸ d.rootPort_mem) d.rootPort_type d.peer d.peer_mem
  rw [eq_of_finds (hid ▸ P.onu_found onu honu) d.child_found]
  exact ⟨honu, hpon⟩

theorem Plant.honestFor : (P.env order).HonestFor nni := by
  intro d
  obtain ⟨hroot, honu, -⟩ := P.found_onu hdev d
  rw [hroot, hdev]
  exact ⟨rfl, P.olt_not_onu _ honu⟩

/-- What the loop below an NNI port has built, at least the routes of the given paths. -/
structure Built (P : Plant) (N : Numbering) (lps : List LogicalPort) (nni : LogicalPort)
    (paths : Set PathID) (dr : DeviceRoutes) : Prop where
  sound : SoundVia N (wayTo P N) nni.portNo dr
  ports : dr.logicalPorts = lps
  cache : P.CacheFits dr
  within : ∀ p ∈ dr.routes, Connects [nni] (reachedPorts lps) p
  present : ∀ p ∈ paths, p ∈ dr.routes

variable {paths : Set PathID}

theorem Built.found (hnni : nni ∈ nniPorts lps) (h : Built P N lps nni paths dr)
    (f : FoundPort (P.env order) (physPortToLogicalPortMap lps) nni) {pon : Port}
    (hcache : P.CacheFits dr')
    (hpon : (getDevicePonPorts dr' f.child.id nni.deviceId).head? = some pon) :
    Built P N lps nni (insert ⟨nni.portNo, f.uni⟩ paths)
      (putRoute nni.portNo f.uni (f.route pon.portNo) dr) := by
  obtain ⟨hmem, hroot⟩ := mem_nniPorts.mp hnni
  have hlists : N.Lists lps := h.ports ▸ h.sound.lists
  obtain ⟨lp, hlp, hlpdev, hlpport, hno⟩ := exists_of_physPort f.listed
  obtain ⟨-, honu, pon', hpon', hpeers⟩ := P.found_onu hdev f.toFoundDevice
  obtain rfl : pon = pon' := hcache.head?_eq honu hpon' hpon
  have hway : wayTo P N f.uni = f.way pon.portNo := by
    rw [wayTo, ← hno, hlists lp hlp, P.way_eq honu hpon' hpeers hlpdev, ponTail, hlpdev, hlpport]
    rfl
  have hsound := h.sound.found h.ports (P.honestFor hdev) hmem hroot f pon.portNo
  rw [← hway, Function.update_eq_self] at hsound
  refine ⟨hsound, h.ports, h.cache, fun p hp => ?_, fun p hp => mem_putRoute.mpr ?_⟩
  swap
  · rcases hp with rfl | hp
    · exact .inr (.inl rfl)
    · exact .inr (.inr (h.present p hp))
  have huni : lp ∈ reachedPorts lps := by
    have hlisted := f.listed
    rw [← hlpdev, ← hlpport, ← hno] at hlisted
    have hkind := (f.uni_listed (P.honestFor hdev) hlists hmem hroot).2
    rw [← hno, hlists lp hlp] at hkind
    exact mem_reachedPorts.mpr ⟨mem_uniPorts.mpr ⟨hlp, hkind⟩, hlisted⟩
  rcases mem_putRoute.mp hp with rfl | rfl | hp
  · exact ⟨nni, by simp, lp, huni, .inr (by rw [hno])⟩
  · exact ⟨nni, by simp, lp, huni, .inl (by rw [hno])⟩
  · exact h.within p hp

end

theorem Built.mono {paths' : Set PathID} (h : Built P N lps nni paths dr)
    (hsub : paths' ⊆ paths) : Built P N lps nni paths' dr :=
  { h with present := fun p hp => h.present p (hsub hp) }

theorem Built.cachePonPorts (h : Built P N lps nni paths dr) {id : String}
    (hfound : P.lookup id = .ok device) : Built P N lps nni paths (cachePonPorts device dr) :=
  ⟨h.sound.cachePonPorts device, h.ports, h.cache.cachePonPorts hfound, h.within, h.present⟩

/-- On a plant the loop below an uplink does not fail. -/
theorem Plant.no_loopFailure (hdev : nni.deviceId = P.olt.id) (hports : P.olt.ports ≠ [])
    {e : Err} : ¬LoopFailure (P.env order) nni dr e := by
  intro h
  cases h with
  | noRoot i e h =>
    rw [hdev] at h
    exact absurd (P.olt_found.symm.trans h) (by simp)
  | noPorts root hroot h =>
    exact hports (eq_of_finds (hdev ▸ P.olt_found) hroot ▸ h)
  | noChild root oltPort peer i e hroot hport htype hpeer h =>
    obtain rfl := eq_of_finds (hdev ▸ P.olt_found) hroot
    obtain ⟨onu, honu, hid, -⟩ := P.peers oltPort hport htype peer hpeer
    rw [hid] at h
    exact absurd ((P.onu_found onu honu).symm.trans h) (by simp)
  | noPonPort d dr' hread h =>
    obtain ⟨-, honu, pon, hpon, hpeers⟩ := P.found_onu hdev d
    have hmem : pon ∈ cachedPorts dr d.child.id := by
      rw [hread, cachedPorts_cachePonPorts, if_pos rfl, hpon]
      simp
    exact Plant.getDevicePonPorts_ne_nil hmem hpeers (hdev ▸ h)

section Loop

variable (hdev : nni.deviceId = P.olt.id) (hports : P.olt.ports ≠ []) (hnni : nni ∈ nniPorts lps)

theorem built_cache (id : String) (device : Device) (dr : DeviceRoutes)
    (hfound : (P.env order).Finds id device) (h : Built P N lps nni paths dr) :
    Built P N lps nni paths (cachePonPorts device dr) :=
  h.cachePonPorts hfound.choose_spec

include hdev hnni in
theorem built_put (f : FoundPort (P.env order) (physPortToLogicalPortMap lps) nni) (pon : Port)
    (dr' dr : DeviceRoutes) (h' : Built P N lps nni paths dr')
    (hpon : (getDevicePonPorts dr' f.child.id nni.deviceId).head? = some pon)
    (h : Built P N lps nni paths dr) :
    Built P N lps nni paths (putRoute nni.portNo f.uni (f.route pon.portNo) dr) :=
  (h.found hdev hnni f h'.cache hpon).mono (Set.subset_insert _ _)

include hdev hports in
theorem built_noFailure (e : Err) (b : Build) (h : LoopFailure (P.env order) nni b.dr e)
    (_ : Built P N lps nni paths b.dr) : False :=
  P.no_loopFailure hdev hports h
include hdev hports hnni

variable {u : LogicalPort}

/-- The round of an ONU establishes the routes of its ports. -/
theorem triple_addPeerRoutes_reaches (hu : u ∈ reachedPorts lps) {oltPort port : Port}
    {onu : Device} (honu : onu ∈ P.onus) (hoid : u.deviceId = onu.id)
    (hport : port ∈ onu.ports) (huni : port.type = .ethernetUni)
    (hno : port.portNo = u.devicePortNo) (holtPort : oltPort ∈ P.olt.ports)
    (htype : oltPort.type = .ponOlt) (hpeer : peer ∈ oltPort.peers) (hid : peer.deviceId = onu.id) :
    Triple (On (Built P N lps nni paths))
      (addPeerRoutes (P.env order) (physPortToLogicalPortMap lps) nni P.olt oltPort peer)
      (fun _ => On (Built P N lps nni (insert ⟨nni.portNo, u.portNo⟩ paths)))
      fun _ _ => False := by
  refine triple_addPeerRoutes_of built_cache (built_noFailure hdev hports)
    ⟨0, hdev ▸ P.olt_found⟩ holtPort htype hpeer fun d pon dr' _ _ hd hdr' hhead => ?_
  have hchild : d.child = onu :=
    Plant.eq_of_finds (by rw [hd, hid, P.onu_found onu honu]) d.child_found
  rw [← hchild] at hport hoid
  have hround : ∀ (paths : Set PathID) (p : Port), p ∈ d.child.ports →
      Triple (On (Built P N lps nni paths))
        (addUniRoutes (physPortToLogicalPortMap lps) nni d.root d.rootPort d.child pon.portNo p)
        (fun _ => On (Built P N lps nni paths)) fun _ _ => False := fun paths p =>
    triple_addUniRoutes d fun f hf dr hdr =>
      (hdr.found hdev hnni f hdr'.cache (by rwa [hf])).mono (Set.subset_insert _ _)
  refine Triple.forM_establishes hport (hround paths) ?_ (hround _)
  obtain ⟨-, hlisted⟩ := mem_reachedPorts.mp hu
  rw [hoid, ← hno] at hlisted
  unfold addUniRoutes
  rw [if_pos huni, hlisted]
  exact triple_modifyRoutes fun dr hdr =>
    hdr.found hdev hnni ⟨d, port, u.portNo, hport, huni, hlisted⟩ hdr'.cache hhead

/-- The loop establishes the routes of every UNI port that the physical ports lead to. -/
theorem triple_computeNNIRoutes_reaches (order : VisitOrder (Σ _ : PathID, List Hop))
    (N : Numbering) (paths : Set PathID) (hstands : ∀ lp ∈ lps, P.Stands lp)
    (hu : u ∈ reachedPorts lps) :
    Triple (On (Built P N lps nni paths))
      (computeNNIRoutes (P.env order) (physPortToLogicalPortMap lps) nni)
      (fun _ => On (Built P N lps nni (insert ⟨nni.portNo, u.portNo⟩ paths)))
      fun _ _ => False := by
  obtain ⟨hlp, hkind⟩ := mem_uniPorts.mp (mem_reachedPorts.mp hu).1
  obtain ⟨onu, honu, hoid, port, hport, huni, hno⟩ := (hstands u hlp).onu hkind
  obtain ⟨pon, oltPort, holtPort, -, htype, -, peer, hpeer, hid⟩ := P.pon onu honu
  refine triple_computeNNIRoutes_of built_cache (built_noFailure hdev hports) fun root hroot => ?_
  obtain rfl := Plant.eq_of_finds (hdev ▸ P.olt_found) hroot
  have hround : ∀ (paths : Set PathID) (p : Port), p ∈ P.olt.ports →
      Triple (On (Built P N lps nni paths))
        (addRootPortRoutes (P.env order) (physPortToLogicalPortMap lps) nni P.olt p)
        (fun _ => On (Built P N lps nni paths)) fun _ _ => False := fun paths p hp =>
    triple_addRootPortRoutes built_cache (built_noFailure hdev hports) (built_put hdev hnni) hroot
      hp
  refine Triple.forM_establishes holtPort (hround paths) ?_ (hround _)
  unfold addRootPortRoutes
  rw [if_pos htype]
  have hpeerRound : ∀ (paths : Set PathID) (q : PeerPort), q ∈ oltPort.peers →
      Triple (On (Built P N lps nni paths))
        (addPeerRoutes (P.env order) (physPortToLogicalPortMap lps) nni P.olt oltPort q)
        (fun _ => On (Built P N lps nni paths)) fun _ _ => False := fun paths q hq =>
    triple_addPeerRoutes built_cache (built_noFailure hdev hports) (built_put hdev hnni) hroot
      holtPort htype hq
  exact Triple.forM_establishes hpeer (hpeerRound paths)
    (triple_addPeerRoutes_reaches hdev hports hnni hu honu hoid hport huni hno holtPort htype
      hpeer hid)
    (hpeerRound _)

end Loop

/-- A table with exactly the routes between the given NNI and UNI ports. -/
structure Meshed (P : Plant) (N : Numbering) (lps nnis unis : List LogicalPort)
    (dr : DeviceRoutes) : Prop where
  sound : SoundWith N (wayTo P N) dr
  ports : dr.logicalPorts = lps
  cache : P.CacheFits dr
  domain : ∀ p, p ∈ dr.routes ↔ Connects nnis unis p

/-- A table with all routes between the ports. -/
abbrev FullMesh (P : Plant) (N : Numbering) (lps : List LogicalPort) (dr : DeviceRoutes) : Prop :=
  Meshed P N lps (nniPorts lps) (uniPorts lps) dr

theorem connects_nil (nnis : List LogicalPort) (p : PathID) : ¬Connects nnis [] p := by
  rintro ⟨n, -, u, hu, -⟩
  simp at hu

theorem Plant.olt_ports_ne_nil (h : P.Stands lp) (hroot : lp.rootPort = true) :
    P.olt.ports ≠ [] := by
  rcases h with ⟨-, -, port, hport, -⟩ | ⟨hkind, -⟩
  · exact ne_nil_of_mem hport
  · simp [hroot] at hkind

theorem Plant.deviceId_of_nni (h : P.Stands lp) (hroot : lp.rootPort = true) :
    lp.deviceId = P.olt.id := by
  rcases h with ⟨-, hdev, -⟩ | ⟨hkind, -⟩
  · exact hdev
  · simp [hroot] at hkind

theorem portNo_ne (hlists : N.Lists lps) {n : LogicalPort} (hn : n ∈ nniPorts lps)
    (hu : u ∈ uniPorts lps) : u.portNo ≠ n.portNo := by
  obtain ⟨hn, hroot⟩ := mem_nniPorts.mp hn
  obtain ⟨hu, hkind⟩ := mem_uniPorts.mp hu
  intro h
  rw [← hlists u hu, h, hlists n hn, hroot] at hkind
  cases hkind

theorem Meshed.copied {new from_ : LogicalPort} (h : Meshed P N lps nnis unis dr)
    (hunis : ∀ u ∈ unis, u ∈ uniPorts lps) (hfrom : from_ ∈ nnis) (hfromRoot : from_ ∈ nniPorts lps)
    (hnew : new ∈ nniPorts lps) :
    Meshed P N lps (nnis ++ [new]) unis
      { dr with routes := Routes.copied env new from_ dr.routes } := by
  have hlists : N.Lists lps := h.ports ▸ h.sound.lists
  obtain ⟨hnmem, hnroot⟩ := mem_nniPorts.mp hnew
  obtain ⟨hfmem, hfroot⟩ := mem_nniPorts.mp hfromRoot
  refine ⟨h.sound.copied (h.ports ▸ hnmem) hnroot (h.ports ▸ hfmem) hfroot, h.ports, h.cache,
    fun q => ?_⟩
  rw [mem_copied_iff h.sound.two_hops]
  constructor
  · rintro (hq | ⟨p, hp, hin, rfl⟩ | ⟨p, hp, heg, rfl⟩)
    · obtain ⟨n, hn, u, hu, hq⟩ := (h.domain q).mp hq
      exact ⟨n, mem_append_left _ hn, u, hu, hq⟩
    · obtain ⟨n, hn, u, hu, rfl | rfl⟩ := (h.domain p).mp hp
      · exact ⟨new, by simp, u, hu, .inl rfl⟩
      · exact absurd hin (portNo_ne hlists hfromRoot (hunis u hu))
    · obtain ⟨n, hn, u, hu, rfl | rfl⟩ := (h.domain p).mp hp
      · exact absurd heg (portNo_ne hlists hfromRoot (hunis u hu))
      · exact ⟨new, by simp, u, hu, .inr rfl⟩
  · rintro ⟨n, hn, u, hu, hq⟩
    rcases mem_append.mp hn with hn | hn
    · exact .inl ((h.domain q).mpr ⟨n, hn, u, hu, hq⟩)
    · obtain rfl := mem_singleton.mp hn
      have hdown := (h.domain ⟨from_.portNo, u.portNo⟩).mpr ⟨from_, hfrom, u, hu, .inl rfl⟩
      rcases hq with rfl | rfl
      · exact .inr (.inl ⟨_, hdown, rfl, rfl⟩)
      · exact .inr (.inr ⟨_, h.sound.paired _ hdown, rfl, rfl⟩)

theorem Meshed.of_no_unis {nnis' : List LogicalPort} (h : Meshed P N lps nnis [] dr) :
    Meshed P N lps nnis' [] dr :=
  ⟨h.sound, h.ports, h.cache, fun p => (h.domain p).trans
    ⟨fun hc => (connects_nil _ p hc).elim, fun hc => (connects_nil _ p hc).elim⟩⟩

theorem reachedPorts_subset (hu : u ∈ reachedPorts lps) : u ∈ uniPorts lps :=
  (mem_reachedPorts.mp hu).1

section Compute

variable (hstands : ∀ lp ∈ lps, P.Stands lp)
include hstands

variable (order : VisitOrder (Σ _ : PathID, List Hop))

theorem triple_computeNNIRoutes_meshed (N : Numbering) (hnni : nni ∈ nniPorts lps) :
    Triple (On fun dr => SoundWith N (wayTo P N) dr ∧ dr.logicalPorts = lps ∧ P.CacheFits dr ∧
        dr.routes = ∅)
      (computeNNIRoutes (P.env order) (physPortToLogicalPortMap lps) nni)
      (fun _ => On (Meshed P N lps [nni] (reachedPorts lps))) fun _ _ => False := by
  obtain ⟨hmem, hroot⟩ := mem_nniPorts.mp hnni
  have hdev := P.deviceId_of_nni (hstands nni hmem) hroot
  have hports := P.olt_ports_ne_nil (hstands nni hmem) hroot
  have hall := Triple.all (F := fun u => u ∈ reachedPorts lps)
    (fun u hu => triple_computeNNIRoutes_reaches hdev hports hnni order N ∅ hstands hu)
    (triple_computeNNIRoutes built_cache (built_noFailure hdev hports) (built_put hdev hnni))
  refine hall.weaken (fun b hb => ?_) (fun _ b hb => ?_) fun _ _ => id
  · obtain ⟨hs, hlps, hcache, hempty⟩ := hb
    exact ⟨⟨hs, by simp [hempty]⟩, hlps, hcache, by simp [hempty], by simp⟩
  · obtain ⟨hbuilt, hpresent⟩ := hb
    refine ⟨hbuilt.sound.toSoundWith, hbuilt.ports, hbuilt.cache, fun p =>
      ⟨hbuilt.within p, ?_⟩⟩
    rintro ⟨n, hn, u, hu, hp⟩
    obtain rfl := mem_singleton.mp hn
    have hdown := (hpresent u hu).present _ (Set.mem_insert _ _)
    rcases hp with rfl | rfl
    · exact hdown
    · exact hbuilt.sound.paired _ hdown

theorem triple_computeOtherNNIRoutes_meshed (N : Numbering) {first : LogicalPort}
    (nnis : List LogicalPort) (hfirst : first ∈ nniPorts lps)
    (hnnis : ∀ n ∈ nnis, n ∈ nniPorts lps) :
    Triple (On (Meshed P N lps [first] (reachedPorts lps)))
      (computeOtherNNIRoutes (P.env order) (physPortToLogicalPortMap lps) first nnis)
      (fun _ => On (Meshed P N lps ((first :: nnis).take 2) (reachedPorts lps)))
      fun _ _ => False := by
  induction nnis with
  | nil => exact Triple.pure fun _ hb => hb
  | cons second nnis ih =>
    have hsecond := hnnis second (by simp)
    refine triple_getRoutes fun t => ?_
    split_ifs with hroutes
    · refine triple_copyFromExistingNNIRoutes (fun dr h => h.1.sound.two_hops) fun dr h => ?_
      exact h.1.copied (fun u hu => reachedPorts_subset hu) (by simp) hfirst hsecond
    · -- no UNI port is reached, so there is nothing to copy and nothing to build
      rintro b ⟨h, rfl⟩
      have hempty : b.dr.routes = ∅ := GoMap.eq_empty_of_length (by omega)
      have hnone : reachedPorts lps = [] := by
        refine eq_nil_iff_forall_not_mem.mpr fun u hu => ?_
        have := (h.domain ⟨first.portNo, u.portNo⟩).mpr ⟨first, by simp, u, hu, .inl rfl⟩
        simp [hempty] at this
      rw [hnone] at ih ⊢
      have hbuild := triple_computeNNIRoutes_meshed hstands order N hsecond
      rw [hnone] at hbuild
      have hrest := ih fun n hn => hnnis n (mem_cons_of_mem _ hn)
      exact (hbuild.bind fun _ => hrest.weaken (fun _ hb => hb.of_no_unis)
        (fun _ _ hb => hb.of_no_unis) fun _ _ => id) b ⟨h.sound, h.ports, h.cache, hempty⟩

theorem triple_computeRoutes_meshed (hlists : N.Lists lps) (hnni : nniPorts lps ≠ [])
    (hlen : 2 ≤ lps.length) :
    Triple (fun _ => True) (computeRoutes (P.env order) lps)
      (fun _ => On (Meshed P N lps ((nniPorts lps).take 2) (reachedPorts lps)))
      fun _ _ => False := by
  have hrecord : Triple (fun _ => True) (modifyRoutes fun _ => recordPorts lps)
      (fun _ => On fun dr => dr = recordPorts lps) fun _ _ => False :=
    Triple.modify fun _ _ => rfl
  have hall : Triple (fun _ => True) (computeAllRoutes (P.env order) lps)
      (fun _ => On (Meshed P N lps ((nniPorts lps).take 2) (reachedPorts lps)))
      fun _ _ => False := by
    refine hrecord.bind fun _ => ?_
    cases hsplit : nniPorts lps with
    | nil => exact absurd hsplit hnni
    | cons nni nnis =>
      have hfirst := triple_computeNNIRoutes_meshed hstands order N
        (by simp [hsplit] : nni ∈ nniPorts lps)
      have hothers := triple_computeOtherNNIRoutes_meshed hstands order N nnis
        (by simp [hsplit] : nni ∈ nniPorts lps) fun n hn => by simp [hsplit, hn]
      refine (hfirst.bind fun _ => hothers).pre fun b hb => ?_
      rw [On] at hb
      rw [On, hb]
      exact ⟨soundWith_recordPorts hlists, rfl, Plant.cacheFits_of_empty rfl, rfl⟩
  rw [computeRoutes, if_neg (by omega)]
  exact triple_resetOnError hall fun _ _ hb => hb.elim

end Compute

theorem Meshed.mesh (h : Meshed P N lps nnis unis dr) (hstands : ∀ lp ∈ lps, P.Stands lp)
    (hnnis : ∀ n ∈ nnis, n ∈ nniPorts lps) (hunis : ∀ u ∈ unis, u ∈ uniPorts lps) :
    Mesh P nnis unis dr.routes := by
  have hlists : N.Lists lps := h.ports ▸ h.sound.lists
  have hdown : ∀ n ∈ nnis, ∀ u ∈ unis,
      RouteFor N (wayTo P N) ⟨n.portNo, u.portNo⟩ (P.route n u) := by
    intro n hn u hu
    obtain ⟨hn, hroot⟩ := mem_nniPorts.mp (hnnis n hn)
    obtain ⟨hu, hkind⟩ := mem_uniPorts.mp (hunis u hu)
    have hroute := RouteFor.down_of (hlists n hn) hroot (by rw [hlists u hu, hkind])
      (show wayTo P N u.portNo = P.way u by rw [wayTo, hlists u hu])
    rwa [downRoute, P.deviceId_of_nni (hstands n hn) hroot] at hroute
  have hlookup : ∀ p r, Connects nnis unis p → RouteFor N (wayTo P N) p r →
      dr.routes.lookup p = some r := by
    intro p r hp hr
    obtain ⟨r', hr'⟩ := GoMap.mem_iff_exists_lookup.mp ((h.domain p).mpr hp)
    rw [hr', (h.sound.shaped p r' hr').unique hr]
  refine ⟨h.domain, fun n hn u hu => ?_, fun n hn u hu => ?_⟩
  · exact hlookup _ _ ⟨n, hn, u, hu, .inl rfl⟩ (hdown n hn u hu)
  · exact hlookup _ _ ⟨n, hn, u, hu, .inr rfl⟩ (hdown n hn u hu).reverse

end Build

/-! ### A rebuild -/

section Rebuild

variable {P : Plant} {lps : List LogicalPort}

/-- The device port that a logical port stands for. -/
def devicePort (lp : LogicalPort) : String × UInt32 := (lp.deviceId, lp.devicePortNo)

/-- The listed port of each number. -/
def Plant.numbering (P : Plant) (lps : List LogicalPort) (hstands : ∀ lp ∈ lps, P.Stands lp) :
    Numbering where
  port n := (lps.find? (·.portNo = n)).getD ⟨"", n, "", 0, false⟩
  root := P.olt.id
  nni_on_root n h := by
    cases hfind : lps.find? (·.portNo = n) with
    | none => simp [hfind] at h
    | some lp =>
      rw [hfind] at h
      exact P.deviceId_of_nni (hstands lp (mem_of_find?_eq_some hfind)) h

theorem Plant.numbering_lists (hstands : ∀ lp ∈ lps, P.Stands lp)
    (hnum : (portNumbers lps).Nodup) : (P.numbering lps hstands).Lists lps := by
  intro lp hlp
  change (lps.find? (·.portNo = lp.portNo)).getD _ = lp
  obtain ⟨found, hfind⟩ := Option.isSome_iff_exists.mp
    (find?_isSome.mpr ⟨lp, hlp, by simp⟩ : (lps.find? (·.portNo = lp.portNo)).isSome)
  have hno : found.portNo = lp.portNo := by simpa using find?_some hfind
  rw [hfind, Option.getD_some]
  exact inj_on_of_nodup_map hnum (mem_of_find?_eq_some hfind) hlp hno

/-- A UNI port keeps its entry in the map of the physical ports when no other one stands for
its device port. -/
theorem reachedPorts_eq (hstands : ∀ lp ∈ lps, P.Stands lp)
    (hnodup : ((uniPorts lps).map devicePort).Nodup) : reachedPorts lps = uniPorts lps := by
  refine filter_eq_self.mpr fun u hu => decide_eq_true ?_
  obtain ⟨hmem, hkind⟩ := mem_uniPorts.mp hu
  refine GoMap.lookup_writeAll_of_agree ⟨_, mem_map_of_mem hmem, rfl⟩ fun w hw hkey => ?_
  obtain ⟨lp, hlp, rfl⟩ := mem_map.mp hw
  obtain ⟨hdev, hport⟩ := concatDeviceIDPortID_inj hkey
  have hlpkind : lp.rootPort = false := by
    by_contra hroot
    rw [P.deviceId_of_nni (hstands lp hlp) (by simpa using hroot)] at hdev
    obtain ⟨onu, honu, hid, -⟩ := (hstands u hmem).onu hkind
    exact P.olt_not_onu onu honu (hid.symm.trans hdev.symm)
  have hsame : lp = u := inj_on_of_nodup_map hnodup (mem_uniPorts.mpr ⟨hlp, hlpkind⟩) hu
    (Prod.ext hdev hport)
  rw [hsame]

theorem nodup_of_forall_reached (hnum : (portNumbers lps).Nodup)
    (hall : ∀ u ∈ uniPorts lps, u ∈ reachedPorts lps) :
    ((uniPorts lps).map devicePort).Nodup := by
  have hlps : lps.Nodup := hnum.of_map _
  refine (hlps.filter _).map_on fun u hu v hv huv => ?_
  have hreach := (mem_reachedPorts.mp (hall u hu)).2
  obtain ⟨hdev, hport⟩ := Prod.mk.inj huv
  rw [hdev, hport, (mem_reachedPorts.mp (hall v hv)).2] at hreach
  exact inj_on_of_nodup_map hnum (mem_uniPorts.mp hu).1 (mem_uniPorts.mp hv).1
    (Option.some.inj hreach).symm

/-- A rebuild succeeds, with the routes between the first two NNI ports and the UNI ports
that the physical ports lead to. -/
theorem computeRoutes_meshed (order : VisitOrder (Σ _ : PathID, List Hop)) (dr : DeviceRoutes)
    {N : Numbering} (hlen : 2 ≤ lps.length) (hstands : ∀ lp ∈ lps, P.Stands lp)
    (hlists : N.Lists lps) (hnni : nniPorts lps ≠ []) :
    ∃ b, computeRoutes (P.env order) lps ⟨dr, 0⟩ = .ok () b ∧
      Meshed P N lps ((nniPorts lps).take 2) (reachedPorts lps) b.dr := by
  obtain ⟨_, b, hb, hmeshed⟩ := (triple_computeRoutes_meshed hstands order hlists hnni
    hlen).exists_ok (s := ⟨dr, 0⟩) trivial
  exact ⟨b, hb, hmeshed⟩

/-- If the first two NNI ports and the reached UNI ports connect as much as all ports do, no
port is missing. -/
theorem full_of_connects (hnum : (portNumbers lps).Nodup) (hnni : nniPorts lps ≠ [])
    (h : ∀ p, Connects (nniPorts lps) (uniPorts lps) p →
      Connects ((nniPorts lps).take 2) (reachedPorts lps) p) (huni : uniPorts lps ≠ []) :
    (nniPorts lps).length ≤ 2 ∧ ((uniPorts lps).map devicePort).Nodup := by
  have hinj : ∀ x ∈ lps, ∀ y ∈ lps, x.portNo = y.portNo → x = y := fun x hx y hy =>
    inj_on_of_nodup_map hnum hx hy
  have hpair : ∀ n ∈ nniPorts lps, ∀ u ∈ uniPorts lps,
      n ∈ (nniPorts lps).take 2 ∧ u ∈ reachedPorts lps := by
    intro n hn u hu
    have hnroot := mem_nniPorts.mp hn
    have hukind := mem_uniPorts.mp hu
    obtain ⟨n', hn', u', hu', he | he⟩ := h ⟨n.portNo, u.portNo⟩ ⟨n, hn, u, hu, .inl rfl⟩
    all_goals
      obtain ⟨hnno, huno⟩ := PathID.mk.inj he
      have hn'root := mem_nniPorts.mp (mem_of_mem_take hn')
      have hu'kind := mem_uniPorts.mp (reachedPorts_subset hu')
    · rw [hinj n hnroot.1 n' hn'root.1 hnno, hinj u hukind.1 u' hu'kind.1 huno]
      exact ⟨hn', hu'⟩
    · rw [hinj n hnroot.1 u' hu'kind.1 hnno, hu'kind.2] at hnroot
      exact absurd hnroot.2 (by simp)
  obtain ⟨n, hn⟩ := exists_mem_of_ne_nil _ hnni
  obtain ⟨u, hu⟩ := exists_mem_of_ne_nil _ huni
  refine ⟨?_, nodup_of_forall_reached hnum fun v hv => (hpair n hn v hv).2⟩
  have hnodup : (nniPorts lps).Nodup := (hnum.of_map _).filter _
  have hsub : (nniPorts lps) ⊆ (nniPorts lps).take 2 := fun m hm => (hpair m hm u hu).1
  exact (hnodup.subperm hsub).length_le.trans (length_take_le _ _)

/-- A rebuild succeeds and gives the full mesh exactly when there are no UNI ports, or at
most two NNI ports and no two UNI ports for one device port. -/
theorem computeRoutes_full_mesh_iff (P : Plant) (order : VisitOrder (Σ _ : PathID, List Hop))
    (dr : DeviceRoutes) (hlen : 2 ≤ lps.length) (hstands : ∀ lp ∈ lps, P.Stands lp)
    (hnum : (portNumbers lps).Nodup) (hnni : nniPorts lps ≠ []) :
    (Outcome.returns (computeRoutes (P.env order) lps) ⟨dr, 0⟩ = true ∧
      Mesh P (nniPorts lps) (uniPorts lps)
        (afterCall (computeRoutes (P.env order) lps) dr).routes) ↔
    uniPorts lps = [] ∨
      (nniPorts lps).length ≤ 2 ∧ ((uniPorts lps).map devicePort).Nodup := by
  obtain ⟨b, hb, hmeshed⟩ := computeRoutes_meshed order dr hlen hstands
    (P.numbering_lists hstands hnum) hnni
  have hreturns : Outcome.returns (computeRoutes (P.env order) lps) ⟨dr, 0⟩ = true := by
    simp [Outcome.returns, hb]
  have hafter : (afterCall (computeRoutes (P.env order) lps) dr) = b.dr := by
    rw [afterCall, after_of_ok hb]
  rw [hafter, hreturns]
  simp only [true_and]
  constructor
  · intro hmesh
    by_cases huni : uniPorts lps = []
    · exact .inl huni
    · exact .inr (full_of_connects hnum hnni
        (fun p hp => (hmeshed.domain p).mp ((hmesh.domain p).mpr hp)) huni)
  · rintro (huni | ⟨htwo, hnodup⟩)
    · have hreached : reachedPorts lps = [] := by simp [reachedPorts, huni]
      rw [hreached] at hmeshed
      rw [huni]
      exact hmeshed.of_no_unis.mesh hstands (fun _ => id) (by simp)
    · rw [reachedPorts_eq hstands hnodup, take_of_length_le htwo] at hmeshed
      exact hmeshed.mesh hstands (fun _ => id) fun _ => id

def examplePlant : Plant where
  olt := exampleOlt
  onus := [exampleOnu]
  lookup := oneOnu.getDeviceFromModel 0
  lookup_id id device h := (oneOnu_honest id device ⟨0, h⟩).1
  olt_found := rfl
  onu_found := by simp only [forall_mem_singleton]; rfl
  olt_not_onu := by decide
  pon onu h := by
    obtain rfl := mem_singleton.mp h
    exact ⟨{ portNo := 1, type := .ponOnu, peers := [⟨"olt", 1⟩] },
      { portNo := 1, type := .ponOlt, peers := [⟨"onu", 1⟩] }, by decide, by decide, rfl, rfl,
      ⟨"onu", 1⟩, by decide, rfl⟩
  peers oltPort hport htype peer hpeer := by
    have hlast : ∀ port ∈ exampleOlt.ports, port.type = .ponOlt →
        port = { portNo := 1, type := .ponOlt, peers := [⟨"onu", 1⟩] } := by decide
    obtain rfl := hlast oltPort hport htype
    obtain rfl := mem_singleton.mp hpeer
    exact ⟨exampleOnu, by simp, rfl, { portNo := 1, type := .ponOnu, peers := [⟨"olt", 1⟩] },
      by decide, rfl⟩

/-- With a third NNI port the rebuild succeeds and leaves out its routes. -/
theorem third_nni_has_no_routes :
    let lps := [nniPort 10, nniPort 11, nniPort 12, uniPort 2]
    Outcome.returns (computeRoutes oneOnu lps) ⟨newDeviceRoutes, 0⟩ = true ∧
      (⟨11, 2⟩ : PathID) ∈ (afterCall (computeRoutes oneOnu lps) newDeviceRoutes).routes ∧
      (⟨12, 2⟩ : PathID) ∉ (afterCall (computeRoutes oneOnu lps) newDeviceRoutes).routes := by
  decide +kernel

theorem examplePlant_stands :
    ∀ lp ∈ [nniPort 10, nniPort 11, uniPort 2, uniPort 3], examplePlant.Stands lp := by
  have hnni : ∀ n ∈ [(10 : UInt32), 11], examplePlant.Stands (nniPort n) := fun n hn =>
    .inl ⟨rfl, rfl, { portNo := n, type := .ethernetNni },
      by rcases mem_pair.mp hn with rfl | rfl <;> decide, rfl, rfl⟩
  have huni : ∀ n ∈ [(2 : UInt32), 3], examplePlant.Stands (uniPort n) := fun n hn =>
    .inr ⟨rfl, exampleOnu, by simp [examplePlant], rfl, { portNo := n, type := .ethernetUni },
      by rcases mem_pair.mp hn with rfl | rfl <;> decide, rfl, rfl⟩
  simp only [forall_mem_cons, not_mem_nil, false_implies, implies_true, and_true]
  exact ⟨hnni 10 (by simp), hnni 11 (by simp), huni 2 (by simp), huni 3 (by simp)⟩

theorem computeRoutes_full_mesh_two_nnis :
    let lps := [nniPort 10, nniPort 11, uniPort 2, uniPort 3]
    Mesh examplePlant (nniPorts lps) (uniPorts lps)
      (afterCall (computeRoutes (examplePlant.env .reversed) lps) newDeviceRoutes).routes := by
  intro lps
  exact ((computeRoutes_full_mesh_iff examplePlant .reversed newDeviceRoutes (by decide)
    examplePlant_stands (by decide) (by decide)).mpr (.inr ⟨by decide, by decide⟩)).2

end Rebuild

/-! ### One port at a time -/

section Incremental

variable {P : Plant} {order : VisitOrder (Σ _ : PathID, List Hop)} {N : Numbering}
  {done : List LogicalPort} {lp : LogicalPort} {dr : DeviceRoutes}

theorem nniPorts_concat : nniPorts (done ++ [lp]) =
    nniPorts done ++ if lp.rootPort then [lp] else [] := by
  cases h : lp.rootPort <;> simp [nniPorts, h]

theorem uniPorts_concat : uniPorts (done ++ [lp]) =
    uniPorts done ++ if lp.rootPort then [] else [lp] := by
  cases h : lp.rootPort <;> simp [uniPorts, h]

/-- The first PON port that is found for a UNI port leads the way of the plant. -/
theorem Plant.CacheFits.ponTail_eq (h : P.CacheFits dr) (hlp : P.Stands lp)
    (hkind : lp.rootPort = false) {found : Port × PeerPort}
    (hfound : firstPeer (getDevicePonPorts dr lp.deviceId P.olt.id) = some found) :
    ponTail lp found = P.way lp := by
  obtain ⟨onu, honu, hid, -⟩ := hlp.onu hkind
  obtain ⟨pon, oltPort, -, hpon, -, hpeers, -⟩ := P.pon onu honu
  rw [P.way_eq honu hpon hpeers hid]
  rw [hid] at hfound
  cases hports : getDevicePonPorts dr onu.id P.olt.id with
  | nil =>
    rw [hports] at hfound
    cases hfound
  | cons port ports =>
    have hport : port = pon := h.head?_eq honu hpon (by rw [hports]; rfl)
    rw [hports, firstPeer, hport, hpeers] at hfound
    cases hfound
    rfl

/-- After the ONU of a UNI port has been read, a PON port is found for it. -/
theorem Plant.firstPeer_ne_none (hlp : P.Stands lp) (hkind : lp.rootPort = false)
    (hdevice : P.lookup lp.deviceId = .ok device) (hfits : P.CacheFits dr) :
    firstPeer (getDevicePonPorts (cachePonPorts device dr) lp.deviceId P.olt.id) ≠ none := by
  obtain ⟨onu, honu, hid, -⟩ := hlp.onu hkind
  obtain ⟨pon, oltPort, -, hpon, -, hpeers, -⟩ := P.pon onu honu
  have hfits' := hfits.cachePonPorts hdevice
  rw [hid, P.onu_found onu honu] at hdevice
  cases hdevice
  have hmem : pon ∈ cachedPorts (cachePonPorts device dr) device.id := by
    rw [cachedPorts_cachePonPorts, if_pos rfl, hpon]
    simp
  rw [hid]
  cases hports : getDevicePonPorts (cachePonPorts device dr) device.id P.olt.id with
  | nil => exact absurd hports (Plant.getDevicePonPorts_ne_nil hmem hpeers)
  | cons port ports =>
    have hport : port = pon := hfits'.head?_eq honu hpon (by rw [hports]; rfl)
    rw [firstPeer, hport, hpeers]
    simp

variable {unis nnis ports ports' : List LogicalPort}

/-- A new UNI port is connected with every NNI port. -/
theorem Meshed.uniAdded
    (h : Meshed P N done (nniPorts done) unis dr) (hmem : lp ∈ done) (hkind : lp.rootPort = false)
    (hlp : P.Stands lp) (hnni : nniPorts done ≠ []) (hcache : P.CacheFits dr')
    (hadd : UniAdded env lp P.olt.id dr (nniPorts done) dr') :
    Meshed P N done (nniPorts done) (unis ++ [lp]) dr' := by
  rcases hadd.routes with ⟨hnone, -⟩ | ⟨found, hfound, hroutes⟩
  · exact absurd hnone hnni
  have hlists : N.Lists done := h.ports ▸ h.sound.lists
  have hway : wayTo P N lp.portNo = ponTail lp found := by
    rw [hcache.ponTail_eq hlp hkind hfound, wayTo, hlists lp hmem]
  have hsound := h.sound.uniAdded (h.ports ▸ hmem) hkind hadd.logicalPorts hadd.rootPorts
    (by rw [h.ports]; exact hroutes)
  rw [← hway, Function.update_eq_self] at hsound
  refine ⟨hsound, hadd.logicalPorts.trans h.ports, hcache, fun p => ?_⟩
  rw [hroutes, GoMap.mem_writeAll, h.domain]
  constructor
  · rintro (⟨w, hw, rfl⟩ | ⟨n, hn, u, hu, hp⟩)
    · obtain ⟨n, hn, rfl | rfl⟩ := mem_flatMap_uniWrites.mp hw
      · exact ⟨n, hn, lp, by simp, .inl rfl⟩
      · exact ⟨n, hn, lp, by simp, .inr rfl⟩
    · exact ⟨n, hn, u, mem_append_left _ hu, hp⟩
  · rintro ⟨n, hn, u, hu, hp⟩
    rcases mem_append.mp hu with hu | hu
    · exact .inr ⟨n, hn, u, hu, hp⟩
    · obtain rfl := mem_singleton.mp hu
      rcases hp with rfl | rfl
      · exact .inl ⟨_, mem_flatMap_uniWrites.mpr ⟨n, hn, .inl rfl⟩, rfl⟩
      · exact .inl ⟨_, mem_flatMap_uniWrites.mpr ⟨n, hn, .inr rfl⟩, rfl⟩

theorem Meshed.withPort (h : Meshed P N done nnis unis dr)
    (hfresh : lp.portNo ∉ portNumbers done) : withPort dr.logicalPorts lp = done ++ [lp] := by
  rw [h.ports, Routes.withPort, if_neg]
  simpa [portNumbers] using hfresh

theorem Meshed.portRecorded (h : Meshed P N done nnis unis dr) (hlp : N.port lp.portNo = lp)
    (hfresh : lp.portNo ∉ portNumbers done) :
    Meshed P N (done ++ [lp]) nnis unis (portRecorded lp dr) := by
  refine ⟨h.sound.portRecorded hlp, (portRecorded_logicalPorts lp dr).trans (h.withPort hfresh), ?_,
    fun p => ?_⟩
  · have hcache : (Routes.portRecorded lp dr).devicesPonPorts = dr.devicesPonPorts := by
      unfold Routes.portRecorded addRootPort
      split_ifs <;> rfl
    exact h.cache.congr hcache
  · rw [portRecorded_routes]
    exact h.domain p

def BothKinds (lps : List LogicalPort) : Prop := nniPorts lps ≠ [] ∧ uniPorts lps ≠ []

theorem Meshed.routes_ne_empty (h : FullMesh P N done dr) (hboth : BothKinds done) :
    dr.routes.keys.length ≠ 0 := by
  obtain ⟨n, hn⟩ := exists_mem_of_ne_nil _ hboth.1
  obtain ⟨u, hu⟩ := exists_mem_of_ne_nil _ hboth.2
  have hmem := (h.domain ⟨n.portNo, u.portNo⟩).mpr ⟨n, hn, u, hu, .inl rfl⟩
  intro hlen
  rw [GoMap.eq_empty_of_length hlen] at hmem
  simp at hmem

section AddPort

variable (hstands : ∀ x ∈ done ++ [lp], P.Stands x) (hlists : N.Lists (done ++ [lp]))
  (hfresh : lp.portNo ∉ portNumbers done) (hboth : BothKinds done)

include hstands hfresh hboth in
theorem triple_extendRoutes_meshed :
    Triple (On (Meshed P N (done ++ [lp]) (nniPorts done) (uniPorts done)))
      (extendRoutes (P.env order) lp)
      (fun _ => On (FullMesh P N (done ++ [lp]))) fun _ _ => False := by
  have hlpmem : lp ∈ done ++ [lp] := by simp
  unfold FullMesh
  have hnotlp : ∀ n ∈ nniPorts done, n.portNo ≠ lp.portNo := fun n hn h =>
    hfresh (h ▸ mem_map_of_mem (mem_nniPorts.mp hn).1)
  refine triple_getRoutes fun t => ?_
  rintro b ⟨h, rfl⟩
  rw [h.ports]
  cases hfind : (nniPorts (done ++ [lp])).find? (·.portNo ≠ lp.portNo) with
  | none =>
    obtain ⟨n, hn⟩ := exists_mem_of_ne_nil _ hboth.1
    have hno := find?_eq_none.mp hfind n (by rw [nniPorts_concat]; simp [hn])
    exact absurd (by simpa using hno) (hnotlp n hn)
  | some copyFrom =>
    have hfrom : copyFrom ∈ nniPorts (done ++ [lp]) := mem_of_find?_eq_some hfind
    have hne : copyFrom.portNo ≠ lp.portNo := by simpa using find?_some hfind
    by_cases hroot : lp.rootPort
    · simp only [hroot, if_true]
      have hold : copyFrom ∈ nniPorts done := by
        rw [nniPorts_concat, if_pos hroot] at hfrom
        rcases mem_append.mp hfrom with hold | hnew
        · exact hold
        · exact absurd (by rw [mem_singleton.mp hnew]) hne
      have hcopy : Triple (On (Meshed P N (done ++ [lp]) (nniPorts done) (uniPorts done)))
          (copyFromExistingNNIRoutes (P.env order) lp copyFrom)
          (fun _ => On (Meshed P N (done ++ [lp]) (nniPorts done ++ [lp]) (uniPorts done)))
          fun _ _ => False :=
        triple_copyFromExistingNNIRoutes (fun dr hdr => hdr.sound.two_hops) fun dr hdr =>
          hdr.copied (fun u hu => by rw [uniPorts_concat]; simp [hu]) hold hfrom
            (mem_nniPorts.mpr ⟨hlpmem, hroot⟩)
      have hb := hcopy b h
      rw [nniPorts_concat, if_pos hroot, uniPorts_concat, if_pos hroot, append_nil]
      exact hb
    · have hkind : lp.rootPort = false := by simpa using hroot
      have hnnis : nniPorts (done ++ [lp]) = nniPorts done := by
        rw [nniPorts_concat, if_neg hroot, append_nil]
      simp only [hkind, Bool.false_eq_true, if_false]
      have honroot : ∀ n ∈ nniPorts (done ++ [lp]), n.deviceId = P.olt.id := fun n hn =>
        P.deviceId_of_nni (hstands n (mem_nniPorts.mp hn).1) (mem_nniPorts.mp hn).2
      obtain ⟨onu, honu, hid, -⟩ := (hstands lp hlpmem).onu hkind
      have hloop : Triple (On fun dr => dr = b.dr)
          (resetOnError ((nniPorts (done ++ [lp])).forM (addUniPortRoutes (P.env order) lp)))
          (fun _ => On (UniAdded (P.env order) lp P.olt.id b.dr (nniPorts (done ++ [lp]))))
          fun _ _ => False := by
        refine triple_resetOnError (F := fun _ _ => False)
          (triple_addUniPortRoutes honroot (fun i e b' he => ?_)
            fun _ device e b' hdev hb' hno => ?_)
          fun _ _ hb => hb
        · have hok := P.onu_found onu honu
          rw [← hid] at hok
          exact absurd (hok.symm.trans he) (by simp)
        · rw [hb'] at hno
          exact P.firstPeer_ne_none (hstands lp hlpmem) hkind hdev.choose_spec h.cache hno
      refine (hloop.weaken (fun _ => id) (fun _ b' hadd => ?_) fun _ _ => id) b rfl
      have hcache : P.CacheFits b'.dr := by
        rcases hadd.cache with hsame | ⟨device, hdev, hsame⟩
        · exact h.cache.congr hsame
        · exact (h.cache.cachePonPorts hdev.choose_spec).congr hsame
      rw [← hnnis] at h
      have huni := h.uniAdded hlpmem hkind (hstands lp hlpmem) (by rw [hnnis]; exact hboth.1)
        hcache hadd
      rwa [uniPorts_concat, if_neg hroot]

include hstands hlists hfresh hboth in
theorem triple_addPort_meshed {lps : List LogicalPort} :
    Triple (On (FullMesh P N done)) (addPort (P.env order) lp lps)
      (fun _ => On (FullMesh P N (done ++ [lp]))) fun _ _ => False := by
  have hlp : N.port lp.portNo = lp := hlists lp (by simp)
  refine triple_getRoutes fun t => ?_
  rintro b ⟨h, rfl⟩
  rw [if_neg (h.routes_ne_empty hboth)]
  refine (triple_addPortAndVerifyPrecondition fun hkinds => absurd ?_ hkinds).bind
    (fun _ => Triple.bind (triple_modifyRoutes fun dr hdr => ?_)
      fun _ => triple_extendRoutes_meshed hstands hfresh hboth) b rfl
  · obtain ⟨n, hn⟩ := exists_mem_of_ne_nil _ hboth.1
    obtain ⟨u, hu⟩ := exists_mem_of_ne_nil _ hboth.2
    obtain ⟨hn, hnroot⟩ := mem_nniPorts.mp hn
    obtain ⟨hu, hukind⟩ := mem_uniPorts.mp hu
    simp only [h.withPort hfresh, Bool.and_eq_true, any_eq_true]
    exact ⟨⟨n, by simp [hn], hnroot⟩, ⟨u, by simp [hu], by simp [hukind]⟩⟩
  · rw [hdr]
    exact h.portRecorded hlp hfresh

end AddPort

/-- The ports stand for ports of the plant, no two UNI ports for the same one, and have distinct
numbers. -/
structure WellFormed (P : Plant) (ports : List LogicalPort) : Prop where
  stands : ∀ lp ∈ ports, P.Stands lp
  numbers : (portNumbers ports).Nodup
  devicePorts : ((uniPorts ports).map devicePort).Nodup

theorem WellFormed.sublist (h : WellFormed P ports) (hsub : ports'.Sublist ports) :
    WellFormed P ports' :=
  ⟨fun lp hlp => h.stands lp (hsub.subset hlp), h.numbers.sublist (hsub.map _),
    h.devicePorts.sublist ((hsub.filter _).map _)⟩

theorem WellFormed.perm (h : WellFormed P ports) (hperm : ports'.Perm ports) :
    WellFormed P ports' :=
  ⟨fun lp hlp => h.stands lp (hperm.subset hlp), (hperm.map _).nodup_iff.mpr h.numbers,
    ((hperm.filter _).map _).nodup_iff.mpr h.devicePorts⟩

/-- A rebuild over a well-formed list of ports with at most two NNI ports is complete. -/
theorem computeRoutes_complete (order : VisitOrder (Σ _ : PathID, List Hop)) (dr : DeviceRoutes)
    (hlen : 2 ≤ lps.length) (hwf : WellFormed P lps) (hlists : N.Lists lps)
    (hnni : nniPorts lps ≠ []) (htwo : (nniPorts lps).length ≤ 2) :
    FullMesh P N lps (afterCall (computeRoutes (P.env order) lps) dr) := by
  obtain ⟨b, hb, hmeshed⟩ := computeRoutes_meshed order dr hlen hwf.stands hlists hnni
  rw [afterCall, after_of_ok hb]
  rwa [reachedPorts_eq hwf.stands hwf.devicePorts, take_of_length_le htwo] at hmeshed

theorem computeRoutes_of_no_nni (hlen : 2 ≤ lps.length) (hnni : nniPorts lps = [])
    (dr : DeviceRoutes) : afterCall (computeRoutes env lps) dr = newDeviceRoutes := by
  have hfail : Triple (fun _ => True) (computeAllRoutes env lps) (fun _ _ => False)
      fun _ _ => True := by
    refine Triple.bind (Q := fun _ _ => True) (Triple.modify fun _ _ => trivial) fun _ => ?_
    rw [hnni]
    exact Triple.throw fun _ _ => trivial
  have hreset : Triple (fun _ => True) (computeRoutes env lps)
      (fun _ b => b.dr = newDeviceRoutes) fun _ b => b.dr = newDeviceRoutes := by
    rw [computeRoutes, if_neg (by omega)]
    exact (triple_resetOnError hfail (E := fun _ b => b.dr = newDeviceRoutes)
      fun _ _ _ => rfl).weaken (fun _ => id) (fun _ _ hb => hb.elim) fun _ _ => id
  exact hreset.after (s := ⟨dr, 0⟩) trivial

/-- The table after the given ports have been added: complete once both kinds are there,
and without routes before. -/
structure Progress (P : Plant) (N : Numbering) (done : List LogicalPort) (dr : DeviceRoutes) :
    Prop where
  complete : BothKinds done → FullMesh P N done dr
  waiting : ¬BothKinds done → dr.routes = ∅

theorem Progress.computeRoutes (hempty : dr.routes = ∅)
    (hwf : WellFormed P (done ++ [lp])) (hlists : N.Lists (done ++ [lp]))
    (htwo : (nniPorts (done ++ [lp])).length ≤ 2) :
    Progress P N (done ++ [lp])
      (afterCall (Routes.computeRoutes (P.env order) (done ++ [lp])) dr) := by
  by_cases hlen : 2 ≤ (done ++ [lp]).length
  · by_cases hnni : nniPorts (done ++ [lp]) = []
    · rw [computeRoutes_of_no_nni hlen hnni]
      exact ⟨fun hboth => absurd hnni hboth.1, fun _ => rfl⟩
    · have hmesh := computeRoutes_complete order dr hlen hwf hlists hnni htwo
      refine ⟨fun _ => hmesh, fun hnot => GoMap.eq_empty_of_forall_notMem fun p hp => ?_⟩
      have huni : uniPorts (done ++ [lp]) = [] := by
        by_contra huni
        exact hnot ⟨hnni, huni⟩
      have hconn := (hmesh.domain p).mp hp
      rw [huni] at hconn
      exact connects_nil _ p hconn
  · -- a single port: the call leaves the table as it is
    have hfew := exec_of_tooFewPorts (c := .computeRoutes (P.env order) (done ++ [lp]))
      (b := ⟨dr, 0⟩) (by simp only [Call.tooFewPorts, decide_eq_true_eq]; omega)
    rw [show afterCall (Routes.computeRoutes (P.env order) (done ++ [lp])) dr = dr from
      congrArg Build.dr (after_of_error hfew)]
    refine ⟨fun hboth => ?_, fun _ => hempty⟩
    have hdone : done = [] := by
      rw [length_append, length_singleton] at hlen
      exact length_eq_zero_iff.mp (by omega)
    obtain ⟨hnni, huni⟩ := hboth
    rw [nniPorts_concat, hdone] at hnni
    rw [uniPorts_concat, hdone] at huni
    cases hroot : lp.rootPort with
    | true => exact absurd (by simp [hroot, uniPorts]) huni
    | false => exact absurd (by simp [hroot, nniPorts]) hnni

theorem Progress.addPort (h : Progress P N done dr) (hwf : WellFormed P (done ++ [lp]))
    (hlists : N.Lists (done ++ [lp])) (htwo : (nniPorts (done ++ [lp])).length ≤ 2) :
    Progress P N (done ++ [lp])
      (afterCall (Routes.addPort (P.env order) lp (done ++ [lp])) dr) := by
  by_cases hboth : BothKinds done
  · have hfresh : lp.portNo ∉ portNumbers done := by
      have hnum := hwf.numbers
      rw [portNumbers, map_append, nodup_append] at hnum
      intro hmem
      exact hnum.2.2 _ hmem _ (by simp) rfl
    obtain ⟨_, b, hb, hmesh⟩ := (triple_addPort_meshed hwf.stands hlists hfresh hboth).exists_ok
      (s := Build.mk dr 0) (h.complete hboth)
    rw [afterCall, after_of_ok hb]
    refine ⟨fun _ => hmesh, fun hnot => absurd ⟨?_, ?_⟩ hnot⟩
    · rw [nniPorts_concat]
      exact append_ne_nil_of_left_ne_nil hboth.1 _
    · rw [uniPorts_concat]
      exact append_ne_nil_of_left_ne_nil hboth.2 _
  · have hempty := h.waiting hboth
    have hsame : afterCall (Routes.addPort (P.env order) lp (done ++ [lp])) dr =
        afterCall (Routes.computeRoutes (P.env order) (done ++ [lp])) dr := by
      unfold afterCall Outcome.after
      rw [addPort_of_no_routes (by rw [hempty]; rfl)]
    rw [hsame]
    exact Progress.computeRoutes hempty hwf hlists htwo

/-- Add ports one at a time, each with the ports added so far; every call visits the map in
an order of its own. -/
def addInTurn (P : Plant) (done : List LogicalPort) :
    List (LogicalPort × VisitOrder (Σ _ : PathID, List Hop)) → DeviceRoutes → DeviceRoutes
  | [], dr => dr
  | (lp, order) :: rest, dr =>
    addInTurn P (done ++ [lp]) rest (afterCall (addPort (P.env order) lp (done ++ [lp])) dr)

theorem Progress.addInTurn {steps : List (LogicalPort × VisitOrder (Σ _ : PathID, List Hop))}
    (h : Progress P N done dr) (hwf : WellFormed P (done ++ steps.map Prod.fst))
    (hlists : N.Lists (done ++ steps.map Prod.fst))
    (htwo : (nniPorts (done ++ steps.map Prod.fst)).length ≤ 2) :
    Progress P N (done ++ steps.map Prod.fst) (addInTurn P done steps dr) := by
  induction steps generalizing done dr with
  | nil => simpa [Routes.addInTurn] using h
  | cons step steps ih =>
    obtain ⟨lp, order⟩ := step
    have hsplit : done ++ ((lp, order) :: steps).map Prod.fst =
        (done ++ [lp]) ++ steps.map Prod.fst := by simp
    rw [hsplit] at hwf hlists htwo ⊢
    have hsub : (done ++ [lp]).Sublist ((done ++ [lp]) ++ steps.map Prod.fst) :=
      sublist_append_left _ _
    have hstep : Progress P N (done ++ [lp])
        (afterCall (Routes.addPort (P.env order) lp (done ++ [lp])) dr) :=
      h.addPort (hwf.sublist hsub) (fun x hx => hlists x (hsub.subset hx))
        ((hsub.filter _).length_le.trans htwo)
    exact ih hstep hwf hlists htwo

theorem Mesh.same {nnis' unis' : List LogicalPort} {m m' : RouteMap} (h : Mesh P nnis unis m)
    (h' : Mesh P nnis' unis' m') (hn : ∀ x, x ∈ nnis ↔ x ∈ nnis') (hu : ∀ x, x ∈ unis ↔ x ∈ unis') :
    GoMap.Same m m' := by
  have hconn : ∀ p, p ∈ m ↔ p ∈ m' := fun p => by
    rw [h.domain, h'.domain]
    simp only [Connects, hn, hu]
  intro p
  by_cases hp : p ∈ m
  · obtain ⟨n, hnm, u, hum, rfl | rfl⟩ := (h.domain p).mp hp
    · rw [h.down n hnm u hum, h'.down n ((hn n).mp hnm) u ((hu u).mp hum)]
    · rw [h.up n hnm u hum, h'.up n ((hn n).mp hnm) u ((hu u).mp hum)]
  · rw [AList.lookup_eq_none.mpr hp, AList.lookup_eq_none.mpr fun hp' => hp ((hconn p).mpr hp')]

end Incremental

end VolthaCore.Routes
