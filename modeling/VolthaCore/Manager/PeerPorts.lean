import Mathlib.Logic.Function.Iterate
import VolthaCore.Lib.Runs
import VolthaCore.Manager.DeviceManager

/-! The links between an OLT and its ONUs. An ONU adds a port that names a port of the OLT, and the
manager enters the port of the ONU among the peers on the other side. It looks the port of the OLT
up under the number that the port has on the ONU, and it does so again when the port is added
again. -/

namespace VolthaCore.Manager

open Devices Outcome Runs
open List hiding after

/-- A call of `addPort` and what happens around its writes. -/
structure AddPort where
  env : ℕ → DeviceEnv
  deviceID : String
  port : Port

def AddPort.step (m : DeviceManager) (c : AddPort) : DeviceManager :=
  after (addPort c.env c.deviceID c.port) m

def storedPorts (m : DeviceManager) (id : String) : List Port :=
  ((m.lookup id).map fun a => a.stored.ports).getD []

def named (olt : String) (port : Port) : List UInt32 :=
  (port.peers.filter fun peer => peer.deviceId = olt).map PeerPort.portNo

/-- The ONU stores a port with this number that names port `q` of the OLT. -/
def names (m : DeviceManager) (olt onu : String) (p q : UInt32) : Bool :=
  (storedPorts m onu).any fun port => port.portNo = p && (named olt port).contains q

/-- A port of the OLT lists a port of an ONU once if that one names it, and not at all
otherwise. -/
def Symmetric (olt : String) (m : DeviceManager) : Prop :=
  ∀ port ∈ storedPorts m olt, ∀ onu, onu ≠ olt → ∀ p,
    port.peers.count ⟨onu, p⟩ = if names m olt onu p port.portNo then 1 else 0

/-- Every port of the OLT that an ONU names has been added before. -/
def NamesAdded (olt : String) (m : DeviceManager) (c : AddPort) : Prop :=
  c.deviceID ≠ olt → ∀ q ∈ named olt c.port, ∃ port ∈ storedPorts m olt, port.portNo = q

/-- The OLT adds its ports without peers and no two with one number. A port of an ONU that names
the OLT names one port, which has its own number, it is added once, and the store answers the
writes that follow. -/
def Links (olt : String) (m : DeviceManager) (c : AddPort) : Prop :=
  if c.deviceID = olt then
    c.port.peers = [] ∧
      ∀ port ∈ storedPorts m olt, port.portNo = c.port.portNo → port.type = c.port.type
  else
    named olt c.port = [] ∨
      named olt c.port = [c.port.portNo] ∧
        (∀ port ∈ storedPorts m c.deviceID, port.portNo = c.port.portNo →
          port.type ≠ c.port.type ∧ named olt port = []) ∧
        ∀ i < c.port.peers.length, (c.env (i + 1)).store = .written

instance (olt : String) (m : DeviceManager) (c : AddPort) : Decidable (NamesAdded olt m c) :=
  -- not by trying every port number
  haveI : Decidable (∀ q ∈ named olt c.port, ∃ port ∈ storedPorts m olt, port.portNo = q) :=
    decidableBAll _ _
  inferInstanceAs (Decidable (_ → _))

instance (olt : String) (m : DeviceManager) (c : AddPort) : Decidable (Links olt m c) :=
  inferInstanceAs (Decidable (if c.deviceID = olt then _ ∧ _ else _ ∨ _))

variable {olt : String} {m : DeviceManager} {env : ℕ → DeviceEnv}

/-! ### Ports of one device -/

/-- The port with the number of the peer lists it. -/
def withPeer (peer : PeerPort) (ports : List Port) : List Port :=
  Table.editFirst (fun p => p.portNo = peer.portNo)
    (fun p => { p with peers := p.peers ++ [peer] }) ports

theorem stored_ports (a : SyncedAgent) : a.stored.ports = a.device.ports := by
  rw [a.agree]

theorem after_write (env : DeviceEnv) (edited : Device) (a : SyncedAgent) :
    after ((writeDevice edited none).execute env) a =
      if env.store = .written then .wrote edited else a := by
  rw [after, execute_write]
  split_ifs <;> rfl

theorem storedPorts_eq_nil {id : String} (h : id ∉ m) : storedPorts m id = [] := by
  rw [storedPorts, AList.lookup_eq_none.mpr h]
  rfl

theorem storedPorts_addPeerPort (env : DeviceEnv) (peer : PeerPort) (m : DeviceManager)
    (deviceID id : String) :
    storedPorts (after (onAgent deviceID ((DeviceCall.addPeerPort peer).run env)) m) id =
      if id = deviceID ∧ env.store = .written then withPeer peer (storedPorts m id)
      else storedPorts m id := by
  unfold storedPorts
  rw [lookup_onAgent]
  by_cases hid : id = deviceID
  · cases m.lookup id with
    | none => simp [withPeer, Table.editFirst]
    | some a =>
      have hafter : after ((DeviceCall.addPeerPort peer).run env) a.toSyncedAgent = _ :=
        after_write ..
      by_cases hs : env.store = .written
      · simp [hid, hafter, hs, stored_ports, withPeer]
        rfl
      · simp [hid, hafter, hs]
  · simp [hid]

/-! ### The loop over the peers -/

variable {P : DeviceManager → Prop} {deviceID id onu : String}
  {operation : EStateM Err SyncedAgent Unit} {me peer : PeerPort} {peers : List PeerPort}
  {m' : DeviceManager} {port : Port}

theorem triple_onAgent (h : ∀ m, P m → P (after (onAgent deviceID operation) m)) :
    Triple P (onAgent deviceID operation) (fun _ => P) fun _ => P := by
  intro m hm
  have hafter := h m hm
  unfold after at hafter
  cases hr : onAgent deviceID operation m <;> simpa only [hr] using hafter

theorem triple_addPeers (h : ∀ peer ∈ peers, ∀ env m, P m →
      P (after (onAgent peer.deviceId ((DeviceCall.addPeerPort me).run env)) m)) (i : ℕ) :
    Triple P (addPeers env me i peers) (fun _ => P) fun _ => P := by
  induction peers generalizing i with
  | nil => exact Triple.pure fun _ hm => hm
  | cons peer peers ih =>
    have hrest := ih (fun p hp => h p (mem_cons_of_mem _ hp)) (i + 1)
    refine Triple.get fun t => Triple.pre ?_ fun _ hm => hm.1
    dsimp only
    split_ifs
    · exact (triple_onAgent fun m hm => h peer (by simp) _ m hm).bind fun _ => hrest
    · exact hrest

theorem storedPorts_addPeers (hid : ∀ peer ∈ peers, peer.deviceId ≠ id) (i : ℕ)
    (m : DeviceManager) :
    storedPorts (after (addPeers env me i peers) m) id = storedPorts m id := by
  refine Triple.after (triple_addPeers (P := fun m' => storedPorts m' id = storedPorts m id)
    (fun peer hpeer env m' hm' => ?_) i) rfl
  rw [storedPorts_addPeerPort, if_neg fun h => hid peer hpeer h.1.symm, hm']

/-- Entering a peer that is no port of the OLT changes nothing in what a device names there. -/
theorem any_withPeer (hpeer : peer.deviceId ≠ olt) (p q : UInt32) (ports : List Port) :
    (withPeer peer ports).any (fun port => port.portNo = p && (named olt port).contains q) =
      ports.any fun port => port.portNo = p && (named olt port).contains q := by
  have hmap : (withPeer peer ports).map (fun port => (port.portNo, named olt port)) =
      ports.map fun port => (port.portNo, named olt port) :=
    Table.map_editFirst (fun port _ => by simp [named, hpeer]) ports
  have h := congrArg (any · fun e => e.1 = p && e.2.contains q) hmap
  simpa only [any_map, Function.comp_def] using h

theorem names_addPeers (hme : me.deviceId ≠ olt) (peers : List PeerPort) (i : ℕ) (m : DeviceManager)
    (onu : String) (p q : UInt32) :
    names (after (addPeers env me i peers) m) olt onu p q = names m olt onu p q := by
  refine Triple.after (triple_addPeers
    (P := fun m' => names m' olt onu p q = names m olt onu p q)
    (fun peer hpeer env m' hm' => ?_) i) rfl
  rw [← hm', names, names, storedPorts_addPeerPort]
  split_ifs
  · exact any_withPeer hme p q _
  · rfl

theorem exists_addPeers_cons {i : ℕ} (hstore : (env i).store = .written) (me peer : PeerPort)
    (peers : List PeerPort) (m : DeviceManager) :
    ∃ m', after (addPeers env me i (peer :: peers)) m = after (addPeers env me (i + 1) peers) m' ∧
      ∀ id, storedPorts m' id =
        if id = peer.deviceId then withPeer me (storedPorts m id) else storedPorts m id := by
  have hround : addPeers env me i (peer :: peers) m = (if peer.deviceId ∈ m then do
      onAgent peer.deviceId ((DeviceCall.addPeerPort me).run (env i))
      addPeers env me (i + 1) peers
    else addPeers env me (i + 1) peers) m := rfl
  unfold after
  rw [hround]
  by_cases hm : peer.deviceId ∈ m
  · obtain ⟨a, ha⟩ := GoMap.mem_iff_exists_lookup.mp hm
    have hok : onAgent peer.deviceId ((DeviceCall.addPeerPort me).run (env i)) m =
        .ok () (after (onAgent peer.deviceId ((DeviceCall.addPeerPort me).run (env i))) m) := by
      simp [after, onAgent, ha, DeviceCall.run, DeviceCall.plan, perform, addPeerPort,
        execute_write, hstore]
    rw [if_pos hm, bind_of_ok hok]
    exact ⟨_, rfl, fun id => by simp [storedPorts_addPeerPort, hstore]⟩
  · rw [if_neg hm]
    refine ⟨m, rfl, fun id => ?_⟩
    split_ifs with hid
    · rw [hid, storedPorts_eq_nil hm]
      rfl
    · rfl

/-- When every write is answered, each peer on the OLT is entered. -/
theorem storedPorts_addPeers_written {i : ℕ}
    (hstore : ∀ j < peers.length, (env (i + j)).store = .written) :
    storedPorts (after (addPeers env me i peers) m) olt =
      (withPeer me)^[(peers.filter fun peer => peer.deviceId = olt).length]
        (storedPorts m olt) := by
  induction peers generalizing i m with
  | nil => rfl
  | cons peer peers ih =>
    have hrest : ∀ j < peers.length, (env (i + 1 + j)).store = .written := fun j hj => by
      rw [Nat.add_assoc, Nat.add_comm 1 j]
      exact hstore (j + 1) (by simpa using hj)
    have hhead : (env i).store = .written := hstore 0 (by simp)
    obtain ⟨m', hafter, hports⟩ := exists_addPeers_cons hhead me peer peers m
    rw [hafter, ih hrest, hports]
    by_cases hpeer : peer.deviceId = olt
    · rw [if_pos hpeer.symm, filter_cons_of_pos (by simpa using hpeer), length_cons,
        Function.iterate_succ_apply]
    · rw [if_neg (Ne.symm hpeer), filter_cons_of_neg (by simpa using hpeer)]

/-- The port becomes the last one of the device. -/
def Appended (deviceID : String) (port : Port) (m m' : DeviceManager) : Prop :=
  ∀ id, storedPorts m' id = if id = deviceID then
    storedPorts m id ++ [{ port with adminState := .enabled }] else storedPorts m id

/-- The agent of a device adds a port: the device has it already, or it becomes the last one. -/
def Added (deviceID : String) (port : Port) (m m' : DeviceManager) : Prop :=
  (∃ p ∈ storedPorts m deviceID, p.type = port.type ∧ p.portNo = port.portNo) ∧
      (∀ id, storedPorts m' id = storedPorts m id) ∨
    (∀ p ∈ storedPorts m deviceID, p.portNo = port.portNo → p.type ≠ port.type) ∧
      Appended deviceID port m m'

theorem storedPorts_insert (m : DeviceManager) (deviceID : String) (a : ManagedAgent)
    (id : String) : storedPorts (m.insert deviceID a) id =
      if id = deviceID then a.stored.ports else storedPorts m id := by
  unfold storedPorts
  rw [GoMap.lookup_insert_eq]
  split_ifs <;> rfl

theorem onAgent_addPort_cases (env : DeviceEnv) (deviceID : String) (port : Port)
    (m : DeviceManager) :
    (∃ e m', onAgent deviceID ((DeviceCall.addPort port).run env) m = .error e m' ∧
        ∀ id, storedPorts m' id = storedPorts m id) ∨
      ∃ m', onAgent deviceID ((DeviceCall.addPort port).run env) m = .ok () m' ∧
        Added deviceID port m m' := by
  cases ha : m.lookup deviceID with
  | none => exact .inl ⟨_, m, by rw [onAgent, ha], fun _ => rfl⟩
  | some a =>
    have hports : storedPorts m deviceID = a.device.ports := by
      rw [storedPorts, ha, Option.map_some, Option.getD_some, stored_ports]
    have hsame : ∀ id, storedPorts (m.insert deviceID a) id = storedPorts m id := by
      intro id
      rw [storedPorts_insert, stored_ports, ← hports]
      split_ifs with hid
      · rw [hid]
      · rfl
    have hrun : (DeviceCall.addPort port).run env a.toSyncedAgent =
        (Devices.addPort port a.device).execute env a.toSyncedAgent := rfl
    unfold Devices.addPort at hrun
    unfold onAgent
    rw [ha]
    dsimp only
    rw [hrun]
    split_ifs with hany
    · obtain ⟨p, hp, hpp⟩ := any_eq_true.mp hany
      exact .inr ⟨_, rfl, .inl ⟨⟨p, hports ▸ hp, by simpa using hpp⟩, hsame⟩⟩
    · cases hs : env.store with
      | written =>
        refine .inr ⟨_, by simp [execute_write, hs]; rfl, .inr ⟨?_, ?_⟩⟩
        · intro p hp hno htype
          exact hany (any_eq_true.mpr ⟨p, hports ▸ hp, by simp [hno, htype]⟩)
        · intro id
          rw [storedPorts_insert]
          split_ifs with hid
          · rw [hid, hports]
            rfl
          · rfl
      | missing | failed e => exact .inl ⟨_, _, by simp [execute_write, hs]; rfl, hsame⟩

theorem addPort_cases (env : ℕ → DeviceEnv) (deviceID : String) (port : Port)
    (m : DeviceManager) :
    (∀ id, storedPorts (after (addPort env deviceID port) m) id = storedPorts m id) ∨
      ∃ m', Added deviceID port m m' ∧ after (addPort env deviceID port) m =
        after (addPeers env ⟨deviceID, port.portNo⟩ 1 port.peers) m' := by
  rcases onAgent_addPort_cases (env 0) deviceID port m with ⟨e, m', hown, hsame⟩ | ⟨m', hown, hadd⟩
  · left
    intro id
    rw [after, addPort, bind_apply, hown]
    exact hsame id
  · refine .inr ⟨m', hadd, ?_⟩
    rw [after, addPort, bind_of_ok hown, bind_apply, after]
    cases addPeers env ⟨deviceID, port.portNo⟩ 1 port.peers m' with
    | error e m'' => rfl
    | ok r m'' => cases h : m''.lookup deviceID <;> simp [bind_apply, getDevice, h]

/-! ### The links over a run -/

/-- Links are symmetric, the ports of the OLT have distinct numbers, and only such ports are
named. -/
structure Linked (olt : String) (m : DeviceManager) : Prop where
  symmetric : Symmetric olt m
  distinct : ((storedPorts m olt).map Port.portNo).Nodup
  added : ∀ onu, onu ≠ olt → ∀ p q, names m olt onu p q = true →
    q ∈ (storedPorts m olt).map Port.portNo

theorem Linked.of_same (h : Linked olt m) (hports : storedPorts m' olt = storedPorts m olt)
    (hnames : ∀ onu, onu ≠ olt → ∀ p q, names m' olt onu p q = names m olt onu p q) :
    Linked olt m' where
  symmetric port hport onu honu p := by
    rw [hnames onu honu]
    exact h.symmetric port (hports ▸ hport) onu honu p
  distinct := hports ▸ h.distinct
  added onu honu p q hq := by
    rw [hports]
    exact h.added onu honu p q (hnames onu honu p q ▸ hq)

theorem names_congr (h : storedPorts m' onu = storedPorts m onu) (p q : UInt32) :
    names m' olt onu p q = names m olt onu p q := by
  rw [names, names, h]

/-- What an ONU names when one of its ports is added. -/
theorem names_of_appended (h : Appended deviceID port m m') (onu : String) (p q : UInt32) :
    names m' olt onu p q = (names m olt onu p q ||
      (onu = deviceID && port.portNo = p && (named olt port).contains q)) := by
  unfold names
  rw [h]
  split_ifs with honu
  · rw [any_append]
    simp [honu, named]
  · simp [honu]

/-- The OLT adds a port with a new number and no peers. -/
theorem Linked.addOltPort (h : Linked olt m) (hpeers : port.peers = [])
    (hnew : port.portNo ∉ (storedPorts m olt).map Port.portNo)
    (hports : Appended olt port m m') : Linked olt m' := by
  have hnames : ∀ onu, onu ≠ olt → ∀ p q, names m' olt onu p q = names m olt onu p q :=
    fun onu honu => names_congr (by rw [hports, if_neg honu])
  have holt : storedPorts m' olt = storedPorts m olt ++ [{ port with adminState := .enabled }] := by
    rw [hports, if_pos rfl]
  refine ⟨?_, ?_, ?_⟩
  · intro p hp onu honu no
    rw [holt, mem_append, mem_singleton] at hp
    rw [hnames onu honu]
    rcases hp with hp | rfl
    · exact h.symmetric p hp onu honu no
    · -- no ONU names the new port yet
      have hnone : names m olt onu no port.portNo = false := by
        by_contra hnamed
        exact hnew (h.added onu honu no _ (by simpa using hnamed))
      simp [hpeers, hnone]
  · rw [holt, map_append]
    refine nodup_append.mpr ⟨h.distinct, by simp, ?_⟩
    rintro q hq q' hq' rfl
    rw [map_cons, map_nil, mem_singleton] at hq'
    exact hnew (hq' ▸ hq)
  · intro onu honu p q hq
    rw [holt, map_append]
    exact mem_append_left _ (h.added onu honu p q (hnames onu honu p q ▸ hq))

/-- An ONU adds a port that names the port with its number, and it is entered there. -/
theorem Linked.addOnuPort {p : UInt32} (h : Linked olt m) (honu : onu ≠ olt)
    (hnew : ∀ q, names m olt onu p q = false) (hadded : p ∈ (storedPorts m olt).map Port.portNo)
    (hports : storedPorts m' olt = withPeer ⟨onu, p⟩ (storedPorts m olt))
    (hnames : ∀ x, x ≠ olt → ∀ no q, names m' olt x no q =
      (names m olt x no q || (x = onu && p = no && p = q))) : Linked olt m' := by
  have hnos : (storedPorts m' olt).map Port.portNo = (storedPorts m olt).map Port.portNo := by
    rw [hports, withPeer]
    refine Table.map_editFirst (fun _ _ => ?_) _
    rfl
  refine ⟨?_, hnos ▸ h.distinct, ?_⟩
  · intro port hport x hx no
    rw [hports] at hport
    rw [hnames x hx]
    rcases Table.mem_editFirst Port.portNo h.distinct hport with
      ⟨hmem, hne⟩ | ⟨port, hmem, hno, rfl⟩
    · have hold := h.symmetric port hmem x hx no
      simpa [Ne.symm hne] using hold
    · have hold := h.symmetric port hmem x hx no
      rw [count_append, hold, hno]
      by_cases hme : x = onu ∧ p = no
      · obtain ⟨rfl, rfl⟩ := hme
        simp [hnew]
      · have hne : (⟨onu, p⟩ : PeerPort) ≠ ⟨x, no⟩ := fun heq => by
          cases heq
          exact hme ⟨rfl, rfl⟩
        have hfalse : (x = onu && p = no && p = p : Bool) = false := by simpa using hme
        rw [hfalse, Bool.or_false, count_singleton, beq_eq_false_iff_ne.mpr hne]
        rfl
  · intro x hx no q hq
    rw [hnos]
    rw [hnames x hx, Bool.or_eq_true] at hq
    rcases hq with hq | hq
    · exact h.added x hx no q hq
    · simp only [Bool.and_eq_true, decide_eq_true_eq] at hq
      exact hq.2 ▸ hadded

theorem Linked.step {c : AddPort} (h : Linked olt m) (hadded : NamesAdded olt m c)
    (hlinks : Links olt m c) : Linked olt (c.step m) := by
  obtain ⟨env, deviceID, port⟩ := c
  unfold AddPort.step
  rcases addPort_cases env deviceID port m with hsame | ⟨m', hadd, hafter⟩
  · exact h.of_same (hsame olt) fun onu _ => names_congr (hsame onu)
  rw [hafter]
  unfold Links at hlinks
  dsimp only at hlinks
  split_ifs at hlinks with holt
  · -- the OLT adds a port of its own
    obtain ⟨hpeers, htype⟩ := hlinks
    subst holt
    rw [hpeers]
    change Linked deviceID m'
    rcases hadd with ⟨-, hsame⟩ | ⟨hnew, hports⟩
    · exact h.of_same (hsame _) fun onu _ => names_congr (hsame onu)
    · refine h.addOltPort hpeers (fun hmem => ?_) hports
      obtain ⟨p, hp, hno⟩ := mem_map.mp hmem
      exact hnew p hp hno (htype p hp hno)
  · have hme : (⟨deviceID, port.portNo⟩ : PeerPort).deviceId ≠ olt := holt
    rcases hlinks with hnone | ⟨hone, hfresh, hstore⟩
    · -- no peer is on the OLT
      have hother : ∀ peer ∈ port.peers, peer.deviceId ≠ olt := by
        simpa [named, filter_eq_nil_iff] using hnone
      have hports : storedPorts m' olt = storedPorts m olt := by
        rcases hadd with ⟨-, hsame⟩ | ⟨-, hports⟩
        · exact hsame olt
        · rw [hports, if_neg (Ne.symm holt)]
      refine h.of_same ((storedPorts_addPeers hother 1 m').trans hports) fun onu _ p q => ?_
      rw [names_addPeers hme]
      rcases hadd with ⟨-, hsame⟩ | ⟨-, hports⟩
      · exact names_congr (hsame onu) p q
      · simp [names_of_appended hports, hnone]
    · -- the port is new, and its one peer on the OLT has its number
      obtain ⟨-, hports⟩ := hadd.resolve_left (by
        rintro ⟨⟨p, hp, htype, hno⟩, -⟩
        exact (hfresh p hp hno).1 htype)
      have hmem : port.portNo ∈ (storedPorts m olt).map Port.portNo := by
        obtain ⟨p, hp, hno⟩ := hadded holt port.portNo (by simp [hone])
        exact mem_map.mpr ⟨p, hp, hno⟩
      have holtPorts : storedPorts m' olt = storedPorts m olt := by
        rw [hports, if_neg (Ne.symm holt)]
      have hlength : (port.peers.filter fun peer => peer.deviceId = olt).length = 1 := by
        rw [← length_map PeerPort.portNo]
        exact congrArg length hone
      refine h.addOnuPort holt (p := port.portNo) (fun q => ?_) hmem ?_ fun x _ no q => ?_
      · rw [names, any_eq_false]
        intro p hp hpq
        rw [Bool.and_eq_true, decide_eq_true_eq] at hpq
        simp [(hfresh p hp hpq.1).2] at hpq
      · rw [storedPorts_addPeers_written (fun j hj => by rw [Nat.add_comm]; exact hstore j hj),
          hlength, holtPorts]
        rfl
      · rw [names_addPeers hme, names_of_appended hports, hone]
        simp [eq_comm]

theorem Linked.of_no_ports (h : ∀ e ∈ m.entries, e.2.stored.ports = []) : Linked olt m := by
  have hports : ∀ id, storedPorts m id = [] := by
    intro id
    unfold storedPorts
    cases ha : m.lookup id with
    | none => rfl
    | some a => exact h ⟨id, a⟩ (GoMap.mem_entries_iff.mpr ha)
  constructor <;> simp [Symmetric, names, hports]

def oltAndOnu : DeviceManager :=
  addDevice { id := "onu", parentId := "olt" } (addDevice { id := "olt", root := true } ∅)

def willingAddPort (deviceID : String) (port : Port) : AddPort where
  env := fun _ => willingEnv false
  deviceID := deviceID
  port := port

def ponPort : Port := { portNo := 1, type := .ponOlt }

def onuPort : Port := { portNo := 1, type := .ponOnu, peers := [⟨"olt", 1⟩] }

end VolthaCore.Manager
