import Mathlib.Data.Finset.Card
import VolthaCore.Lib.GoMap
import VolthaCore.Lib.Triple
import VolthaCore.Decomposition.Topology
import VolthaCore.Devices.Messages

/-! The route table of a logical device, after `device_route.go`. The table is
rebuilt from all logical ports (`computeRoutes`) or extended by one (`addPort`).
A device is read again at every lookup and may have changed or disappeared since
the last one, so the answers to the successive lookups of a call are an input of
the call, and so is the order in which it visits the entries of a map. -/

namespace VolthaCore.Routes

open Decomposition Devices

/-- A logical port; `portNo` is the number of its OpenFlow port. -/
structure LogicalPort where
  id : String := ""
  portNo : UInt32
  deviceId : String
  devicePortNo : UInt32
  rootPort : Bool := false
  deriving DecidableEq

abbrev RouteMap := GoMap PathID (List Hop)

/-- `rootPorts` is a map in the source that sends each of its numbers to itself. -/
structure DeviceRoutes where
  logicalPorts : List LogicalPort
  rootPorts : Finset UInt32
  routes : RouteMap
  devicesPonPorts : GoMap String (List Port)
  deriving DecidableEq

def newDeviceRoutes : DeviceRoutes := ⟨[], ∅, ∅, ∅⟩

/-- What a call meets: the answers to its successive device lookups and the order in
which it visits the entries of the route map. -/
structure Env where
  getDeviceFromModel : ℕ → String → Except Err Device
  order : VisitOrder (Σ _ : PathID, List Hop)

/-- The table while a call works on it, with the number of lookups made so far. -/
structure Build where
  dr : DeviceRoutes
  lookups : ℕ := 0

abbrev RouteM := EStateM Err Build

def modifyRoutes (f : DeviceRoutes → DeviceRoutes) : RouteM Unit :=
  modify fun b => { b with dr := f b.dr }

def getRoutes : RouteM DeviceRoutes := do return (← get).dr

def reset : RouteM Unit := modifyRoutes fun _ => newDeviceRoutes

/-- Reset the table when the computation fails. -/
def resetOnError (x : RouteM Unit) : RouteM Unit :=
  tryCatch x fun e => do
    reset
    throw e

def isRootPort (dr : DeviceRoutes) (port : UInt32) : Bool := port ∈ dr.rootPorts

def concatDeviceIDPortID (deviceID : String) (portNo : UInt32) : String :=
  deviceID ++ ":" ++ toString portNo

def getReverseRoute (route : List Hop) : List Hop :=
  route.reverse.map fun hop => ⟨hop.deviceID, hop.egress, hop.ingress⟩

/-! ### The devices and their PON ports -/

def isPonPort (port : Port) : Bool := port.type = .ponOnu || port.type = .ponOlt

def cachePonPort (deviceID : String) (cache : GoMap String (List Port)) (port : Port) :
    GoMap String (List Port) :=
  cache.insert deviceID ((cache.lookup deviceID).getD [] ++ [port])

def cachePonPorts (device : Device) (dr : DeviceRoutes) : DeviceRoutes :=
  { dr with devicesPonPorts :=
      (device.ports.filter isPonPort).foldl (cachePonPort device.id) dr.devicesPonPorts }

/-- Read a device and remember its PON ports. -/
def getDevice (env : Env) (deviceID : String) : RouteM Device := do
  let b ← get
  set { b with lookups := b.lookups + 1 }
  match env.getDeviceFromModel b.lookups deviceID with
  | .error e => throw e
  | .ok device =>
    modifyRoutes (cachePonPorts device)
    return device

/-- The PON ports of a device that have the peer device, once for each such peer. -/
def getDevicePonPorts (dr : DeviceRoutes) (deviceID peerDeviceID : String) : List Port :=
  match dr.devicesPonPorts.lookup deviceID with
  | none => []
  | some ports => ports.flatMap fun port =>
      (port.peers.filter fun peer => peer.deviceId = peerDeviceID).map fun _ => port

/-! ### Writing routes -/

def putRoute (ingress egress : UInt32) (route : List Hop) (dr : DeviceRoutes) : DeviceRoutes :=
  let routes := dr.routes.insert ⟨ingress, egress⟩ route
  { dr with routes := routes.insert ⟨egress, ingress⟩ (getReverseRoute route) }

/-- Clone a route that starts at an NNI port for another one. -/
def cloneIngress (newNNIPort : LogicalPort) (key : PathID) (val : List Hop) (routes : RouteMap) :
    Except Err RouteMap := do
  let first ← hopAt val 0
  let second ← hopAt val 1
  return routes.insert ⟨newNNIPort.portNo, key.egress⟩
    [⟨newNNIPort.deviceId, newNNIPort.devicePortNo, first.egress⟩, second]

/-- Clone a route that ends at an NNI port for another one. -/
def cloneEgress (newNNIPort : LogicalPort) (key : PathID) (val : List Hop) (routes : RouteMap) :
    Except Err RouteMap := do
  let first ← hopAt val 0
  let second ← hopAt val 1
  return routes.insert ⟨key.ingress, newNNIPort.portNo⟩
    [first, ⟨newNNIPort.deviceId, second.ingress, newNNIPort.devicePortNo⟩]

/-- Copy one entry of the table, with its clones for the new NNI port. -/
def copyEntry (newNNIPort copyFromNNIPort : LogicalPort) (updatedRoutes : RouteMap)
    (entry : Σ _ : PathID, List Hop) : Except Err RouteMap := do
  let updatedRoutes ← (if entry.1.ingress = copyFromNNIPort.portNo then
    cloneIngress newNNIPort entry.1 entry.2 updatedRoutes else pure updatedRoutes)
  let updatedRoutes ← (if entry.1.egress = copyFromNNIPort.portNo then
    cloneEgress newNNIPort entry.1 entry.2 updatedRoutes else pure updatedRoutes)
  return updatedRoutes.insert entry.1 entry.2

def copyFromExistingNNIRoutes (env : Env) (newNNIPort copyFromNNIPort : LogicalPort) :
    RouteM Unit := do
  let dr ← getRoutes
  match (env.order.visit dr.routes.entries).foldlM (copyEntry newNNIPort copyFromNNIPort) ∅ with
  | .error e => throw e
  | .ok updatedRoutes => modifyRoutes fun dr => { dr with routes := updatedRoutes }

/-! ### All routes -/

def physPortToLogicalPortMap (lps : List LogicalPort) : GoMap String UInt32 :=
  GoMap.writeAll ∅ (lps.map fun lp =>
    (concatDeviceIDPortID lp.deviceId lp.devicePortNo, lp.portNo))

def nniPorts (lps : List LogicalPort) : List LogicalPort := lps.filter (·.rootPort)

/-- The table with the ports recorded and no routes. -/
def recordPorts (lps : List LogicalPort) : DeviceRoutes where
  logicalPorts := lps
  rootPorts := ((nniPorts lps).map (·.portNo)).toFinset
  routes := ∅
  devicesPonPorts := ∅

def addUniRoutes (phys : GoMap String UInt32) (nni : LogicalPort) (root : Device)
    (rootPort : Port) (child : Device) (childPonPort : UInt32) (childPort : Port) :
    RouteM Unit :=
  if childPort.type = .ethernetUni then
    match phys.lookup (concatDeviceIDPortID child.id childPort.portNo) with
    -- no logical port has been created yet for that port
    | none => pure ()
    | some childLogicalPort => modifyRoutes (putRoute nni.portNo childLogicalPort
        [⟨root.id, nni.devicePortNo, rootPort.portNo⟩,
          ⟨child.id, childPonPort, childPort.portNo⟩])
  else pure ()

def addPeerRoutes (env : Env) (phys : GoMap String UInt32) (nni : LogicalPort) (root : Device)
    (rootPort : Port) (peer : PeerPort) : RouteM Unit := do
  let child ← getDevice env peer.deviceId
  let dr ← getRoutes
  match getDevicePonPorts dr child.id nni.deviceId with
  | [] => throw (.status .aborted ("no-child-pon-port-" ++ child.id))
  | childPonPort :: _ =>
    child.ports.forM (addUniRoutes phys nni root rootPort child childPonPort.portNo)

def addRootPortRoutes (env : Env) (phys : GoMap String UInt32) (nni : LogicalPort)
    (root : Device) (rootPort : Port) : RouteM Unit :=
  if rootPort.type = .ponOlt then
    rootPort.peers.forM (addPeerRoutes env phys nni root rootPort)
  else pure ()

/-- The routes between an NNI port and every logical port below its device. -/
def computeNNIRoutes (env : Env) (phys : GoMap String UInt32) (nni : LogicalPort) :
    RouteM Unit := do
  let root ← getDevice env nni.deviceId
  if root.ports = [] then throw (.status .failedPrecondition ("no-port-" ++ root.id))
  else root.ports.forM (addRootPortRoutes env phys nni root)

/-- The NNI ports after the first. Once there are routes, the next port gets a copy of
the first one's routes and the loop is left. -/
def computeOtherNNIRoutes (env : Env) (phys : GoMap String UInt32)
    (copyFromNNIPort : LogicalPort) : List LogicalPort → RouteM Unit
  | [] => pure ()
  | nni :: nnis => do
    let dr ← getRoutes
    if dr.routes.keys.length > 0 then copyFromExistingNNIRoutes env nni copyFromNNIPort
    else do
      computeNNIRoutes env phys nni
      computeOtherNNIRoutes env phys copyFromNNIPort nnis

def computeAllRoutes (env : Env) (lps : List LogicalPort) : RouteM Unit := do
  modifyRoutes fun _ => recordPorts lps
  match nniPorts lps with
  | [] => throw (.status .failedPrecondition "no nni port")
  | nni :: nnis => do
    computeNNIRoutes env (physPortToLogicalPortMap lps) nni
    computeOtherNNIRoutes env (physPortToLogicalPortMap lps) nni nnis

/-- The check of the number of ports returns its error without setting the variable that
the deferred clean-up looks at. -/
def computeRoutes (env : Env) (lps : List LogicalPort) : RouteM Unit :=
  if lps.length < 2 then throw (.status .failedPrecondition "not-enough-logical-ports")
  else resetOnError (computeAllRoutes env lps)

/-! ### One more port -/

/-- The recorded ports with the new one, unless its number is recorded already. -/
def withPort (ports : List LogicalPort) (lp : LogicalPort) : List LogicalPort :=
  if ports.any (·.portNo = lp.portNo) then ports else ports ++ [lp]

/-- Record the port and check that there are both kinds of ports. -/
def addPortAndVerifyPrecondition (lp : LogicalPort) : RouteM Unit := do
  modifyRoutes fun dr => { dr with logicalPorts := withPort dr.logicalPorts lp }
  let dr ← getRoutes
  if dr.logicalPorts.any (·.rootPort) && dr.logicalPorts.any (!·.rootPort) then pure ()
  else throw (.status .failedPrecondition "no-uni-and-nni-ports-combination")

def addRootPort (lp : LogicalPort) (dr : DeviceRoutes) : DeviceRoutes :=
  if lp.rootPort then { dr with rootPorts := insert lp.portNo dr.rootPorts } else dr

def firstPeer : List Port → Option (Port × PeerPort)
  | [] => none
  | port :: _ => port.peers.head?.map fun peer => (port, peer)

/-- The first PON port of the device towards the peer device, read again when it has not
been cached yet. -/
def findPonPort (env : Env) (deviceID peerDeviceID : String) : RouteM (Port × PeerPort) := do
  let dr ← getRoutes
  match firstPeer (getDevicePonPorts dr deviceID peerDeviceID) with
  | some found => return found
  | none =>
    let _ ← getDevice env deviceID
    let dr ← getRoutes
    match firstPeer (getDevicePonPorts dr deviceID peerDeviceID) with
    | some found => return found
    | none => throw (.status .failedPrecondition ("no-pon-ports-" ++ deviceID))

/-- The routes between a new UNI port and an NNI port. -/
def addUniPortRoutes (env : Env) (lp nni : LogicalPort) : RouteM Unit := do
  let found ← findPonPort env lp.deviceId nni.deviceId
  modifyRoutes (putRoute nni.portNo lp.portNo
    [⟨nni.deviceId, nni.devicePortNo, found.2.portNo⟩,
      ⟨lp.deviceId, found.1.portNo, lp.devicePortNo⟩])

/-- Extend existing routes by those of a recorded port. -/
def extendRoutes (env : Env) (lp : LogicalPort) : RouteM Unit := do
  let dr ← getRoutes
  match (nniPorts dr.logicalPorts).find? (·.portNo ≠ lp.portNo) with
  -- the only NNI port is added again
  | none => pure ()
  | some copyFromNNIPort =>
    if lp.rootPort then copyFromExistingNNIRoutes env lp copyFromNNIPort
    else resetOnError ((nniPorts dr.logicalPorts).forM (addUniPortRoutes env lp))

def addPort (env : Env) (lp : LogicalPort) (lps : List LogicalPort) : RouteM Unit := do
  let dr ← getRoutes
  if dr.routes.keys.length = 0 then computeRoutes env lps
  else do
    resetOnError (addPortAndVerifyPrecondition lp)
    modifyRoutes (addRootPort lp)
    extendRoutes env lp

/-- Whether the table fits the logical device, by the numbers of ports and routes; with no
device it fits when there are no routes. -/
def isUpToDate (dr : DeviceRoutes) (ld : Option (List LogicalPort)) : Bool :=
  match ld with
  | none => dr.routes.keys.length = 0
  | some ports =>
    let numNNI : Int := dr.rootPorts.card
    let numUNI : Int := ports.length - numNNI
    dr.logicalPorts.length = ports.length && (dr.routes.keys.length : Int) = numNNI * numUNI * 2

def afterCall (x : RouteM Unit) (dr : DeviceRoutes) : DeviceRoutes := (Outcome.after x ⟨dr, 0⟩).dr

inductive Call where
  | computeRoutes (env : Env) (lps : List LogicalPort)
  | addPort (env : Env) (lp : LogicalPort) (lps : List LogicalPort)

def Call.exec : Call → RouteM Unit
  | .computeRoutes env lps => Routes.computeRoutes env lps
  | .addPort env lp lps => Routes.addPort env lp lps

def Call.step (dr : DeviceRoutes) (c : Call) : DeviceRoutes := afterCall c.exec dr

/-! ### An OLT with one ONU -/

/-- Three uplinks and a PON port with one ONU. -/
def exampleOlt : Device where
  id := "olt"
  ports := [{ portNo := 10, type := .ethernetNni }, { portNo := 11, type := .ethernetNni },
    { portNo := 12, type := .ethernetNni },
    { portNo := 1, type := .ponOlt, peers := [⟨"onu", 1⟩] }]

def exampleOnu : Device where
  id := "onu"
  ports := [{ portNo := 1, type := .ponOnu, peers := [⟨"olt", 1⟩] },
    { portNo := 2, type := .ethernetUni }, { portNo := 3, type := .ethernetUni }]

def oneOnu : Env where
  getDeviceFromModel _ id :=
    if id = "olt" then .ok exampleOlt else if id = "onu" then .ok exampleOnu
    else .error (.status .notFound id)
  order := .listed

def nniPort (n : UInt32) : LogicalPort := ⟨"", n, "olt", n, true⟩

def uniPort (n : UInt32) : LogicalPort := ⟨"", n, "onu", n, false⟩

end VolthaCore.Routes
