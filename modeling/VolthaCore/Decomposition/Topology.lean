import VolthaCore.Errors
import VolthaCore.OpenFlow.Messages

/-! What a logical device agent knows of its ports, routes and devices while it
decomposes a flow, and the route lookup of `logical_device_agent.go`. Go visits
the entries of a map in any order, so maps that the code ranges over are lists
here in the order of the visit, and every result holds for all orders. A port
number 0 stands for no port. A half route leaves out the hop that the flow does
not determine. -/

namespace VolthaCore.Decomposition

open OpenFlow

structure Hop where
  deviceID : String := ""
  ingress : UInt32 := 0
  egress : UInt32 := 0
  deriving DecidableEq

/-- A route is named by the logical ports it connects. -/
structure PathID where
  ingress : UInt32
  egress : UInt32
  deriving DecidableEq

structure Topology where
  rootDeviceID : String
  /-- The precomputed routes. -/
  routes : List (PathID × List Hop)
  rootPorts : List UInt32
  /-- The port numbers that the agent has recorded, marked when they are NNI ports. -/
  logicalPortsNo : List (UInt32 × Bool)
  /-- The port numbers of the logical device. -/
  ports : List UInt32
  /-- Whether a known device is a root; `none` for an unknown device. -/
  getDevice : String → Option Bool
  /-- The root devices that the device manager has recorded. -/
  isRootDevice : String → Bool

/-- A root device with one leaf device: port 1 of the logical device is a port of the
leaf, port 2 is the uplink of the root. -/
def oneLeaf : Topology where
  rootDeviceID := "olt"
  routes := [(⟨1, 2⟩, [⟨"onu", 1, 2⟩, ⟨"olt", 1, 2⟩]), (⟨2, 1⟩, [⟨"olt", 2, 1⟩, ⟨"onu", 2, 1⟩])]
  rootPorts := [2]
  logicalPortsNo := [(1, false), (2, true)]
  ports := [1, 2]
  getDevice := fun d => if d = "olt" then some true else if d = "onu" then some false else none
  isRootDevice := fun d => d = "olt"

def isControllerPort (port : UInt32) : Bool :=
  port ≠ 0 && (port &&& 0x7fffffff) = OFPP_CONTROLLER

variable (T : Topology)

def isNNIPort (portNo : UInt32) : Bool :=
  (T.logicalPortsNo.lookup portNo).getD false

def getNNIPorts : List UInt32 := (T.logicalPortsNo.filter Prod.snd).map Prod.fst

def getFirstNNIPort : Except Err UInt32 :=
  match (getNNIPorts T).head? with
  | some portNo => .ok portNo
  | none => .error (.status .notFound "No NNI port found")

def isRootPort (port : UInt32) : Bool := port ∈ T.rootPorts

def getWildcardInputPorts (excludePort : UInt32) : List UInt32 :=
  T.ports.filter (· ≠ excludePort)

def noRoute (kind : String) (ingress egress : UInt32) : Err :=
  .status .failedPrecondition ("no " ++ kind ++ "route from:" ++ toString ingress ++ " to:" ++
    toString egress)

def hopAt (path : List Hop) (i : ℕ) : Except Err Hop :=
  match path[i]? with
  | some hop => .ok hop
  | none => .error (.crash "index out of range")

def getPreCalculatedRoute (ingress egress : UInt32) : Except Err (List Hop) :=
  match T.routes.find? fun r => ingress = r.1.ingress && egress = r.1.egress with
  | some r => .ok r.2
  | none => .error (noRoute "" ingress egress)

/-- The half route with the second hop of any route that ends at an NNI port. -/
def upstreamHalfRoute (ingress egress : UInt32) : Except Err (List Hop) :=
  match T.routes.find? fun r => isNNIPort T r.1.egress with
  | some r => do return [{}, ← hopAt r.2 1]
  | none => .error (noRoute "upstream " ingress egress)

/-- The half route with the first hop of any route that starts at the port. -/
def downstreamHalfRoute (ingress egress : UInt32) : Except Err (List Hop) :=
  match T.routes.find? fun r => r.1.ingress = ingress with
  | some r => do return [← hopAt r.2 0, {}]
  | none => .error (noRoute "downstream " ingress egress)

def getPortRoute (ingressPortNo egressPortNo : UInt32) : Except Err (List Hop) :=
  if ingressPortNo = 0 && isNNIPort T egressPortNo then
    upstreamHalfRoute T ingressPortNo egressPortNo
  else if egressPortNo = 0 then downstreamHalfRoute T ingressPortNo egressPortNo
  else getPreCalculatedRoute T ingressPortNo egressPortNo

def getRoute (ingressPortNo egressPortNo : UInt32) : Except Err (List Hop) :=
  if isControllerPort egressPortNo then
    if isNNIPort T ingressPortNo then
      -- a trap on the NNI port
      if T.routes.isEmpty then
        let hop : Hop := ⟨T.rootDeviceID, ingressPortNo, ingressPortNo⟩
        .ok [hop, hop]
      else upstreamHalfRoute T ingressPortNo egressPortNo
    else do
      -- as if the flow left through the first NNI port
      let nni ← getFirstNNIPort T
      getPortRoute T ingressPortNo nni
  else getPortRoute T ingressPortNo egressPortNo

end VolthaCore.Decomposition
