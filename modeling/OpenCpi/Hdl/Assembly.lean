import OpenCpi.Hdl.Clocks
import OpenCpi.Hdl.Connection

/-!
# Parsing an HDL assembly

`Worker::parseHdlAssy` of `hdl-assembly.cxx` for an application assembly: `parseAssy` attaches the connections to
the ports of the instances, the WCI ports of the instances are connected, and the clocks are mapped.
-/

namespace OpenCpi.HdlAssy

open HdlAssembly (ConnDesc)
open HdlClocks (PortType Clock Fault Parsed mapClocks)

/-- `Port` of a worker: what connections and what clocks are made of. A count of 0 in the description becomes 1. -/
structure Port where
  name : String
  type : PortType
  count : UInt64
  isData : Bool
  isProducer : Bool
  isBidirectional : Bool
  isOptional : Bool
  master : Bool
  clock : Nat
  positive : count ≠ 0

def Port.attached (p : Port) : HdlAssembly.Port :=
  ⟨p.name, p.count, p.isData, p.isProducer, p.isBidirectional, p.isOptional, p.master, p.type == .time⟩

def Port.clocked (p : Port) : HdlClocks.Port := ⟨p.type, p.isData, p.master, p.clock⟩

structure Worker where
  noControl : Bool
  ports : List Port
  clocks : List Clock

def Worker.clocked (w : Worker) : HdlClocks.Worker := ⟨w.noControl, w.ports.map Port.clocked, w.clocks⟩

/-- The instances with their workers, and the connections. -/
structure Assembly where
  instances : List Worker
  connections : List ConnDesc

def Assembly.workers (a : Assembly) : HdlAssembly.Workers := a.instances.map fun w => w.ports.map Port.attached

def faultOf : HdlAssembly.Fault → Fault
  | .message text => .message text
  | .assertion => .assertion
  | .outOfRange => .outOfRange

/-- `OU::Assembly::Connection::parse`: each port behind the first is connected to that one, which has to be free. -/
def checkPorts (conn : ConnDesc) : Except Fault Unit :=
  if conn.ports.isEmpty then throw (.message "no ports found under connection")
  else if 2 < conn.ports.length then throw .assertion
  else return ()

/-- The connection `wci0` and so on, to the first port of a worker. -/
def connectControl (b : HdlAssembly.Assembly) (i : Worker × Nat) : Except Fault Unit :=
  match i.1.ports with
  | [] => throw .outOfRange
  | p :: _ =>
    if p.type = .wci ∧ i.1.noControl = false then
      ((b.ports (i.2, 0)).attach 1 0).mapError faultOf >>= fun _ => return ()
    else return ()

/-- The ports of instances on a connection, and whether an external one is there. -/
def connectionOf (c : HdlAssembly.Connection) : HdlClocks.Connection :=
  ⟨c.attachments.filterMap (·.target.instPort), c.attachments.any (·.target.isExternal)⟩

/-- `Worker::parseHdlAssy` -/
def parseHdlAssy (a : Assembly) : Except Fault Parsed := do
  a.connections.forM checkPorts
  let b ← (HdlAssembly.parseAssy a.workers a.connections).mapError faultOf
  a.instances.zipIdx.forM (connectControl b)
  mapClocks ⟨a.instances.map Worker.clocked, b.connections.map connectionOf⟩

end OpenCpi.HdlAssy
