import Mathlib.Logic.Function.Basic

/-!
# Clocks of an HDL assembly

The clock mapping of `Worker::parseHdlAssy` of `hdl-assembly.cxx`, for an application assembly whose connections
have been parsed. A clock of the assembly is its place in `m_clocks`; the first is that of the WCI port of the
assembly. Instances are of workers, not of assemblies, and each port of a worker has a clock.
-/

namespace OpenCpi.HdlClocks

/-- `WIPType` -/
inductive PortType where
  | wci
  | wsi
  | wmi
  | wdi
  | wmemi
  | wti
  | cp
  | noc
  | metadata
  | time
  deriving DecidableEq, Repr

/-- `Port` of a worker; `clock` is an ordinal in the clocks of the worker. -/
structure Port where
  type : PortType
  isData : Bool
  master : Bool
  clock : Nat
  deriving DecidableEq, Repr

/-- `Clock` of a worker. -/
structure Clock where
  /-- `port` is not `NULL`. -/
  owned : Bool
  /-- It is the `wci_Clk` of a worker without a control port. -/
  wci : Bool
  deriving DecidableEq, Repr

structure Worker where
  noControl : Bool
  ports : List Port
  clocks : List Clock
  deriving DecidableEq, Repr

/-- An instance, and a port of its worker. -/
abbrev PortRef := Nat × Nat

/-- An instance, and a clock of its worker. -/
abbrev ClockRef := Nat × Nat

/-- A connection: its attachments to ports of instances, and whether it has an external port. -/
structure Connection where
  ports : List PortRef
  external : Bool
  deriving DecidableEq, Repr

structure Assembly where
  instances : List Worker
  connections : List Connection
  deriving DecidableEq, Repr

namespace Assembly

variable (a : Assembly)

def worker (i : Nat) : Worker := a.instances.getD i ⟨true, [], []⟩

def port (ref : PortRef) : Port := (a.worker ref.1).ports.getD ref.2 ⟨.wdi, false, false, 0⟩

/-- The worker clock of a port. -/
def clockOf (ref : PortRef) : ClockRef := (ref.1, (a.port ref).clock)

def clock (x : ClockRef) : Clock := (a.worker x.1).clocks.getD x.2 ⟨false, false⟩

end Assembly

/-- The clock of the WCI slave of a worker, its first port. -/
def Worker.slaveClock (w : Worker) : Option Nat :=
  match w.ports with
  | [] => none
  | p :: _ => if p.type = .wci ∧ p.master = false then some p.clock else none

/-- How the parser fails: with a message, at `c.m_external` being `NULL`, at an assertion, or with an access behind
the end of a vector. -/
inductive Fault where
  | message (text : String)
  | nullExternal
  | assertion
  | outOfRange
  deriving DecidableEq, Repr

/-- A connection with `m_clock`, and the clock of its external port. -/
structure Conn where
  desc : Connection
  clock : Option Nat
  extClock : Option Nat
  deriving DecidableEq, Repr

/-- The clocks of the assembly: how many there are, the variable `clk`, and the maps of the instances. -/
structure Clocks where
  nClocks : Nat
  clk : Nat
  map : ClockRef → Option Nat

def Clocks.set (g : Clocks) (x : ClockRef) (k : Nat) : Clocks := { g with map := Function.update g.map x (some k) }

/-- `clk = addClock()`, which a worker clock is mapped to. -/
def Clocks.add (g : Clocks) (x : ClockRef) : Clocks :=
  { nClocks := g.nClocks + 1, clk := g.nClocks, map := Function.update g.map x (some g.nClocks) }

/-! ## The WCI clock -/

/-- The instances with a control connection. -/
def controlled (a : Assembly) : List Nat :=
  (List.range a.instances.length).filter fun i => match (a.worker i).ports with
    | [] => false
    | p :: _ => p.type == .wci && !(a.worker i).noControl

/-- The connections `wci0` and so on, to the WCI port of the assembly. -/
def wciConnections (a : Assembly) : List Connection := (controlled a).map fun i => ⟨[(i, 0)], true⟩

/-- The clocks of the WCI slaves are mapped. -/
def mapSlaves (a : Assembly) (g : Clocks) : Clocks :=
  (List.range a.instances.length).foldl (fun g i => match (a.worker i).slaveClock with
    | some k => g.set (i, k) 0
    | none => g) g

/-- An attachment that makes its connection use the WCI clock. -/
def usesWci (a : Assembly) (ref : PortRef) : Bool :=
  (a.port ref).type == .wci || ((a.worker ref.1).noControl && !(a.clock (a.clockOf ref)).owned) ||
    (a.worker ref.1).slaveClock == some (a.port ref).clock

/-- The WCI clock for a connection, where it can be. -/
def wciConnection (a : Assembly) (g : Clocks) (c : Conn) : Except Fault (Clocks × Conn) :=
  if c.desc.ports.any (usesWci a) then
    .ok (c.desc.ports.foldl (fun g ref => g.set (a.clockOf ref) 0) g,
      { c with clock := some 0, extClock := if c.desc.external then some 0 else c.extClock })
  else .ok (g, c)

/-! ## The other clocks -/

/-- A port of a connection. -/
def mapPort (a : Assembly) (s : Clocks × Conn) (ref : PortRef) : Except Fault (Clocks × Conn) :=
  let (g, c) := s
  let x := a.clockOf ref
  if (a.port ref).isData then
    match c.clock with
    | none =>
      match g.map x with
      | some k => .ok (g, { c with clock := some k })
      | none =>
        if (a.clock x).owned then
          if c.desc.external then .ok (g.add x, { c with clock := some g.nClocks })
          else .error .nullExternal
        -- `clk` is what was added last
        else .ok (g.set x g.clk, { c with clock := some g.clk })
    | some k =>
      match g.map x with
      | some k' => if k' ≠ k then .error (.message "Connection has clock conflict") else .ok (g, c)
      | none => .ok (g.set x k, c)
  else .ok (g, c)

def mapConnection (a : Assembly) (g : Clocks) (c : Conn) : Except Fault (Clocks × Conn) :=
  c.desc.ports.foldlM (mapPort a) (g, c)

/-- A loop over the connections. -/
def overConns (f : Clocks → Conn → Except Fault (Clocks × Conn)) : Clocks → List Conn →
    Except Fault (Clocks × List Conn)
  | g, [] => .ok (g, [])
  | g, c :: cs => do
    let (g, c) ← f g c
    let (g, cs) ← overConns f g cs
    return (g, c :: cs)

/-- The ports of the instances, in the order of the loops over them. -/
def instancePorts (a : Assembly) : List PortRef :=
  (List.range a.instances.length).flatMap fun i =>
    (List.range (a.worker i).ports.length).map fun n => (i, n)

/-- A data port that is not connected. -/
def mapUnconnected (a : Assembly) (g : Clocks) (ref : PortRef) : Except Fault Clocks :=
  if (a.port ref).isData && (g.map (a.clockOf ref)).isNone then
    if (a.port ref).type = .wsi ∨ (a.port ref).type = .wmi then
      .error (.message "Unconnected data interface has its own clock")
    else .ok (g.add (a.clockOf ref))
  else .ok g

/-! ## External ports -/

/-- `ip->m_attachments` is empty. -/
def unattached (a : Assembly) (ref : PortRef) : Bool := a.connections.all fun c => !c.ports.contains ref

/-- The connection that `externalizePort` makes. -/
def externalizePort (a : Assembly) (g : Clocks) (ref : PortRef) : Except Fault Conn :=
  match g.map (a.clockOf ref) with
  | none => .error .assertion
  | some k => .ok ⟨⟨[ref], true⟩, some k, some k⟩

/-- Ports that are made external. -/
def externalized (a : Assembly) (ref : PortRef) : Bool :=
  ((a.port ref).type == .wti && !(a.port ref).master || (a.port ref).type == .wmemi && (a.port ref).master) &&
    unattached a ref

/-- The switch over the type of a port. -/
def processPort (a : Assembly) (g : Clocks) (conns : List Conn) (ref : PortRef) : Except Fault (List Conn) :=
  if (a.port ref).type = .wdi then .error (.message "Bad port type")
  else if externalized a ref then do
    let c ← externalizePort a g ref
    return conns ++ [c]
  else .ok conns

/-- `assert(p->clock == c.m_clock)` for an external port. -/
def checkExternal (c : Conn) : Bool := !c.desc.external || c.extClock == c.clock

/-- What `parseHdlAssy` makes of the clocks. -/
structure Parsed where
  map : ClockRef → Option Nat
  conns : List Conn

/-- `Worker::parseHdlAssy` from the clocks of the WCI slaves on. -/
def mapClocks (a : Assembly) : Except Fault Parsed := do
  let conns := a.connections.map (fun c => ⟨c, none, none⟩) ++ (wciConnections a).map (fun c => ⟨c, none, some 0⟩)
  let (g, conns) ← overConns (wciConnection a) (mapSlaves a ⟨1, 0, fun _ => none⟩) conns
  let (g, conns) ← overConns (mapConnection a) g conns
  let g ← (instancePorts a).foldlM (mapUnconnected a) g
  let conns ← (instancePorts a).foldlM (processPort a g) conns
  if conns.all checkExternal then return ⟨g.map, conns⟩ else throw .assertion

/-- `Worker::parseHdlAssy` from the clock of the WCI port of the assembly on. -/
def parseHdlAssy (a : Assembly) : Except Fault Parsed :=
  if (controlled a).any fun i => !unattached a (i, 0) then
    throw (.message "Multiple connections not allowed for port")
  else mapClocks a

end OpenCpi.HdlClocks
