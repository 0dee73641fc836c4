import Mathlib.Logic.Function.Basic

/-!
# Connections of an HDL assembly

`Assembly::parseConnection` of `hdl-assembly.cxx` and what it calls, for an assembly whose instances have been
bound to workers. A connection attaches ports of instances, at an index in each, and may make an external port
of the assembly. `size_t` is `UInt64`.
-/

namespace OpenCpi.HdlAssembly

/-- `OU::Assembly::Role` -/
structure Role where
  knownRole : Bool
  bidirectional : Bool
  provider : Bool
  deriving DecidableEq, Repr

/-- `Port` of a worker: an array of `count` ports. -/
structure Port where
  name : String
  count : UInt64
  isData : Bool
  isProducer : Bool
  isBidirectional : Bool
  isOptional : Bool
  master : Bool
  /-- The type is `TimePort`. -/
  isTime : Bool
  deriving DecidableEq, Repr

/-- `OU::Assembly::Port`: what a connection says about one of its ports. -/
structure ConnPort where
  inst : Nat
  name : String
  index : UInt64
  role : Role
  deriving DecidableEq, Repr

/-- `OU::Assembly::External` -/
structure External where
  name : String
  index : UInt64
  count : UInt64
  role : Role
  deriving DecidableEq, Repr

/-- `OU::Assembly::Connection` -/
structure ConnDesc where
  name : String
  ports : List ConnPort
  externals : List External
  deriving DecidableEq, Repr

/-- How the parser fails: with a message, at an assertion, or with an access to `m_connected` behind its end. -/
inductive Fault where
  | message (text : String)
  | assertion
  | outOfRange
  deriving DecidableEq, Repr

/-- `InstancePort` -/
structure InstancePort where
  port : Port
  connected : List Bool
  role : Role
  deriving DecidableEq, Repr

/-- An instance, and a port of its worker. -/
abbrev PortRef := Nat × Nat

/-- The port that is attached: one of an instance, or an external one of the assembly. -/
inductive Target where
  | inst (ref : PortRef)
  | ext (n : Nat)
  deriving DecidableEq, Repr

def Target.instPort : Target → Option PortRef
  | .inst ref => some ref
  | .ext _ => none

/-- `m_external` is not `NULL`. -/
def Target.isExternal : Target → Bool
  | .inst _ => false
  | .ext _ => true

structure Attachment where
  target : Target
  index : UInt64
  deriving DecidableEq, Repr

structure Connection where
  name : String
  count : UInt64
  attachments : List Attachment
  deriving DecidableEq, Repr

structure Assembly where
  ports : PortRef → InstancePort
  externals : List InstancePort
  connections : List Connection

/-- The ports of the worker of each instance. -/
abbrev Workers := List (List Port)

def Port.none : Port := ⟨"", 0, false, false, false, false, false, false⟩

def Workers.port (w : Workers) (ref : PortRef) : Port := (w.getD ref.1 []).getD ref.2 .none

/-- `InstancePort::init` -/
def InstancePort.init (p : Port) (ext : Option External) : InstancePort :=
  let role : Role :=
    if p.isData then
      if p.isBidirectional then ⟨true, true, false⟩ else ⟨true, false, !p.isProducer⟩
    else ⟨false, false, false⟩
  { port := p
    connected := List.replicate p.count.toNat false
    role := match ext with
      | some ext => if ext.role.knownRole && !ext.role.bidirectional then ext.role else role
      | none => role }

/-! ## Finding a port -/

/-- `!strcasecmp(a, b)` -/
def sameName (a b : String) : Bool := a.toList.map Char.toLower == b.toList.map Char.toLower

/-- A turn of the loop of `findPort`. -/
def findStep (ap : ConnPort) (found : Option PortRef) (p : Port × Nat) : Except Fault (Option PortRef) :=
  if ap.name = "" then
    if ap.role.knownRole && p.1.isData && p.1.isProducer != ap.role.provider then
      if found.isSome then .error (.message "Ambiguous connection to unnamed port")
      else .ok (some (ap.inst, p.2))
    else .ok found
  else if sameName p.1.name ap.name then .ok (some (ap.inst, p.2))
  else .ok found

/-- `Assembly::findPort` -/
def findPort (w : Workers) (ap : ConnPort) : Except Fault (Option PortRef) :=
  (w.getD ap.inst []).zipIdx.foldlM (findStep ap) none

/-! ## Attaching -/

/-- A turn of the loop of `InstancePort::attach`. -/
def InstancePort.mark (ip : InstancePort) (n : Nat) : Except Fault InstancePort :=
  match ip.connected[n]? with
  | none => .error .outOfRange
  | some connected =>
    if connected && !(ip.port.isTime && ip.port.master) then
      .error (.message "Multiple connections not allowed for port")
    else .ok { ip with connected := ip.connected.set n true }

/-- `InstancePort::attach`: `for (size_t n = index; n < count; n++)`. -/
def InstancePort.attach (ip : InstancePort) (count index : UInt64) : Except Fault InstancePort :=
  if count = 0 then .error .assertion
  else (List.range' index.toNat (count.toNat - index.toNat)).foldlM InstancePort.mark ip

/-! ## Parsing a connection -/

/-- The first pass: the count of the narrowest port from its index on. The connection has no count yet. -/
def scanPort (w : Workers) (minCount : UInt64) (ap : ConnPort) : Except Fault UInt64 := do
  match ← findPort w ap with
  | none => .error (.message "port of instance not found")
  | some ref =>
    let p := w.port ref
    if ap.index + 1 > p.count then .error (.message "invalid index/count for connection")
    else
      let count := p.count - ap.index
      return if count < minCount then count else minCount

/-- What the second pass has done so far. -/
structure Pass where
  ports : PortRef → InstancePort
  attachments : List Attachment
  seen : List ConnPort

/-- The role of a port in a connection, and of its instance port. -/
def meetRoles (p : Port) (found ap : Role) : Except Fault (Role × Role) :=
  if ap.knownRole then
    if (!p.isData || !p.isBidirectional) && (ap.bidirectional || p.isProducer == ap.provider) then
      .error (.message "Role of port in connection incompatible with port")
    else .ok (if !found.knownRole || found.bidirectional then ap else found, ap)
  else if p.isData then .ok (found, ⟨true, p.isBidirectional, !p.isProducer⟩)
  else .ok (found, ⟨true, false, !p.master⟩)

/-- The second pass. -/
def attachConnPort (w : Workers) (count : UInt64) (s : Pass) (ap : ConnPort) : Except Fault Pass := do
  match ← findPort w ap with
  | none => .error .assertion
  | some ref =>
    let found := s.ports ref
    let roles ← meetRoles found.port found.role ap.role
    let ip ← { found with role := roles.1 }.attach count ap.index
    return { ports := Function.update s.ports ref ip
             attachments := s.attachments ++ [⟨.inst ref, ap.index⟩]
             seen := s.seen ++ [{ ap with role := roles.2 }] }

/-- The port that is made for an external one. -/
def externalPort (p : Port) (count : UInt64) (ext : External) : Except Fault Port :=
  let p := { p with name := ext.name, count := if ext.count = 0 then count else ext.count }
  if p.isData then
    if !ext.role.provider then
      if !p.isProducer && !p.isBidirectional then .error (.message "external producer role incompatible with port")
      else .ok { p with isProducer := true, isBidirectional := false }
    else if ext.role.bidirectional then
      if !p.isBidirectional then .error (.message "external bidirectional role incompatible with port")
      else .ok p
    else if p.isProducer then .error (.message "external consumer role incompatible with port")
    else .ok { p with isBidirectional := false }
  else .ok p

/-- The instance port for the only external of a connection, attached at 0. -/
def attachExternal (s : Pass) (count : UInt64) (ext : External) : Except Fault InstancePort :=
  match s.seen, s.attachments with
  | [ap], [⟨.inst ref, _⟩] => do
    let ext := if ext.role.knownRole then ext else { ext with role := ap.role }
    let p := (s.ports ref).port
    if ext.index + ext.count > p.count then .error (.message "External port can't have index/count")
    else
      let p ← externalPort p count ext
      (InstancePort.init p (some ext)).attach count 0
  | _, _ => .error .assertion

/-- `Assembly::parseConnection` -/
def parseConnection (w : Workers) (a : Assembly) (conn : ConnDesc) : Except Fault Assembly := do
  let count ← conn.ports.foldlM (scanPort w) 1000
  let s ← conn.ports.foldlM (attachConnPort w count) ⟨a.ports, [], []⟩
  if count = 0 then .error .assertion
  else
    match conn.externals with
    | [] => return { a with
        ports := s.ports
        connections := a.connections ++ [⟨conn.name, count, s.attachments⟩] }
    | [ext] =>
      let ip ← attachExternal s count ext
      return { ports := s.ports
               externals := a.externals ++ [ip]
               connections := a.connections ++
                 [⟨conn.name, count, s.attachments ++ [⟨.ext a.externals.length, 0⟩]⟩] }
    | _ => .error (.message "multiple external attachments on a connection unsupported")

/-- A port that has to be connected, and is not. -/
def unconnected (w : Workers) (a : Assembly) : Bool :=
  w.zipIdx.any fun i => i.1.zipIdx.any fun p =>
    p.1.isData && !p.1.isOptional &&
      a.connections.all fun c => c.attachments.all fun at_ => at_.target != .inst (i.2, p.2)

/-- `Assembly::parseAssy` from the connections on. -/
def parseAssy (w : Workers) (conns : List ConnDesc) : Except Fault Assembly := do
  let a ← conns.foldlM (parseConnection w) ⟨fun ref => .init (w.port ref) none, [], []⟩
  if unconnected w a then .error (.message "Port is not connected and not optional") else return a

end OpenCpi.HdlAssembly
