import OpenCpi.Assembly.Parse

/-!
# Instances and connections of an assembly

`Assembly::parse` of `OcpiUtilAssembly.cxx` with what names the instances and makes the connections. The values of
properties are read as in `OpenCpi.Assembly.Parse`.

The elements have the attributes that the names and the connections come from. What the other checks of an element
answer (of its other attributes and elements, of numbers, and of its parameters) belongs to the element: nothing, or
an error. What `format` makes of a text with one unsigned argument is a parameter, `none` where the behaviour is
undefined. Numbers of elements are natural numbers. The list of ports that an instance has is left out, and so are
counts, indices, URLs and the mapping policy.
-/

namespace OpenCpi.Util.Wiring

open Application (sameName)

/-- `"output"` -/
def output : Text := [111, 117, 116, 112, 117, 116]

/-- `"conn"` -/
def conn : Text := [99, 111, 110, 110]

/-- `"ext"` -/
def ext : Text := [101, 120, 116]

/-- `%u` -/
def unsignedText (n : Nat) : Text := (Nat.toDigits 10 n).map fun c => UInt8.ofNat c.toNat

/-! ## Elements -/

/-- A `port` element. `checks` is the answer on its elements, `index` the one on its number. -/
structure PortElement where
  checks : Option Text := none
  inst : Option Text
  index : Option Text := none
  name : Option Text := none
  fromPort : Option Text := none
  toPort : Option Text := none
  parameters : Option Text := none
deriving DecidableEq, Repr

/-- An `external` element. -/
structure ExternalElement where
  name : Option Text := none
  role : Option Text := none
  numbers : Option Text := none
  parameters : Option Text := none
deriving DecidableEq, Repr

/-- An `external` element of the assembly itself. -/
structure TopExternal extends ExternalElement where
  port : Option Text
  inst : Option Text
deriving DecidableEq, Repr

structure ConnectionElement where
  checks : Option Text := none
  name : Option Text := none
  parameters : Option Text := none
  external : Option Text := none
  externals : List ExternalElement := []
  ports : List PortElement
deriving DecidableEq, Repr

structure InstanceElement where
  checks : Option Text := none
  component : Option Text := none
  worker : Option Text := none
  elements : Option Text := none
  name : Option Text := none
  properties : List PropertyElement := []
  parameters : Option Text := none
  connect : Option Text := none
  fromPort : Option Text := none
  toPort : Option Text := none
  external : Option Text := none
deriving DecidableEq, Repr

structure AssemblyElement where
  checks : Option Text := none
  instances : List InstanceElement
  done : Option Text := none
  properties : List MappedElement := []
  connections : List ConnectionElement := []
  externals : List TopExternal := []
deriving DecidableEq, Repr

/-! ## The parsed assembly -/

/-- `Role` -/
structure Role where
  provider : Bool := false
  bidirectional : Bool := false
  knownRole : Bool := false
deriving DecidableEq, Repr

structure External where
  name : Text
  role : Role := {}
deriving DecidableEq, Repr

/-- A pointer to a port: which connection it belongs to, and which port of it it is. -/
structure PortRef where
  connection : Nat
  port : Nat
deriving DecidableEq, Repr

structure Port where
  name : Text
  role : Role
  inst : Nat
  connectedPort : Option PortRef := none
deriving DecidableEq, Repr

structure Connection where
  name : Text
  externals : List External := []
  ports : List Port := []
deriving DecidableEq, Repr

/-- The assembly with the instances, `m_doneInstance` and `m_connections`. -/
structure Wired where
  assembly : Assembly
  doneInstance : Option Nat
  connections : List Connection
deriving DecidableEq, Repr

/-! ## Errors -/

inductive Problem where
  | check (answer : Text)
  | assembly (error : Assembly.Error)
  | componentInvalid
  | duplicateConnection (name : Text)
  | invalidRole (role : Text)
  | noPorts
  | onlyOne
  | noPortName
deriving DecidableEq, Repr

inductive Failure where
  /-- An error is returned. -/
  | refused (problem : Problem)
  /-- A failed assertion, a null pointer that is followed, or an undefined format. -/
  | crashed
deriving DecidableEq, Repr

abbrev Result := Except Failure

def refuse {α : Type} (problem : Problem) : Result α := .error (.refused problem)

/-- The answer of a check, the null pointer when there is nothing wrong. -/
def check : Option Text → Result Unit
  | none => .ok ()
  | some answer => refuse (.check answer)

def lift {α : Type} : Except Assembly.Error α → Result α
  | .ok a => .ok a
  | .error error => refuse (.assembly error)

def required (attr element : String) (value : Option Text) : Result Text :=
  lift (Assembly.getRequiredString attr element value)

/-! ## Instances -/

/-- `strrchr` with the part behind it: the text behind the last `c`, if there is one. -/
def afterLast (c : UInt8) (s : Text) : Text := (s.reverse.takeWhile (· != c)).reverse

/-- `baseName`: the file name without its suffix. -/
def baseName (path : Text) : Text :=
  let file := afterLast slash path
  if dot ∈ file.drop 1 then file.take (file.length - (afterLast dot file).length - 1) else file

/-- The base that a default name has, empty without the attribute. -/
def base (isImpl : Bool) (ix : InstanceElement) : Text :=
  if isImpl then baseName (ix.worker.getD []) else afterLast dot (ix.component.getD [])

/-- The comparison in the loop over all instances. -/
def sameBase (isImpl : Bool) (myBase : Text) (x : InstanceElement) : Bool :=
  !(base isImpl x).isEmpty && sameName (base isImpl x) myBase

/-- The default name of the instance with an ordinal: the base, with a number unless it is the only one. -/
def defaultName (isImpl : Bool) (all : List InstanceElement) (ordinal : Nat) (myBase : Text) : Text :=
  if 1 < all.countP (sameBase isImpl myBase) then
    myBase ++ unsignedText ((all.take ordinal).countP (sameBase isImpl myBase))
  else myBase

/-- The name of an instance, where an empty attribute counts as none. -/
def instanceName (isImpl : Bool) (all : List InstanceElement) (ordinal : Nat) (ix : InstanceElement) : Text :=
  if ix.name.getD [] = [] then defaultName isImpl all ordinal (base isImpl ix) else ix.name.getD []

/-- The attribute that says what the instance is of. Without a component a null pointer becomes a string. -/
def checkKind (isImpl : Bool) (ix : InstanceElement) : Result Unit :=
  if isImpl then
    if ix.component.isSome then refuse .componentInvalid
    else do
      let _ ← required "worker" "instance" ix.worker
      pure ()
  else if ix.component.isSome then .ok () else .error .crashed

variable (file2String : Text → Text × Option Text) (format : Text → Nat → Option Text)

/-- `Instance::parse` -/
def parseInstance (isImpl : Bool) (all : List InstanceElement) (ordinal : Nat) (ix : InstanceElement) :
    Result Assembly.Instance := do
  check ix.checks
  checkKind isImpl ix
  check ix.elements
  let properties ← lift (ix.properties.mapM (Assembly.Property.parse file2String))
  check ix.parameters
  return { name := instanceName isImpl all ordinal ix, properties }

/-! ## Connections -/

/-- `getInstance` -/
def getInstance (a : Assembly) (name : Text) : Result Nat := lift (a.getInstance name)

/-- `Port::parse`: the name of the port, whether it is an input, and whether its role is known. -/
def portName (x : PortElement) : Result (Text × Bool × Bool) :=
  let name := x.name.getD []
  let fromPort := x.fromPort.getD []
  let toPort := x.toPort.getD []
  if name ≠ [] then
    if fromPort ≠ [] ∨ toPort ≠ [] then refuse .onlyOne else .ok (name, false, false)
  else if fromPort ≠ [] then
    if toPort ≠ [] then refuse .onlyOne else .ok (fromPort, false, true)
  else if toPort ≠ [] then .ok (toPort, true, true)
  else refuse .noPortName

/-- `Port::parse` -/
def parsePort (a : Assembly) (x : PortElement) : Result Port := do
  check x.checks
  let iName ← required "instance" "port" x.inst
  check x.index
  let inst ← getInstance a iName
  let (name, isInput, isKnown) ← portName x
  check x.parameters
  return { name, role := { provider := isInput, knownRole := isKnown }, inst }

/-- `External::init`. The empty role counts as none. -/
def roleOf (role : Text) : Result Role :=
  let isOneOf (names : List String) : Bool := names.any fun n => sameName role (n.toList.map fun c => UInt8.ofNat c.toNat)
  if isOneOf ["provider", "input", "consumer", "slave"] then .ok { provider := true, knownRole := true }
  else if isOneOf ["user", "output", "producer", "master"] then .ok { knownRole := true }
  else if isOneOf ["bidirectional"] then .ok { bidirectional := true, knownRole := true }
  else if role ≠ [] then refuse (.invalidRole role)
  else .ok {}

/-- `External::parse`. `default` is the default name with the number `n`. -/
def parseExternal (default : Nat → Option Text) (n : Nat) (x : ExternalElement) : Result (External × Nat) := do
  let (name, n) ←
    if x.name.getD [] = [] then
      match default n with
      | some name => .ok (name, n + 1)
      | none => .error .crashed
    else .ok (x.name.getD [], n)
  check x.numbers
  let role ← roleOf (x.role.getD [])
  check x.parameters
  return ({ name, role }, n)

/-- The loop over the externals of a connection. The number goes on with each of them, and once more with each
default name. -/
def parseExternals (n : Nat) : List ExternalElement → Result (List External)
  | [] => .ok []
  | x :: rest => do
    let (e, n) ← parseExternal (fun n => some (ext ++ unsignedText n)) n x
    let es ← parseExternals (n + 1) rest
    return e :: es

/-- `p.m_connectedPort = &q; q.m_connectedPort = &p` -/
def Connection.join (c : Connection) (self p q : Nat) : Connection :=
  { c with
    ports := (c.ports.modify p ({ · with connectedPort := some ⟨self, q⟩ })).modify q
      ({ · with connectedPort := some ⟨self, p⟩ }) }

/-- The loop over the ports of a connection, which is the one with the number `self`. -/
def parsePorts (a : Assembly) (self : Nat) (other : Option Nat) :
    List PortElement → Connection → Result Connection
  | [], c => .ok c
  | x :: rest, c => do
    let p ← parsePort a x
    let c' := { c with ports := c.ports ++ [p] }
    match other with
    | some o =>
      if p.connectedPort = none ∧ (c.ports[o]?.bind Port.connectedPort) = none then
        parsePorts a self (some o) rest (c'.join self c.ports.length o)
      else .error .crashed
    | none => parsePorts a self (some c.ports.length) rest c'

/-- `getNameWithDefault` for a connection. -/
def connectionName (n : Nat) (cx : ConnectionElement) : Text := cx.name.getD (conn ++ unsignedText n)

/-- The number for the next default name. -/
def nextNumber (n : Nat) (cx : ConnectionElement) : Nat := if cx.name.isSome then n else n + 1

/-- The external that the attribute of a connection stands for. -/
def ownExternals (name : Text) : Option Text → Result (List External)
  | some role => do
    let role ← roleOf role
    return [{ name, role }]
  | none => .ok []

/-- `Connection::parse` -/
def parseConnectionElement (a : Assembly) (self n : Nat) (cx : ConnectionElement) : Result Connection := do
  check cx.checks
  check cx.parameters
  let own ← ownExternals (connectionName n cx) cx.external
  let externals ← parseExternals 0 cx.externals
  if cx.ports.length < 1 then refuse .noPorts
  else parsePorts a self none cx.ports { name := connectionName n cx, externals := own ++ externals }

/-- The loop over the connections. -/
def parseConnectionElements (a : Assembly) :
    Nat → List ConnectionElement → List Connection → Result (List Connection)
  | _, [], cs => .ok cs
  | n, cx :: rest, cs => do
    let c ← parseConnectionElement a cs.length n cx
    parseConnectionElements a (nextNumber n cx) rest (cs ++ [c])

/-- The check of `addConnection`. -/
def isDuplicate (cs : List Connection) (name : Text) : Bool := cs.any (sameName ·.name name)

/-- `addPort` -/
def Connection.addPort (c : Connection) (inst : Nat) (port : Option Text) (isInput known : Bool) : Connection :=
  { c with
    ports := c.ports ++ [{ name := port.getD [], role := { provider := isInput, knownRole := known }, inst }] }

/-- `addExternalConnection` for an element. -/
def addExternalElement (a : Assembly) (cs : List Connection) (ex : TopExternal) : Result (List Connection) := do
  let port ← required "port" "external" ex.port
  let name := if ex.name.getD [] = [] then port else ex.name.getD []
  if isDuplicate cs name then refuse (.duplicateConnection name)
  else
    let (e, _) ← parseExternal (format name) 0 ex.toExternalElement
    let iName ← required "instance" "external" ex.inst
    let inst ← getInstance a iName
    return cs ++ [({ name, externals := [e] } : Connection).addPort inst (some port) false false]

/-- The name of an instance. -/
def nameAt (a : Assembly) (n : Nat) : Text := (a.instances[n]?.map Assembly.Instance.name).getD []

/-- The name of a connection that an instance asks for. -/
def portConnectionName (instName : Text) (fromPort : Option Text) : Text := instName ++ dot :: fromPort.getD output

/-- `addPortConnection`, with the error that it returns. -/
def addPortConnection (a : Assembly) (cs : List Connection) (fromInst : Nat) (fromPort : Option Text) (toInst : Nat)
    (toPort : Option Text) : List Connection × Option Problem :=
  let name := portConnectionName (nameAt a fromInst) fromPort
  if isDuplicate cs name then (cs, some (.duplicateConnection name))
  else
    let c := (({ name } : Connection).addPort toInst toPort true true).addPort fromInst fromPort false true
    (cs ++ [c.join cs.length 0 1], none)

/-- `addExternalConnection` for an attribute. -/
def addExternalConnection (cs : List Connection) (inst : Nat) (port : Text) : List Connection × Option Problem :=
  if isDuplicate cs port then (cs, some (.duplicateConnection port))
  else (cs ++ [({ name := port, externals := [{ name := port }] } : Connection).addPort inst (some port) false false],
    none)

/-- The part of `parseConnection` on `connect`. -/
def connectPart (a : Assembly) (ordinal : Nat) (ix : InstanceElement) (cs : List Connection) :
    Result (List Connection × Option Problem) :=
  match ix.connect with
  | some c => do
    let n ← getInstance a c
    return addPortConnection a cs ordinal ix.fromPort n ix.toPort
  | none => .ok (cs, none)

/-- `parseConnection`. The error of the second part takes the place of that of the first. -/
def parseConnection (a : Assembly) (ordinal : Nat) (ix : InstanceElement) (cs : List Connection) :
    Result (List Connection) := do
  let (cs, err) ← connectPart a ordinal ix cs
  let (cs, err) := match ix.external with
    | some e => addExternalConnection cs ordinal e
    | none => (cs, err)
  match err with
  | none => return cs
  | some problem => refuse problem

/-- The last loop, over the instances. -/
def parseConnections (a : Assembly) : Nat → List InstanceElement → List Connection → Result (List Connection)
  | _, [], cs => .ok cs
  | ordinal, ix :: rest, cs => do
    let cs ← parseConnection a ordinal ix cs
    parseConnections a (ordinal + 1) rest cs

/-- `done` -/
def parseDone (a : Assembly) : Option Text → Result (Option Nat)
  | some name => do
    let n ← getInstance a name
    return some n
  | none => .ok none

/-- `Assembly::parse` -/
def parse (isImpl : Bool) (ax : AssemblyElement) : Result Wired := do
  check ax.checks
  let instances ← ax.instances.zipIdx.mapM fun ix => parseInstance file2String isImpl ax.instances ix.2 ix.1
  let doneInstance ← parseDone { instances } ax.done
  let a ← lift (ax.properties.foldlM (Assembly.parseMapped file2String) { instances })
  let connections ← parseConnectionElements a 0 ax.connections []
  let connections ← ax.externals.foldlM (addExternalElement format a) connections
  let connections ← parseConnections a 0 ax.instances connections
  return { assembly := a, doneInstance, connections }

end OpenCpi.Util.Wiring
