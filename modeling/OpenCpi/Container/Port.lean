import OpenCpi.Ior.Cdr

/-!
# Connecting ports

`OcpiContainerPort.cxx`. A user (output) port and a provider (input) port are connected, in one
process by `Port::connect`, or by an exchange of packed descriptors in up to five steps. Both ends
have to settle on the roles they play and on the size of the buffers.

What the containers do in `startConnect` and `finishConnect` is modelled as far as it is about the
role, the options and the size: the other fields of a descriptor are left as they are, and whether a
call throws is a parameter. Ports of one container are connected by the container: RCC ports after a
negotiation of their own (`connectInside`), HDL and OCL ports in the artifact, with nothing to negotiate.
-/

namespace OpenCpi.Container

open Infra Ior

/-! ## Descriptors -/

/-- `PortRole`; `NoRole` is `none` of an `Option`. -/
inductive Role where
  | activeMessage
  | activeFlowControl
  | activeOnly
  | passive
deriving DecidableEq, Repr

/-- The values of the enumeration; `NoRole` is 5. -/
def Role.number : Role → Nat
  | .activeMessage => 0
  | .activeFlowControl => 1
  | .activeOnly => 2
  | .passive => 3

def roleNumber : Option Role → Nat
  | some r => r.number
  | none => 5

/-- The role of a number that was packed. -/
def roleOf : Nat → Option Role
  | 0 => some .activeMessage
  | 1 => some .activeFlowControl
  | 2 => some .activeOnly
  | 3 => some .passive
  | _ => none

/-- `otherRoles` -/
def Role.other : Role → Role
  | .activeMessage => .activeFlowControl
  | .activeFlowControl => .activeMessage
  | .activeOnly => .passive
  | .passive => .activeOnly

/-- The option bit of a role. -/
def has (options : Nat) (r : Role) : Bool := options.testBit r.number

/-- The bit `MandatedRole`. -/
def mandated (options : Nat) : Bool := options.testBit 5

def mandate (options : Nat) : Nat := options ||| 2 ^ 5

/-- `Descriptors`, with `Desc_t`. The fields that are not negotiated are numbers of 32 bits, except
for the last three. -/
structure Descriptors where
  type : Nat
  role : Option Role
  options : Nat
  nBuffers : Nat
  dataBufferBaseAddr : Nat
  dataBufferPitch : Nat
  dataBufferSize : Nat
  metaDataBaseAddr : Nat
  metaDataPitch : Nat
  fullFlagBaseAddr : Nat
  fullFlagSize : Nat
  fullFlagPitch : Nat
  fullFlagValue : Nat
  emptyFlagBaseAddr : Nat
  emptyFlagSize : Nat
  emptyFlagPitch : Nat
  emptyFlagValue : Nat
  portId : Nat
  oep : Bytes
  cookie : Nat

/-- What is thrown: an `OU::Error`, or a failed assertion. -/
inductive Fault where
  | error (text : String)
  | assertion
deriving DecidableEq, Repr

/-! ## Packing -/

/-- The numbers of 32 bits that are packed, in their order. -/
def Descriptors.words (d : Descriptors) : List Nat :=
  [d.type, roleNumber d.role, d.options, d.nBuffers, d.dataBufferBaseAddr, d.dataBufferPitch,
    d.dataBufferSize, d.metaDataBaseAddr, d.metaDataPitch, d.fullFlagBaseAddr, d.fullFlagSize,
    d.fullFlagPitch, d.fullFlagValue, d.emptyFlagBaseAddr, d.emptyFlagSize, d.emptyFlagPitch,
    d.emptyFlagValue]

variable (native : Bool)

/-- `Port::packPortDesc` -/
def packPortDesc (d : Descriptors) : Bytes :=
  let s := nativeStyle native
  putULongLong s d.cookie (putString s d.oep (putULongLong s d.portId
    (putAll (putULong s) d.words (putBoolean native []))))

def getDescriptors : Decoder Descriptors := do
  let order ← getBoolean
  let words ← getAll (getULong native order) 17
  let portId ← getULongLong native order
  let oep ← getString native order
  let cookie ← getULongLong native order
  match words with
  | [type, role, options, nBuffers, dataBufferBaseAddr, dataBufferPitch, dataBufferSize,
      metaDataBaseAddr, metaDataPitch, fullFlagBaseAddr, fullFlagSize, fullFlagPitch, fullFlagValue,
      emptyFlagBaseAddr, emptyFlagSize, emptyFlagPitch, emptyFlagValue] =>
    return { type, role := roleOf role, options, nBuffers, dataBufferBaseAddr, dataBufferPitch,
             dataBufferSize, metaDataBaseAddr, metaDataPitch, fullFlagBaseAddr, fullFlagSize,
             fullFlagPitch, fullFlagValue, emptyFlagBaseAddr, emptyFlagSize, emptyFlagPitch,
             emptyFlagValue, portId, oep, cookie }
  | _ => throw .invalidData

/-- `Port::unpackPortDesc`. The callers do not look at its result; data that cannot be unpacked,
which no port sends, would leave the descriptor as it was. -/
def unpackPortDesc (data : Bytes) (d : Descriptors) : Descriptors :=
  match getDescriptors native ⟨data, 0⟩ with
  | .ok (d, _) => d
  | .error _ => d

/-! ## Parameters -/

/-- What is known of a port. `provider`, `canBeExternal` and the minimums do not change. -/
structure Port where
  provider : Bool
  canBeExternal : Bool
  minBufferCount : Nat
  minBufferSize : Nat
  name : String
  data : Descriptors
  /-- `getBufferLength` of the port set, if the port has one -/
  bufferLength : Nat := 0

/-- The connection parameters that are looked at. -/
structure Params where
  bufferCount : Option Nat
  bufferSize : Option Nat
  xferRole : Option String
deriving DecidableEq, Repr

/-- The role that a text names, in small or capital letters. -/
def roleNamed (s : String) : Option Role :=
  match s.toLower with
  | "passive" => some .passive
  | "active" | "activemessage" => some .activeMessage
  | "flowcontrol" | "activeflowcontrol" => some .activeFlowControl
  | "activeonly" => some .activeOnly
  | _ => none

/-- `bufferCount` -/
def setBufferCount (p : Port) : Option Nat → Except Fault Port
  | some n =>
    if n < p.minBufferCount then throw (.error "bufferCount is below worker's minimum")
    else return { p with data := { p.data with nBuffers := n } }
  | none => return p

/-- `bufferSize` -/
def setBufferSize (p : Port) : Option Nat → Except Fault Port
  | some n =>
    if n < p.minBufferSize then throw (.error "bufferSize is below worker's minimum")
    else return { p with data := { p.data with dataBufferSize := n } }
  | none => return p

/-- `xferRole` -/
def setXferRole (p : Port) : Option String → Except Fault Port
  | some s =>
    match roleNamed s with
    | none => throw (.error "xferRole property must be passive|active|flowcontrol|activeonly")
    | some r =>
      if has p.data.options r then
        return { p with data := { p.data with role := some r, options := mandate p.data.options } }
      else
        let name := p.name
        throw (.error s!"xferRole of \"{s}\" not supported by port \"{name}\"")
  | none => return p

/-- `PortData::setPortParams`, `BasicPort::setConnectParams` -/
def setConnectParams (p : Port) (params : Params) : Except Fault Port := do
  let p ← setBufferCount p params.bufferCount
  let p ← setBufferSize p params.bufferSize
  setXferRole p params.xferRole

/-! ## Negotiation -/

/-- The roles in the order of the enumeration. -/
def roles : List Role := [.activeMessage, .activeFlowControl, .activeOnly, .passive]

/-- `defaultRole` -/
def defaultRole (role : Option Role) (options : Nat) : Except Fault Role :=
  match role with
  | some r => return r
  | none =>
    match roles.find? (has options) with
    | some r => return r
    | none => throw (.error "Container port has no transfer roles")

/-- The end of `chooseRoles`: any combination. -/
def anyRoles (uOptions pOptions : Nat) : Except Fault (Role × Role) :=
  match roles.find? fun i => has uOptions i && has pOptions i.other with
  | some i => return (i, i.other)
  | none => throw (.error "No compatible combination of roles exist")

/-- The part of `chooseRoles` for preferences on both ends. -/
def choosePreferred (u p : Role) (uOptions pOptions : Nat) : Except Fault (Role × Role) :=
  if p = u.other then return (u, p)
  -- a preference against push
  else if u = .activeFlowControl ∧ has pOptions .activeMessage then return (u, .activeMessage)
  -- active push
  else if u = .activeMessage ∧ has pOptions .activeFlowControl then return (u, .activeFlowControl)
  else if p = .activeFlowControl ∧ has uOptions .activeMessage then return (.activeFlowControl, p)
  -- activeonly push
  else if u = .activeOnly ∧ has pOptions .passive then return (u, .passive)
  else if p = .passive ∧ has pOptions .activeOnly then return (u, .activeOnly)
  -- the better role, then the provider
  else if u.number < p.number ∧ has pOptions u.other then return (u, u.other)
  else if has uOptions p.other then return (p.other, p)
  else if has pOptions u.other then return (u, u.other)
  else anyRoles uOptions pOptions

/-- `chooseRoles` after both ends have a role. The branches for an end without one are never taken
then. -/
def chooseFrom (u p : Role) (uOptions pOptions : Nat) : Except Fault (Role × Role) :=
  if mandated pOptions then
    if u = p.other then return (u, p)
    else if mandated uOptions then throw (.error "Incompatible mandated transfer roles")
    else if has uOptions p.other then return (p.other, p)
    else throw (.error "No compatible role available against mandated role")
  else if mandated uOptions then
    if p = u.other then return (u, p)
    else if has pOptions u.other then return (u, u.other)
    else throw (.error "No compatible role available against mandated role")
  else choosePreferred u p uOptions pOptions

/-- `BasicPort::chooseRoles` -/
def chooseRoles (uRole : Option Role) (uOptions : Nat) (pRole : Option Role) (pOptions : Nat) :
    Except Fault (Role × Role) := do
  let u ← defaultRole uRole uOptions
  let p ← defaultRole pRole pOptions
  chooseFrom u p uOptions pOptions

/-- `BUFFER_ALIGNMENT` -/
def bufferAlignment : Nat := 16

def roundUp (value align : Nat) : Nat := (value + (align - 1)) / align * align

/-- The descriptor after the negotiation. -/
def Descriptors.settle (d : Descriptors) (r : Role) (size : Nat) : Descriptors :=
  { d with role := some r, dataBufferSize := size, options := mandate d.options }

/-- `Port::determineRoles`, on the descriptors of the user and of the provider. `OCPI_UTRUNCATE`
asserts that the size fits 32 bits. -/
def determineRoles (u p : Descriptors) : Except Fault (Descriptors × Descriptors) := do
  let (ru, rp) ← chooseRoles u.role u.options p.role p.options
  let size := roundUp (max u.dataBufferSize p.dataBufferSize) bufferAlignment
  if 2 ^ 32 ≤ size then throw .assertion
  else return (u.settle ru size, p.settle rp size)

/-! ## Containers -/

/-- The containers: `HdlContainer.cxx`, `OcpiOclContainer.cxx`, and `OcpiRccPort.cxx` with the ports
of the transport. -/
inductive Kind where
  | hdl
  | ocl
  | rcc
deriving DecidableEq, Repr

/-- `getPortDescriptor` of the transport: a role if there is none, and the size of the buffers. -/
def getPortDescriptor (p : Port) : Descriptors :=
  { p.data with
    role := p.data.role.or (some (if p.provider then .activeFlowControl else .activeMessage))
    dataBufferSize := p.bufferLength }

/-- `createInputPort` -/
def createInputPort (p : Port) : Port :=
  let p := { p with bufferLength := p.data.dataBufferSize }
  { p with data := getPortDescriptor p }

/-- `createOutputPort` for the descriptor of an input port. -/
def createOutputPort (u : Port) (inputDesc : Descriptors) : Port :=
  let u := { u with bufferLength := min u.data.dataBufferSize inputDesc.dataBufferSize }
  { u with data := getPortDescriptor u }

namespace Kind

/-- `startConnect` of a provider. -/
def startProvider : Kind → Port → Port
  | .rcc, p => createInputPort p
  | _, p => p

/-- `startConnect` of a user. -/
def startUser : Kind → Port → Descriptors → Port
  | .rcc, u, other => createOutputPort u other
  | _, u, _ => u

/-- `finishConnect` -/
def finish : Kind → Port → Port
  | .rcc, p => { p with data := getPortDescriptor p }
  | _, p => p

/-- What `finishConnect` of a user returns. For an RCC port that pushes it is the descriptor of the
shadow of the input port, when this is on another end point. -/
def answer (shadow : Option Descriptors) : Kind → Port → Option Descriptors
  | .hdl, u => some u.data
  | .ocl, _ => none
  | .rcc, u => some (if u.data.role = some .activeMessage then shadow.getD u.data else u.data)

end Kind

/-- The containers of the ports: whether their calls throw, and whether the later calls of
`finishConnect` return a descriptor. -/
structure Hooks where
  user : Kind
  provider : Kind
  shadow : Option Descriptors
  startProvider : Except Fault Unit
  startUser : Except Fault Unit
  finishUser : Except Fault Unit
  finishProvider : Except Fault Bool
  finishUserAgain : Except Fault Bool
  finishProviderAgain : Except Fault Unit

/-! ## Connecting -/

def checkExternal (p : Port) : Except Fault Unit :=
  let name := p.name
  if p.canBeExternal then return ()
  else throw (.error s!"Port \"{name}\" cannot be connected external to container")

/-- The calls of `finishConnect` in `Port::connect`. -/
def finishAll (h : Hooks) (u p : Port) : Except Fault (Port × Port) := do
  h.finishUser
  let u := h.user.finish u
  if (h.user.answer h.shadow u).isSome then
    let reply ← h.finishProvider
    let p := h.provider.finish p
    if reply then
      let reply ← h.finishUserAgain
      let u := h.user.finish u
      if reply then
        h.finishProviderAgain
        return (u, h.provider.finish p)
      else return (u, p)
    else return (u, p)
  else return (u, p)

/-- `Port::connect` between containers, called on the user port: the descriptors of the user and of
the provider at the end. -/
def connectUser (h : Hooks) (u p : Port) (uParams pParams : Params) :
    Except Fault (Descriptors × Descriptors) := do
  checkExternal p
  checkExternal u
  let p ← setConnectParams p pParams
  let u ← setConnectParams u uParams
  let ends ← determineRoles u.data p.data
  h.startProvider
  let p := h.provider.startProvider { p with data := ends.2 }
  h.startUser
  let u := h.user.startUser { u with data := ends.1 } p.data
  let (u, p) ← finishAll h u p
  return (u.data, p.data)

/-- `Port::connect`, for ports of different containers. -/
def connect (h : Hooks) (a b : Port) (aParams bParams : Params) :
    Except Fault (Descriptors × Descriptors) :=
  if a.provider then
    if b.provider then throw (.error "Cannot connect two provider ports")
    else connectUser h b a bParams aParams
  else if b.provider then connectUser h a b aParams bParams
  else throw (.error "Cannot connect to user ports")

/-- The number of the bit `MandatedRole`, which `connectInside` takes for the bit: what it sets and clears
are the bits of `ActiveMessage` and `ActiveOnly`. -/
def mandatedRole : Nat := 5

/-- What `connectInside` makes of the descriptor of the user. -/
def Descriptors.force (u : Descriptors) : Descriptors :=
  { u with role := some .activeMessage, options := u.options ||| mandatedRole }

/-- What it makes of that of the provider: `options &= ~MandatedRole`. -/
def Descriptors.release (p : Descriptors) : Descriptors :=
  { p with options := (p.options ||| mandatedRole) ^^^ mandatedRole }

/-- `localConnect`, with the `createOutputPort` for an input port of the same circuit. -/
def localConnect (u input : Port) : Port :=
  let u := { u with bufferLength := input.bufferLength }
  { u with data := getPortDescriptor u }

/-- `connectInside` of RCC ports, which `Port::connect` calls for ports of one container. The other calls of
`finishConnect` are not made. -/
def connectInside (h : Hooks) (u p : Port) (uParams pParams : Params) :
    Except Fault (Descriptors × Descriptors) := do
  let p ← setConnectParams p pParams
  let u ← setConnectParams u uParams
  let ends ← determineRoles u.data.force p.data.release
  h.startProvider
  let p := createInputPort { p with data := ends.2 }
  h.startUser
  let u := localConnect { u with data := ends.1 } p
  h.finishUser
  let u := Kind.rcc.finish u
  let _ ← h.finishProvider
  let p := Kind.rcc.finish p
  return (u.data, p.data)

/-- `ocpiAssert` -/
def check (b : Bool) : Except Fault Unit := if b then return () else throw .assertion

/-- `Port::getInitialProviderInfo`: the provider then, and what it sends. -/
def getInitialProviderInfo (h : Hooks) (p : Port) (params : Params) :
    Except Fault (Port × Bytes) := do
  check p.provider
  checkExternal p
  let p ← setConnectParams p params
  h.startProvider
  let p := h.provider.startProvider p
  return (p, packPortDesc native p.data)

/-- `Port::setInitialProviderInfo`; nothing is sent if `finishConnect` returns nothing. -/
def setInitialProviderInfo (h : Hooks) (u : Port) (params : Params) (ipi : Bytes) :
    Except Fault (Port × Option Bytes) := do
  check (!u.provider)
  checkExternal u
  let other := unpackPortDesc native ipi u.data
  let u ← setConnectParams u params
  h.startUser
  let u := h.user.startUser u other
  let ends ← determineRoles u.data other
  h.finishUser
  let u := h.user.finish { u with data := ends.1 }
  return (u, (h.user.answer h.shadow u).map (packPortDesc native))

/-- `Port::setInitialUserInfo` -/
def setInitialUserInfo (h : Hooks) (p : Port) (iui : Bytes) :
    Except Fault (Port × Option Bytes) := do
  check p.provider
  let other := unpackPortDesc native iui p.data
  let ends ← determineRoles other p.data
  let reply ← h.finishProvider
  let p := h.provider.finish { p with data := ends.2 }
  return (p, if reply then some (packPortDesc native p.data) else none)

/-- `Port::setFinalProviderInfo` -/
def setFinalProviderInfo (h : Hooks) (u : Port) (_fpi : Bytes) :
    Except Fault (Port × Option Bytes) := do
  check (!u.provider)
  let reply ← h.finishUserAgain
  let u := h.user.finish u
  return (u, if reply then some (packPortDesc native u.data) else none)

/-- `Port::setFinalUserInfo`, with the assertion as it is in the code. -/
def setFinalUserInfo (h : Hooks) (p : Port) (_fui : Bytes) : Except Fault Port := do
  check (!p.provider)
  h.finishProviderAgain
  return h.provider.finish p

/-- The last two steps, if there is something to send. -/
def lastSteps (h : Hooks) (u p : Port) : Option Bytes → Except Fault (Port × Port)
  | none => return (u, p)
  | some fpi => do
    let (u, fui) ← setFinalProviderInfo native h u fpi
    match fui with
    | none => return (u, p)
    | some fui => return (u, ← setFinalUserInfo h p fui)

/-- The steps from the third one on, if there is something to send. -/
def laterSteps (h : Hooks) (u p : Port) : Option Bytes → Except Fault (Port × Port)
  | none => return (u, p)
  | some iui => do
    let (p, fpi) ← setInitialUserInfo native h p iui
    lastSteps native h u p fpi

/-- The exchange, in the documented steps. -/
def exchange (h : Hooks) (u p : Port) (uParams pParams : Params) :
    Except Fault (Descriptors × Descriptors) := do
  let (p, ipi) ← getInitialProviderInfo native h p pParams
  let (u, iui) ← setInitialProviderInfo native h u uParams ipi
  let (u, p) ← laterSteps native h u p iui
  return (u.data, p.data)

end OpenCpi.Container
