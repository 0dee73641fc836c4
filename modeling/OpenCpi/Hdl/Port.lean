import OpenCpi.Container.Port
import OpenCpi.Infra.Span

/-!
# Ports of an FPGA

`Port` of `HdlContainer.cxx`, with the connection steps of `OcpiContainerPort.cxx` that call it. The
data buffers of a port and their metadata lie in the memory of its data plane worker (OCDP), of
`m_ocdpSize` bytes. `startConnect` lays them out; `determineRoles` changes the size of the buffers.

`finishConnect` writes the layout to the worker's registers and does not change it. It is a
parameter, like everything done at the other end: a call throws or returns.
-/

namespace OpenCpi.Hdl

open Infra
open Container (Role Descriptors Fault Params setConnectParams checkExternal determineRoles check
  packPortDesc unpackPortDesc roundUp)

/-- `OCDP_LOCAL_BUFFER_ALIGN` -/
def ocdpLocalBufferAlign : Nat := 16

/-- `OCDP_METADATA_SIZE` -/
def ocdpMetadataSize : Nat := 16

/-- `DEFAULT_NBUFFERS` -/
def defaultNBuffers : Nat := 2

/-- `DEFAULT_BUFFER_SIZE` -/
def defaultBufferSize : Nat := 2 * 1024

/-! ## Creation -/

/-- What the metadata says about a port. -/
structure MetaPort where
  name : String
  minBufferCount : Nat
  minBufferSize : Nat
  bufferSize : Nat

/-- The buffer size that a port starts with. -/
def MetaPort.startSize (m : MetaPort) : Nat :=
  if m.bufferSize % 2 ^ 32 = 0 then defaultBufferSize else m.bufferSize % 2 ^ 32

/-- `PortData::PortData` before the parameters are set. What is not set there is 0. -/
def MetaPort.port (m : MetaPort) (provider : Bool) (options : Nat) : Container.Port where
  provider
  canBeExternal := true
  minBufferCount := m.minBufferCount
  minBufferSize := m.minBufferSize
  name := m.name
  data :=
    { type := if provider then 1 else 3
      role := none
      options
      nBuffers := max defaultNBuffers m.minBufferCount % 2 ^ 32
      dataBufferBaseAddr := 0
      dataBufferPitch := 0
      dataBufferSize := m.startSize
      metaDataBaseAddr := 0
      metaDataPitch := 0
      fullFlagBaseAddr := 0
      fullFlagSize := 0
      fullFlagPitch := 0
      fullFlagValue := 0
      emptyFlagBaseAddr := 0
      emptyFlagSize := 0
      emptyFlagPitch := 0
      emptyFlagValue := 0
      portId := 0
      oep := []
      cookie := 0 }

/-- `Port`, with `m_ocdpSize`. -/
structure Port where
  metaPort : MetaPort
  ocdpSize : Nat
  base : Container.Port

def Port.data (q : Port) : Descriptors := q.base.data

/-- The port with another descriptor. -/
def Port.withData (q : Port) (d : Descriptors) : Port := { q with base := { q.base with data := d } }

/-- `Port::startConnect`. The count and the size are multiplied in 64 bits, the address is computed
in 32. -/
def startConnect (q : Port) : Except Fault Port :=
  let d := q.data
  let pitch := roundUp d.dataBufferSize ocdpLocalBufferAlign
  if q.base.canBeExternal then
    if q.ocdpSize < d.nBuffers * (pitch + ocdpMetadataSize) % 2 ^ 64 then
      throw (.error "Requested buffer count and size won't fit in the OCDP's memory")
    else if 2 ^ 32 ≤ pitch then throw .assertion
    else return q.withData { d with
      dataBufferPitch := pitch
      metaDataBaseAddr :=
        (d.dataBufferBaseAddr + q.ocdpSize + 2 ^ 32 - d.nBuffers * ocdpMetadataSize % 2 ^ 32) % 2 ^ 32 }
  else return q

/-- `BasicPort::setConnectParams` of the port. -/
def setParams (q : Port) (params : Params) : Except Fault Port := do
  let base ← setConnectParams q.base params
  return { q with base }

/-- `BasicPort::applyConnectParams` -/
def applyConnectParams (q : Port) (params : Params) : Except Fault Port := do
  let q ← setParams q params
  startConnect q

/-- The fields that `Port::Port` sets. `place` has the addresses in the endpoint, and the endpoint. -/
def Port.fixed (q : Port) (place : Descriptors) : Port :=
  q.withData { q.data with
    fullFlagSize := 4
    fullFlagPitch := 0
    fullFlagValue := 1
    emptyFlagSize := 4
    emptyFlagPitch := 0
    emptyFlagValue := 1
    metaDataPitch := ocdpMetadataSize
    dataBufferBaseAddr := place.dataBufferBaseAddr
    fullFlagBaseAddr := place.fullFlagBaseAddr
    emptyFlagBaseAddr := place.emptyFlagBaseAddr
    portId := place.portId
    oep := place.oep
    cookie := place.cookie }

/-- `Port::Port` of a port that can be external. -/
def create (m : MetaPort) (provider : Bool) (ocdpSize : Nat) (place : Descriptors) (params : Params) :
    Except Fault Port := do
  let base ← setConnectParams (m.port provider (2 ^ Role.activeMessage.number)) params
  applyConnectParams (Port.fixed ⟨m, ocdpSize % 2 ^ 32, base⟩ place) params

/-! ## Ways of connecting -/

/-- What the calls on the other end and `finishConnect` do. -/
structure Calls where
  startOther : Except Fault Unit
  finish : Except Fault Unit
  finishAgain : Except Fault Unit

/-- `Port::determineRoles` of the port, with the other's descriptor. -/
def determine (q : Port) (other : Descriptors) : Except Fault Port := do
  if q.base.provider then
    let ends ← determineRoles other q.data
    return q.withData ends.2
  else
    let ends ← determineRoles q.data other
    return q.withData ends.1

/-- The part of `Port::connect` for a provider, called on the other port. -/
def connectProvider (c : Calls) (q : Port) (params : Params) (other : Container.Port)
    (otherParams : Params) : Except Fault Port := do
  checkExternal q.base
  checkExternal other
  let q ← setParams q params
  let other ← setConnectParams other otherParams
  let q ← determine q other.data
  let q ← startConnect q
  c.startOther
  c.finish
  return q

/-- The part of `Port::connect` for a user. -/
def connectUser (c : Calls) (q : Port) (params : Params) (other : Container.Port)
    (otherParams : Params) : Except Fault Port := do
  checkExternal other
  checkExternal q.base
  let other ← setConnectParams other otherParams
  let q ← setParams q params
  let q ← determine q other.data
  c.startOther
  let q ← startConnect q
  c.finish
  return q

/-- `Port::connect` to a port of another container, in either direction. -/
def connect (c : Calls) (q : Port) (params : Params) (other : Container.Port) (otherParams : Params) :
    Except Fault Port :=
  if q.base.provider then
    if other.provider then throw (.error "Cannot connect two provider ports")
    else connectProvider c q params other otherParams
  else if other.provider then connectUser c q params other otherParams
  else throw (.error "Cannot connect to user ports")

/-- `Port::connect` within the container, and `connectInside`, in either direction. The parameters
of the user are not looked at. `c` has what `startConnect` does at the other end, and whether the
ports are connected in the artifact. -/
def connectInside (c : Calls) (q : Port) (params : Params) : Except Fault Port :=
  if q.base.provider then do
    let q ← setParams q params
    let q ← startConnect q
    c.finish
    return q
  else do
    c.startOther
    c.finish
    return q

/-- `DataTransport::Port::getPortDescriptor`; `place` has the addresses that the transport chose. -/
def getPortDescriptor (place : Descriptors) (r : Role) (d : Descriptors) : Descriptors :=
  { place with
    type := d.type
    role := some (d.role.getD r)
    options := d.options
    nBuffers := d.nBuffers
    dataBufferPitch := d.dataBufferSize
    dataBufferSize := d.dataBufferSize }

/-- `Transport::createInputPort` -/
def createInputPort (place d : Descriptors) : Descriptors :=
  getPortDescriptor place .activeFlowControl d

/-- `Transport::createOutputPort`: the buffers are not larger than those of the input. -/
def createOutputPort (place d input : Descriptors) : Descriptors :=
  getPortDescriptor place .activeMessage
    { d with dataBufferSize := min d.dataBufferSize input.dataBufferSize }

/-- The options of an external port. -/
def externalOptions : Nat := 2 ^ Role.activeFlowControl.number + 2 ^ Role.activeMessage.number

/-- `ExternalPort::ExternalPort`, for the port that it is connected to. -/
def connectExternal (c : Calls) (place : Descriptors) (q : Port) (params extParams : Params) :
    Except Fault Port := do
  let ext ← setConnectParams (q.metaPort.port (!q.base.provider) externalOptions) extParams
  if q.base.provider then
    let q ← applyConnectParams q params
    c.startOther
    let q ← determine q (createOutputPort place ext.data q.data)
    c.finish
    return q
  else
    let ext ← setConnectParams ext extParams
    c.startOther
    let q ← applyConnectParams q params
    let q ← determine q (createInputPort place ext.data)
    c.finish
    return q

variable (native : Bool)

/-- `Port::getInitialProviderInfo` -/
def getInitialProviderInfo (q : Port) (params : Params) : Except Fault (Port × Bytes) := do
  check q.base.provider
  checkExternal q.base
  let q ← applyConnectParams q params
  return (q, packPortDesc native q.data)

/-- `Port::setInitialUserInfo` -/
def setInitialUserInfo (c : Calls) (q : Port) (iui : Bytes) : Except Fault Port := do
  check q.base.provider
  let q ← determine q (unpackPortDesc native iui q.data)
  c.finish
  return q

/-- `Port::setInitialProviderInfo` -/
def setInitialProviderInfo (c : Calls) (q : Port) (params : Params) (ipi : Bytes) :
    Except Fault (Port × Bytes) := do
  check (!q.base.provider)
  checkExternal q.base
  let other := unpackPortDesc native ipi q.data
  let q ← applyConnectParams q params
  let q ← determine q other
  c.finish
  return (q, packPortDesc native q.data)

/-- `Port::setFinalProviderInfo` -/
def setFinalProviderInfo (c : Calls) (q : Port) : Except Fault Port := do
  check (!q.base.provider)
  c.finishAgain
  return q

/-- The steps on one side of an exchange of packed descriptors, the other's being `other`. A provider
answers nothing, so that it takes no further step; the user takes the last one if it is told to. -/
def connectPacked (c : Calls) (q : Port) (params : Params) (other : Descriptors) (last : Bool) :
    Except Fault Port := do
  if q.base.provider then
    let (q, _) ← getInitialProviderInfo native q params
    setInitialUserInfo native c q (packPortDesc native other)
  else
    let (q, _) ← setInitialProviderInfo native c q params (packPortDesc native other)
    if last then setFinalProviderInfo c q
    else return q

/-- The ways in which a port is connected. -/
inductive Way where
  | connect (other : Container.Port) (otherParams : Params)
  | inside
  | external (place : Descriptors) (extParams : Params)
  | packed (other : Descriptors) (last : Bool)

/-- The port after it was connected. -/
def Way.run (c : Calls) (q : Port) (params : Params) : Way → Except Fault Port
  | .connect other otherParams => Hdl.connect c q params other otherParams
  | .inside => connectInside c q params
  | .external place extParams => connectExternal c place q params extParams
  | .packed other last => connectPacked native c q params other last

/-! ## The layout -/

/-- The offset of the metadata in the memory, as `userMetadataBaseAddr` has it. -/
def Port.metaOffset (q : Port) : Nat :=
  (q.data.metaDataBaseAddr + 2 ^ 32 - q.data.dataBufferBaseAddr) % 2 ^ 32

def Port.dataSpan (q : Port) (i : Nat) : Span := ⟨i * q.data.dataBufferPitch, q.data.dataBufferSize⟩

def Port.metaSpan (q : Port) (i : Nat) : Span :=
  ⟨q.metaOffset + i * q.data.metaDataPitch, ocdpMetadataSize⟩

/-- The data buffers, then the metadata records. -/
def Port.spans (q : Port) : List Span :=
  (List.range q.data.nBuffers).map q.dataSpan ++ (List.range q.data.nBuffers).map q.metaSpan

end OpenCpi.Hdl
