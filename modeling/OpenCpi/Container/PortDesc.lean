import Mathlib.Data.List.TakeWhile
import OpenCpi.Ior.Cdr

/-!
# Packed port descriptors

`Port::packPortDesc` and `Port::unpackPortDesc` of `OcpiContainerPort.cxx`, with all fields of
`RDT::Descriptors` that are packed, over the encoder and the decoder of `OcpiUtilCDR.cxx`. The widths of
offsets and flags are chosen when the code is built.
-/

namespace OpenCpi.Container.Packed

open Infra Ior

/-- `OCPI_EP_SIZE_BITS` and `OCPI_EP_FLAG_BITS`: 64 bits, or the default of 32. -/
structure Widths where
  size64 : Bool
  flag64 : Bool
deriving DecidableEq, Repr

/-- The bits of a number that may be wide. -/
def bits (wide : Bool) : Nat := if wide then 64 else 32

/-- The bytes of a number that may be wide. -/
def bytes (wide : Bool) : Nat := if wide then 8 else 4

/-- `char oep[256]`: a text with the NUL behind it. -/
structure Endpoint where
  text : Bytes
  fits : text.length + 1 ≤ 256
  noNul : 0 ∉ text

/-- The numbers that are packed before the endpoint. `role` is signed. -/
structure Numbers (w : Widths) where
  type : BitVec 32
  role : BitVec 32
  options : BitVec 32
  nBuffers : BitVec 32
  dataBufferBaseAddr : BitVec (bits w.size64)
  dataBufferPitch : BitVec 32
  dataBufferSize : BitVec 32
  metaDataBaseAddr : BitVec (bits w.size64)
  metaDataPitch : BitVec 32
  fullFlagBaseAddr : BitVec (bits w.size64)
  fullFlagSize : BitVec 32
  fullFlagPitch : BitVec 32
  fullFlagValue : BitVec (bits w.flag64)
  emptyFlagBaseAddr : BitVec (bits w.size64)
  emptyFlagSize : BitVec 32
  emptyFlagPitch : BitVec 32
  emptyFlagValue : BitVec (bits w.flag64)
  portId : BitVec 64

structure Descriptors (w : Widths) extends Numbers w where
  oep : Endpoint
  cookie : BitVec 64

/-! ## Packing -/

section
variable (s : Style)

def put32 (v : BitVec 32) : Bytes → Bytes := putULong s v.toNat

def put64 (v : BitVec 64) : Bytes → Bytes := putULongLong s v.toNat

/-- `putOffset`, `putFlag` -/
def putWide (wide : Bool) (v : BitVec (bits wide)) : Bytes → Bytes :=
  if wide then putULongLong s v.toNat else putULong s v.toNat

def putNumbers {w : Widths} (d : Numbers w) : List (Bytes → Bytes) :=
  [put32 s d.type, put32 s d.role, put32 s d.options, put32 s d.nBuffers,
    putWide s w.size64 d.dataBufferBaseAddr, put32 s d.dataBufferPitch, put32 s d.dataBufferSize,
    putWide s w.size64 d.metaDataBaseAddr, put32 s d.metaDataPitch,
    putWide s w.size64 d.fullFlagBaseAddr, put32 s d.fullFlagSize, put32 s d.fullFlagPitch,
    putWide s w.flag64 d.fullFlagValue,
    putWide s w.size64 d.emptyFlagBaseAddr, put32 s d.emptyFlagSize, put32 s d.emptyFlagPitch,
    putWide s w.flag64 d.emptyFlagValue,
    put64 s d.portId]

/-- `packPortDesc`, by an encoder of this byte order -/
def packPortDesc {w : Widths} (d : Descriptors w) : Bytes :=
  runPuts (putBoolean s.little ::
    (putNumbers s d.toNumbers ++ [putString s d.oep.text, put64 s d.cookie])) []

end

/-! ## Unpacking -/

section
variable (native order : Bool)

def get32 : Decoder (BitVec 32) := do return BitVec.ofNat 32 (← getULong native order)

def get64 : Decoder (BitVec 64) := do return BitVec.ofNat 64 (← getULongLong native order)

/-- `getOffset`, `getFlag` -/
def getWide (wide : Bool) : Decoder (BitVec (bits wide)) := do
  return BitVec.ofNat (bits wide) (← if wide then getULongLong native order else getULong native order)

def getNumbers (w : Widths) : Decoder (Numbers w) := do
  let type ← get32 native order
  let role ← get32 native order
  let options ← get32 native order
  let nBuffers ← get32 native order
  let dataBufferBaseAddr ← getWide native order w.size64
  let dataBufferPitch ← get32 native order
  let dataBufferSize ← get32 native order
  let metaDataBaseAddr ← getWide native order w.size64
  let metaDataPitch ← get32 native order
  let fullFlagBaseAddr ← getWide native order w.size64
  let fullFlagSize ← get32 native order
  let fullFlagPitch ← get32 native order
  let fullFlagValue ← getWide native order w.flag64
  let emptyFlagBaseAddr ← getWide native order w.size64
  let emptyFlagSize ← get32 native order
  let emptyFlagPitch ← get32 native order
  let emptyFlagValue ← getWide native order w.flag64
  let portId ← get64 native order
  return { type, role, options, nBuffers, dataBufferBaseAddr, dataBufferPitch, dataBufferSize,
           metaDataBaseAddr, metaDataPitch, fullFlagBaseAddr, fullFlagSize, fullFlagPitch, fullFlagValue,
           emptyFlagBaseAddr, emptyFlagSize, emptyFlagPitch, emptyFlagValue, portId }

/-- The end of `getString`. The string is assigned from `length - 1` bytes, in 32 bits; there is no answer
when these are not all in the data. -/
def assign (length : Nat) : Decoder (Option Bytes) := fun r =>
  if r.data.length < r.pos + length then .error .invalidData
  else
    let n := (BitVec.ofNat 32 length - 1).toNat
    if r.data.length < r.pos + n then .ok (none, r)
    else .ok (some ((r.data.drop r.pos).take n), { r with pos := r.pos + length })

/-- `getString` -/
def getString : Decoder (Option Bytes) := do assign (← getULong native order)

/-- What `strcpy` leaves in `oep`. -/
def Endpoint.copy (oep : Bytes) (h : oep.length + 1 ≤ 256) : Endpoint where
  text := oep.takeWhile (· ≠ 0)
  fits := Nat.le_trans (Nat.succ_le_succ (List.takeWhile_prefix _).length_le) h
  noNul hmem := by
    have := List.mem_takeWhile_imp hmem
    rw [decide_eq_true_iff] at this
    exact this rfl

/-- What `unpackPortDesc` does: it returns true or false, or reads outside of the data. -/
inductive Unpacked (w : Widths) where
  | filled (d : Descriptors w)
  | refused
  | outside

/-- The endpoint and the cookie are read. -/
def getEndpoint {w : Widths} (numbers : Numbers w) : Decoder (Unpacked w) := do
  match ← getString native order with
  | none => return .outside
  | some oep =>
    if h : oep.length + 1 ≤ 256 then
      let cookie ← get64 native order
      return .filled { numbers with oep := Endpoint.copy oep h, cookie }
    else return .refused

def getDescriptors (w : Widths) : Decoder (Unpacked w) := do
  let order ← getBoolean
  let numbers ← getNumbers native order w
  getEndpoint native order numbers

/-- `unpackPortDesc` -/
def unpackPortDesc (w : Widths) (data : Bytes) : Unpacked w :=
  match getDescriptors native w ⟨data, 0⟩ with
  | .ok (u, _) => u
  | .error _ => .refused

end

end OpenCpi.Container.Packed
