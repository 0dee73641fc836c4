import Mathlib.Data.List.Basic
import OpenCpi.Infra.Bytes
import OpenCpi.Infra.Exc
import OpenCpi.Infra.Run

/-!
# Property access of HDL workers

`HdlWciControl.h`, `HdlWciControl.cxx`, `HdlAccess.cxx` and the inline accessors of
`OcpiContainerApi.h`. The properties of a worker are bytes in the device. The host sees one window
of `OCCP_WORKER_CONFIG_SIZE` bytes of them; which one is selected by the worker's window register,
whose last value is cached in `m_window`.

The device is a byte array that reports no errors: its status register and the status that an
accessor reports stay as they are. What the host sees behind the window (the window of the next
worker) is kept as memory of its own. `& ~(OCCP_WORKER_CONFIG_SIZE-1)` is written with a division.
-/

namespace OpenCpi.Hdl

open Infra

/-! ## The device -/

/-- `OCCP_WORKER_CONFIG_WINDOW_BITS` -/
def configWindowBits : Nat := 20

/-- `OCCP_WORKER_CONFIG_SIZE` -/
def configSize : Nat := 2 ^ 20

/-- `memory` holds the property bytes, `beyond` what is mapped behind the window. `window` and
`status` are registers of the worker. -/
@[ext]
structure Device where
  memory : Memory
  beyond : Memory
  window : Nat
  status : Nat
  reported : Nat

/-- What the host sees. -/
def Device.view (d : Device) : Memory := fun o =>
  if o < configSize then d.memory (d.window * configSize + o) else d.beyond (o - configSize)

/-- The host reads some bytes. -/
def Device.load (d : Device) (o len : Nat) : List UInt8 := readBytes d.view o len

/-- The host writes some bytes. -/
def Device.store (d : Device) (o : Nat) (data : List UInt8) : Device :=
  let view := writeBytes d.view o data
  { d with
    memory := fun a => if a / configSize = d.window then view (a % configSize) else d.memory a
    beyond := fun o => view (o + configSize) }

/-! ## Copying bytes -/

/-- The state of `Access::setBytes`: where the data comes from in the host, where it goes in the
device, and what is left. -/
structure Sending where
  host : Nat
  offset : Nat
  rest : List UInt8
  device : Device

/-- The loop of `setBytes` over chunks of `k` bytes. -/
def Sending.chunks (k : Nat) : Nat → Sending → Sending
  | 0, s => s
  | n + 1, s => Sending.chunks k n
      { host := s.host + k
        offset := s.offset + k
        rest := s.rest.drop k
        device := s.device.store s.offset (s.rest.take k) }

/-- Copy in chunks of `k` bytes if there is one and both sides are aligned. -/
def Sending.phase (k offset : Nat) (s : Sending) : Sending :=
  if k ≤ s.rest.length ∧ (s.host ||| offset) % k = 0 then s.chunks k (s.rest.length / k) else s

/-- `Access::setBytes` -/
def setBytes (host offset : Nat) (data : List UInt8) (d : Device) : Device :=
  let s : Sending := ⟨host, offset, data, d⟩
  ((((s.phase 8 offset).phase 4 offset).phase 2 offset).chunks 1
    (((s.phase 8 offset).phase 4 offset).phase 2 offset).rest.length).device

/-- The state of `Access::getBytes`. -/
structure Receiving where
  host : Nat
  offset : Nat
  rest : Nat
  got : List UInt8

def Receiving.chunks (d : Device) (k : Nat) : Nat → Receiving → Receiving
  | 0, r => r
  | n + 1, r => Receiving.chunks d k n
      { host := r.host + k
        offset := r.offset + k
        rest := r.rest - k
        got := r.got ++ d.load r.offset k }

def Receiving.phase (d : Device) (k offset : Nat) (r : Receiving) : Receiving :=
  if k ≤ r.rest ∧ (r.host ||| offset) % k = 0 then r.chunks d k (r.rest / k) else r

/-- `Access::getBytes` -/
def getBytes (host offset len : Nat) (d : Device) : List UInt8 :=
  let r : Receiving := ⟨host, offset, len, []⟩
  ((((r.phase d 8 offset).phase d 4 offset).phase d 2 offset).chunks d 1
    (((r.phase d 8 offset).phase d 4 offset).phase d 2 offset).rest).got

/-! ## Properties -/

/-- `BaseType` -/
inductive BaseType where
  | none
  | bool
  | char
  | double
  | float
  | short
  | long
  | uChar
  | uLong
  | uShort
  | longLong
  | uLongLong
  | string
  | struct
  | enum
  | type
deriving DecidableEq, Repr

/-- `baseTypeSizes`, in bits. -/
def baseTypeSizes : BaseType → Nat
  | .none | .struct | .type => 0
  | .bool | .char | .uChar => 8
  | .short | .uShort => 16
  | .float | .long | .uLong | .string | .enum => 32
  | .double | .longLong | .uLongLong => 64

/-- What the access to a property depends on. -/
structure PropertyInfo where
  baseType : BaseType
  offset : Nat
  align : Nat
  nBits : Nat
  isSequence : Bool
  isIndirect : Bool
  readError : Bool
  writeError : Bool
deriving DecidableEq, Repr

/-- The sizes of scalar accesses. -/
inductive Width where
  | w8
  | w16
  | w32
  | w64
deriving DecidableEq, Repr

def Width.bytes : Width → Nat
  | .w8 => 1
  | .w16 => 2
  | .w32 => 4
  | .w64 => 8

/-- The bytes of a scalar. -/
def scalarBytes (w : Width) (v : Nat) : List UInt8 :=
  (List.range w.bytes).map fun k => UInt8.ofNat (v / 256 ^ k)

/-- The controller. `mapped` says whether the registers have an address in the host
(`m_registers`); otherwise an accessor is used. -/
structure WciControl where
  window : Nat
  hasControl : Bool
  mapped : Bool
  device : Device

inductive Throw where
  | readError (status : Nat)
  | writeError (status : Nat)
  | sequenceError
  | assertion
deriving DecidableEq, Repr

abbrev M (α : Type) := Exc WciControl Throw α

open Exc

def changeDevice (f : Device → Device) : M Unit := change fun c => { c with device := f c.device }

/-- `WciControl::prepareProperty`: the address for direct writes, relative to the registers. Its
assertion is in `setValue`. -/
def WciControl.prepareProperty (c : WciControl) (md : PropertyInfo) : Option Nat :=
  if c.mapped ∧ md.baseType ≠ .struct ∧ md.isSequence = false ∧ md.baseType ≠ .string ∧
      baseTypeSizes md.baseType ≤ 32 ∧ md.offset < configSize ∧ md.writeError = false ∧
      md.isIndirect = false then
    some md.offset
  else none

/-- The start of the window of an offset. -/
def windowOf (offset : Nat) : Nat := offset / configSize * configSize

/-- A sum of type `size_t`. -/
def sizeT (n : Nat) : Nat := n % 2 ^ 64

/-- A window is selected: its number is written to the register. -/
def WciControl.select (window : Nat) (c : WciControl) : WciControl :=
  { c with
    window := window
    device := { c.device with window := window / 2 ^ configWindowBits % 2 ^ 32 } }

/-- `checkWindow` -/
def checkWindow (offset nBytes : Nat) : M Nat := do
  let c ← Exc.read
  if c.hasControl = false then raise .assertion
  else if windowOf offset ≠ windowOf (sizeT (offset + nBytes)) then raise .assertion
  else if windowOf offset ≠ c.window then do
    change (·.select (windowOf offset))
    return offset % configSize
  else return offset % configSize

/-- `OCCP_STATUS_READ_ERRORS` -/
def readErrors : Nat := 2 ^ 7 + 2 ^ 4 + 2 ^ 1

/-- `OCCP_STATUS_WRITE_ERRORS` -/
def writeErrors : Nat := 2 ^ 8 + 2 ^ 5 + 2 ^ 2

/-- The status register if the property may fail, else nothing. -/
def statusIf (cond : Bool) (errors : Nat) : M Nat := do
  let c ← Exc.read
  return if cond then c.device.status &&& errors else 0

/-- `throwPropertyReadError`, `throwPropertyWriteError` -/
def throwIf (status : Nat) (e : Nat → Throw) : M Unit :=
  if status ≠ 0 then raise (e status) else pure ()

/-- The part that all write accesses share: what is written through the registers, and what through
the accessor. -/
def writeAccess (info : PropertyInfo) (mapped accessor : Device → Device) : M Unit := do
  let c ← Exc.read
  if c.mapped then do
    let status ← statusIf info.writeError writeErrors
    if status = 0 then do
      changeDevice mapped
      let status ← statusIf info.writeError writeErrors
      throwIf status .writeError
    else throwIf status .writeError
  else do
    changeDevice accessor
    throwIf c.device.reported .writeError

/-- The part that the simple read accesses share. -/
def readAccess (info : PropertyInfo) (mapped accessor : Device → List UInt8) :
    M (List UInt8) := do
  let c ← Exc.read
  if c.mapped then do
    let status ← statusIf info.readError readErrors
    throwIf status .readError
    let status ← statusIf info.readError readErrors
    throwIf status .readError
    return mapped c.device
  else do
    throwIf c.device.reported .readError
    return accessor c.device

/-- `setProperty8` to `setProperty64` -/
def setProperty (w : Width) (info : PropertyInfo) (val : Nat) : M Unit := do
  let offset ← checkWindow info.offset w.bytes
  writeAccess info (·.store offset (scalarBytes w val)) (·.store offset (scalarBytes w val))

/-- `getProperty8` to `getProperty64` -/
def getProperty (w : Width) (info : PropertyInfo) : M (List UInt8) := do
  let offset ← checkWindow info.offset w.bytes
  readAccess info (·.load offset w.bytes) (·.load offset w.bytes)

/-- `Property::setULongValue` and so on: through the address of `prepareProperty` or by the worker. -/
def setValue (w : Width) (info : PropertyInfo) (val : Nat) : M Unit := do
  let c ← Exc.read
  if c.hasControl = false then raise .assertion
  else match c.prepareProperty info with
    | some writeVaddr => changeDevice (·.store writeVaddr (scalarBytes w val))
    | none => setProperty w info val

/-- `setPropertyBytes`; `host` is the address of the data. -/
def setPropertyBytes (info : PropertyInfo) (offset host : Nat) (data : List UInt8) : M Unit := do
  let offset ← checkWindow offset data.length
  writeAccess info (setBytes host offset data) (·.store offset data)

/-- `getPropertyBytes` -/
def getPropertyBytes (info : PropertyInfo) (offset host nBytes : Nat) : M (List UInt8) := do
  let offset ← checkWindow offset nBytes
  readAccess info (getBytes host offset nBytes) (·.load offset nBytes)

/-- `setPropertySequence` -/
def setPropertySequence (info : PropertyInfo) (host nItems : Nat) (val : List UInt8) : M Unit := do
  let offset ← checkWindow info.offset val.length
  if info.isSequence then
    writeAccess info
      (fun d => (setBytes host (offset + info.align) val d).store offset (wordBytes nItems))
      (fun d => if d.reported = 0 then (d.store (offset + info.align) val).store offset
          (wordBytes nItems)
        else d.store (offset + info.align) val)
  else writeAccess info (setBytes host offset val) (·.store offset val)

/-- `getPropertySequence`: the number of items and what was copied to the buffer of `n` bytes. -/
def getPropertySequence (info : PropertyInfo) (host n : Nat) : M (Nat × List UInt8) := do
  let offset ← checkWindow info.offset n
  let c ← Exc.read
  let size := info.nBits / 8
  if c.mapped then do
    let status ← statusIf info.readError readErrors
    let nItems := if status = 0 then wordOf (c.device.load offset 4) else 0
    let status' ← statusIf (!info.readError) readErrors
    if info.readError = false ∧ status' = 0 then
      if nItems * size ≤ n then raise .sequenceError
      else return (nItems, getBytes host (offset + info.align) (nItems * size) c.device)
    else do
      throwIf (if info.readError then status else status') .readError
      return (nItems, [])
  else do
    let nItems := wordOf (c.device.load offset 4)
    throwIf c.device.reported .readError
    if nItems * size ≤ n then raise .sequenceError
    else return (nItems, c.device.load (offset + info.align) (nItems * size))

/-! ## Runs -/

inductive Op where
  | setValue (w : Width) (info : PropertyInfo) (val : Nat)
  | setProperty (w : Width) (info : PropertyInfo) (val : Nat)
  | getProperty (w : Width) (info : PropertyInfo)
  | setBytes (info : PropertyInfo) (offset host : Nat) (data : List UInt8)
  | getBytes (info : PropertyInfo) (offset host nBytes : Nat)
  | setSequence (info : PropertyInfo) (host nItems : Nat) (val : List UInt8)
  | getSequence (info : PropertyInfo) (host n : Nat)
deriving DecidableEq, Repr

/-- What an access returns. -/
inductive Reply where
  | done
  | bytes (data : List UInt8)
  | items (nItems : Nat) (data : List UInt8)
deriving DecidableEq, Repr

def perform : Op → M Reply
  | .setValue w info val => do
    setValue w info val
    return .done
  | .setProperty w info val => do
    setProperty w info val
    return .done
  | .getProperty w info => do
    let data ← getProperty w info
    return .bytes data
  | .setBytes info offset host data => do
    setPropertyBytes info offset host data
    return .done
  | .getBytes info offset host nBytes => do
    let data ← getPropertyBytes info offset host nBytes
    return .bytes data
  | .setSequence info host nItems val => do
    setPropertySequence info host nItems val
    return .done
  | .getSequence info host n => do
    let r ← getPropertySequence info host n
    return .items r.1 r.2

/-- One access. A failed assertion ends the process; other exceptions go to the caller. -/
def step (c : WciControl) (op : Op) : Option WciControl :=
  match perform op c with
  | (.error .assertion, _) => none
  | (_, c) => some c

/-- The controller after `init`, which resets the worker. -/
def created (mapped : Bool) (memory beyond : Memory) : WciControl :=
  { window := 0
    hasControl := true
    mapped
    device := { memory, beyond, window := 0, status := 0, reported := 0 } }

end OpenCpi.Hdl
