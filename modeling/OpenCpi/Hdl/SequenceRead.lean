import OpenCpi.Hdl.WciControl
import OpenCpi.Infra.Traced

/-!
# Reading a sequence of an HDL worker

`WciControl::getPropertySequence` once more, with what it puts into the buffer of the caller, with the
product of the number of items and their size in 64 bits, and with a status of its own for each of the two
accesses over the network. `Hdl/WciControl` has the function for devices that report the same each time.
-/

namespace OpenCpi.Hdl

open Infra Traced

/-- A computation on the controller. An event is data that was stored in the buffer of the caller. -/
abbrev Storing (α : Type) := Traced WciControl Throw (List UInt8) α

/-- A computation that stores nothing. -/
def quietly {α : Type} (m : M α) : Storing α := fun c => ([], m c)

/-- What the accessor reports after the number of items was read and after the items were. -/
structure Reported where
  count : Nat
  items : Nat
deriving DecidableEq, Repr

/-- The size of the items, of type `size_t`. -/
def itemBytes (info : PropertyInfo) (nItems : Nat) : Nat := sizeT (nItems * (info.nBits / 8))

/-- `getPropertySequence` for the registers in memory. -/
def readMapped (info : PropertyInfo) (host n offset : Nat) : Storing Nat := do
  let c ← Traced.read
  let status ← quietly (statusIf info.readError readErrors)
  let nItems := if status = 0 then wordOf (c.device.load offset 4) else 0
  let status' ← quietly (statusIf (!info.readError) readErrors)
  if info.readError = false ∧ status' = 0 then
    if itemBytes info nItems ≤ n then raise .sequenceError
    else do
      report (getBytes host (offset + info.align) (itemBytes info nItems) c.device)
      return nItems
  else do
    quietly (throwIf (if info.readError then status else status') .readError)
    return nItems

/-- `getPropertySequence` for the accessor. -/
def readAccessor (info : PropertyInfo) (n offset : Nat) (reported : Reported) : Storing Nat := do
  let c ← Traced.read
  let nItems := wordOf (c.device.load offset 4)
  if reported.count = 0 then
    if itemBytes info nItems ≤ n then raise .sequenceError
    else do
      report (c.device.load (offset + info.align) (itemBytes info nItems))
      quietly (throwIf reported.items .readError)
      return nItems
  else do
    quietly (throwIf reported.count .readError)
    return nItems

/-- `getPropertySequence`. The buffer has `n` bytes. -/
def readSequence (info : PropertyInfo) (host n : Nat) (reported : Reported) : Storing Nat := do
  let offset ← quietly (checkWindow info.offset n)
  let c ← Traced.read
  if c.mapped then readMapped info host n offset else readAccessor info n offset reported

end OpenCpi.Hdl
