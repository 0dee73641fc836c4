import OpenCpi.Value.Marshal

/-!
# What `Member::write` reads

The walk of `Member::write` (not at the top) over a buffer, as in `Marshal`, with an eye on the
memory instead of the writer. A read outside the rest of the buffer, a count of bytes that wraps
around 2^64 and a loop that never ends stop the walk, each with an outcome of its own: the program
has left what its types and checks can promise.
-/

namespace OpenCpi.Value

open Infra

/-- How a walk stops before its end. -/
inductive Stop where
  /-- `Error` is thrown. -/
  | thrown (text : String)
  | outOfBounds
  | wraps
  | endless
deriving DecidableEq, Repr

/-- `data` and `length` -/
structure Cursor where
  data : Nat
  length : Nat
deriving DecidableEq, Repr

abbrev Walk := Cursor → Except Stop Cursor

/-- `advance` -/
def Cursor.advance (nBytes : Nat) : Walk := fun s =>
  if s.length < nBytes then throw (.thrown exceedsBuffer)
  else return ⟨s.data + nBytes, s.length - nBytes⟩

/-- `align` -/
def Cursor.align (n : Nat) : Walk := fun s => s.advance (alignSkip s.data n)

/-- The next bytes are read. -/
def Cursor.fetch (nBytes : Nat) : Walk := fun s =>
  if s.length < nBytes then throw .outOfBounds else return s

/-- One walk after another. -/
def Walk.andThen (a b : Walk) : Walk := fun s => a s >>= b

/-- A walk that is repeated. -/
def Walk.repeated (body : Walk) : Nat → Walk
  | 0 => pure
  | n + 1 => body.andThen (Walk.repeated body n)

/-- A loop with an `unsigned` counter. With 2^32 elements or more the counter never gets there. If
each element takes a byte, the buffer is exhausted before. -/
def Walk.loop (body : Walk) (nElements : Nat) : Walk :=
  if nElements < 2 ^ 32 then body.repeated nElements
  else fun s => (body.repeated (s.length + 1)).andThen (fun _ => throw .endless) s

variable (memory : Memory)

/-- The count of a sequence: it is read before the length is checked. -/
def walkCount (d : Decl) (s : Cursor) : Except Stop (Nat × Cursor) := do
  let s ← s.align d.align
  let s ← s.fetch 4
  let nElements := wordOf (readBytes memory s.data 4)
  if d.sequenceLength ≠ 0 ∧ d.sequenceLength < nElements then
    throw (.thrown s!"Sequence in buffer exceeds max length ({d.sequenceLength})")
  else
    let s ← s.advance d.align
    return (nElements, s)

/-- `write` around the `switch` over the base type. `body` gets the count. -/
def walkElements (d : Decl) (body : Nat → Walk) : Walk :=
  if d.isSequence then fun s => do
    let (nElements, s) ← walkCount memory d s
    if nElements = 0 then return s
    else (Cursor.align d.dataAlign).andThen (body nElements) s
  else (Cursor.align d.dataAlign).andThen (body 1)

/-- Scalars: the bytes are read by the writer behind the check. -/
def walkScalars (d : Decl) (nElements : Nat) : Walk :=
  (Cursor.align d.align).andThen
    (if 2 ^ 64 ≤ nElements * d.nItems * (d.nBits / 8) then fun _ => throw .wraps
    else Cursor.advance (nElements * d.nItems * (d.nBits / 8)))

/-- A string: `strlen` looks for its end before the length is checked. If there is none in the rest
of the buffer, it reads at least one byte more. -/
def walkString : Walk :=
  (Cursor.align 4).andThen fun s => do
    let nBytes := strlen memory s.data s.length + 1
    let s ← s.fetch nBytes
    s.advance nBytes

mutual

/-- `Member::write` -/
def Member.walk : Member → Walk
  | .scalar d _ | .enum d _ => walkElements memory d (walkScalars d)
  | .string d _ => walkElements memory d fun nElements =>
    (walkString memory).loop (nElements * d.nItems % 2 ^ 64)
  | .struct d members => walkElements memory d fun nElements =>
    Walk.loop (walkMembers members) (nElements * d.nItems % 2 ^ 64)
  | .type d t => walkElements memory d fun nElements =>
    t.walk.loop (nElements * d.nItems % 2 ^ 64)

def walkMembers : List Member → Walk
  | [] => pure
  | m :: ms => m.walk.andThen (walkMembers ms)

end

end OpenCpi.Value
