import OpenCpi.Infra.Codec
import OpenCpi.Value.Types

/-!
# Marshalling the arguments of an operation

`Member::read` takes values from a `Reader` object and fills a linear buffer, `Member::write` walks
over such a buffer and hands the values to a `Writer` object (`OcpiUtilDataTypes.cxx`), and
`Operation` does so for its arguments (`OcpiUtilProtocol.cxx`).

A reader is any object: a state with the answers to `beginSequence`, `beginString` and `readData`,
and with the effect of the methods that return nothing. `Event` is a call of either object. The
events of `read` carry the answers of the reader. The flag `top` of `writeString` is left out.
-/

namespace OpenCpi.Value

open Infra

inductive Event where
  | beginSequence (d : Decl) (nElements : Nat)
  | endSequence (d : Decl)
  | beginArray (d : Decl) (nItems : Nat)
  | endArray (d : Decl)
  | beginStruct (d : Decl)
  | endStruct (d : Decl)
  | beginType (d : Decl)
  | endType (d : Decl)
  | string (d : Decl) (chars : Text) (first : Bool)
  | data (d : Decl) (bytes : List UInt8) (nElements : Nat)
deriving DecidableEq, Repr

/-- A `Reader` object. `readData` answers with a function from positions to bytes. -/
structure Reader (σ : Type) where
  beginSequence : Decl → σ → Nat × σ
  beginString : Decl → Bool → σ → Text × σ
  readData : Decl → Nat → Nat → σ → (Nat → UInt8) × σ
  notify : Event → σ → σ

/-- How `read` moves: it is an encoder that takes its values from a reader. -/
abbrev ReadM (σ α : Type) := Encoder σ Event α

/-- How `write` moves: it is a decoder that calls the writer. -/
abbrev WriteM (α : Type) := Decoder Event α

/-! ## Cursors -/

/-- `p` rounded up to a multiple of `n`, in 64-bit arithmetic with a mask. -/
def alignAddr (p n : Nat) : Nat :=
  let mask := (n + (2 ^ 64 - 1)) % 2 ^ 64
  let q := (p + mask) % 2 ^ 64
  q - (q &&& mask)

/-- The bytes that `align` skips. -/
def alignSkip (p n : Nat) : Nat := (alignAddr p n + (2 ^ 64 - p % 2 ^ 64)) % 2 ^ 64

def exceedsBuffer : String := "Aligning data exceeds buffer when writing"

/-- `advance` -/
def advance (nBytes : Nat) : WriteM Unit := do
  let s ← get
  if s.length < nBytes then throw exceedsBuffer
  else set { s with data := s.data + nBytes, length := s.length - nBytes }

/-- `align` -/
def align (n : Nat) : WriteM Unit := do
  let s ← get
  advance (alignSkip s.data n)

/-- `radvance` -/
def radvance {σ : Type} (nBytes : Nat) : ReadM σ Unit := do
  let s ← get
  if s.length < nBytes then throw exceedsBuffer
  else set { s with data := s.data + nBytes, length := s.length - nBytes }

/-- `ralign` -/
def ralign {σ : Type} (n : Nat) : ReadM σ Unit := do
  let s ← get
  radvance (alignSkip s.data n)

/-- A call of the writer. -/
def emit (e : Event) : WriteM Unit :=
  modify fun s => { s with events := s.events ++ [e] }

/-- The first zero byte from an address on, within a limit. -/
def strlen (memory : Memory) (p : Nat) : Nat → Nat
  | 0 => 0
  | limit + 1 => if memory p = 0 then 0 else 1 + strlen memory (p + 1) limit

/-- The loops over the elements count with a 32-bit `unsigned`. With more elements they do not end
before the buffer is exhausted. -/
def loopElements {m : Type → Type} [Monad m] [MonadExceptOf String m] (nElements : Nat)
    (body : Nat → m Unit) : m Unit :=
  if 2 ^ 32 ≤ nElements then throw exceedsBuffer else loopFrom body nElements 0

/-! ## Reading -/

variable {σ : Type}

/-- A call of a method of the reader that returns nothing. -/
def notify (R : Reader σ) (e : Event) : ReadM σ Unit :=
  modify fun s => { s with source := R.notify e s.source, events := s.events ++ [e] }

/-- The count of a sequence is asked for and stored, behind it is the first element. -/
def readSequence (R : Reader σ) (d : Decl) : ReadM σ (Option Nat) := do
  let start := (← get).data
  radvance d.align
  let nElements ← modifyGet fun s =>
    let r := R.beginSequence d s.source
    (r.1, { s with source := r.2, events := s.events ++ [.beginSequence d r.1] })
  modify fun s => { s with memory := writeBytes s.memory start (wordBytes (nElements % 2 ^ 32)) }
  if nElements % 2 ^ 32 = 0 then return none
  else if d.sequenceLength ≠ 0 ∧ d.sequenceLength < nElements then
    throw s!"Sequence in being read exceeds max length ({d.sequenceLength})"
  else return some nElements

/-- The beginning of `read`: the number of elements, or `none` to return at once. -/
def readCount (R : Reader σ) (d : Decl) : ReadM σ (Option Nat) :=
  if d.isSequence then do
    ralign d.align
    readSequence R d
  else return some 1

/-- `read` around the `switch` over the base type. -/
def readElements (R : Reader σ) (d : Decl) (body : Nat → ReadM σ Unit) : ReadM σ Unit := do
  match ← readCount R d with
  | none => return
  | some nElements =>
    onlyIf (d.arrayDimensions ≠ []) (notify R (.beginArray d d.nItems))
    ralign d.dataAlign
    body (nElements * d.nItems % 2 ^ 64)
    onlyIf d.isSequence (notify R (.endSequence d))
    onlyIf (d.arrayDimensions ≠ []) (notify R (.endArray d))

/-- Scalars are read all at once. -/
def readScalars (R : Reader σ) (d : Decl) (nElements : Nat) : ReadM σ Unit := do
  ralign d.align
  let start := (← get).data
  let nBytes := nElements * (d.nBits / 8) % 2 ^ 64
  radvance nBytes
  modify fun s =>
    let r := R.readData d nBytes nElements s.source
    let bytes := (List.range nBytes).map r.1
    { s with memory := writeBytes s.memory start bytes, source := r.2,
             events := s.events ++ [.data d bytes nElements] }

def readString (R : Reader σ) (d : Decl) (stringLength : Nat) (first : Bool) : ReadM σ Unit := do
  ralign 4
  let chars ← modifyGet fun s =>
    let r := R.beginString d first s.source
    (r.1, { s with source := r.2, events := s.events ++ [.string d r.1 first] })
  if stringLength ≠ 0 ∧ stringLength < chars.length then
    throw "String being read is larger than max length"
  else do
    let start := (← get).data
    radvance (chars.length + 1)
    modify fun s => { s with memory := writeBytes s.memory start (chars ++ [0]) }

mutual

/-- `Member::read` -/
def Member.read (R : Reader σ) : Member → ReadM σ Unit
  | .scalar d _ | .enum d _ => readElements R d (readScalars R d)
  | .string d stringLength => readElements R d fun nElements =>
    loopElements nElements fun n => readString R d stringLength (n == 0)
  | .struct d members => readElements R d fun nElements => do
    notify R (.beginStruct d)
    loopElements nElements fun _ => readMembers R members
    notify R (.endStruct d)
  | .type d t => readElements R d fun nElements => do
    notify R (.beginType d)
    loopElements nElements fun _ => t.read R
    notify R (.endType d)

def readMembers (R : Reader σ) : List Member → ReadM σ Unit
  | [] => pure ()
  | m :: ms => do
    m.read R
    readMembers R ms

end

/-! ## Writing -/

def assertion : String := "assertion failed"

/-- For a sequence at the top the count follows from the length of the message. -/
def topCount (d : Decl) : WriteM Nat := do
  let s ← get
  if s.data - (s.data &&& (d.align - 1)) ≠ 0 then throw assertion
  else if s.length % d.nBytes ≠ 0 then throw assertion
  else return s.length / d.nBytes

/-- The count of a sequence is reported and skipped. -/
def writeSequence (d : Decl) (nElements : Nat) : WriteM (Option Nat) := do
  if d.sequenceLength ≠ 0 ∧ d.sequenceLength < nElements then
    throw s!"Sequence in buffer exceeds max length ({d.sequenceLength})"
  else do
    emit (.beginSequence d nElements)
    advance d.align
    if nElements = 0 then return none else return some nElements

/-- The beginning of `write`: the number of elements, or `none` to return at once. -/
def writeCount (memory : Memory) (d : Decl) (topSeq : Bool) : WriteM (Option Nat) :=
  if d.isSequence then
    if topSeq then do
      let nElements ← topCount d
      writeSequence d nElements
    else do
      align d.align
      let nElements := wordOf (readBytes memory (← get).data 4)
      writeSequence d nElements
  else return some 1

/-- `write` around the `switch` over the base type. -/
def writeElements (memory : Memory) (d : Decl) (topSeq : Bool) (body : Nat → WriteM Unit) :
    WriteM Unit := do
  match ← writeCount memory d topSeq with
  | none => return
  | some nElements =>
    onlyIf (d.arrayDimensions ≠ []) (emit (.beginArray d d.nItems))
    align d.dataAlign
    body (nElements * d.nItems % 2 ^ 64)
    onlyIf d.isSequence (emit (.endSequence d))
    onlyIf (d.arrayDimensions ≠ []) (emit (.endArray d))

/-- Scalars are written all at once. -/
def writeScalars (memory : Memory) (d : Decl) (nElements : Nat) : WriteM Unit := do
  align d.align
  let start := (← get).data
  let nBytes := nElements * (d.nBits / 8) % 2 ^ 64
  advance nBytes
  emit (.data d (readBytes memory start nBytes) nElements)

/-- A string without its end within the rest of the buffer is too long for it. -/
def writeString (memory : Memory) (d : Decl) (first : Bool) : WriteM Unit := do
  align 4
  let s ← get
  let strLen := strlen memory s.data s.length
  advance (strLen + 1)
  emit (.string d (readBytes memory s.data strLen) first)

mutual

/-- `Member::write` -/
def Member.write (memory : Memory) (topSeq : Bool) : Member → WriteM Unit
  | .scalar d _ | .enum d _ => writeElements memory d topSeq (writeScalars memory d)
  | .string d _ => writeElements memory d topSeq fun nElements =>
    loopElements nElements fun n => writeString memory d (n == 0)
  | .struct d members => writeElements memory d topSeq fun nElements => do
    emit (.beginStruct d)
    loopElements nElements fun _ => writeMembers memory false members
    emit (.endStruct d)
  | .type d t => writeElements memory d topSeq fun nElements => do
    emit (.beginType d)
    loopElements nElements fun _ => t.write memory false
    emit (.endType d)

def writeMembers (memory : Memory) (topSeq : Bool) : List Member → WriteM Unit
  | [] => pure ()
  | m :: ms => do
    m.write memory topSeq
    writeMembers memory topSeq ms

end

/-! ## Operations -/

structure Operation where
  args : List Member
  topFixedSequence : Bool

/-- A single argument that is a sequence of elements of fixed size, or a string. -/
def isTopFixedSequence : List Member → Bool
  | [m] =>
    (m.isSequence && m.isFixed true) ||
      (!m.isSequence && match m with | .string _ _ => true | _ => false)
  | _ => false

/-- The part of `Operation::parse` behind the arguments; `l` has what the operations of the protocol
share. -/
def Operation.make (args : List Member) (l : Layout) : Except String (Operation × Layout) := do
  let top := isTopFixedSequence args
  let (args, l) ← alignMembers top { l with maxAlign := 0, argOffset := 0 } args
  return (⟨args, top⟩, l)

/-- `Operation::read` into the buffer at `data`: the number of bytes, the memory, and what the reader
was asked. -/
def Operation.read (op : Operation) (R : Reader σ) (source : σ) (memory : Memory)
    (data maxLength : Nat) : Except String (Nat × Memory × List Event) := do
  let (_, s) ← (readMembers R op.args).run ⟨memory, data, maxLength, source, []⟩
  return (maxLength - s.length, s.memory, s.events)

/-- `Operation::write`: what the writer was told, and the bytes that are left over. -/
def Operation.write (op : Operation) (memory : Memory) (data length : Nat) :
    Except String (List Event × Nat) := do
  let (_, s) ← (writeMembers memory op.topFixedSequence op.args).run ⟨data, length, []⟩
  return (s.events, s.length)

end OpenCpi.Value
