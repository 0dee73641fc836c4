import OpenCpi.Application.Search
import OpenCpi.Container.Port
import OpenCpi.Hdl.WciControl
import OpenCpi.Infra.Writes

/-!
# Setting the properties of a worker

`OcpiWorker.cxx`: `setProperties` for typed values and for texts, with `checkTypeAlways` of
`OcpiProperty.cxx`. The properties of a worker are bytes in memory. How a container writes scalars and strings
is a field of the worker, with what `OcpiRccWorker.cxx` and `HdlWciControl.cxx` do as instances; the window
of an HDL worker is left out. What an access meets in the device is part of the state, and how a text is
parsed is a field of the worker.
-/

namespace OpenCpi.Container

open Application (sameName)
open Hdl (BaseType baseTypeSizes)
open Infra
open Util (Text)

/-- What is used of the metadata of a property. -/
structure Property where
  name : Text
  baseType : BaseType
  offset : Nat
  align : Nat
  nBits : Nat
  isSequence : Bool := false
  arrayRank : Nat := 0
  nItems : Nat := 1
  sequenceLength : Nat := 0
  stringLength : Nat := 0
  isWritable : Bool := true
  isReadable : Bool := true
  writeError : Bool := false
deriving DecidableEq, Repr

/-- How a setting fails. `ended` stands for a failed assertion and for a `throw` outside of a handler, which
end the process. -/
inductive Failed where
  | unknownProperty (id : Text)
  | propertySet
  | message (text : String)
  | structText
  | parse (value : Text)
  | notSettable
  | device
  | ended
deriving DecidableEq, Repr

/-! ## Containers -/

/-- The bytes of a string in memory: its text, the end, and what stands behind it. -/
def stringBytes (text behind : List UInt8) : List UInt8 := text ++ 0 :: behind

/-- A string is written from its fifth byte on, then its first four bytes. -/
def stringWords (offset : Nat) (text behind : List UInt8) : List Write :=
  (if 4 < text.length + 1 then [⟨offset + 4, (stringBytes text []).drop 4⟩] else []) ++
    [⟨offset, (stringBytes text behind).take 4⟩]

/-- `prepareProperty` and the functions that set one scalar or one string. -/
structure Accessors where
  prepareProperty : Property → Bool
  scalarWrites : Property → List UInt8 → Except Failed (List Write)
  stringWrites : Property → List UInt8 → List UInt8 → Except Failed (List Write)

/-- The property has an address for direct writes. -/
def Property.isDirect (p : Property) : Bool :=
  p.baseType != .struct && !p.isSequence && p.baseType != .string && baseTypeSizes p.baseType ≤ 32 &&
    !p.writeError

/-- An RCC worker, whose dispatch table gives `propertySize`. -/
def rcc (propertySize : Nat) : Accessors where
  prepareProperty p := !p.isDirect || p.offset + baseTypeSizes p.baseType / 8 ≤ propertySize
  scalarWrites p data :=
    if p.writeError then .error .ended
    else if 4 < data.length then .ok [⟨p.offset + 4, data.drop 4⟩, ⟨p.offset, data.take 4⟩]
    else .ok [⟨p.offset, data⟩]
  stringWrites p text behind :=
    if p.stringLength < text.length ∨ p.writeError then .error .ended
    else .ok (stringWords p.offset text behind)

/-- An HDL worker. A string is written like a sequence of its bytes. -/
def hdl : Accessors where
  prepareProperty _ := true
  scalarWrites p data := .ok [⟨p.offset, data⟩]
  stringWrites p text _ :=
    let data := stringBytes text []
    .ok (if p.isSequence then [⟨p.offset + p.align, data⟩, ⟨p.offset, wordBytes data.length⟩]
      else [⟨p.offset, data⟩])

/-! ## Workers -/

/-- What `setPropertyValue` uses of a value: the items of an array or a sequence, or one item. -/
structure Parsed where
  nElements : Nat := 0
  strings : List (List UInt8) := []
  data : List UInt8 := []
  text : List UInt8 := []
  behind : List UInt8 := []
deriving DecidableEq, Repr

structure Worker where
  properties : List Property
  beforeStart : Bool
  container : Accessors
  parse : Property → Text → Option Parsed

/-- A typed value, with the bytes of the scalar. -/
inductive PValue where
  | scalar (name : Text) (ctype : BaseType) (data : List UInt8)
  | string (name : Text) (text behind : List UInt8)
deriving DecidableEq, Repr

def PValue.name : PValue → Text
  | .scalar name .. | .string name .. => name

def PValue.type : PValue → BaseType
  | .scalar _ ctype _ => ctype
  | .string .. => .string

/-- `Property::checkTypeAlways` -/
def checkTypeAlways (p : Property) (beforeStart : Bool) (ctype : BaseType) (n : Nat) (write : Bool) :
    Except Failed Unit := do
  if write && !p.isWritable && !beforeStart then
    throw (.message "trying to write a non-writable property")
  if !write && !p.isReadable then throw (.message "trying to read a non-readable property")
  if p.baseType = .struct then throw (.message "struct type used as scalar type")
  if ctype ≠ p.baseType then throw (.message "incorrect type for this property")
  if p.isSequence then
    if n % p.nItems ≠ 0 then throw (.message "number of items not a multiple of array size")
    if write && p.sequenceLength < n / p.nItems then
      throw (.message "sequence or array too long for this property")
    if !write && n / p.nItems < p.sequenceLength then
      throw (.message "sequence or array not large enough for this property")
  else if n ≠ p.nItems then throw (.message "wrong number of values for non-sequence type")

/-- A property that is to be set: its ordinal and what is written. -/
structure Job where
  property : Nat
  writes : List Write
deriving DecidableEq, Repr

/-- `OA::Property(*this, name)` -/
def Worker.property (w : Worker) (name : Text) : Except Failed (Nat × Property) :=
  match w.properties.zipIdx.find? (sameName ·.1.name name) with
  | none => .error (.unknownProperty name)
  | some (p, n) => if w.container.prepareProperty p then .ok (n, p) else .error .propertySet

/-- An entry of a list of typed values, up to its writes. -/
def Worker.typedJob (w : Worker) (v : PValue) : Except Failed Job := do
  let prop ← w.property v.name
  checkTypeAlways prop.2 w.beforeStart v.type 1 true
  match v with
  | .scalar _ ctype data =>
    -- the other types have no case in the switch
    if ctype ∈ [BaseType.none, .struct, .enum, .type, .string] then throw .ended
    let writes ← w.container.scalarWrites prop.2 data
    return ⟨prop.1, writes⟩
  | .string _ text behind =>
    let writes ← w.container.stringWrites prop.2 text behind
    return ⟨prop.1, writes⟩

/-- The strings of an array or a sequence. -/
def stringItems (stringLength : Nat) : Nat → List (List UInt8) → List Write
  | _, [] => []
  | offset, s :: rest =>
    ⟨offset, stringBytes s []⟩ :: stringItems stringLength (offset + roundUp (stringLength + 1) 4) rest

/-- `setPropertyValue` -/
def valueWrites (p : Property) (v : Parsed) : Except Failed (List Write) :=
  if p.baseType = .struct ∨ p.baseType = .type then .error .notSettable
  else if p.isSequence ∨ 0 < p.arrayRank then
    let offset := p.offset + if p.isSequence then p.align else 0
    .ok ((if p.baseType = .string then stringItems p.stringLength offset v.strings
        else if v.data = [] then [] else [⟨offset, v.data⟩]) ++
      if p.isSequence then [⟨p.offset, wordBytes v.nElements⟩] else [])
  else if p.baseType = .string then .ok (stringWords p.offset v.text v.behind)
  else .ok (if p.nBits ∈ [8, 16, 32, 64] then [⟨p.offset, v.data.take (p.nBits / 8)⟩] else [])

/-- `setProperty` of a name and a text, up to its writes. -/
def Worker.textJob (w : Worker) (entry : Text × Text) : Except Failed Job := do
  let prop ← w.property entry.1
  if prop.2.baseType = .struct then throw .structText
  match w.parse prop.2 entry.2 with
  | none => throw (.parse entry.2)
  | some v =>
    let writes ← valueWrites prop.2 v
    return ⟨prop.1, writes⟩

/-! ## Setting them -/

/-- The property bytes, and what the next accesses meet in the device: nothing, or an error after so many bytes
were written. (`Device::setBytes` of `NetDriver.cxx` writes word after word and stops at the first error.) Beyond
the list there are no errors. -/
structure Values where
  memory : Memory
  outcomes : List (Option Nat)

abbrev Setting (α : Type) := Exc Values Failed α

/-- One access. -/
def access (w : Write) : Setting Unit := fun s =>
  match s.outcomes with
  | [] => (.ok (), ⟨writeBytes s.memory w.addr w.data, []⟩)
  | none :: rest => (.ok (), ⟨writeBytes s.memory w.addr w.data, rest⟩)
  | some n :: rest => (.error .device, ⟨writeBytes s.memory w.addr (w.data.take n), rest⟩)

def accessAll : List Write → Setting Unit
  | [] => pure ()
  | w :: ws => do
    access w
    accessAll ws

/-- The loop of `setProperties`. -/
def setEach {β : Type} (job : β → Except Failed Job) : List β → Setting Unit
  | [] => pure ()
  | entry :: rest =>
    match job entry with
    | .error e => Exc.raise e
    | .ok j => do
      accessAll j.writes
      setEach job rest

/-- The argument of `setProperties`: typed values, or names and texts. -/
inductive Batch where
  | typed (props : List PValue)
  | texts (props : List (Text × Text))
deriving DecidableEq, Repr

/-- `setProperties` -/
def Worker.setProperties (w : Worker) : Batch → Setting Unit
  | .typed props => setEach w.typedJob props
  | .texts props => setEach w.textJob props

end OpenCpi.Container
