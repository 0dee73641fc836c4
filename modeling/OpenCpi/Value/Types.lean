import Mathlib.Algebra.Group.Nat.Defs
import Mathlib.Data.List.Basic

/-!
# Types of data values

`ValueType` and `Member` of `OcpiUtilDataTypes.cxx`: scalars, strings, enums, structs and recursive
types, each with array dimensions and perhaps a sequence of such arrays. `offset` and `alignMembers`
compute where members lie in a linear buffer.
-/

namespace OpenCpi.Value

/-- Text is a list of bytes. -/
abbrev Text := List UInt8

/-- The base types that are numbers or characters, in the order of `OCPI_DATA_TYPES`. -/
inductive Scalar where
  | bool
  | char
  | double
  | float
  | short
  | long
  | uchar
  | ulong
  | ushort
  | longlong
  | ulonglong
deriving DecidableEq, Repr

/-- `baseTypeSizes` -/
def Scalar.bits : Scalar → Nat
  | .bool | .char | .uchar => 8
  | .short | .ushort => 16
  | .float | .long | .ulong => 32
  | .double | .longlong | .ulonglong => 64

def stringBits : Nat := 32
def enumBits : Nat := 32

/-- What all kinds of members have. An `arrayRank` of 0 is an empty list of dimensions, and a
sequence of unbounded length has `sequenceLength` 0. The last five are set by `offset`. -/
structure Decl where
  name : Text
  arrayDimensions : List Nat
  isSequence : Bool
  sequenceLength : Nat
  align : Nat := 1
  dataAlign : Nat := 0
  nBits : Nat := 0
  nBytes : Nat := 0
  offset : Nat := 0
deriving DecidableEq, Repr

/-- `m_nItems`, the product of the dimensions. -/
def Decl.nItems (d : Decl) : Nat := d.arrayDimensions.prod % 2 ^ 64

inductive Member where
  | scalar (d : Decl) (t : Scalar)
  | string (d : Decl) (stringLength : Nat)
  | enum (d : Decl) (enums : List Text)
  | struct (d : Decl) (members : List Member)
  | type (d : Decl) (t : Member)
deriving Repr

def Member.decl : Member → Decl
  | .scalar d _ | .string d _ | .enum d _ | .struct d _ | .type d _ => d

def Member.isSequence (m : Member) : Bool := m.decl.isSequence

mutual

/-- `isFixed`: at the top a sequence is allowed. -/
def Member.isFixed (top : Bool) : Member → Bool
  | .scalar d _ | .enum d _ => !(d.isSequence && !top)
  | .string _ _ | .type _ _ => false
  | .struct d ms => !(d.isSequence && !top) && membersFixed ms

def membersFixed : List Member → Bool
  | [] => true
  | m :: ms => m.isFixed false && membersFixed ms

end

/-! ## Layout -/

/-- What `offset` passes from member to member. -/
structure Layout where
  maxAlign : Nat
  argOffset : Nat
  minSizeBits : Nat
  diverseSizes : Bool
  sub32 : Bool
  unBounded : Bool
deriving DecidableEq, Repr

def roundUp (value align : Nat) : Nat := (value + (align - 1)) / align * align

def UINT32_MAX : Nat := 2 ^ 32 - 1

/-- The loop over the dimensions of an array. -/
def arrayBytes : List Nat → Nat → Except String Nat
  | [], nBytes => .ok nBytes
  | dim :: dims, nBytes =>
    let nBytes := nBytes * dim % 2 ^ 64
    if UINT32_MAX < nBytes then .error "Total array size in bytes is too large (> 4G)"
    else arrayBytes dims nBytes

/-- The bytes of an element or of an array of elements. -/
def Decl.itemBytes (d : Decl) (nBytes : Nat) : Except String Nat :=
  if UINT32_MAX < nBytes then .error "Total member size in bytes is too large (> 4G)"
  else if d.arrayDimensions.isEmpty then .ok nBytes
  else arrayBytes d.arrayDimensions (roundUp nBytes d.align)

/-- The alignment with that of the count of a sequence. -/
def Decl.countAlign (d : Decl) : Nat := if d.isSequence && d.align < 4 then 4 else d.align

/-- The bytes of a sequence of items: its largest length, and the count unless the sequence is the
only thing at the top. -/
def Decl.sequenceBytes (d : Decl) (nBytes argOffset : Nat) (isTop : Bool) : Except String Nat :=
  if d.isSequence then
    let nBytes := roundUp (nBytes % 2 ^ 32) d.align
    let nBytes := if d.sequenceLength ≠ 0 then nBytes * d.sequenceLength % 2 ^ 64 else nBytes
    let nBytes :=
      if !isTop || argOffset ≠ 0 then (nBytes + max d.countAlign 4) % 2 ^ 64 else nBytes
    if UINT32_MAX < nBytes then .error "Total sequence size in bytes is too large (> 4G)"
    else .ok nBytes
  else .ok nBytes

/-- The second half of `offset`, from the bytes of one element on. -/
def Decl.place (d : Decl) (nBytes : Nat) (l : Layout) (isTop : Bool) :
    Except String (Decl × Layout) := do
  let nBytes ← d.itemBytes nBytes
  let nBytes ← d.sequenceBytes nBytes l.argOffset isTop
  let align := d.countAlign
  let offset := roundUp l.argOffset align
  let nBytes := nBytes % 2 ^ 32
  return ({ d with align, dataAlign := d.align, nBytes, offset },
    { l with
      maxAlign := max l.maxAlign align
      sub32 := l.sub32 || align < 4
      unBounded := l.unBounded || (d.isSequence && d.sequenceLength == 0)
      argOffset := offset + nBytes })

/-- The part of `offset` for the smallest element size of a protocol. -/
def Layout.element (l : Layout) (scalarBits : Nat) : Layout :=
  { l with
    diverseSizes := l.diverseSizes || (l.minSizeBits ≠ 0 && l.minSizeBits ≠ scalarBits)
    minSizeBits :=
      if l.minSizeBits ≠ 0 then min scalarBits l.minSizeBits else scalarBits }

/-- What a struct or type hands on of the layout of its members. -/
def Layout.after (l inner : Layout) : Layout :=
  { inner with maxAlign := l.maxAlign, argOffset := l.argOffset }

mutual

/-- `offset` -/
def Member.offset (isTop : Bool) (l : Layout) : Member → Except String (Member × Layout)
  | .scalar d t => do
    let align := (t.bits + 7) / 8
    let (d, l) ← Decl.place { d with nBits := t.bits, align } align (l.element (align * 8)) isTop
    return (.scalar d t, l)
  | .enum d enums => do
    let align := (enumBits + 7) / 8
    let (d, l) ← Decl.place { d with nBits := enumBits, align } align (l.element (align * 8)) isTop
    return (.enum d enums, l)
  | .string d stringLength => do
    let align := (stringBits + 7) / 8
    let l := { l.element 8 with unBounded := l.unBounded || stringLength == 0 }
    let (d, l) ← Decl.place { d with nBits := stringBits, align }
      ((stringLength + 4) / 4 * 4 % 2 ^ 64) l isTop
    return (.string d stringLength, l)
  | .struct d ms => do
    let (ms, inner) ← alignMembers false { l with maxAlign := d.align, argOffset := 0 } ms
    let (d, l) ← Decl.place { d with nBits := inner.argOffset * 8, align := inner.maxAlign }
      inner.argOffset (l.after inner) isTop
    return (.struct d ms, l)
  | .type d t => do
    let (t, inner) ← t.offset false { l with maxAlign := d.align, argOffset := 0 }
    let (d, l) ← Decl.place { d with nBits := inner.argOffset * 8, align := inner.maxAlign }
      inner.argOffset (l.after inner) isTop
    return (.type d t, l)

/-- `alignMembers` -/
def alignMembers (isTop : Bool) (l : Layout) : List Member → Except String (List Member × Layout)
  | [] => .ok ([], l)
  | m :: ms => do
    let (m, l) ← m.offset isTop l
    let (ms, l) ← alignMembers isTop l ms
    return (m :: ms, l)

end

end OpenCpi.Value
