import OpenCpi.Value.Datum

/-!
# Printing values

`unparse` of `OcpiUtilValue.cxx` with `unparseDimension`, `unparseElement`, `unparseValue` and the printers of
the base types, for types without a format of their own. The elements are separated by commas. `asprintf` of
the C library with `%g` is a parameter, with the type and the bits of the number.
-/

namespace OpenCpi.Value

/-- What a printer appends, and whether the value is null: the one that new storage is filled with. -/
abbrev Printed := Text × Bool

/-! ## Scalars -/

/-- `%u`, `%lu` and `%llu` -/
def unsignedText (n : Nat) : Text := (Nat.toDigits 10 n).map fun c => UInt8.ofNat c.toNat

/-- `%ld` and `%lld` -/
def integerText (v : Int) : Text := if v < 0 then 45 :: unsignedText v.natAbs else unsignedText v.natAbs

/-- The printers of the integer types. -/
def unparseInteger (v : Int) : Printed := (integerText v, v == 0)

def unparseBool (val : Bool) : Printed :=
  (if val then [116, 114, 117, 101] else [102, 97, 108, 115, 101], !val)

def isprint (c : UInt8) : Bool := 32 ≤ c && c ≤ 126

/-- The letter for a character, behind a backslash: `n`, `t`, `v`, `b`, `r`, `f`, `a`. -/
def letterOf (val : UInt8) : Option UInt8 :=
  if val = 10 then some 110
  else if val = 9 then some 116
  else if val = 11 then some 118
  else if val = 8 then some 98
  else if val = 13 then some 114
  else if val = 12 then some 102
  else if val = 7 then some 97
  else none

/-- The text of a character: a backslash stands in front of a backslash, a quote, a blank, a comma and
braces. -/
def charText (val : UInt8) : Text :=
  if isprint val then
    if val = 92 ∨ val = 34 ∨ val = 32 ∨ val = 44 ∨ val = 125 ∨ val = 123 then [92, val] else [val]
  else
    match letterOf val with
    | some c => [92, c]
    | none => [92, 48 + (val >>> (6 : UInt8) &&& 7), 48 + (val >>> (3 : UInt8) &&& 7), 48 + (val &&& 7)]

def unparseChar (argVal : UInt8) : Printed := (charText argVal, argVal == 0)

/-- `unparseString`. An empty string is two quotes. -/
def unparseString (val : Text) : Printed :=
  if val = [] then ([34, 34], true) else (val.flatMap charText, false)

/-- The loop of `unparseDouble`: the zeros in front of the exponent are dropped. -/
def dropZeros (cp : Text) : Text :=
  match cp.span fun c => c != 101 && c != 69 with
  | (_, []) => cp
  | (front, e :: exponent) => front.rdropWhile (· == 48) ++ e :: exponent

/-- `unparseDouble` and `unparseFloat` -/
def unparseFloating (asprintf : Scalar → Nat → Text) (t : Scalar) (bits : Nat) : Printed :=
  (dropZeros (asprintf t bits), bits == 0)

/-- The printer of a base type; the elements of a struct type stand in braces. -/
structure Printer where
  isStruct : Bool := false
  print : Datum → Printed

/-- There is nothing to print in a value of another type. -/
def nothing : Printed := ([], false)

def Scalar.printer (asprintf : Scalar → Nat → Text) (t : Scalar) : Printer where
  print
    | .bool b => unparseBool b
    | .char c => unparseChar c
    | .int v => unparseInteger v
    | .float bits => unparseFloating asprintf t bits
    | _ => nothing

def stringPrinter : Printer where
  print
    | .string chars => unparseString chars
    | _ => nothing

/-- `unparseEnum` -/
def enumPrinter (enums : List Text) : Printer where
  print
    | .enum val => (enums.getD val [], val == 0)
    | _ => nothing

/-! ## Arrays and sequences -/

/-- `'{'`, a text and `'}'` -/
def braced (s : Text) : Text := 123 :: s ++ [125]

/-- The variables of `unparseDimension`. -/
structure Dimension where
  prevNull : Bool := false
  allNull : Bool := true
  length : Nat := 0
  v : Text := []
deriving DecidableEq, Repr

/-- An element is appended. `length` is behind the first of the null elements at the end. -/
def Dimension.append (s : Dimension) (thisNull : Bool) (v : Text) : Dimension :=
  if thisNull then
    { s with length := if s.prevNull then s.length else v.length, prevNull := true, v }
  else { length := 0, allNull := false, prevNull := false, v }

/-- The loop of `unparseDimension`, from element `n` on. -/
def Dimension.loop (element : Nat → Printed) : Nat → Nat → Dimension → Dimension
  | 0, _, s => s
  | k + 1, n, s =>
    let e := element n
    loop element k (n + 1) (s.append e.2 ((if n ≠ 0 then s.v ++ [44] else s.v) ++ e.1))

/-- What is kept of the text. -/
def Dimension.printed (s : Dimension) : Printed :=
  (if s.length ≠ 0 then s.v.take s.length else s.v, s.allNull)

/-- `unparseDimension` for the dimensions from one on; `value` prints the value at an offset. -/
def unparseDimension (isStruct : Bool) (value : Nat → Printed) : List Nat → Nat → Nat → Printed
  | [], _, _ => nothing
  | dimension :: rest, nItems, offset =>
    let skip := nItems / dimension
    let element := fun n =>
      if rest.isEmpty then
        let p := value (offset + n)
        (if isStruct then braced p.1 else p.1, p.2)
      else
        let p := unparseDimension isStruct value rest skip (offset + n * skip)
        (braced p.1, p.2)
    (Dimension.loop element dimension 0 {}).printed

/-- `unparseValue` -/
def unparseValue (d : Decl) (p : Printer) (items : List Datum) (nSeq nArray : Nat) : Printed :=
  match items[nSeq * d.nItems + nArray]? with
  | some x => p.print x
  | none => nothing

/-- `unparseElement` -/
def unparseElement (d : Decl) (p : Printer) (items : List Datum) (nSeq : Nat) : Text :=
  if d.arrayDimensions.isEmpty then (unparseValue d p items nSeq 0).1
  else (unparseDimension p.isStruct (unparseValue d p items nSeq) d.arrayDimensions d.nItems 0).1

/-- An element of a sequence. -/
def unparseSequenceElement (d : Decl) (p : Printer) (items : List Datum) (n : Nat) : Text :=
  if !d.arrayDimensions.isEmpty || p.isStruct then braced (unparseElement d p items n)
  else unparseElement d p items n

/-- The loop of `unparse` over the elements of a sequence, from element `n` on. -/
def unparseSequence (element : Nat → Text) : Nat → Nat → Text
  | 0, _ => []
  | k + 1, n => (if n ≠ 0 then 44 :: element n else element n) ++ unparseSequence element k (n + 1)

/-- `m_nElements` of a value with these items. -/
def Decl.elements (d : Decl) (items : List Datum) : Nat := items.length / d.nItems

/-- `unparse` -/
def unparse (d : Decl) (p : Printer) (items : List Datum) : Text :=
  if d.isSequence then unparseSequence (unparseSequenceElement d p items) (d.elements items) 0
  else unparseElement d p items 0

/-! ## Structs and types -/

/-- A member of a struct: its name, whether its value stands in braces, and the printer of its value. -/
structure PrintedField where
  name : Text
  needsComma : Bool
  unparse : List Datum → Text

/-- A value in braces if it needs them. -/
def delimited (needsComma : Bool) (s : Text) : Text := if needsComma then braced s else s

/-- The loop of `unparseStruct` over the members. The flag says that one was printed before. -/
def structText : List PrintedField → List (Option (List Datum)) → Bool → Printed
  | [], _, seenOne => ([], !seenOne)
  | f :: fields, val, seenOne =>
    match val.headD none with
    | none => structText fields val.tail seenOne
    | some v =>
      let rest := structText fields val.tail true
      ((if seenOne then [44] else []) ++ f.name ++ 32 :: delimited f.needsComma (f.unparse v) ++ rest.1, rest.2)

/-- `unparseStruct` -/
def structPrinter (fields : List PrintedField) : Printer where
  isStruct := true
  print
    | .struct val => structText fields val false
    | _ => nothing

/-- `unparseType` -/
def typePrinter (needsComma : Bool) (unparse : List Datum → Text) : Printer where
  print
    | .type val => (delimited needsComma (unparse val), false)
    | _ => nothing

/-- `needsComma` of the value that is printed. -/
def printsCommas (d : Decl) (p : Printer) : Bool := d.isVector || p.isStruct

mutual

/-- The printer of the base type of a member. -/
def Member.printer (asprintf : Scalar → Nat → Text) : Member → Printer
  | .scalar _ t => t.printer asprintf
  | .string _ _ => stringPrinter
  | .enum _ enums => enumPrinter enums
  | .struct _ ms => structPrinter (memberPrinters asprintf ms)
  | .type _ t =>
    typePrinter (printsCommas t.decl (t.printer asprintf)) (unparse t.decl (t.printer asprintf))

def memberPrinters (asprintf : Scalar → Nat → Text) : List Member → List PrintedField
  | [] => []
  | m :: ms =>
    ⟨m.decl.name, printsCommas m.decl (m.printer asprintf), unparse m.decl (m.printer asprintf)⟩ ::
      memberPrinters asprintf ms

end

/-- `unparse` of a value of the type of a member. -/
def Member.unparse (asprintf : Scalar → Nat → Text) (m : Member) (items : List Datum) : Text :=
  Value.unparse m.decl (m.printer asprintf) items

end OpenCpi.Value
