import OpenCpi.Infra.Codec
import OpenCpi.Infra.Exc
import OpenCpi.Value.Element

/-!
# Parsing values

`Value::parse` of `OcpiUtilValue.cxx` with `clear`, `allocate`, `parseDimension`, `parseElement` and
`parseValue`. A `Value` keeps what it did when it fails, so parsing is a computation with a state. What the
base type does with the text of a single value is a parameter, `Base`; at the end a `Base` is made for
each kind of member, and those of structs and types parse values of their own.

Lengths are counted in items, not in bytes. Where the program would use deleted storage or fail an
assertion, it crashes.
-/

namespace OpenCpi.Value

open Infra

inductive Failure where
  | message (text : String)
  | crash
deriving DecidableEq, Repr

/-- A pointer to an array: `NULL`, to deleted storage, or to items. -/
inductive Pointer (α : Type) where
  | null
  | stale
  | array (items : List α)
deriving DecidableEq, Repr

/-- The state of a `Value`: `item` is the value itself unless it is a sequence or an array. `stringNext`
is counted from `m_stringSpace`. -/
structure ValueState (α : Type) where
  nElements : Nat := 0
  nTotal : Nat := 0
  item : Option α := none
  items : Pointer α := .null
  structs : Pointer Unit := .null
  length : Nat := 0
  stringSpaceLength : Nat := 0
  stringNext : Nat := 0
  parsed : Bool := false

/-- What depends on the base type: the zero that new storage is filled with, and the parser of a single
value. The parser gets what is behind the text as well, and says how far it moved `m_stringNext`. -/
structure Base (α : Type) where
  zero : α
  isString : Bool := false
  isStruct : Bool := false
  isType : Bool := false
  parse : Text → Text → Except Failure α × Nat

variable {α : Type} (d : Decl) (base : Base α)

abbrev ParseM (α : Type) := Exc (ValueState α) Failure

def raise {α β : Type} (text : String) : ParseM α β := Exc.raise (.message text)

/-- Values with storage of their own. -/
def Decl.isVector : Bool := d.isSequence || !d.arrayDimensions.isEmpty

def needsComma : Bool := d.isVector || base.isStruct

def needsCommaDimension : Bool := base.isStruct

def needsCommaElement : Bool := !d.arrayDimensions.isEmpty || base.isStruct

/-! ## Storage -/

/-- `delete []` -/
def Pointer.delete {β : Type} : Pointer β → Option (Pointer β)
  | .null => some .null
  | .stale => none
  | .array _ => some .stale

/-- The part of `clear` for the array of items. -/
def clearItems : ParseM α Unit := do
  let v ← Exc.read
  match v.items.delete with
  | none => Exc.raise .crash
  | some items => Exc.change fun v => { v with items, nTotal := 0, nElements := 0 }

/-- `clear` -/
def clear : ParseM α Unit := do
  let v ← Exc.read
  match v.structs.delete with
  | none => Exc.raise .crash
  | some structs => do
    Exc.change fun v => { v with structs, stringSpaceLength := 0, stringNext := 0 }
    onlyIf (v.nTotal ≠ 0 ∧ d.isVector = true) clearItems

/-- The new array of items, with the old ones if an element is added. -/
def grown (v : ValueState α) (add : Bool) : Option (List α) :=
  let fresh := List.replicate v.nTotal base.zero
  if !add then some fresh
  else match v.items with
    | .null => if v.length = 0 then some fresh else none
    | .stale => none
    | .array old =>
      if v.length ≤ old.length ∧ v.length ≤ v.nTotal then
        some (old.take v.length ++ fresh.drop v.length)
      else none

/-- The part of `allocate` for the array of items. -/
def allocateItems (add : Bool) : ParseM α Unit := do
  let v ← Exc.read
  match grown base v add with
  | none => Exc.raise .crash
  | some items => Exc.change fun v => { v with items := .array items }

/-- The part of `allocate` for structs and types. -/
def allocateStructs (add : Bool) : ParseM α Unit :=
  if (base.isStruct || base.isType) && add then Exc.raise .crash
  else onlyIf (base.isStruct = true) (Exc.change fun v => { v with structs := .array [] })

/-- `allocate` -/
def allocate (add : Bool) : ParseM α Unit := do
  let v ← Exc.read
  if d.isSequence && v.nElements == 0 then pure ()
  else if d.isSequence && d.sequenceLength ≠ 0 && d.sequenceLength < v.nElements then
    raise s!"Too many elements ({v.nElements}) in bounded sequence ({d.sequenceLength})"
  else do
    onlyIf (d.isVector = true) (allocateItems base add)
    Exc.change fun v => { v with length := v.nTotal }
    allocateStructs base add

/-- The pointers to as many strings as there are elements can be moved. -/
def ValueState.movable (v : ValueState α) : Bool :=
  match v.items with
  | .array items => v.nElements ≤ items.length
  | _ => v.nElements == 0

/-- The space for strings at the beginning of `parse`. The pointers to earlier strings are moved. -/
def stringSpace (length : Nat) (add : Bool) : ParseM α Unit := do
  let v ← Exc.read
  if add && (!d.isSequence || !v.movable) then Exc.raise .crash
  else Exc.change fun v => { v with
    stringSpaceLength := v.stringSpaceLength + (length + 1)
    stringNext := if add then v.stringSpaceLength else 0 }

/-! ## Elements -/

/-- The place that `parseValue` puts a value into. -/
def storeItem (index : Nat) (x : α) : ParseM α Unit := do
  let v ← Exc.read
  if d.isVector then
    match v.items with
    | .array items => Exc.change fun v => { v with items := .array (items.set index x) }
    | _ => Exc.raise .crash
  else Exc.change fun v => { v with item := some x }

/-- `parseValue` -/
def parseValue (text after : Text) (nSeq nArray : Nat) : ParseM α Unit := do
  let r := base.parse text after
  Exc.change fun v => { v with stringNext := v.stringNext + r.2 }
  match r.1 with
  | .error (.message e) => raise s!"{e} for \"{shown (text ++ after)}\" ({text.length})"
  | .error .crash => Exc.raise .crash
  | .ok x => storeItem d (nSeq * d.nItems + nArray) x

/-- The loop of `parseDimension` over its elements, from the next one at `offset` on. The first one may be
empty, another empty one is the end. What is left over is returned. -/
def dimensionLoop (body : Text → Text → Nat → ParseM α Unit) (skip : Nat) (after : Text) :
    Nat → Bool → Nat → Text → ParseM α Text
  | 0, _, _, unparsed => pure unparsed
  | n + 1, first, offset, unparsed =>
    match doElement unparsed with
    | (some e, _) => raise e
    | (none, e) =>
      if !first && e.text.isEmpty then pure e.unparsed
      else do
        body e.text (e.follow ++ after) offset
        dimensionLoop body skip after n false (offset + skip) e.unparsed

/-- An element of the last dimension. -/
def parseItem (nSeq : Nat) (text after : Text) (offset : Nat) : ParseM α Unit :=
  if needsCommaDimension base then
    match inBraces text with
    | none =>
      raise s!"struct or array element not enclosed in \x7b\x7d for ({shown (text ++ after)}) ({text.length})"
    | some inner => parseValue d base inner (125 :: after) nSeq offset
  else parseValue d base text after nSeq offset

/-- `parseDimension` for the dimensions from one on. -/
def parseDimension (nSeq : Nat) : List Nat → Nat → Nat → Text → Text → ParseM α Unit
  | [], _, _, _, _ => pure ()
  | dimension :: rest, nItems, offset, text, after => do
    let skip := nItems / dimension
    let body := fun text after offset =>
      if rest.isEmpty then parseItem d base nSeq text after offset
      else
        match inBraces text with
        | none =>
          raise s!"array elements not enclosed in \x7b\x7d for ({shown (text ++ after)}) ({text.length})"
        | some inner => parseDimension nSeq rest skip offset inner (125 :: after)
    let excess ← dimensionLoop body (if rest.isEmpty then 1 else skip) after dimension true offset text
    if excess.isEmpty then pure ()
    else raise s!"excess data for array: \"{shown (excess ++ after)}\""

/-- `parseElement` -/
def parseElement (text after : Text) (nSeq : Nat) : ParseM α Unit :=
  if d.arrayDimensions.isEmpty then parseValue d base text after nSeq 0
  else parseDimension d base nSeq d.arrayDimensions d.nItems 0 text after

/-- The loop that counts the elements of a sequence; it returns the length of the last one. Each element
but the last is followed by a comma, so there are at most as many as characters and one more. -/
def countElements : Nat → Text → ParseM α Nat
  | 0, _ => pure 0
  | fuel + 1, unparsed =>
    match doElement unparsed with
    | (some e, _) => raise e
    | (none, e) => do
      Exc.change fun v => { v with nElements := v.nElements + 1 }
      if skipSpaces e.follow = [] then pure e.text.length
      else countElements fuel e.unparsed

/-- An element of a sequence. -/
def sequenceElement (text after : Text) (n : Nat) : ParseM α Unit :=
  if needsCommaElement d base then
    match inBraces text with
    | none => raise "sequence elements not enclosed in braces"
    | some inner => parseElement d base inner (125 :: after) n
  else parseElement d base text after n

/-- The loop over the elements of a sequence. It does not look at the result of `doElement`, which was
called on the same text before. -/
def sequenceLoop (after : Text) : Nat → Nat → Text → ParseM α Unit
  | 0, _, _ => pure ()
  | k + 1, n, unparsed => do
    let e := (doElement unparsed).2
    sequenceElement d base e.text (e.follow ++ after) n
    sequenceLoop after k (n + 1) e.unparsed

/-- `m_nElements` at the beginning of `parse`. -/
def elementCount (text : Text) (add : Bool) : ParseM α Unit :=
  if add then Exc.change fun v => { v with nElements := v.nElements + 1 }
  else if d.isSequence then do
    Exc.change fun v => { v with nElements := 0 }
    let len ← countElements (text.length + 1) text
    Exc.change fun v => if v.nElements = 1 ∧ len = 0 then { v with nElements := 0 } else v
  else pure ()

/-- The part of `parse` behind the allocation. -/
def parseElements (text after : Text) (add : Bool) : ParseM α Unit := do
  let v ← Exc.read
  if d.isSequence then
    if add then parseElement d base text after (v.nElements - 1)
    else sequenceLoop d base after v.nElements 0 text
  else parseElement d base text after 0

/-- `parse` -/
def parse (text after : Text) (add : Bool) : ParseM α Unit := do
  onlyIf (add = false) (clear d)
  onlyIf (base.isString = true) (stringSpace d text.length add)
  elementCount d text add
  Exc.change fun v => { v with
    nTotal := d.nItems * (if d.isSequence then v.nElements else 1) % 2 ^ 64 }
  allocate d base add
  parseElements d base text after add
  Exc.change fun v => { v with parsed := true }

/-- A call of `parse` with a text, what is behind it, and whether it adds an element. -/
structure Call where
  text : Text
  after : Text
  add : Bool

/-- A call from outside, unless the program crashes. -/
def parseStep (v : ValueState α) (c : Call) : Option (ValueState α) :=
  match parse d base c.text c.after c.add v with
  | (.error .crash, _) => none
  | (_, v) => some v

/-- The items that a value has. -/
def ValueState.contents (v : ValueState α) : List α :=
  if d.isVector then (match v.items with | .array items => items | _ => []) else v.item.toList

/-- `parse` on a new value. -/
def parseNew (text after : Text) : Except Failure (List α) :=
  match parse d base text after false {} with
  | (.error e, _) => .error e
  | (.ok (), v) => .ok (v.contents d)

end OpenCpi.Value
