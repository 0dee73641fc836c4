import OpenCpi.Value.Parse

/-!
# Values of all types

The parsers of single values for each kind of member (`parseStruct` and `parseType` of
`OcpiUtilValue.cxx` and those of the scalar types), and with them the parser of a whole value. `strtod` of
the C library is a parameter: it answers with the bits of the number, unless there is none.
-/

namespace OpenCpi.Value

/-- What a value holds for one item. A struct has a value for each of its members that the text names. -/
inductive Datum where
  | bool (b : Bool)
  | char (c : UInt8)
  | int (v : Int)
  | float (bits : Nat)
  | string (chars : Text)
  | enum (n : Nat)
  | struct (members : List (Option (List Datum)))
  | type (items : List Datum)
deriving Repr

/-- A parser that fails with a message and moves nothing. -/
def single {α β : Type} (f : α → β) : Except String α → Except Failure β × Nat
  | .ok x => (.ok (f x), 0)
  | .error e => (.error (.message e), 0)

/-- `parseDouble` and `parseFloat` -/
def parseFloating (strtod : Scalar → Text → Option Nat) (t : Scalar) (error : String) (cp after : Text) :
    Except String Nat :=
  match strtod t (cp ++ after) with
  | none => .error error
  | some bits => .ok bits

/-- The parsers of the scalar types. -/
def Scalar.base (strtod : Scalar → Text → Option Nat) (t : Scalar) : Base Datum :=
  match t with
  | .bool => { zero := .bool false, parse := fun text _ => single .bool (parseBool text) }
  | .char => { zero := .char 0, parse := fun text _ => single .char (parseChar text) }
  | .double =>
    { zero := .float 0
      parse := fun text after =>
        single .float (parseFloating strtod .double "bad Double value" text after) }
  | .float =>
    { zero := .float 0
      parse := fun text after =>
        single .float (parseFloating strtod .float "bad Float value" text after) }
  | t => { zero := .int 0, parse := fun text after => single .int (t.parseInteger text after) }

def stringBase (stringLength : Nat) : Base Datum where
  zero := .string []
  isString := true
  parse text _ :=
    match parseString stringLength text with
    | (.ok chars, n) => (.ok (.string chars), n)
    | (.error e, n) => (.error (.message e), n)

def enumBase (enums : List Text) : Base Datum where
  zero := .enum 0
  parse text _ := single .enum (parseEnum enums text)

/-! ## Structs -/

/-- A member of a struct: its name, whether its value stands in braces, and the parser of its value. -/
structure Field where
  name : Text
  needsComma : Bool
  parse : Text → Text → Except Failure (List Datum)

/-- The name of the field stands at the start of a string, with a blank behind it. -/
def Field.named (f : Field) (start : Text) : Bool :=
  f.name.isPrefixOf start && ((start.drop f.name.length).head?.any isspace)

/-- The value of a member, from behind its name. -/
def Field.parseValue (f : Field) (text after : Text) : Except Failure (List Datum) :=
  if text.length < f.name.length then .error .crash
  else
    let value := skipSpaces (text.drop f.name.length)
    if f.needsComma then
      match inBraces value with
      | none => .error (.message
          s!"struct member value needs be enclosed in \x7b\x7d ({shown (value ++ after)}) ({value.length})")
      | some inner => f.parse inner (125 :: after)
    else f.parse value after

/-- The loop of `parseStruct` over the members in a text. `doElement` is called without a look at its
result. -/
def structLoop (fields : List Field) (after : Text) :
    Nat → List (Option (List Datum)) → Text → Except Failure (List (Option (List Datum)))
  | 0, sv, _ => .ok sv
  | fuel + 1, sv, unparsed =>
    if unparsed = [] then .ok sv
    else do
      let e := (doElement unparsed).2
      if e.text = [] then .error (.message "empty member value in struct value")
      else
        match fields.findIdx? (·.named (e.text ++ e.follow ++ after)) with
        | none => .error (.message "unknown member name in struct value")
        | some n =>
          if (sv.getD n none).isSome then .error (.message "duplicate member name in struct value")
          else
            match fields[n]? with
            | none => .error .crash
            | some f =>
              let v ← f.parseValue e.text (e.follow ++ after)
              structLoop fields after fuel (sv.set n (some v)) e.unparsed

/-- `parseStruct` -/
def structBase (fields : List Field) : Base Datum where
  zero := .struct []
  isStruct := true
  parse text after :=
    ((structLoop fields after text.length (List.replicate fields.length none) text).map .struct, 0)

/-- `parseType` -/
def typeBase (needsComma : Bool) (parse : Text → Text → Except Failure (List Datum)) : Base Datum where
  zero := .type []
  isType := true
  parse text after :=
    if needsComma then
      match inBraces text with
      | none => (.error (.message "recursize type needs to be enclosed in \x7b\x7d"), 0)
      | some inner => ((parse inner (125 :: after)).map .type, 0)
    else ((parse text after).map .type, 0)

mutual

/-- The base type of a member. -/
def Member.base (strtod : Scalar → Text → Option Nat) : Member → Base Datum
  | .scalar _ t => t.base strtod
  | .string _ stringLength => stringBase stringLength
  | .enum _ enums => enumBase enums
  | .struct _ ms => structBase (memberFields strtod ms)
  | .type _ t => typeBase (needsComma t.decl (t.base strtod)) (parseNew t.decl (t.base strtod))

/-- The members of a struct. -/
def memberFields (strtod : Scalar → Text → Option Nat) : List Member → List Field
  | [] => []
  | m :: ms =>
    ⟨m.decl.name, needsComma m.decl (m.base strtod), parseNew m.decl (m.base strtod)⟩ ::
      memberFields strtod ms

end

/-- `parse` on a new value of the type of a member. -/
def Member.parse (strtod : Scalar → Text → Option Nat) (m : Member) (text after : Text) :
    Except Failure (List Datum) :=
  parseNew m.decl (m.base strtod) text after

end OpenCpi.Value
