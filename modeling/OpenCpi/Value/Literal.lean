import Mathlib.Algebra.Group.Int.Defs
import OpenCpi.Value.Types

/-!
# Integers as text

`getUNum64`, `getNum64` and the parsers of the integer types of `OcpiUtilValue.cxx`. A parser gets
pointers to the start and to the end of a text and does not look at the end: it reads what is behind the
text as well, up to the NUL of the whole string. So it has two arguments here, the text and what follows
it. `strtoull` and `strtoll` are those of the C library, called with base 0.
-/

namespace OpenCpi.Value

def isspace (c : UInt8) : Bool := c == 32 || 9 ≤ c && c ≤ 13

def skipSpaces (s : Text) : Text := s.dropWhile isspace

/-! ## The C library -/

/-- The value of a digit in a base. -/
def digit (base : Nat) (c : UInt8) : Option Nat :=
  let value :=
    if 48 ≤ c && c ≤ 57 then c.toNat - 48
    else if 97 ≤ c && c ≤ 122 then c.toNat - 97 + 10
    else if 65 ≤ c && c ≤ 90 then c.toNat - 65 + 10
    else base
  if value < base then some value else none

/-- The value of the digits at the start of a text, and the rest. -/
def digits (base : Nat) : Nat → Text → Nat × Text
  | n, [] => (n, [])
  | n, c :: s =>
    match digit base c with
    | some k => digits base (n * base + k) s
    | none => (n, c :: s)

/-- The number at the start of a text, and the rest. -/
structure Numeral where
  negative : Bool
  magnitude : Nat
  rest : Text
deriving DecidableEq, Repr

def Numeral.value (n : Numeral) : Int := if n.negative then -n.magnitude else n.magnitude

/-- The rest of the prefix `0x`, before a hexadecimal digit. -/
def hexPrefix : Text → Bool
  | x :: h :: _ => (x == 120 || x == 88) && (digit 16 h).isSome
  | _ => false

/-- Digits with the prefix of C for their base. -/
def unsignedNumeral (negative : Bool) : Text → Option Numeral
  | [] => none
  | c :: s =>
    if c = 48 then
      let r := if hexPrefix s then digits 16 0 s.tail else digits 8 0 s
      some ⟨negative, r.1, r.2⟩
    else if (digit 10 c).isSome then
      let r := digits 10 0 (c :: s)
      some ⟨negative, r.1, r.2⟩
    else none

/-- A number with a sign. -/
def signedNumeral : Text → Option Numeral
  | [] => none
  | c :: s =>
    if c = 45 then unsignedNumeral true s
    else if c = 43 then unsignedNumeral false s
    else unsignedNumeral false (c :: s)

/-- What `strtoull` and `strtoll` read, if there is a number. -/
def numeral (s : Text) : Option Numeral := signedNumeral (skipSpaces s)

/-- `strtoull` with the place where it stops, unless it sets `errno`. A negative number is negated in
64 bits. -/
def strtoull (s : Text) : Option (Nat × Text) :=
  match numeral s with
  | none => some (0, s)
  | some n =>
    if 2 ^ 64 ≤ n.magnitude then none
    else some (if n.negative then (2 ^ 64 - n.magnitude) % 2 ^ 64 else n.magnitude, n.rest)

/-- `strtoll`, alike. -/
def strtoll (s : Text) : Option (Int × Text) :=
  match numeral s with
  | none => some (0, s)
  | some n => if n.value < -2 ^ 63 ∨ 2 ^ 63 ≤ n.value then none else some (n.value, n.rest)

/-! ## Numbers of 64 bits -/

/-- A letter that multiplies, and what is behind it. -/
def multiplier : Text → Nat × Text
  | [] => (1, [])
  | c :: s =>
    if c = 75 ∨ c = 107 then (1024, s)
    else if c = 77 ∨ c = 109 then (1024 * 1024, s)
    else if c = 71 ∨ c = 103 then (1024 * 1024 * 1024, s)
    else (1, c :: s)

/-- `-1` up to the end of the whole string. -/
def minusOne (s : Text) : Bool :=
  match skipSpaces s with
  | [] => false
  | c :: s =>
    c == 45 &&
      match skipSpaces s with
      | [] => false
      | c :: s => c == 49 && (skipSpaces s).isEmpty

/-- `getUNum64` -/
def getUNum64 (s : Text) : Option Nat := do
  let (val, endptr) ← strtoull s
  let (factor, endptr) := multiplier endptr
  let val := val * factor % 2 ^ 64
  return if minusOne endptr then (val + (2 ^ 64 - 1)) % 2 ^ 64 else val

/-- `getNum64`. The product wraps around. -/
def getNum64 (s : Text) : Option Int := do
  let (val, endptr) ← strtoll s
  let (factor, _) := multiplier endptr
  return (val * factor).bmod (2 ^ 64)

/-! ## The integer types -/

/-- What the parsers of the signed types have in common. -/
def parseNum (min max : Int) (error : String) (cp after : Text) : Except String Int :=
  match getNum64 (cp ++ after) with
  | none => .error error
  | some n => if max < n ∨ n < min then .error error else .ok n

/-- And those of the unsigned types. -/
def parseUNum (max : Nat) (error : String) (cp after : Text) : Except String Int :=
  match getUNum64 (cp ++ after) with
  | none => .error error
  | some n => if max < n then .error error else .ok n

def parseShort : Text → Text → Except String Int :=
  parseNum (-2 ^ 15) (2 ^ 15 - 1) "bad Short value"

def parseLong : Text → Text → Except String Int :=
  parseNum (-2 ^ 31) (2 ^ 31 - 1) "bad Long value"

def parseLongLong : Text → Text → Except String Int :=
  parseNum (-2 ^ 63) (2 ^ 63 - 1) "bad LongLong value"

def parseUShort : Text → Text → Except String Int := parseUNum (2 ^ 16 - 1) "bad UShort value"

def parseULong : Text → Text → Except String Int := parseUNum (2 ^ 32 - 1) "bad ULong value"

/-- Without a check of the range. -/
def parseULongLong (cp after : Text) : Except String Int :=
  match getUNum64 (cp ++ after) with
  | none => .error "bad ULongLong value"
  | some n => .ok n

/-- A character behind a quote, or a number. At the end of the string it is the NUL. -/
def parseUChar (cp after : Text) : Except String Int :=
  match skipSpaces (cp ++ after) with
  | [] => parseUNum (2 ^ 8 - 1) "bad UChar value" [] []
  | c :: s =>
    if c = 39 then
      match s with
      | [] => .ok 0
      | c :: s => if c = 92 then .ok ((s.headD 0).toNat : Int) else .ok (c.toNat : Int)
    else parseUNum (2 ^ 8 - 1) "bad UChar value" (c :: s) []

/-- The types that a number is parsed for, but for `UChar`. -/
def Scalar.isInteger : Scalar → Bool
  | .short | .long | .longlong | .ushort | .ulong | .ulonglong => true
  | _ => false

/-- The parser of an integer type. -/
def Scalar.parseInteger : Scalar → Text → Text → Except String Int
  | .short => parseShort
  | .long => parseLong
  | .longlong => parseLongLong
  | .ushort => parseUShort
  | .ulong => parseULong
  | .ulonglong => parseULongLong
  | .uchar => parseUChar
  | _ => fun _ _ => .error "Unexpected illegal type in parsing value"

/-! ## What a text means -/

def Scalar.signed : Scalar → Bool
  | .short | .long | .longlong => true
  | _ => false

/-- The values of an integer type. -/
def Scalar.holds (t : Scalar) (v : Int) : Prop :=
  if t.signed then -2 ^ (t.bits - 1) ≤ v ∧ v < 2 ^ (t.bits - 1) else 0 ≤ v ∧ v < 2 ^ t.bits

instance (t : Scalar) (v : Int) : Decidable (t.holds v) := by
  unfold Scalar.holds
  infer_instance

/-- The number at the start of a text with its multiplier, and what is behind it; without digits it
is 0. -/
def leadingNumber (text : Text) : Int × Text :=
  match numeral text with
  | none => (0, (multiplier text).2)
  | some n => (n.value * (multiplier n.rest).1, (multiplier n.rest).2)

/-- A number of an unsigned type with `-1` behind it. -/
def suffixed (signed : Bool) (text : Text) : Bool := !signed && minusOne (leadingNumber text).2

/-- The value of a whole text: a number, perhaps a multiplier, and for unsigned types perhaps `-1`. Blanks
are allowed before and behind each of them. -/
def literal (signed : Bool) (text : Text) : Option Int :=
  if (numeral text).isNone then none
  else if skipSpaces (leadingNumber text).2 = [] then some (leadingNumber text).1
  else if suffixed signed text then some ((leadingNumber text).1 - 1)
  else none

/-- What may follow the text of an element: blanks, and then the end, a comma or a brace. -/
def Delimited (after : Text) : Prop :=
  ∀ c s, skipSpaces after = c :: s → c = 44 ∨ c = 125

/-- The number that is read at the start of a text: `-1` counts only where the whole string ends. -/
def leading (signed : Bool) (text after : Text) : Int :=
  (leadingNumber text).1 - if suffixed signed text && (skipSpaces after).isEmpty then 1 else 0

/-- The digits at the start of a text fit into 64 bits. -/
def fits (signed : Bool) (text : Text) : Prop :=
  ∀ n, numeral text = some n →
    if signed then -2 ^ 63 ≤ n.value ∧ n.value < 2 ^ 63 else n.magnitude < 2 ^ 64

/-- A number in 64 bits. -/
def wrapped (signed : Bool) (v : Int) : Int := if signed then v.bmod (2 ^ 64) else v % 2 ^ 64

/-- The text is a literal for a value of the type. -/
def Scalar.Denotes (t : Scalar) (text : Text) : Prop :=
  ∃ v, literal t.signed text = some v ∧ t.holds v

/-- The condition: a literal for a value of the type has digits of 64 bits, and `-1` is behind it only
where the whole string ends. Any other text has more digits at its start, or the number there is outside
of the type also in 64 bits. -/
structure Scalar.Settled (t : Scalar) (text after : Text) : Prop where
  literal : t.Denotes text →
    fits t.signed text ∧ (suffixed t.signed text = true → skipSpaces after = [])
  other : ¬ t.Denotes text →
    ¬ (fits t.signed text ∧ t.holds (wrapped t.signed (leading t.signed text after)))

/-- The parser is exact on a text: it succeeds on literals of the type, with their value. -/
def Scalar.Exact (t : Scalar) (text after : Text) : Prop :=
  ∀ v, t.parseInteger text after = .ok v ↔ literal t.signed text = some v ∧ t.holds v

end OpenCpi.Value
