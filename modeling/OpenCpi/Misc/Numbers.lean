import Mathlib.Data.List.TakeWhile
import OpenCpi.Value.Literal

/-!
# Numbers and their texts

`integerToString`, `unsignedToString`, `stringToInteger`, `stringToUnsigned` and `stringToULongLong` of
`OcpiUtilMisc.cxx`. An `int` has 32 bits, a `long` and an `unsigned long long` have 64. The text of a number is
made with its length, and then written from its last place on.
-/

namespace OpenCpi.Misc

open Value (Text Numeral digit digits hexPrefix skipSpaces)

/-- An exception, or an access outside of an array. -/
inductive Failure where
  | thrown (message : String)
  | outside
deriving DecidableEq, Repr

/-! ## From numbers to texts -/

/-- `'-'` -/
abbrev minus : UInt8 := 45

/-- `'0'` -/
abbrev zero : UInt8 := 48

def i2sDigits : Text := [48, 49, 50, 51, 52, 53, 54, 55, 56, 57, 97, 98, 99, 100, 101, 102]

/-- `i2sDigits[n]` -/
def i2sDigit (n : Int) : Except Failure UInt8 :=
  if 0 ≤ n then
    match i2sDigits[n.toNat]? with
    | some c => .ok c
    | none => .error .outside
  else .error .outside

/-- A base that `unsignedToString` accepts. -/
structure Base where
  val : Nat
  two_le : 2 ≤ val
  le_sixteen : val ≤ 16

def Base.ten : Base := ⟨10, by decide, by decide⟩

theorem tdiv_toNat_lt (base : Base) {n : Int} (h : base.val ≤ n) : (n.tdiv base.val).toNat < n.toNat := by
  have hbase := base.two_le
  have hn : n = n.toNat := by omega
  rw [hn, ← Int.ofNat_tdiv, Int.toNat_natCast, Int.toNat_natCast]
  exact Nat.div_lt_self (by omega) hbase

/-- The loop that counts the digits. -/
def countLoop (base : Base) (tmp : Int) (count : Nat) : Nat :=
  if base.val ≤ tmp then countLoop base (tmp.tdiv base.val) (count + 1) else count
termination_by tmp.toNat
decreasing_by exact tdiv_toNat_lt base ‹_›

/-- `result[--count + padLen] = c` -/
def put (result : Text) (count padLen : Nat) (c : UInt8) : Except Failure Text :=
  if 0 < count ∧ count - 1 + padLen < result.length then .ok (result.set (count - 1 + padLen) c)
  else .error .outside

/-- The loop that writes all digits but the first one: `value`, `count` and `result` behind it. -/
def writeLoop (base : Base) (padLen : Nat) (value : Int) (count : Nat) (result : Text) :
    Except Failure (Int × Nat × Text) :=
  if base.val ≤ value then do
    let result ← put result count padLen (← i2sDigit (value.tmod base.val))
    writeLoop base padLen (value.tdiv base.val) (count - 1) result
  else .ok (value, count, result)
termination_by value.toNat
decreasing_by exact tdiv_toNat_lt base ‹_›

/-- `integerToString`. The negative of the least `int` is taken to be itself. -/
def integerToString (value : Int32) : Except Failure Text := do
  let positive := decide (0 ≤ value)
  let value := (if positive then value else -value).toInt
  let count := countLoop .ten value (if positive then 1 else 2)
  let result := List.replicate count 0
  let result := if positive then result else result.set 0 minus
  let (value, count, result) ← writeLoop .ten 0 value count result
  put result count 0 (← i2sDigit (value.tmod 10))

/-- The two functions `unsignedToString` behind the check of the base. -/
def digitsToString (value : Nat) (base : Base) (mindigits : Nat) (pad : UInt8) : Except Failure Text := do
  let count := countLoop base value 1
  let padLen := if count < mindigits then mindigits - count else 0
  let result := if count < mindigits then List.replicate mindigits pad else List.replicate count 0
  let (value, count, result) ← writeLoop base padLen value count result
  put result count padLen (← i2sDigit value)

/-- The check of the base. -/
def checkedBase (base : UInt32) : Except Failure Base :=
  if h : 2 ≤ base.toNat ∧ base.toNat ≤ 16 then .ok ⟨base.toNat, h.1, h.2⟩ else .error (.thrown "invalid base")

/-- `unsignedToString` of an `unsigned int`. -/
def unsignedToString (value base mindigits : UInt32) (pad : UInt8) : Except Failure Text := do
  digitsToString value.toNat (← checkedBase base) mindigits.toNat pad

/-- `unsignedToString` of an `unsigned long long`. -/
def ulonglongToString (value : UInt64) (base mindigits : UInt32) (pad : UInt8) : Except Failure Text := do
  digitsToString value.toNat (← checkedBase base) mindigits.toNat pad

/-! ## The C library -/

/-- The text of a C string. -/
def cString (s : Text) : Text := s.takeWhile (· ≠ 0)

theorem cString_of_notMem {s : Text} (h : 0 ∉ s) : cString s = s :=
  List.takeWhile_eq_self_iff.mpr fun _ hc => decide_eq_true fun heq => h (heq ▸ hc)

/-- Digits behind a sign; hexadecimal ones may have their prefix. -/
def unsignedNumeral (base : Nat) (negative : Bool) : Text → Option Numeral
  | [] => none
  | c :: s =>
    if base = 16 ∧ c = zero ∧ hexPrefix s = true then
      some ⟨negative, (digits 16 0 s.tail).1, (digits 16 0 s.tail).2⟩
    else if (digit base c).isSome then some ⟨negative, (digits base 0 (c :: s)).1, (digits base 0 (c :: s)).2⟩
    else none

/-- What `strtol` and `strtoul` read in a base from 2 to 36. -/
def numeral (base : Nat) (s : Text) : Option Numeral :=
  match skipSpaces s with
  | [] => none
  | c :: s =>
    if c = minus then unsignedNumeral base true s
    else if c = 43 then unsignedNumeral base false s
    else unsignedNumeral base false (c :: s)

/-- `strtol` with the place where it stops, unless the number is out of range. -/
def strtol (base : Nat) (s : Text) : Option (Int × Text) :=
  match numeral base s with
  | none => some (0, s)
  | some n => if n.value < -2 ^ 63 ∨ 2 ^ 63 ≤ n.value then none else some (n.value, n.rest)

/-- `strtoul`, alike; a negative number is negated in 64 bits. -/
def strtoul (base : Nat) (s : Text) : Option (Nat × Text) :=
  match numeral base s with
  | none => some (0, s)
  | some n =>
    if 2 ^ 64 ≤ n.magnitude then none
    else some (if n.negative then (2 ^ 64 - n.magnitude) % 2 ^ 64 else n.magnitude, n.rest)

/-! ## From texts to numbers -/

def stringToInteger (str : Text) : Except Failure Int32 :=
  match strtol 10 (cString str) with
  | none => .error (.thrown "not an integer")
  | some (value, endPtr) =>
    if value = 0 ∧ endPtr = cString str ∨ endPtr ≠ [] then .error (.thrown "not an integer")
    else if (Int32.ofInt value).toInt ≠ value then .error (.thrown "integer out of range")
    else .ok (Int32.ofInt value)

def stringToUnsigned (str : Text) (base : UInt32) : Except Failure UInt32 :=
  match strtoul base.toNat (cString str) with
  | none => .error (.thrown "not an unsigned integer")
  | some (value, endPtr) =>
    if value = 0 ∧ endPtr = cString str ∨ endPtr ≠ [] then .error (.thrown "not an unsigned integer")
    else if (UInt32.ofNat value).toNat ≠ value then .error (.thrown "unsigned integer out of range")
    else .ok (UInt32.ofNat value)

def stringToULongLong (str : Text) (base : UInt32) : Except Failure UInt64 :=
  match strtoul base.toNat (cString str) with
  | none => .error (.thrown "not an unsigned integer")
  | some (value, endPtr) =>
    if value = 0 ∧ endPtr = cString str ∨ endPtr ≠ [] then .error (.thrown "not an unsigned integer")
    else .ok (UInt64.ofNat value)

end OpenCpi.Misc
