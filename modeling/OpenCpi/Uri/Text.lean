import Mathlib.Data.Int.Bitwise
import OpenCpi.Infra.Stream

/-!
# Texts of URIs

The static functions of `OcpiUtilUri.cxx`: `decodeURI`, `isPrefix` and `normalizePath`. Texts are lists of
bytes, and a `char` that is an `int` is signed.
-/

namespace OpenCpi.Util

abbrev Text := Infra.Bytes

/-! ## Characters -/

/-- `'%'` -/
abbrev percent : UInt8 := 37

/-- `'.'` -/
abbrev dot : UInt8 := 46

/-- `'/'` -/
abbrev slash : UInt8 := 47

def isalpha (c : UInt8) : Bool := 65 ≤ c && c ≤ 90 || 97 ≤ c && c ≤ 122

def isdigit (c : UInt8) : Bool := 48 ≤ c && c ≤ 57

def ishex (c : UInt8) : Bool := isdigit c || 65 ≤ c && c ≤ 70 || 97 ≤ c && c ≤ 102

def tolower (c : UInt8) : UInt8 := if 65 ≤ c && c ≤ 90 then c + 32 else c

/-- A `char` as an `int`. -/
def toInt (c : UInt8) : Int := if c < 128 then c.toNat else c.toNat - 256

/-! ## Escapes -/

/-- The value that is taken for a hexadecimal digit. -/
def hexInt (x : UInt8) : Int :=
  if 65 ≤ x && x ≤ 70 then toInt x - 65 + 10
  else if 97 ≤ x && x ≤ 102 then toInt x - 97 + 10
  else toInt x - 48

/-- The value of two digits. -/
def escapeInt (x1 x2 : UInt8) : Int := Int.lor (hexInt x1 * 16) (hexInt x2)

def toChar (c : Int) : UInt8 := UInt8.ofNat (c % 256).toNat

/-- `decodeURI`. Less than three characters have no escape in them: behind the last one there is a NUL,
which is not a digit. -/
def decodeURI : Text → Text
  | c :: x1 :: x2 :: uri =>
    if c = percent ∧ ishex x1 ∧ ishex x2 then toChar (escapeInt x1 x2) :: decodeURI uri
    else c :: decodeURI (x1 :: x2 :: uri)
  | uri => uri

/-! ## Prefixes -/

/-- The loop of `isPrefix` over what is left of the two texts: how far the first index goes when the
second text is a prefix. -/
def isPrefixLoop : Text → Text → Option Nat
  | _, [] => some 0
  | [], _ :: _ => none
  | f :: fullURI, b :: baseURI =>
    if f = percent ∧ b = percent then
      match fullURI, baseURI with
      | x1 :: x2 :: fullURI, y1 :: y2 :: baseURI =>
        if tolower x1 ≠ tolower y1 ∨ tolower x2 ≠ tolower y2 then none
        else (isPrefixLoop fullURI baseURI).map (· + 3)
      | _, _ => none
    else if f = percent then
      match fullURI with
      | x1 :: x2 :: fullURI =>
        if escapeInt x1 x2 ≠ toInt b then none else (isPrefixLoop fullURI baseURI).map (· + 3)
      | _ => none
    else if b = percent then
      match baseURI with
      | x1 :: x2 :: baseURI =>
        if escapeInt x1 x2 ≠ toInt f then none else (isPrefixLoop fullURI baseURI).map (· + 1)
      | _ => none
    else if f ≠ b then none
    else (isPrefixLoop fullURI baseURI).map (· + 1)

/-- `isPrefix`, with `prefix` and `tail` when it returns true. -/
def isPrefix (fullURI baseURI : Text) : Option (Text × Text) :=
  (isPrefixLoop fullURI baseURI).map fun idx1 => (fullURI.take idx1, fullURI.drop idx1)

/-! ## Paths -/

/-- The texts between the slashes. -/
def segments : Text → List Text
  | [] => [[]]
  | c :: path => if c = slash then [] :: segments path else (segments path).modifyHead (c :: ·)

/-- `rfind` -/
def rfind (c : UInt8) : Text → Option Nat
  | [] => none
  | x :: text =>
    match rfind c text with
    | some pos => some (pos + 1)
    | none => if x = c then some 0 else none

/-- A turn of the loop of `normalizePath`; `last` is `pos == npos`. -/
def addSegment (last : Bool) (res seg : Text) : Text :=
  if seg = [dot] then
    if last then res ++ [slash] else res
  else if seg = [dot, dot] then
    match rfind slash res with
    | some pos => if last then res.take pos ++ [slash] else res.take pos
    | none => res
  else res ++ slash :: seg

def normalizeLoop : Text → List Text → Text
  | res, [] => res
  | res, [seg] => addSegment true res seg
  | res, seg :: segs => normalizeLoop (addSegment false res seg) segs

/-- `normalizePath` -/
def normalizePath : Text → Text
  | [] => []
  | c :: path =>
    if c ≠ slash then c :: path
    else
      let res := normalizeLoop [] (segments path)
      if res.length = 0 then [slash] else res

end OpenCpi.Util
