import Mathlib.Data.List.DropRight
import OpenCpi.Value.Literal

/-!
# Elements and characters as text

`doElement`, which finds the next element of a text, and the parsers of single values of
`OcpiUtilValue.cxx` other than integers. An element has the blanks behind it, which are not part of it,
and the rest of the text behind its comma. `doElement` is only called with commas allowed.
-/

namespace OpenCpi.Value

/-- A text in a message. -/
def shown (text : Text) : String := String.ofList (text.map fun c => Char.ofNat c.toNat)

/-! ## Elements -/

/-- What `doElement` finds in a text up to `stop`: the text of the element, what is behind it (from `end`
on), and what is left to parse (from `unparsed` on). -/
structure Element where
  text : Text
  follow : Text
  unparsed : Text
deriving DecidableEq, Repr

/-- What the loop of `doElement` finds: the characters up to a comma outside of braces, the number of
them that a backslash protects from trimming, and what is behind the comma. -/
structure Scan where
  text : Text
  last : Nat
  more : Option Text
deriving DecidableEq, Repr

/-- One more character in front. -/
def Scan.plain (c : UInt8) (r : Scan) : Scan :=
  ⟨c :: r.text, if r.last = 0 then 0 else r.last + 1, r.more⟩

/-- One more character in front, a backslash or behind one. -/
def Scan.protect (c : UInt8) (r : Scan) : Scan := ⟨c :: r.text, r.last + 1, r.more⟩

/-- The count of braces behind a character. -/
def bracesBehind (c : UInt8) (nBraces : Nat) : Nat :=
  if c = 123 then nBraces + 1 else if c = 125 then nBraces - 1 else nBraces

/-- The loop of `doElement`, perhaps behind a backslash. At an extra close brace it stops, with the rest
behind it. -/
def scanElement : Nat → Bool → Text → Except Text Scan
  | _, _, [] => .ok ⟨[], 0, none⟩
  | nBraces, true, c :: s => (scanElement nBraces false s).map (·.protect c)
  | nBraces, false, c :: s =>
    if c = 44 ∧ nBraces = 0 then .ok ⟨[], 0, some s⟩
    else if c = 92 then (scanElement nBraces true s).map (·.protect c)
    else if c = 125 ∧ nBraces = 0 then .error s
    else (scanElement (bracesBehind c nBraces) false s).map (·.plain c)

/-- What is behind the characters that the loop passed. -/
def Scan.tail (r : Scan) : Text := match r.more with | none => [] | some rest => 44 :: rest

/-- The element without the blanks at its end. -/
def Scan.trim (r : Scan) : Element where
  text := r.text.take r.last ++ (r.text.drop r.last).rdropWhile isspace
  follow := (r.text.drop r.last).rtakeWhile isspace ++ r.tail
  unparsed := r.more.getD []

/-- `doElement`, with the message of an error. The element is set in any case. -/
def doElement (unparsed : Text) : Option String × Element :=
  match scanElement 0 false (skipSpaces unparsed) with
  | .error rest =>
    (some s!"unbalanced braces - extra close brace for ({shown unparsed}) ({unparsed.length})",
      ⟨skipSpaces unparsed, [], rest⟩)
  | .ok r => (none, r.trim)

/-- The text inside of the braces that an element consists of. -/
def inBraces : Text → Option Text
  | [] => none
  | c :: s => if c = 123 ∧ s.getLast? = some 125 then some s.dropLast else none

/-! ## Characters -/

/-- The part of `decimal` behind the sign: up to three digits. -/
def decimalDigits (limit : Nat) : Text → Option (Nat × Text)
  | [] => none
  | c :: s => do
    let n ← digit 10 c
    match s with
    | [] => return (n, [])
    | c :: s =>
      match digit 10 c with
      | none => return (n, c :: s)
      | some k =>
        let n := n * 10 + k
        match s with
        | [] => return (n, [])
        | c :: s =>
          match digit 10 c with
          | none => return (n, c :: s)
          | some k =>
            let n := n * 10 + k
            if limit < n then none else return (n, s)

/-- `decimal`, behind the letter. -/
def decimal (isSigned : Bool) : Text → Option (UInt8 × Text)
  | [] => none
  | c :: s =>
    if isSigned && c == 45 then do
      let (n, s) ← decimalDigits 128 s
      return (UInt8.ofNat (256 - n), s)
    else do
      let (n, s) ← decimalDigits (if isSigned then 127 else 255) (c :: s)
      return (UInt8.ofNat n, s)

/-- `hex`: one or two digits. -/
def hex : Text → Option (UInt8 × Text)
  | [] => none
  | c :: s => do
    let n ← digit 16 c
    match s with
    | [] => return (UInt8.ofNat n, [])
    | c :: s =>
      match digit 16 c with
      | none => return (UInt8.ofNat n, c :: s)
      | some k => return (UInt8.ofNat (n * 16 + k), s)

/-- `octal` from the first digit on: one to three digits. -/
def octal (n : Nat) : Text → Option (UInt8 × Text)
  | [] => some (UInt8.ofNat n, [])
  | c :: s =>
    match digit 8 c with
    | none => some (UInt8.ofNat n, c :: s)
    | some k =>
      let n := n * 8 + k
      match s with
      | [] => some (UInt8.ofNat n, [])
      | c :: s =>
        match digit 8 c with
        | none => some (UInt8.ofNat n, c :: s)
        | some k => let n := n * 8 + k; if 255 < n then none else some (UInt8.ofNat n, s)

/-- The characters that a letter behind a backslash stands for: `n`, `t`, `v`, `b`, `r`, `f`, `a`. -/
def letters : List (UInt8 × UInt8) :=
  [(110, 10), (116, 9), (118, 11), (98, 8), (114, 13), (102, 12), (97, 7)]

/-- The part of `parseOneChar` behind a backslash. -/
def escaped (c : UInt8) (s : Text) : Option (UInt8 × Text) :=
  match letters.lookup c with
  | some vp => some (vp, s)
  | none =>
    if c = 100 then decimal true s
    else if c = 117 then decimal false s
    else if c = 120 then hex s
    else if 48 ≤ c ∧ c ≤ 55 then octal (c.toNat - 48) s
    else if c ∈ [92, 63, 39, 34, 44, 123, 125, 32] then some (c, s)
    else none

/-- `parseOneChar` -/
def parseOneChar : Text → Option (UInt8 × Text)
  | [] => none
  | [c] => if c = 0 then none else some (c, [])
  | c :: d :: s => if c = 0 then none else if c ≠ 92 then some (c, d :: s) else escaped d s

/-- `parseChar` -/
def parseChar (cp : Text) : Except String UInt8 :=
  match parseOneChar cp with
  | some (c, []) => .ok c
  | _ => .error "bad Char value"

/-- The loop of `parseString`: the characters, and how far `m_stringNext` is moved. The place behind it is
also taken when the character is bad. -/
def stringChars (quoted : Bool) (stringLength : Nat) :
    Nat → Nat → Text → Except String Text × Nat
  | _, _, [] => (.ok [], 1)
  | 0, _, _ :: _ => (.error "bad String value", 0)
  | fuel + 1, len, c :: s =>
    if quoted && c == 34 then
      if s ≠ [] then
        (.error "double quoted string with invalid characters after the closing quote", 0)
      else (.ok [], 1)
    else if stringLength ≠ 0 ∧ stringLength ≤ len then (.error "bad String value", 0)
    else
      match parseOneChar (c :: s) with
      | none => (.error "bad String value", 1)
      | some (vp, s) =>
        match stringChars quoted stringLength fuel (len + 1) s with
        | (.ok chars, n) => (.ok (vp :: chars), n + 1)
        | (.error e, n) => (.error e, n + 1)

/-- `parseString` -/
def parseString (stringLength : Nat) : Text → Except String Text × Nat
  | [] => stringChars false stringLength 0 0 []
  | c :: s =>
    if c = 34 then stringChars true stringLength s.length 0 s
    else stringChars false stringLength (s.length + 1) 0 (c :: s)

/-- A character without its case. -/
def lower (c : UInt8) : UInt8 := if 65 ≤ c && c ≤ 90 then c + 32 else c

/-- `EzXml::parseBool` -/
def parseBool (a : Text) : Except String Bool :=
  if a.map lower = [116, 114, 117, 101] ∨ a = [49] then .ok true
  else if a.map lower = [102, 97, 108, 115, 101] ∨ a = [48] then .ok false
  else .error "bad Bool value"

/-- `parseEnum` -/
def parseEnum (enums : List Text) (unparsed : Text) : Except String Nat :=
  match enums.findIdx? fun e => e.map lower == unparsed.map lower with
  | some n => .ok n
  | none => .error "unknown enum value"

end OpenCpi.Value
