import OpenCpi.Uri.Text

/-!
# Comparing without regard to case

`caseInsensitiveStringCompare` and `CaseInsensitiveStringLess` of `OcpiUtilMisc.cxx`. A `char` is signed. The C
library defines `isalpha` and `tolower` for the values of an `unsigned char` and for `EOF`, which is -1; a comparison
that asks for another one gives `none`.
-/

namespace OpenCpi.Misc

open Util (Text toInt)

/-- A `char` that `isalpha` and `tolower` are defined for. -/
def InCtype (c : UInt8) : Prop := c < 128 ∨ c = 255

instance (c : UInt8) : Decidable (InCtype c) := inferInstanceAs (Decidable (_ ∨ _))

/-- `std::isalpha` -/
def isalpha (c : UInt8) : Option Bool := if InCtype c then some (Util.isalpha c) else none

/-- `std::tolower` -/
def tolower (c : UInt8) : Option Int := if InCtype c then some (toInt (Util.tolower c)) else none

/-- What a turn of the loop computes. -/
def charCompare (c1 c2 : UInt8) : Option Int := do
  let alpha1 ← isalpha c1
  let alpha2 ← isalpha c2
  if alpha1 && alpha2 then return (← tolower c2) - (← tolower c1)
  else if alpha1 then return (← tolower c2) - toInt c1
  else if alpha2 then return toInt c2 - (← tolower c1)
  else return toInt c2 - toInt c1

/-- The loop; `rest` is what is returned behind it. -/
def compareLoop (rest : Int) : Text → Text → Option Int
  | c1 :: s1, c2 :: s2 => do
    let c ← charCompare c1 c2
    if c ≠ 0 then return c else compareLoop rest s1 s2
  | _, _ => some rest

def caseInsensitiveStringCompare (s1 s2 : Text) : Option Int :=
  compareLoop (((s2.length : Int) - s1.length).bmod (2 ^ 32)) s1 s2

/-- `CaseInsensitiveStringLess` -/
def less (s1 s2 : Text) : Option Bool := (caseInsensitiveStringCompare s1 s2).map (· < 0)

end OpenCpi.Misc
