import Mathlib.Data.List.Basic

/-!
# Strings and words of the HDL library

`to_string` and `from_string` of `types_body.vhd`. A `string_t` begins at index 0; reading behind its end is an
error.
-/

namespace OpenCpi.Hdl.Types

/-- `char_t` -/
abbrev Char8 := BitVec 8

/-- `word_t` -/
abbrev Word := BitVec 32

/-- `string_t` -/
abbrev StringT := List Char8

/-- The bits `8 * n + 7 downto 8 * n` of a word. -/
def charOf (w : Word) (n : Nat) : Char8 := w.extractLsb' (8 * n) 8

/-- A word where these bits are replaced. -/
def setChar (w : Word) (n : Nat) (c : Char8) : Word :=
  w &&& ~~~((BitVec.allOnes 8).setWidth 32 <<< (8 * n)) ||| c.setWidth 32 <<< (8 * n)

/-- `to_string` of a word. -/
def toString (inword : Word) : StringT := [charOf inword 0, charOf inword 1, charOf inword 2, charOf inword 3]

/-- `s'right` -/
def right (s : StringT) : Int := s.length - 1

/-- `from_string` -/
def fromString (s : StringT) (off : Nat) : Option Word := do
  let w := setChar 0 0 (← s[off]?)
  if off + 1 ≤ right s then
    let w := setChar w 1 (← s[off + 1]?)
    if off + 2 ≤ right s then
      let w := setChar w 2 (← s[off + 2]?)
      if off + 3 < right s then
        return setChar w 3 (← s[off + 3]?)
      else return w
    else return w
  else return w

end OpenCpi.Hdl.Types
