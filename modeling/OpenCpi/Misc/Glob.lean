import OpenCpi.Misc.Numbers
import OpenCpi.Vfs.Iterator

/-!
# Patterns

`glob` of `OcpiUtilMisc.cxx`. It passes the rest of a name and of a pattern on as C strings, and skips all the
stars of a run at once, which the function of the same name in `OcpiUtilVfsIterator.cxx` does not.
-/

namespace OpenCpi.Misc

open Value (Text)
open Vfs (star question anyTail)

/-- What is behind a run of stars. -/
def skipStars (pat : Text) : Text := pat.dropWhile (· == star)

theorem cString_skipStars_length (pat : Text) : (cString (skipStars pat)).length ≤ pat.length :=
  Nat.le_trans (List.takeWhile_sublist _).length_le (List.dropWhile_sublist _).length_le

def glob : Text → Text → Bool
  | str, [] => str.isEmpty
  | [], p :: pat => (p :: pat).all (· == star)
  | c :: str, p :: pat =>
    if p = star then
      anyTail (fun name => glob (cString name) (cString (skipStars pat))) (c :: str) || (skipStars pat).isEmpty
    else if p = question ∨ p = c then glob str pat
    else false
termination_by _ pat => pat.length
decreasing_by
  · exact Nat.lt_succ_of_le (cString_skipStars_length pat)
  · exact Nat.lt_succ_self _

end OpenCpi.Misc
