import OpenCpi.Uri.Text

/-!
# File names

`fromNativeName` and `joinNames` of `OcpiOsFileSystem.cxx`. Texts are lists of bytes. The current directory
is a parameter, and it is absolute.
-/

namespace OpenCpi.Os

open Util (Text slash dot segments rfind)

/-! ## Native names -/

/-- A component that is not special is added to the name. -/
def addComponent (name component : Text) : Text :=
  (if name.length ≠ 0 ∧ (name.length ≠ 1 ∨ name.head? ≠ some slash) then name ++ [slash] else name) ++ component

/-- The loop of `fromNativeName` over the components that are left; the texts between the slashes. -/
def processComponents (cwd : Text) : Text → Bool → List Text → Except String Text
  | name, _, [] => .ok name
  | name, mayBackUp, component :: rest =>
    if component.length = 0 then
      if rest.isEmpty then .ok name else .error "empty path component"
    else if component = [dot] then processComponents cwd name mayBackUp rest
    else if component = [dot, dot] then
      if name.length = 0 ∧ mayBackUp = false then .error "unprocessible '..' path component"
      else
        let backed := decide (name.length = 0)
        let name := if backed then cwd else name
        let mayBackUp := if backed then false else mayBackUp
        match rfind slash name with
        | some 0 => .error "unprocessible '..' path component"
        | some pos => processComponents cwd (name.take pos) mayBackUp rest
        | none => processComponents cwd [] mayBackUp rest
    else processComponents cwd (addComponent name component) mayBackUp rest

/-- The name for the first component of a relative name, and whether that is all. -/
def firstComponent (cwd first : Text) (only : Bool) : Except String (Text × Bool) :=
  if first = [dot] then .ok (cwd, false)
  else if first = [dot, dot] then
    if cwd.length = 1 then .error "invalid file name '..' in top-level directory"
    else .ok (cwd.take ((rfind slash cwd).getD 0), false)
  else .ok (first, only)

/-- `fromNativeName` -/
def fromNativeName (cwd nativeName : Text) : Except String Text :=
  let finish (name : Text) : Text := if name.isEmpty then cwd else name
  match nativeName.idxOf? slash with
  | some 0 => (processComponents cwd [slash] false (segments (nativeName.drop 1))).map finish
  | some slashPos =>
    (firstComponent cwd (nativeName.take slashPos) false).bind fun (name, _) =>
      (processComponents cwd name true (segments (nativeName.drop (slashPos + 1)))).map finish
  | none =>
    if nativeName.length = 0 then .error "empty filename"
    else
      (firstComponent cwd nativeName true).bind fun (name, done) =>
        if done then .ok name
        -- the search for the next slash begins at `npos + 1`, which is the start of the name
        else (processComponents cwd name true (segments nativeName)).map finish

/-! ## Joining -/

/-- `joinNames`; `none` when an assertion fails. -/
def joinNames (dir name : Text) : Option Text :=
  match name with
  | [] => none
  | c :: _ =>
    if c = slash then some name
    else if dir.length = 0 then none
    else some ((if dir ≠ [slash] then dir ++ [slash] else dir) ++ name)

end OpenCpi.Os
