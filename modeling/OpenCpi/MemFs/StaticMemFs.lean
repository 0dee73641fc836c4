import OpenCpi.Infra.Run
import OpenCpi.Os.FileSystem

/-!
# The file system of files in memory

The names that `StaticMemFs` of `OcpiUtilStaticMemFs.cxx` keeps. Directories are not stored: a directory is a
name that the name of a file goes on behind.
-/

namespace OpenCpi.MemFs

open Util (Text slash dot segments)
open Os (joinNames)

/-! ## Names -/

/-- `<>\|"` -/
def invalidCharacters : List UInt8 := [60, 62, 92, 124, 34]

/-- A component of a name. -/
def testComponent (pathComponent : Text) : Except String Unit :=
  if pathComponent.length = 0 then .error "invalid file name: empty path component"
  else if pathComponent = [dot] ∨ pathComponent = [dot, dot] then
    .error ("invalid file name: \"" ++ String.ofList (pathComponent.map fun c => Char.ofNat c.toNat) ++
      "\": invalid path component")
  else if pathComponent.any (invalidCharacters.contains ·) then
    .error ("invalid file name: \"" ++ String.ofList (pathComponent.map fun c => Char.ofNat c.toNat) ++
      "\": invalid character in path component")
  else .ok ()

/-- `testFilenameForValidity` -/
def testFilenameForValidity (name : Text) : Except String Unit :=
  if name.length = 0 then .error "empty file name"
  else if name = [slash] then .ok ()
  else if name.getLast? = some slash then .error "file name may not end with a slash"
  else (segments (if name.head? = some slash then name.drop 1 else name)).forM testComponent

/-! ## The file system -/

/-- `m_cwd` and the keys of `m_contents`. -/
structure StaticMemFs where
  cwd : Text
  contents : List Text
deriving DecidableEq, Repr

namespace StaticMemFs

def new : StaticMemFs := ⟨[slash], []⟩

variable (fs : StaticMemFs)

/-- `absoluteNameLocked` -/
def absoluteName (name : Text) : Except String Text :=
  match joinNames fs.cwd name with
  | some absName => .ok absName
  | none => .error "assertion failed"

def mount (fileName : Text) : Except String StaticMemFs := do
  let absName ← fs.absoluteName fileName
  if absName ∈ fs.contents then .error "already mounted"
  else .ok { fs with contents := absName :: fs.contents }

def cd (fileName : Text) : Except String StaticMemFs := do
  testFilenameForValidity fileName
  let nn ← fs.absoluteName fileName
  if nn ∈ fs.contents then
    .error ("cannot change cwd to \"" ++ String.ofList (fileName.map fun c => Char.ofNat c.toNat) ++
      "\": file exists as a plain file")
  else .ok { fs with cwd := nn }

/-- The test of the loop of `exists`. -/
def isBelow (nn name : Text) : Bool :=
  decide (nn.length < name.length) && name.take nn.length == nn && name[nn.length]? == some slash

/-- `exists`: `isDir` when it returns true. -/
def exists_ (fileName : Text) : Except String (Option Bool) := do
  testFilenameForValidity fileName
  let nn ← fs.absoluteName fileName
  if nn ∈ fs.contents then .ok (some false)
  else if fs.contents.any (isBelow nn) then .ok (some true)
  else .ok none

end StaticMemFs

/-! ## Calls -/

inductive Call where
  | mount (name : Text)
  | cd (name : Text)
deriving DecidableEq, Repr

/-- The file system after a call; one that throws leaves it. -/
def StaticMemFs.call (fs : StaticMemFs) : Call → StaticMemFs
  | .mount name => (fs.mount name).toOption.getD fs
  | .cd name => (fs.cd name).toOption.getD fs

def StaticMemFs.step (fs : StaticMemFs) (c : Call) : Option StaticMemFs := some (fs.call c)

end OpenCpi.MemFs
