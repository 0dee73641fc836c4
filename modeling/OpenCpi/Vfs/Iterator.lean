import OpenCpi.Os.FileSystem

/-!
# Listing a directory

`Vfs::Iterator` of `OcpiUtilVfsIterator.cxx` and `Vfs::Dir` of `OcpiUtilVfs.cxx`, for the directories of `FileFs`.
Names are C strings: they have no NUL inside.
-/

namespace OpenCpi.Vfs

open Util (Text slash dot segments)
open Os (joinNames)

/-! ## Patterns -/

/-- `*` -/
def star : UInt8 := 42

/-- `?` -/
def question : UInt8 := 63

/-- The inner loop of `glob`: the text from each of its places on. -/
def anyTail (f : Text → Bool) : Text → Bool
  | [] => false
  | c :: str => f (c :: str) || anyTail f str

def glob : Text → Text → Bool
  | str, [] => str.isEmpty
  | [], p :: pat => (p :: pat).all (· == star)
  | c :: str, p :: pat =>
    if p = star then anyTail (glob · pat) (c :: str) || pat.isEmpty
    else if p = question ∨ p = c then glob str pat
    else false

/-! ## Directories -/

def S_IFDIR : Nat := 0o040000

def S_IFREG : Nat := 0o100000

/-- What an entry is that is not a directory, as `stat` says. -/
inductive FileType where
  | regular
  | socket
  | blockDevice
  | characterDevice
  | fifo
  deriving DecidableEq, Repr

/-- The bits of `st_mode`. -/
def FileType.mode : FileType → Nat
  | regular => S_IFREG
  | socket => 0o140000
  | blockDevice => 0o060000
  | characterDevice => 0o020000
  | fifo => 0o010000

/-- What `exists` leaves in `isDir`, for the mode of an entry or none if `stat` fails. It tests bits, and the modes of
sockets and block devices have that of directories. -/
def existsDir (mode : Option Nat) (isDir : Bool) : Bool :=
  match mode with
  | none => isDir
  | some mode =>
    if mode &&& S_IFDIR = S_IFDIR then true
    else if mode &&& S_IFREG = S_IFREG then false
    else isDir

/-- The entries of a directory, as `readdir` gives them. For an entry that is not a directory, `stat` may fail. -/
inductive Directory where
  | nil
  | file (name : Text) (stat : Option FileType) (rest : Directory)
  | dir (name : Text) (entries : Directory) (rest : Directory)
  deriving DecidableEq, Repr

namespace Directory

def names : Directory → List Text
  | nil => []
  | file name _ rest => name :: rest.names
  | dir name _ rest => name :: rest.names

/-- A name that an entry can have. -/
def ValidName (name : Text) : Prop := name ≠ [] ∧ slash ∉ name ∧ name ≠ [dot] ∧ name ≠ [dot, dot]

instance (name : Text) : Decidable (ValidName name) := inferInstanceAs (Decidable (_ ∧ _))

def Valid : Directory → Prop
  | nil => True
  | file name _ rest => ValidName name ∧ name ∉ rest.names ∧ rest.Valid
  | dir name entries rest => ValidName name ∧ name ∉ rest.names ∧ entries.Valid ∧ rest.Valid

instance decidableValid : (d : Directory) → Decidable d.Valid
  | nil => inferInstanceAs (Decidable True)
  | file name _ rest =>
    have := decidableValid rest
    inferInstanceAs (Decidable (ValidName name ∧ name ∉ rest.names ∧ rest.Valid))
  | dir name entries rest =>
    have := decidableValid entries
    have := decidableValid rest
    inferInstanceAs (Decidable (ValidName name ∧ name ∉ rest.names ∧ entries.Valid ∧ rest.Valid))

def find (name : Text) : Directory → Option Directory
  | nil => none
  | file name' _ rest => if name' = name then none else rest.find name
  | dir name' entries rest => if name' = name then some entries else rest.find name

/-- The directory at the end of a path. -/
def atPath (root : Directory) (path : List Text) : Option Directory := path.foldlM (fun d name => d.find name) root

/-- `OS::FileSystem::Dir::next` -/
def next (isDir : Bool) : Directory → Option (Text × Bool × Directory)
  | nil => none
  | file name stat rest => some (name, existsDir (stat.map FileType.mode) isDir, rest)
  | dir name _ rest => some (name, existsDir (some S_IFDIR) isDir, rest)

end Directory

/-- A file system. -/
structure FileTree where
  root : Directory
  valid : root.Valid

/-- A name is resolved from the root, or from the directory at a path. -/
def FileTree.resolve (tree : FileTree) : List Text → List Text → Option (List Text)
  | path, [] => some path
  | path, c :: rest =>
    if c = [] ∨ c = [dot] then tree.resolve path rest
    else if c = [dot, dot] then tree.resolve path.dropLast rest
    else if (tree.root.atPath (path ++ [c])).isSome then tree.resolve (path ++ [c]) rest
    else none

/-- `opendir`, of an absolute name. -/
def FileTree.opendir (tree : FileTree) (name : Text) : Option Directory :=
  (tree.resolve [] (segments name)).bind tree.root.atPath

/-- `m_root` and `m_cwd` of a `FileFs`. -/
structure FileFs where
  root : Text
  cwd : Text
  root_absolute : root.head? = some slash
  cwd_absolute : cwd.head? = some slash

namespace FileFs

/-- `nativeFilename` -/
def nativeFilename (fs : FileFs) (name : Text) : Option Text := do
  let absName ← joinNames fs.cwd name
  return if fs.root = [slash] then absName else if absName = [slash] then fs.root else fs.root ++ absName

/-- `openDir`; `none` when it throws. -/
def openDir (fs : FileFs) (tree : FileTree) (name : Text) : Option Directory :=
  (fs.nativeFilename name).bind tree.opendir

end FileFs

/-! ## The iterator -/

/-- `Vfs::Dir`: its name, and the entries that are still to be read. -/
structure Dir where
  name : Text
  rest : Directory
  deriving DecidableEq, Repr

/-- `Dir::pushDir` -/
def Dir.pushDir (fs : FileFs) (tree : FileTree) (d : Dir) (s : Text) : Option Dir := do
  let name ← joinNames d.name s
  return ⟨name, ← fs.openDir tree name⟩

/-- `Vfs::Iterator`; `dirs` is `m_dir` and its parents. -/
structure Iterator where
  pattern : Text
  recursive : Bool
  skipLength : Nat
  dirs : List Dir
  deriving DecidableEq, Repr

/-- The constructor. -/
def Iterator.new (fs : FileFs) (tree : FileTree) (dir pattern : Text) (recursive : Bool) : Option Iterator := do
  let entries ← fs.openDir tree dir
  return ⟨pattern, recursive, if dir = [slash] then 1 else dir.length + 1, [⟨dir, entries⟩]⟩

/-- What a turn of the loop of `next` does. -/
inductive Turn where
  | returned (str : Text) (isDir : Bool) (it : Iterator)
  | more (isDir : Bool) (it : Iterator)
  | thrown
  deriving DecidableEq, Repr

/-- The name that `next` returns for an entry. -/
def Iterator.entryName (it : Iterator) (d : Dir) (entry : Text) : Option Text := do
  let name ← joinNames d.name entry
  if it.skipLength ≤ name.length then some (name.drop it.skipLength) else none

/-- The directory of an entry is opened. -/
def Iterator.enter (fs : FileFs) (tree : FileTree) (it : Iterator) (d : Dir) (parents : List Dir) (entry : Text)
    (rest : Directory) : Turn :=
  match (joinNames d.name entry).bind (d.pushDir fs tree) with
  | some child => .more true { it with dirs := child :: { d with rest := rest } :: parents }
  | none => .thrown

/-- An entry is returned if its name matches. -/
def Iterator.offer (it : Iterator) (d : Dir) (parents : List Dir) (entry : Text) (rest : Directory)
    (isDir : Bool) : Turn :=
  let it' := { it with dirs := { d with rest := rest } :: parents }
  if glob entry it.pattern then
    match it.entryName d entry with
    | some str => .returned str isDir it'
    | none => .thrown
  else .more isDir it'

/-- A turn of the loop of `next`. `isDir` is the variable of the caller. -/
def Iterator.turn (fs : FileFs) (tree : FileTree) (it : Iterator) (isDir : Bool) : Turn :=
  match it.dirs with
  | [] => .thrown
  | d :: parents =>
    match d.rest.next isDir with
    | some (entry, isDir, rest) =>
      if it.recursive && isDir then it.enter fs tree d parents entry rest
      else it.offer d parents entry rest isDir
    | none => .more isDir { it with dirs := parents }

/-- What a call of `next` gives: an entry, false, or an exception. -/
inductive Result where
  | entry (str : Text) (isDir : Bool) (it : Iterator)
  | done
  | thrown
  deriving DecidableEq, Repr

/-- `Iterator::next`; `none` when the turns do not suffice. -/
def Iterator.next (fs : FileFs) (tree : FileTree) : Nat → Iterator → Bool → Option Result
  | 0, _, _ => none
  | turns + 1, it, isDir =>
    match it.turn fs tree isDir with
    | .returned str isDir it => some (.entry str isDir it)
    | .more isDir it => if it.dirs = [] then some .done else next fs tree turns it isDir
    | .thrown => some .thrown

/-- `while (it->next(str, isDir))`: the names, or `none` inside when a call throws. -/
def Iterator.list (fs : FileFs) (tree : FileTree) : Nat → Iterator → Bool → Option (Option (List Text))
  | 0, _, _ => none
  | calls + 1, it, isDir =>
    match it.next fs tree calls isDir with
    | none => none
    | some (.entry str isDir it) => (list fs tree calls it isDir).map (·.map (str :: ·))
    | some .done => some (some [])
    | some .thrown => some none

end OpenCpi.Vfs
