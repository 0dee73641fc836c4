import OpenCpi.Infra.SortedMap
import OpenCpi.Misc.Numbers
import OpenCpi.Os.FileSystem

/-!
# Writing files into a stream

`StreamFsWriter` of `OcpiUtilStreamFsWriter.cxx`. The files stand in the stream one behind the other, and behind them
a table of contents. The stream belongs to a device that takes a number of bytes and then fails.
-/

namespace OpenCpi.StreamFs

open Infra (SortedMap)
open Misc (ulonglongToString)
open Os (joinNames)
open Util (Text slash)

/-! ## Output streams -/

/-- A `std::ostream`: what the device took and how much more it takes. -/
structure Ostream where
  data : Text := []
  space : Nat
  good : Bool := true
deriving DecidableEq, Repr

/-- `write`, and `put` of one character. -/
def Ostream.write (s : Ostream) (bytes : Text) : Ostream :=
  if !s.good then s
  else if bytes.length ≤ s.space then { s with data := s.data ++ bytes, space := s.space - bytes.length }
  else { data := s.data ++ bytes.take s.space, space := 0, good := false }

/-! ## The table of contents -/

/-- `Node`. A `time_t` has 64 bits. -/
structure Node where
  pos : UInt64 := 0
  size : UInt64 := 0
  lastModified : UInt64 := 0
deriving DecidableEq, Repr

instance : Std.Irrefl (fun a b : Text => a < b) := inferInstance

instance : Std.Trichotomous (fun a b : Text => a < b) := inferInstance

instance : Trans (fun a b : Text => a < b) (fun a b : Text => a < b) (fun a b : Text => a < b) := ⟨List.lt_trans⟩

abbrev Toc := SortedMap Text Node

/-- `'\n'` -/
abbrev lf : UInt8 := 10

/-- `<End Of TOC>` -/
def endOfToc : Text := [60, 69, 110, 100, 32, 79, 102, 32, 84, 79, 67, 62]

/-- The lines of a file in the table. -/
def dumpNode (name : Text) (node : Node) (s : Ostream) : Except Misc.Failure Ostream := do
  let pos ← ulonglongToString node.pos 10 0 48
  let size ← ulonglongToString node.size 10 0 48
  let lm ← ulonglongToString node.lastModified 10 0 48
  return (((((((s.write [lf]).write name).write [lf]).write pos).write [lf]).write size).write [lf]).write lm

/-- The loop of `dumpTOC`. -/
def dumpNodes : List (Text × Node) → Ostream → Except Misc.Failure Ostream
  | [], s => .ok s
  | e :: toc, s => if s.good then do dumpNodes toc (← dumpNode e.1 e.2 s) else .ok s

/-- `dumpTOC`, before it looks at the stream. -/
def dumpTOC (toc : List (Text × Node)) (pos : UInt64) (s : Ostream) : Except Misc.Failure Ostream := do
  let s ← dumpNodes toc s
  let tp ← ulonglongToString pos 10 16 32
  return ((s.write (lf :: endOfToc ++ [lf])).write tp).write [lf]

/-! ## The writer -/

/-- `StreamFsWriterStream`: an output stream for a file. -/
structure File where
  name : Text
  payload : UInt64 := 0
  good : Bool := true
deriving DecidableEq, Repr

/-- The members of a writer, and the file that is open. -/
structure Writer where
  stream : Option Ostream := none
  toc : Toc := SortedMap.empty
  cwd : Text := [slash]
  pos : UInt64 := 0
  openFiles : Nat := 0
  file : Option File := none

/-- What an operation ends with: normally, `closeFs` with what is in the stream, or with an exception. -/
inductive Result where
  | done
  | closed (data : Text)
  | thrown (message : String)
deriving DecidableEq

/-- A state behind an operation. There is none when an assertion fails, or when the caller may not do that. -/
abbrev Outcome := Option (Result × Writer)

/-- `openFs` with a stream that is empty. -/
def Writer.openFs (w : Writer) (space : Nat) : Outcome :=
  if w.stream.isSome then some (.thrown "already open", w)
  else some (.done, { w with stream := some { space }, cwd := [slash], pos := 0, openFiles := 0 })

/-- `closeFs` -/
def Writer.closeFs (w : Writer) : Outcome :=
  if w.openFiles ≠ 0 then none
  else
    match w.stream with
    | none => some (.done, w)
    | some s =>
      match dumpTOC w.toc.entries w.pos s with
      | .error .outside => none
      | .error (.thrown message) => some (.thrown message, { w with stream := none })
      | .ok s =>
        if s.good then some (.closed s.data, { w with stream := none })
        else some (.thrown "output stream not good", { w with stream := none })

/-- `openWriteonly` -/
def Writer.openWriteonly (w : Writer) (fileName : Text) : Outcome :=
  if w.openFiles ≠ 0 then some (.thrown "opening more than one file not supported", w)
  else
    match w.stream with
    | none => none
    | some s =>
      if !s.good then some (.thrown "output stream is not good", w)
      else
        (joinNames w.cwd fileName).map fun nn =>
          if (w.toc.find nn).isSome then (.thrown "file exists", w)
          else (.done, { w with
            toc := w.toc.insert nn { pos := w.pos }
            openFiles := w.openFiles + 1
            file := some { name := nn } })

/-- `xsputn` for the open file, whose stream is bad when not all is taken. An `overflow` writes one character. -/
def Writer.xsputn (w : Writer) (data : Text) : Outcome :=
  match w.file, w.stream with
  | some f, some s =>
    if !f.good ∨ data = [] then some (.done, w)
    else
      let s := s.write data
      if s.good then
        some (.done, { w with stream := some s, file := some { f with payload := f.payload + .ofNat data.length } })
      else some (.done, { w with stream := some s, file := some { f with good := false } })
  | _, _ => none

/-- `close`, at a time. `tellp` is -1 when the file's stream is bad, or when the size is no `std::streamsize`. -/
def Writer.close (w : Writer) (now : UInt64) : Outcome :=
  match w.file, w.stream with
  | some f, some s =>
    match w.toc.find f.name with
    | none => none
    | some node =>
      if !f.good ∨ 2 ^ 63 ≤ f.payload.toNat then none
      else if !s.good then
        some (.thrown "output stream is not good", { w with toc := w.toc.erase f.name, file := none })
      else if w.openFiles ≠ 1 then none
      else some (.done, { w with
        toc := w.toc.insert f.name { node with size := f.payload, lastModified := now }
        pos := w.pos + f.payload
        openFiles := w.openFiles - 1
        file := none })
  | _, _ => none

/-! ## Runs -/

inductive WriterOp where
  | openWriteonly (fileName : Text)
  | write (data : Text)
  | close (now : UInt64)
deriving DecidableEq

def Writer.step (w : Writer) : WriterOp → Outcome
  | .openWriteonly fileName => w.openWriteonly fileName
  | .write data => w.xsputn data
  | .close now => w.close now

/-- The results of some operations, and the writer behind them. -/
def Writer.run (w : Writer) : List WriterOp → Option (List Result × Writer)
  | [] => some ([], w)
  | op :: ops => do
    let (result, w) ← w.step op
    let (results, w) ← w.run ops
    return (result :: results, w)

end OpenCpi.StreamFs
