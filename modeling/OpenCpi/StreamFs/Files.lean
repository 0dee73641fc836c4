import OpenCpi.StreamFs.Reader

/-!
# What a stream file system is for

Files with their contents and the times when they were written. Whoever writes adds to the file that is open; whoever
reads an open file reads its content like any other sequence in memory. There is no stream here.
-/

namespace OpenCpi.StreamFs

open Infra
open Os (joinNames)
open Util (Text slash)

structure FileData where
  content : Text
  lastModified : UInt64
deriving DecidableEq

abbrev Files := SortedMap Text FileData

/-- Files that are written: those that are closed, and the name and content of the one that is open. -/
structure Draft where
  files : Files := SortedMap.empty
  file : Option (Text × Text) := none

def Draft.step (t : Draft) : WriterOp → Option (Result × Draft)
  | .openWriteonly fileName =>
    if t.file.isSome then some (.thrown "opening more than one file not supported", t)
    else
      (joinNames [slash] fileName).map fun nn =>
        if (t.files.find nn).isSome then (.thrown "file exists", t) else (.done, { t with file := some (nn, []) })
  | .write data => t.file.map fun f => (.done, { t with file := some (f.1, f.2 ++ data) })
  | .close now =>
    t.file.map fun f => (.done, { files := t.files.insert f.1 { content := f.2, lastModified := now } })

def Draft.run (t : Draft) : List WriterOp → Option (List Result × Draft)
  | [] => some ([], t)
  | op :: ops => do
    let (result, t) ← t.step op
    let (results, t) ← t.run ops
    return (result :: results, t)

/-- Files that are read, and the one that is open. -/
structure Shelf where
  files : Files
  file : Option (Istream (Mem UInt8)) := none

/-- A file is opened at its start. -/
def Shelf.openReadonly (t : Shelf) (fileName : Text) : ReaderAnswer × Shelf :=
  match joinNames [slash] fileName with
  | none => (.stopped, t)
  | some nn =>
    match t.files.find nn with
    | none => (.thrown "file not found", t)
    | some f => (.done, { t with file := some { buf := { data := f.content } } })

def Shelf.step (t : Shelf) (op : ReaderOp) : ReaderAnswer × Shelf :=
  match op, t.file with
  | .exist fileName, _ => (withName [slash] fileName fun nn => .found (exist t.files nn), t)
  | .size fileName, _ =>
    (withName [slash] fileName fun nn => ofFile (t.files.find nn) fun f => .number f.content.length, t)
  | .lastModified fileName, _ =>
    (withName [slash] fileName fun nn => ofFile (t.files.find nn) fun f => .number f.lastModified.toNat, t)
  | .openReadonly fileName, none => t.openReadonly fileName
  | .openReadonly _, some _ => (.thrown "opening more than one file not supported", t)
  | .file op, some f =>
    let x := f.step memBuf op
    (.file x.1, { t with file := some x.2 })
  | .close, some _ => (.done, { t with file := none })
  | .file _, none | .close, none => (.stopped, t)

end OpenCpi.StreamFs
