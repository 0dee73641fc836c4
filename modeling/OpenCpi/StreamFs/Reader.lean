import OpenCpi.Http.Client
import OpenCpi.Infra.Istream
import OpenCpi.StreamFs.Writer

/-!
# Reading files from a stream

`StreamFsReader` of `OcpiUtilStreamFsReader.cxx`. One file is open at a time, and it reads from the stream itself: the
reader and the file both remember where the stream is. The stream is one in memory, which is not at its end before all
of it is read.
-/

namespace OpenCpi.StreamFs

open Http (unsignedToStreamsize)
open Infra
open Misc (cString)
open Os (joinNames)
open Util (Text slash)

/-- `m_stream` -/
abbrev Input := Istream (Mem UInt8)

/-! ## Open files -/

/-- `StreamFsReaderStream::StreamBuf`. The numbers have 64 bits. -/
structure FileBuf where
  stream : Input
  beg : Nat
  pos : Nat := 0
  size : Nat
deriving DecidableEq, Repr

namespace FileBuf

def xsgetn (count : Nat) (b : FileBuf) : Text × FileBuf :=
  if b.size ≤ b.pos then ([], b)
  else
    let strem := unsignedToStreamsize (b.size - b.pos)
    let amount := if (count : Int) < strem then (count : Int) else strem
    let r := b.stream.read memBuf amount.toNat
    if (r.1.length : Int) ≠ amount then (r.1, { b with stream := { r.2 with fail := true } })
    else (r.1, { b with stream := r.2, pos := b.pos + r.1.length })

def underflow (b : FileBuf) : Option UInt8 × FileBuf :=
  if b.size ≤ b.pos then (none, b)
  else
    let r := b.stream.peek memBuf
    (r.1, { b with stream := r.2 })

def uflow (b : FileBuf) : Option UInt8 × FileBuf :=
  if b.size ≤ b.pos then (none, b)
  else
    let r := b.stream.get memBuf
    match r.1 with
    | none => (none, { b with stream := r.2 })
    | some c => (some c, { b with stream := r.2, pos := b.pos + 1 })

/-- `pbackfail` -/
def pbackfail (c : Option UInt8) (b : FileBuf) : Bool × FileBuf :=
  if b.pos = 0 then (false, b)
  else
    let s := b.stream.back memBuf c
    if !s.good then (false, { b with stream := s }) else (true, { b with stream := s, pos := b.pos - 1 })

/-- `seekpos`. What the stream's seek returns is compared with 0 and never less. -/
def seekpos (pos : Int) (b : FileBuf) : Option Nat × FileBuf :=
  if pos < 0 ∨ (b.size : Int) < pos then (none, b)
  else if pos = b.pos then (some b.pos, b)
  else
    let ptspos := unsignedToStreamsize ((b.beg + pos.toNat) % 2 ^ 64)
    if ptspos = -1 then (none, b)
    else (some pos.toNat, { b with stream := b.stream.seekg memBuf ptspos .beg, pos := pos.toNat })

def origin (b : FileBuf) : Way → Nat
  | .beg => 0
  | .cur => b.pos
  | .fin => b.size

/-- `seekoff` -/
def seekoff (off : Int) (way : Way) (b : FileBuf) : Option Nat × FileBuf :=
  if off < 0 ∧ (b.origin way : Int) < -off then (none, b)
  else
    let ptpos := unsignedToStreamsize ((b.origin way + off) % 2 ^ 64).toNat
    if ptpos = -1 then (none, b) else b.seekpos ptpos

end FileBuf

/-- The buffer of an open file. -/
def fileBuf : Streambuf UInt8 FileBuf where
  sgetn := FileBuf.xsgetn
  sbumpc := FileBuf.uflow
  sgetc := FileBuf.underflow
  pback := FileBuf.pbackfail
  seekoff := FileBuf.seekoff

/-! ## The table of contents -/

/-- `strtoul` in base 10, of the C string of a line. A value out of range is `ULONG_MAX`. -/
def strtoul (line : Text) : Nat × Text :=
  match Misc.numeral 10 (cString line) with
  | none => (0, cString line)
  | some n =>
    (if 2 ^ 64 ≤ n.magnitude then 2 ^ 64 - 1
      else if n.negative then (2 ^ 64 - n.magnitude) % 2 ^ 64 else n.magnitude, n.rest)

/-- The loop of `readTOC`. Each turn takes a line at least. The end of the last number is not checked. -/
def readNodes : Nat → Input → Toc → Except String (Toc × Input)
  | 0, _, _ => .error "error reading TOC"
  | fuel + 1, s, toc =>
    let (fileName, s) := s.getline lf
    if !s.good then .error "error reading TOC"
    else if fileName = endOfToc then .ok (toc, s)
    else
      let (sPos, s) := s.getline lf
      let (sSize, s) := s.getline lf
      let (sLm, s) := s.getline lf
      if !s.good then .error "error reading TOC"
      else
        let pos := strtoul sPos
        let size := strtoul sSize
        let lm := strtoul sLm
        if pos.2 ≠ [] ∨ size.2 ≠ [] then .error "error reading TOC"
        else
          readNodes fuel s (toc.insert fileName
            { pos := .ofNat pos.1, size := .ofNat size.1, lastModified := .ofNat lm.1 })

/-- `readTOC`. What the seek to the end returns is compared with 0 and never less. -/
def readTOC (s : Input) (toc : Toc) : Except String (Toc × Input) :=
  let s := s.seekg memBuf (-17) .fin
  let (sTocPos, s) := s.getline lf
  if !s.good then .error "can not read TOC position"
  else if sTocPos.length ≠ 16 then .error "invalid TOC position"
  else
    let tocPos := strtoul sTocPos
    let ptTocPos := unsignedToStreamsize tocPos.1
    if tocPos.2 ≠ [] ∨ ptTocPos < 0 then .error "invalid TOC position"
    else
      let s := s.seekg memBuf ptTocPos .beg
      if !s.good then .error "error seeking TOC"
      else
        let (c, s) := s.get memBuf
        if c ≠ some lf then .error "error reading TOC" else readNodes (s.buf.data.length + 1) s toc

/-! ## The reader -/

/-- Who has the stream: the reader, or the file that is open. -/
inductive Source where
  | stream (s : Input)
  | file (f : Istream FileBuf)

/-- The members of a reader that is open. -/
structure Reader where
  source : Source
  toc : Toc
  cwd : Text := [slash]
  pos : UInt64

/-- `openFs` of a new reader. -/
def Reader.openFs (data : Text) : Except String Reader := do
  let (toc, s) ← readTOC { buf := { data } } SortedMap.empty
  return { source := .stream s, toc, pos := .ofNat (2 ^ 64 - 1) }

/-- What is asked of a reader, and of the file that is open. -/
inductive ReaderOp where
  | exist (fileName : Text)
  | size (fileName : Text)
  | lastModified (fileName : Text)
  | openReadonly (fileName : Text)
  | file (op : IstreamOp UInt8)
  | close

/-- What comes back. There is nothing when an assertion fails, or when the caller may not do that. -/
inductive ReaderAnswer where
  | found (isDir : Option Bool)
  | number (n : Nat)
  | file (a : IstreamAnswer UInt8)
  | done
  | thrown (message : String)
  | stopped
deriving DecidableEq

/-- A name below a directory. -/
def below (nn name : Text) : Bool := nn.isPrefixOf name && name[nn.length]? == some slash

/-- `exists` -/
def exist (toc : SortedMap Text α) (nn : Text) : Option Bool :=
  if (toc.find nn).isSome then some false
  else if toc.entries.any fun e => below nn e.1 then some true
  else none

/-- What an operation with a name does to it. -/
def withName (cwd fileName : Text) (f : Text → ReaderAnswer) : ReaderAnswer :=
  match joinNames cwd fileName with
  | none => .stopped
  | some nn => f nn

/-- What is found of a file. -/
def ofFile (x : Option α) (f : α → ReaderAnswer) : ReaderAnswer :=
  match x with
  | none => .thrown "file not found"
  | some a => f a

/-- `openReadonly`, when no file is open. -/
def Reader.openStream (r : Reader) (s : Input) (fileName : Text) : ReaderAnswer × Reader :=
  match joinNames r.cwd fileName with
  | none => (.stopped, r)
  | some nn =>
    match r.toc.find nn with
    | none => (.thrown "file not found", r)
    | some node =>
      let file (s : Input) : Source := .file { buf := { stream := s, beg := node.pos.toNat, size := node.size.toNat } }
      if node.pos = r.pos then (.done, { r with source := file s })
      else
        let newpos := unsignedToStreamsize node.pos.toNat
        if newpos < 0 then (.thrown "invalid position", r)
        else
          let s := s.seekg memBuf newpos .beg
          if !s.good then (.thrown "can not seek file", { r with source := .stream s })
          else (.done, { r with source := file s, pos := node.pos })

/-- `close` of the open file. -/
def Reader.closeFile (r : Reader) (f : Istream FileBuf) : ReaderAnswer × Reader :=
  let read := f.clear.tellg fileBuf
  let s := read.2.buf.stream
  match read.1 with
  | none => (.stopped, r)
  | some n =>
    (if s.good then .done else .thrown "input stream is not good",
      { r with source := .stream s, pos := r.pos + .ofNat n })

def Reader.step (r : Reader) (op : ReaderOp) : ReaderAnswer × Reader :=
  match op, r.source with
  | .exist fileName, _ => (withName r.cwd fileName fun nn => .found (exist r.toc nn), r)
  | .size fileName, _ =>
    (withName r.cwd fileName fun nn => ofFile (r.toc.find nn) fun node => .number node.size.toNat, r)
  | .lastModified fileName, _ =>
    (withName r.cwd fileName fun nn => ofFile (r.toc.find nn) fun node => .number node.lastModified.toNat, r)
  | .openReadonly fileName, .stream s => r.openStream s fileName
  | .openReadonly _, .file _ => (.thrown "opening more than one file not supported", r)
  | .file op, .file f =>
    let x := f.step fileBuf op
    (.file x.1, { r with source := .file x.2 })
  | .file _, .stream _ => (.stopped, r)
  | .close, .file f => r.closeFile f
  | .close, .stream _ => (.stopped, r)

end OpenCpi.StreamFs
