import Mathlib.Algebra.Group.Int.Defs
import OpenCpi.Http.Client

/-!
# Files in memory

`MemIStreamBuf` of `OcpiUtilStaticMemFile.cxx`: a stream buffer over one buffer, or over chunks that end with
an empty one; with the functions of `std::streambuf` that call its virtual functions. The get area is a part
of the memory, so that it is kept as the number of the part and the offset of `gptr`.

A file has fewer than 2^63 bytes, so that sums of sizes do not wrap.
-/

namespace OpenCpi.MemFs

open Http (unsignedToStreamsize)

/-- `m_ptr` with `m_size`, or `m_chunks` without the chunk that ends them. -/
inductive Memory where
  | buffer (bytes : List UInt8)
  | chunks (cs : List (List UInt8))
deriving DecidableEq, Repr

/-- The bytes of a part; the chunk behind the last one is empty. -/
def Memory.part : Memory → Nat → List UInt8
  | .buffer bytes, _ => bytes
  | .chunks cs, i => cs.getD i []

/-- `MemIStreamBuf`. `chunk` is `m_chunk - m_chunks`, and `gptr` counts from `eback`; without an area the
pointers are null. -/
structure MemIStreamBuf where
  memory : Memory
  chunk : Nat
  firstByteInChunk : Nat
  area : Option Nat
  gptr : Nat
deriving DecidableEq, Repr

namespace MemIStreamBuf

def ofBuffer (bytes : List UInt8) : MemIStreamBuf := ⟨.buffer bytes, 0, 0, some 0, 0⟩

/-- `setg` with the pointer of the chunk behind the last one, which is null, leaves no area. -/
def areaOf (cs : List (List UInt8)) (chunk : Nat) : Option Nat := if chunk < cs.length then some chunk else none

def ofChunks (cs : List (List UInt8)) : MemIStreamBuf := ⟨.chunks cs, 0, 0, areaOf cs 0, 0⟩

variable (b : MemIStreamBuf)

/-- The bytes from `eback` to `egptr`. -/
def areaBytes : List UInt8 := b.area.elim [] b.memory.part

/-! ## The virtual functions -/

/-- `underflow_common`: a character, or the end of the file. -/
def underflowCommon (bump : Nat) : Option UInt8 × MemIStreamBuf :=
  match b.memory with
  | .buffer bytes =>
    match bytes[b.gptr]? with
    | none => (none, b)
    | some c => (some c, { b with area := some 0, gptr := b.gptr + bump })
  | .chunks cs =>
    let size := (b.memory.part b.chunk).length
    let next := decide (size ≤ b.gptr ∧ size ≠ 0)
    let curpos := if next then 0 else b.gptr
    let b := if next then { b with chunk := b.chunk + 1, firstByteInChunk := b.firstByteInChunk + size } else b
    match (b.memory.part b.chunk)[curpos]? with
    | none => (none, b)
    | some c => (some c, { b with area := areaOf cs b.chunk, gptr := curpos + bump })

/-- `gbump ((int) count)`; `none` when the pointer leaves the area. -/
def gbump (count : Nat) : Option MemIStreamBuf :=
  let gptr := (b.gptr : Int) + Int.bmod count (2 ^ 32)
  if 0 ≤ gptr ∧ gptr ≤ b.areaBytes.length then some { b with gptr := gptr.toNat } else none

/-- The readable area, after `underflow` when it is empty; or the end of the file. -/
def refill : Bool × MemIStreamBuf :=
  if b.gptr < b.areaBytes.length then (true, b)
  else
    match b.underflowCommon 0 with
    | (none, b) => (false, b)
    | (some _, b) => (true, b)

/-- The loop of `xsgetn`. Each turn takes a byte or ends it, so that `remaining` turns are enough. -/
def xsgetnLoop : Nat → Nat → MemIStreamBuf → Option (List UInt8 × MemIStreamBuf)
  | _, 0, b => some ([], b)
  | 0, _ + 1, _ => none
  | fuel + 1, remaining, b =>
    match b.refill with
    | (false, b) => some ([], b)
    | (true, b) =>
      let count := min (b.areaBytes.length - b.gptr) remaining
      (b.gbump count).bind fun b' =>
        (xsgetnLoop fuel (remaining - count) b').map fun r => ((b.areaBytes.drop b.gptr).take count ++ r.1, r.2)

/-- `pbackfail`; `none` when it reads outside of the chunk. -/
def pbackfail (c : Option UInt8) : Option (Option UInt8 × MemIStreamBuf) :=
  match b.memory with
  | .buffer _ => some (none, b)
  | .chunks _ =>
    if 0 < b.gptr then some (none, b)
    else if b.chunk = 0 then some (none, b)
    else
      let prevChunk := b.memory.part (b.chunk - 1)
      let curpos := (2 ^ 64 + (b.memory.part b.chunk).length - 1) % 2 ^ 64
      if prevChunk.length = 0 then some (none, b)
      else
        prevChunk[curpos]?.map fun p =>
          if c = some p then (none, b)
          else (some (c.getD 0), { b with
            chunk := b.chunk - 1
            firstByteInChunk := b.firstByteInChunk - prevChunk.length
            area := some (b.chunk - 1)
            gptr := curpos })

/-- The loop of `seekpos`, over the chunks from one on: the number of a chunk and its first byte. -/
def seekChunk (pos : Nat) : List (List UInt8) → Nat → Nat → Nat × Nat
  | [], chunk, first => (chunk, first)
  | c :: cs, chunk, first =>
    if first + c.length ≤ pos ∧ c.length ≠ 0 then seekChunk pos cs (chunk + 1) (first + c.length)
    else (chunk, first)

/-- `seekpos`: the position, or -1. -/
def seekpos (ptpos : Int) : Option Nat × MemIStreamBuf :=
  if ptpos < 0 then (none, b)
  else
    let pos := ptpos.toNat
    match b.memory with
    | .buffer bytes =>
      if bytes.length < pos then (none, b) else (some pos, { b with area := some 0, gptr := pos })
    | .chunks cs =>
      let (chunk, first) := if pos < b.firstByteInChunk then (0, 0) else (b.chunk, b.firstByteInChunk)
      let (chunk, first) := seekChunk pos (cs.drop chunk) chunk first
      let b := { b with chunk := chunk, firstByteInChunk := first }
      if first + (b.memory.part chunk).length < pos then (none, b)
      else (some pos, { b with area := areaOf cs chunk, gptr := pos - first })

/-- `std::ios_base::seekdir` -/
inductive Way where
  | beg
  | cur
  | fin
deriving DecidableEq, Repr

/-- `seekoff` -/
def seekoff (off : Int) (way : Way) : Option Nat × MemIStreamBuf :=
  if b.area = none then (none, b)
  else
    let origin := match way, b.memory with
      | .beg, _ => 0
      | .cur, .buffer _ => b.gptr
      | .cur, .chunks _ => b.firstByteInChunk + b.gptr
      | .fin, .buffer bytes => bytes.length
      | .fin, .chunks cs => b.firstByteInChunk + ((cs.drop b.chunk).takeWhile (· ≠ [])).flatten.length
    if off < 0 ∧ (origin : Int) < -off then (none, b)
    else
      let ptpos := unsignedToStreamsize ((origin + off) % 2 ^ 64).toNat
      if ptpos = -1 then (none, b) else b.seekpos ptpos

/-! ## `std::streambuf` -/

def sgetc : Option UInt8 × MemIStreamBuf :=
  match b.areaBytes[b.gptr]? with
  | some c => (some c, b)
  | none => b.underflowCommon 0

def sbumpc : Option UInt8 × MemIStreamBuf :=
  match b.areaBytes[b.gptr]? with
  | some c => (some c, { b with gptr := b.gptr + 1 })
  | none => b.underflowCommon 1

def sgetn (n : Nat) : Option (List UInt8 × MemIStreamBuf) := xsgetnLoop n n b

def sungetc : Option (Option UInt8 × MemIStreamBuf) :=
  if 0 < b.gptr then b.areaBytes[b.gptr - 1]?.map fun c => (some c, { b with gptr := b.gptr - 1 })
  else b.pbackfail none

def sputbackc (c : UInt8) : Option (Option UInt8 × MemIStreamBuf) :=
  if 0 < b.gptr ∧ b.areaBytes[b.gptr - 1]? = some c then some (some c, { b with gptr := b.gptr - 1 })
  else b.pbackfail (some c)

end MemIStreamBuf

/-! ## Operations -/

/-- What a reader asks for. An offset is a `streamoff`. -/
inductive Op where
  | sgetc
  | sbumpc
  | sgetn (n : Nat)
  | sungetc
  | sputbackc (c : UInt8)
  | seekoff (off : Int64) (way : MemIStreamBuf.Way)
  | seekpos (pos : Int64)
deriving DecidableEq

/-- What it gets: a character or `eof`, some bytes, a position or -1. -/
inductive Answer where
  | char (c : Option UInt8)
  | block (bytes : List UInt8)
  | pos (p : Option Nat)
deriving DecidableEq, Repr

/-- An operation; `none` when memory outside of the file is read. -/
def MemIStreamBuf.step (b : MemIStreamBuf) : Op → Option (Answer × MemIStreamBuf)
  | .sgetc => some (b.sgetc.map .char id)
  | .sbumpc => some (b.sbumpc.map .char id)
  | .sgetn n => (b.sgetn n).map (Prod.map .block id)
  | .sungetc => b.sungetc.map (Prod.map .char id)
  | .sputbackc c => (b.sputbackc c).map (Prod.map .char id)
  | .seekoff off way => some ((b.seekoff off.toInt way).map .pos id)
  | .seekpos pos => some ((b.seekpos pos.toInt).map .pos id)

end OpenCpi.MemFs
