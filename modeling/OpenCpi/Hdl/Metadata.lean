import Mathlib.Logic.Function.Basic
import OpenCpi.Infra.Bytes
import OpenCpi.Infra.Traced

/-!
# The metadata ROM

`Device::getRomWord` and `Device::getMetadata` of `HdlDevice.cxx`. The bitstream holds the metadata of its
artifact in compressed form. The device hands it out a word at a time; four words of header come first.

Each access to the array `rom` is reported, and so is what the decompressor is given. The decompressor is a
parameter. The host stores words with the low byte first.
-/

namespace OpenCpi.Hdl

open Infra Traced

def NROMWORDS : Nat := 1024

def MAXXMLBYTES : Nat := NROMWORDS * 10

/-- What the calls of `zlib` return: `inflate` gives whether the stream ended, the bytes that it stored and
the checksum. -/
structure Zlib where
  inflateInit : Bool
  inflate : (input : List UInt8) → (availOut : Nat) → Bool × List UInt8 × Nat
  inflateEnd : Bool

/-- Accesses to `rom` by index, and the input and the output area of the decompressor in bytes. `xmlSize` is
the size of `xml`. -/
inductive RomEvent where
  | access (n : Nat)
  | inflate (nextIn availIn availOut xmlSize : Nat)
deriving DecidableEq, Repr

/-- `rom`, with what stands behind it. -/
abbrev Rom := Nat → Nat

abbrev RomM (α : Type) := Traced Rom String RomEvent α

/-- `getRomWord`, with a number of 16 bits -/
def getRomWord (words : BitVec 16 → BitVec 32) (n : Nat) : Nat := (words (BitVec.ofNat 16 n)).toNat

variable (words : BitVec 16 → BitVec 32)

/-- `rom[n] = getRomWord(n)` -/
def storeWord (n : Nat) : RomM Nat := do
  report (.access n)
  change fun rom => Function.update rom n (getRomWord words n)
  return getRomWord words n

/-- The loop over the words behind the header. -/
def storeWords : Nat → Nat → RomM Unit
  | 0, _ => return ()
  | count + 1, n => do
    let _ ← storeWord words n
    storeWords count (n + 1)

/-- The bytes of `rom` from word `n` on. -/
def romBytes (rom : Rom) (n len : Nat) : List UInt8 :=
  (List.range len).map fun k => (wordBytes (rom (n + k / 4))).getD (k % 4) 0

def hex (n : Nat) : String := String.ofList (Nat.toDigits 16 n)

/-- The end of `getMetadata`. -/
def decompress (zs : Zlib) (inBytes xmlBytes check : Nat) : RomM (List UInt8) := do
  let rom ← read
  report (.inflate 16 inBytes xmlBytes xmlBytes)
  let (ended, xml, adler) := zs.inflate (romBytes rom 4 inBytes) xmlBytes
  if zs.inflateInit && ended && zs.inflateEnd then
    if adler ≠ check ∨ xml.length ≠ xmlBytes then
      let isAdler := hex adler
      let isLength := hex xml.length
      let toCheck := hex check
      let toLength := hex xmlBytes
      raise <| "bad checksum or length on decompressed data: is " ++
        s!"{isAdler}/{isLength}, should be {toCheck}/{toLength}"
    else return xml
  else raise "Unsuccessful decompression from rom contents"

/-- `getMetadata` returns the metadata, or the text of an error. The words of the header are looked at as
they come. -/
def getMetadata (zs : Zlib) : RomM (List UInt8) := do
  let version ← storeWord words 0
  if version ≠ 1 then raise "Metadata ROM appears corrupted"
  else
    let inBytes ← storeWord words 1
    if NROMWORDS * 4 ≤ inBytes then raise "Metadata ROM appears corrupted"
    else
      let xmlBytes ← storeWord words 2
      if MAXXMLBYTES ≤ xmlBytes then raise "Metadata ROM appears corrupted"
      else
        let check ← storeWord words 3
        let nWords := (inBytes + 4 - 1) / 4
        storeWords words nWords 4
        decompress zs inBytes xmlBytes check

end OpenCpi.Hdl
