import OpenCpi.Hdl.WciControl
import OpenCpi.Net.Device

/-!
# Registers over a network and in memory

The forms of access to registers: those of `Net::Device`, from `NetDriver.h` and `NetDriver.cxx`, and those of
`Access` through a mapped pointer, from `HdlAccess.h` and `HdlAccess.cxx`. A device answers the requests from
a byte array; what it puts into the bytes of a word that are not enabled is a parameter. Host and device have
the low byte first.
-/

namespace OpenCpi.Net

open Infra (Memory readBytes writeBytes)

/-! ## The scalar forms of `Net::Device` -/

def get32 (offset : Nat) (status : Bool) : Prog (BitVec 32 × Nat) := get offset 4 status

def get16 (offset : Nat) (status : Bool) : Prog (BitVec 16 × Nat) := do
  let (w, st) ← get offset 2 status
  return ((w >>> (offset % 4 * 8)).setWidth 16, st)

def get8 (offset : Nat) (status : Bool) : Prog (BitVec 8 × Nat) := do
  let (w, st) ← get offset 1 status
  return ((w >>> (offset % 4 * 8)).setWidth 8, st)

def set32 (offset : Nat) (val : BitVec 32) (status : Bool) : Prog Nat := set offset 4 val status

def set16 (offset : Nat) (val : BitVec 16) (status : Bool) : Prog Nat :=
  set offset 2 (val.setWidth 32 <<< (offset % 4 * 8)) status

def set8 (offset : Nat) (val : BitVec 8) (status : Bool) : Prog Nat :=
  set offset 1 (val.setWidth 32 <<< (offset % 4 * 8)) status

/-! ## A device -/

/-- Byte `i` of the word is enabled. -/
def enabled (a : Access) (i : Nat) : Bool := (byteEnables a.offset a.bytes).testBit i

/-- The word at the address of a request. -/
def readWord (junk memory : Memory) (a : Access) : BitVec 32 :=
  let lane i := (if enabled a i then memory (address a.offset + i) else junk i).toBitVec
  lane 3 ++ lane 2 ++ lane 1 ++ lane 0

/-- The enabled bytes of the word at the address of a request are written. -/
def writeWord (memory : Memory) (a : Access) : Memory := fun addr =>
  let i := addr - address a.offset
  if address a.offset ≤ addr ∧ i < 4 ∧ enabled a i then UInt8.ofBitVec (byteOf a.data i) else memory addr

/-- The device serves a request, with success. -/
def serve (junk memory : Memory) (a : Access) : Answer × Memory :=
  match a.type with
  | .read => (⟨0, readWord junk memory a⟩, memory)
  | .write => (⟨0, 0⟩, writeWord memory a)
  | .nop | .response => (⟨0, 0⟩, memory)

/-- An access runs against a device: what it returns, and the memory after it. -/
def runOn {α : Type} (junk : Memory) : Prog α → Memory → α × Memory
  | .ret v, memory => (v, memory)
  | .ask a k, memory => runOn junk (k (serve junk memory a).1) (serve junk memory a).2

/-! ## `Access` through a mapped pointer -/

/-- The value that some bytes stand for, the low byte first. -/
def load : (n : Nat) → Memory → Nat → BitVec (8 * n)
  | 0, _, _ => 0#0
  | n + 1, memory, offset => load n memory (offset + 1) ++ (memory offset).toBitVec

/-- The bytes of a value, the low byte first. -/
def store (n : Nat) (memory : Memory) (offset : Nat) (val : BitVec (8 * n)) : Memory :=
  writeBytes memory offset ((List.range n).map fun i => UInt8.ofBitVec (val.extractLsb' (8 * i) 8))

/-- The mapped memory. -/
def mapped (memory : Memory) : Hdl.Device :=
  { memory, beyond := fun a => memory (a + Hdl.configSize), window := 0, status := 0, reported := 0 }

/-! ## The forms of access -/

/-- A form of access at an offset; `host` is the address of the buffer. -/
inductive Form where
  | get8
  | get16
  | get32
  | get64
  | getBytes (host length : Nat)
  | set8 (val : BitVec 8)
  | set16 (val : BitVec 16)
  | set32 (val : BitVec 32)
  | set64 (val : BitVec 64)
  | setBytes (host : Nat) (data : List UInt8)
deriving DecidableEq, Repr

/-- What a form returns: a value or bytes, or nothing. -/
inductive Result where
  | value (n : Nat) (v : BitVec n)
  | bytes (data : List UInt8)
  | unit
deriving DecidableEq, Repr

/-- The form of `Net::Device`; the second result is the status. -/
def Form.net (offset : Nat) (status : Bool) : Form → Prog (Result × Nat)
  | .get8 => do
    let (v, st) ← Net.get8 offset status
    return (.value 8 v, st)
  | .get16 => do
    let (v, st) ← Net.get16 offset status
    return (.value 16 v, st)
  | .get32 => do
    let (v, st) ← Net.get32 offset status
    return (.value 32 v, st)
  | .get64 => do
    let (v, st) ← Net.get64 offset status
    return (.value 64 v, st)
  | .getBytes _ length => do
    let (buf, st) ← Net.getBytes offset length status
    return (.bytes (buf.map UInt8.ofBitVec), st)
  | .set8 val => do
    let st ← Net.set8 offset val status
    return (.unit, st)
  | .set16 val => do
    let st ← Net.set16 offset val status
    return (.unit, st)
  | .set32 val => do
    let st ← Net.set32 offset val status
    return (.unit, st)
  | .set64 val => do
    let st ← Net.set64 offset val status
    return (.unit, st)
  | .setBytes _ data => do
    let st ← Net.setBytes offset (data.map UInt8.toBitVec) status
    return (.unit, st)

/-- The form of `Access` through a mapped pointer. -/
def Form.access (memory : Memory) (offset : Nat) : Form → Result × Memory
  | .get8 => (.value 8 (load 1 memory offset), memory)
  | .get16 => (.value 16 (load 2 memory offset), memory)
  | .get32 => (.value 32 (load 4 memory offset), memory)
  | .get64 => (.value 64 (load 8 memory offset), memory)
  | .getBytes host length => (.bytes (Hdl.getBytes host offset length (mapped memory)), memory)
  | .set8 val => (.unit, store 1 memory offset val)
  | .set16 val => (.unit, store 2 memory offset val)
  | .set32 val => (.unit, store 4 memory offset val)
  | .set64 val => (.unit, store 8 memory offset val)
  | .setBytes host data => (.unit, (Hdl.setBytes host offset data (mapped memory)).view)

/-- The number of bytes of a form. -/
def Form.length : Form → Nat
  | .get8 | .set8 _ => 1
  | .get16 | .set16 _ => 2
  | .get32 | .set32 _ => 4
  | .get64 | .set64 _ => 8
  | .getBytes _ length => length
  | .setBytes _ data => data.length

/-- The scalar forms are naturally aligned. -/
def Form.Aligned (offset : Nat) : Form → Prop
  | .getBytes .. | .setBytes .. => True
  | form => offset % form.length = 0

instance (offset : Nat) : (form : Form) → Decidable (form.Aligned offset)
  | .getBytes .. | .setBytes .. => .isTrue trivial
  | .get8 | .get16 | .get32 | .get64 | .set8 _ | .set16 _ | .set32 _ | .set64 _ =>
    inferInstanceAs (Decidable (_ = _))

end OpenCpi.Net
