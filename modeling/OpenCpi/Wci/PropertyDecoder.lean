import OpenCpi.Wci.Decoder

/-!
# The path of the property data

`property_decoder.vhd` as `decoder.vhd` connects it, and `readback.vhd`. An access to the configuration space
is captured in a cycle and decoded in the cycles after it: its address is rebuilt from the byte enables, and
every property compares it with its own range, takes the index of an element from it, and shifts the lanes of
the write data.
-/

namespace OpenCpi.Wci

/-! ## Properties -/

/-- `data_width`: the bits of a value, 32 for strings. -/
inductive DataWidth where
  | w8
  | w16
  | w32
  | w64
deriving DecidableEq, Repr

def DataWidth.bits : DataWidth → Nat
  | .w8 => 8
  | .w16 => 16
  | .w32 => 32
  | .w64 => 64

/-- `property_t` -/
structure Property extends PropertyInfo where
  dataWidth : DataWidth
  /-- the bytes of a string without its null, 0 for the other types -/
  stringLength : Nat
deriving DecidableEq, Repr

/-- The last byte of a property. -/
def PropertyInfo.last (p : PropertyInfo) : Nat := p.offset + p.bytes_1

/-- The generics of a worker with properties: their ranges are disjoint and can be addressed. -/
structure PropertyWorker where
  decodeWidth : Nat
  rawPropertyBase : Nat
  allowedOps : Nat
  properties : List Property
  /-- `MAddr(decode_width-1 downto 2)`, and two bits of `be2offset` -/
  two_le : 2 ≤ decodeWidth
  below : ∀ p ∈ properties, p.last < 2 ^ decodeWidth
  disjoint : properties.Pairwise fun p q => p.last < q.offset ∨ q.last < p.offset

/-- What the control part depends on. -/
def PropertyWorker.worker (k : PropertyWorker) : Worker :=
  ⟨k.decodeWidth, k.allowedOps, k.properties.map Property.toPropertyInfo⟩

/-! ## Registers -/

/-- The inputs in a cycle, with `MData`. -/
structure PropertyCycle extends Cycle where
  data : BitVec 32
deriving DecidableEq, Repr

/-- The registers, with those of the data and of the qualifiers. -/
structure PropertyDecoder extends Decoder where
  data : BitVec 32
  nbytes_1 : Nat
  hi32 : Bool
deriving DecidableEq, Repr

/-- `num_bytes_1` -/
def numBytes_1 : Nat → Nat
  | 0b0001 | 0b0010 | 0b0100 | 0b1000 => 0
  | 0b1100 | 0b0011 => 1
  | _ => 3

namespace PropertyDecoder

variable (k : PropertyWorker) (d : PropertyDecoder) (c : PropertyCycle)

/-- A clock edge. -/
def clock : PropertyDecoder :=
  if decodeAccess c.toCycle ≠ .none_e then
    { toDecoder := d.toDecoder.clock k.worker c.toCycle
      data := c.data
      nbytes_1 := numBytes_1 c.byteEn
      hi32 := c.addr.testBit 2 }
  else { d with toDecoder := d.toDecoder.clock k.worker c.toCycle }

/-- `my_data` -/
def myData : BitVec 32 := if d.access = .none_e then c.data else d.data

/-- `my_nbytes_1` -/
def myNbytes_1 : Nat := if d.access = .none_e then numBytes_1 c.byteEn else d.nbytes_1

/-- `my_hi32` -/
def myHi32 : Bool := if d.access = .none_e then c.addr.testBit 2 else d.hi32

/-- `my_offset` -/
def offsetNow : Nat := myOffset k.worker d.toDecoder c.toCycle

/-- The difference of two offsets. -/
def minus (x y : Nat) : Nat := (x + 2 ^ k.decodeWidth - y % 2 ^ k.decodeWidth) % 2 ^ k.decodeWidth

/-- `raw_offset`, `is_read` and `is_write` -/
def rawOffset : Nat := minus k (d.offsetNow k c) k.rawPropertyBase

def isRead : Bool := d.access == .read_e && decide (k.rawPropertyBase ≤ d.offsetNow k c)

def isWrite : Bool := d.access == .write_e && decide (k.rawPropertyBase ≤ d.offsetNow k c)

/-! ## The decoder of a property -/

variable (p : Property)

/-- `my_decode` -/
def decode : Bool := myDecode k.worker d.toDecoder c.toCycle p.toPropertyInfo

/-- `write_enable` -/
def writeEnable : Bool := d.access == .write_e && p.writable && d.decode k c p

/-- `read_enable` -/
def readEnable : Bool := d.access == .read_e && p.readable && d.decode k c p

/-- `offset_out` -/
def offsetOut : Nat := if d.decode k c p then minus k (d.offsetNow k c) p.offset else 0

/-- `element_bytes`: as wide as an offset. -/
def elementBytes : Nat :=
  (if p.stringLength ≠ 0 then (p.stringLength + 4) / 4 * 4 else (p.dataWidth.bits + 7) / 8) %
    2 ^ k.decodeWidth

/-- `index_out`; the quotient by zero is zero. -/
def indexOut : Nat := d.offsetOut k c p / elementBytes k p

/-- `data_out`, from the data, the bytes of an access minus one and the byte offset in a word. -/
def shiftData (width : DataWidth) (data : BitVec 32) (nbytes_1 byteOffset : Nat) : BitVec 32 :=
  match width with
  | .w64 | .w32 => data
  | .w16 =>
    data.extractLsb' 16 16 ++
      if nbytes_1 = 1 ∧ byteOffset = 2 then data.extractLsb' 16 16 else data.extractLsb' 0 16
  | .w8 =>
    data.extractLsb' 16 16 ++
      (if byteOffset = 2 then data.extractLsb' 24 8 else data.extractLsb' 8 8) ++
      (if byteOffset = 3 then data.extractLsb' 24 8
        else if byteOffset = 2 then data.extractLsb' 16 8
        else if byteOffset = 1 then data.extractLsb' 8 8
        else data.extractLsb' 0 8)

def dataOut : BitVec 32 := shiftData p.dataWidth (d.myData c) (d.myNbytes_1 c) (d.offsetNow k c % 4)

/-! ## The decoder of all properties -/

/-- `write_enables` -/
def writeEnables : List Bool := k.properties.map (d.writeEnable k c)

/-- `read_enables` -/
def readEnables : List Bool := k.properties.map (d.readEnable k c)

end PropertyDecoder

/-! ## Reading back -/

/-- `first_true` -/
def firstTrue (bools : List Bool) : Nat :=
  if bools.findIdx id < bools.length then bools.findIdx id else 0

/-- `readback.vhd` -/
def readback {α : Type} (readEnables : List Bool) (dataInputs : List α) : Option α :=
  dataInputs[firstTrue readEnables]?

end OpenCpi.Wci
