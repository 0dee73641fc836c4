import Mathlib.Algebra.Group.Int.Defs
import OpenCpi.Infra.Traced
import OpenCpi.Ior.Iop

/-!
# Decoding into an object

The decoders of `OcpiUtilCDR.cxx`, `OcpiUtilIOP.cxx` and `OcpiUtilIIOP.cxx` once more, step by step as they
fill the members of an object. An exception leaves in the object what was filled so far. Each step reports
the bytes that it reads and the unsigned numbers that it computes, before they are reduced to their width;
`unsigned long` has 64 bits.
-/

namespace OpenCpi.Ior

open Infra

/-- A `std::string`, with the bound that its `max_size` gives. -/
structure StdString where
  bytes : Bytes
  short : bytes.length < 2 ^ 63

/-- What a decoder reports. -/
inductive Event where
  | read (pos count : Nat)
  | computed (value : Int) (bits : Nat)
deriving DecidableEq, Repr

/-- The end of a decoder that does not return: an exception, or bytes outside the string were used. -/
inductive Exit where
  | fault (f : Fault)
  | crash
deriving DecidableEq, Repr

/-- A decoder: the position, the byte order of the data, and the object that is filled. -/
structure Cursor (σ : Type) where
  pos : Nat
  order : Bool
  object : σ

abbrev Fill (σ α : Type) := Traced (Cursor σ) Exit Event α

namespace Fill

variable {σ : Type} (native : Bool) (data : StdString)

def invalid {α : Type} : Fill σ α := Traced.raise (.fault .invalidData)

/-- A number of so many bits. -/
def compute (bits : Nat) (value : Int) : Fill σ Nat := do
  Traced.report (.computed value bits)
  return (value % 2 ^ bits).toNat

/-- `m_pos + n > m_len` -/
def room (n : Nat) : Fill σ Unit := do
  let c ← Traced.read
  let stop ← compute 64 (c.pos + n)
  if data.bytes.length < stop then invalid else pure ()

/-- The bytes at `m_data + m_pos`. -/
def readData (n : Nat) : Fill σ Bytes := do
  let c ← Traced.read
  Traced.report (.read c.pos n)
  if data.bytes.length < c.pos + n then Traced.raise .crash
  else pure ((data.bytes.drop c.pos).take n)

def advance (n : Nat) : Fill σ Unit := Traced.change fun c => { c with pos := c.pos + n }

def align (modulus : Nat) : Fill σ Unit := do
  let c ← Traced.read
  let sum ← compute 64 (c.pos + modulus - 1)
  Traced.change fun c => { c with pos := modulus * (sum / modulus) }

/-- The bytes that are left. -/
def remaining (pos : Nat) : Nat := if data.bytes.length < pos then 0 else data.bytes.length - pos

def remainingData : Fill σ Nat := do
  let c ← Traced.read
  return remaining data c.pos

def getBoolean : Fill σ Bool := do
  room data 1
  let b ← readData data 1
  if b = [0] then do
    advance 1
    return false
  else if b = [1] then do
    advance 1
    return true
  else invalid

def getOctet : Fill σ UInt8 := do
  room data 1
  let b ← readData data 1
  advance 1
  return b.headD 0

/-- The numbers of `n` bytes: in the native order, or swapped. -/
def getNumber (swap : Bytes → Bytes) (n : Nat) : Fill σ Nat := do
  align n
  room data n
  let b ← readData data n
  advance n
  let c ← Traced.read
  return orderedWord native (if c.order = native then b else swap b)

def getUShort : Fill σ Nat := getNumber native data copyswap 2

def getULong : Fill σ Nat := getNumber native data copyswap 4

def getULongLong : Fill σ Nat := getNumber native data copyswap8 8

def getString : Fill σ Bytes := do
  let length ← getULong native data
  room data length
  let count ← compute 32 (length - 1)
  let value ← readData data count
  advance length
  return value

def getOctetSeq : Fill σ Bytes := do
  let length ← getULong native data
  room data length
  let value ← readData data length
  advance length
  return value

/-- The byte-order flag at the start. -/
def byteorder : Fill σ Unit := do
  let bo ← getBoolean data
  Traced.change fun c => { c with order := bo }

/-- An assignment to the object. -/
def assign (f : σ → σ) : Fill σ Unit := Traced.change fun c => { c with object := f c.object }

/-- `resize` of a vector. -/
def resize (n : Nat) (l : List Tagged) : List Tagged := l.take n ++ List.replicate (n - l.length) ⟨0, []⟩

variable (modify : (List Tagged → List Tagged) → σ → σ)

/-- The loops over profiles and components. `modify` changes the vector in the object. -/
def taggedLoop : Nat → Nat → Fill σ Unit
  | 0, _ => pure ()
  | k + 1, pi => do
    let tag ← getULong native data
    assign (modify fun l => l.modify pi fun t => { t with tag := UInt32.ofNat tag })
    let octets ← getOctetSeq native data
    assign (modify fun l => l.modify pi fun t => { t with data := octets })
    taggedLoop k (pi + 1)

/-- The number of elements with its check, and the elements. -/
def taggedSeq : Fill σ Unit := do
  let n ← getULong native data
  let product ← compute 32 (n * 8)
  let remaining ← remainingData data
  if remaining < product then invalid
  else do
    assign (modify (resize n))
    taggedLoop native data modify n 0

/-- `decode` around its `try` block: `InvalidData` clears the object and becomes a `std::string`. -/
def decodeInto (fill : Fill σ Unit) (clear : σ → σ) : Traced σ Exit Event Unit := fun object =>
  match fill ⟨0, native, object⟩ with
  | (log, .ok (), c) => (log, .ok (), c.object)
  | (log, .error (.fault .invalidData), c) =>
    (log, .error (.fault (.thrown "invalid data")), clear c.object)
  | (log, .error e, c) => (log, .error e, c.object)

end Fill

open Fill

variable (native : Bool) (data : StdString)

/-- The members of an `IOR`, with the text that `corbaloc` made of them earlier. -/
structure IorObject where
  typeId : Bytes
  profiles : List Tagged
  corbaloc : Bytes
deriving DecidableEq, Repr

def IorObject.fill : Fill IorObject Unit := do
  byteorder data
  let id ← Fill.getString native data
  assign fun o => { o with typeId := id }
  taggedSeq native data fun f o => { o with profiles := f o.profiles }

/-- `IOR::decode` -/
def IorObject.decode : Traced IorObject Exit Event Unit :=
  decodeInto native (IorObject.fill native data) fun o => { o with typeId := [], profiles := [] }

def MultipleComponentProfile.fill : Fill MultipleComponentProfile Unit := do
  byteorder data
  taggedSeq native data fun f p => { p with components := f p.components }

/-- `MultipleComponentProfile::decode` -/
def MultipleComponentProfile.decodeObject : Traced MultipleComponentProfile Exit Event Unit :=
  decodeInto native (MultipleComponentProfile.fill native data) fun p => { p with components := [] }

/-- The components, which only versions from 1.1 on have. -/
def ProfileBody.fillComponents (minor : UInt8) : Fill ProfileBody Unit :=
  if 1 ≤ minor then taggedSeq native data fun f b => { b with components := f b.components }
  else assign fun b => { b with components := [] }

def ProfileBody.fillBody (minor : UInt8) : Fill ProfileBody Unit := do
  let host ← Fill.getString native data
  assign fun b => { b with host }
  let port ← Fill.getUShort native data
  assign fun b => { b with port := UInt16.ofNat port }
  let key ← Fill.getOctetSeq native data
  assign fun b => { b with objectKey := key }
  ProfileBody.fillComponents native data minor

def ProfileBody.fill : Fill ProfileBody Unit := do
  byteorder data
  let major ← Fill.getOctet data
  assign fun b => { b with major }
  let minor ← Fill.getOctet data
  assign fun b => { b with minor }
  if major ≠ 1 ∨ 3 < minor then Traced.raise (.fault (.thrown "unknown IIOP version"))
  else ProfileBody.fillBody native data minor

/-- The object that the handler of `ProfileBody::decode` leaves. -/
def ProfileBody.cleared : ProfileBody := ⟨0, 0, [], 0, [], []⟩

/-- `ProfileBody::decode` -/
def ProfileBody.decodeObject : Traced ProfileBody Exit Event Unit :=
  decodeInto native (ProfileBody.fill native data) fun _ => ProfileBody.cleared

end OpenCpi.Ior
