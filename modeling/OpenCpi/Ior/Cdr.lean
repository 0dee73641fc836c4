import OpenCpi.Infra.Stream

/-!
# CDR encoding

`OcpiUtilCDR.cxx`. The encoder appends to a byte string and aligns each number with respect to the
start of the string. The decoder walks over a byte string in the byte order that it was told.

The encoder of the code writes the native byte order and pads with `x`. Here both are parameters, so
that the same rules also give what an encoder of the other byte order writes.
-/

namespace OpenCpi.Ior

open Infra

/-! ## The encoder -/

/-- How an encoder writes: the byte order (`true` is the low byte first, as in `nativeByteorder`) and
what the padding is. -/
structure Style where
  little : Bool
  fill : Nat → UInt8

/-- `CDR::Encoder` on a host with this byte order. -/
def nativeStyle (native : Bool) : Style := ⟨native, fun _ => 120⟩

variable (s : Style)

def putBoolean (value : Bool) (d : Bytes) : Bytes := d ++ [if value then 1 else 0]

def putOctet (value : UInt8) (d : Bytes) : Bytes := d ++ [value]

/-- The numbers of `n` bytes. -/
def putNumber (n value : Nat) (d : Bytes) : Bytes := pad s.fill n d ++ orderedBytes s.little n value

def putUShort (value : Nat) (d : Bytes) : Bytes := putNumber s 2 value d

def putULong (value : Nat) (d : Bytes) : Bytes := putNumber s 4 value d

def putULongLong (value : Nat) (d : Bytes) : Bytes := putNumber s 8 value d

def putString (value : Bytes) (d : Bytes) : Bytes :=
  putULong s ((value.length + 1) % 2 ^ 32) d ++ value ++ [0]

def putOctetSeq (value : Bytes) (d : Bytes) : Bytes :=
  putULong s (value.length % 2 ^ 32) d ++ value

/-! ## The decoder -/

/-- What a decoder throws: `InvalidData`, or the text of a `std::string`. -/
inductive Fault where
  | invalidData
  | thrown (text : String)
deriving DecidableEq, Repr

abbrev Decoder (α : Type) := Get Fault α

/-- The bytes that are left. -/
def remainingData : Decoder Nat := fun r => .ok (r.data.length - r.pos, r)

def getBoolean : Decoder Bool := do
  let b ← take .invalidData 1
  if b = [0] then return false
  else if b = [1] then return true
  else throw .invalidData

def getOctet : Decoder UInt8 := do
  let b ← take .invalidData 1
  return b.headD 0

/-- `copyswap2`, `copyswap4` -/
def copyswap (b : Bytes) : Bytes := b.reverse

def copyswap8 (b : Bytes) : Bytes := copyswap (b.drop 4) ++ copyswap (b.take 4)

variable (native order : Bool)

/-- The numbers of `n` bytes: in the native order, or swapped. -/
def getNumber (swap : Bytes → Bytes) (n : Nat) : Decoder Nat := do
  skip n
  let b ← take .invalidData n
  return orderedWord native (if order = native then b else swap b)

def getUShort : Decoder Nat := getNumber native order copyswap 2

def getULong : Decoder Nat := getNumber native order copyswap 4

def getULongLong : Decoder Nat := getNumber native order copyswap8 8

/-- A length of zero, which no encoder writes, makes the code read outside the data; that is left
out. -/
def getString : Decoder Bytes := do
  let length ← getULong native order
  let b ← take .invalidData length
  return b.dropLast

def getOctetSeq : Decoder Bytes := do
  let length ← getULong native order
  take .invalidData length

/-! ## What is written is read -/

variable {s native order}

theorem decodes_boolean (v : Bool) : Decodes getBoolean (putBoolean v) v := by
  have h : Decodes (take Fault.invalidData 1) (putBoolean v) [if v then 1 else 0] :=
    decodes_take rfl
  refine Decodes.bind (p := id) h ?_
  cases v
  · exact decodes_pure false
  · exact decodes_pure true

theorem decodes_octet (v : UInt8) : Decodes getOctet (putOctet v) v := by
  have h : Decodes (take Fault.invalidData 1) (putOctet v) [v] := decodes_take rfl
  exact h.map fun b => b.headD 0

theorem decodes_number {swap : Bytes → Bytes} {n v : Nat} (hn : 0 < n) (hv : v < 256 ^ n)
    (hswap : ∀ b : Bytes, b.length = n → swap b = b.reverse) :
    Decodes (getNumber native s.little swap n) (putNumber s n v) v := by
  have hb : Decodes (take Fault.invalidData n) (· ++ orderedBytes s.little n v)
      (orderedBytes s.little n v) := decodes_take (orderedBytes_length _ _ _)
  have hword : orderedWord native (if s.little = native then orderedBytes s.little n v
      else swap (orderedBytes s.little n v)) = v := by
    by_cases h : s.little = native
    · rw [if_pos h, ← h, orderedWord_orderedBytes _ hv]
    · have hnot : native = !s.little := by
        cases hl : s.little <;> cases hn : native <;> simp_all
      rw [if_neg h, hswap _ (orderedBytes_length _ _ _), hnot, orderedWord_not,
        orderedWord_orderedBytes _ hv]
  have hend := hb.map fun b => orderedWord native (if s.little = native then b else swap b)
  rw [hword] at hend
  exact Decodes.bind (g := fun _ => _) (p := (· ++ orderedBytes s.little n v))
    (decodes_skip hn) hend

theorem copyswap8_eq {b : Bytes} (_h : b.length = 8) : copyswap8 b = b.reverse := by
  unfold copyswap8 copyswap
  rw [← List.reverse_append, List.take_append_drop]

theorem decodes_uShort {v : Nat} (h : v < 2 ^ 16) :
    Decodes (getUShort native s.little) (putUShort s v) v :=
  decodes_number (by decide) (by simpa using h) fun _ _ => rfl

theorem decodes_uLong {v : Nat} (h : v < 2 ^ 32) :
    Decodes (getULong native s.little) (putULong s v) v :=
  decodes_number (by decide) (by simpa using h) fun _ _ => rfl

theorem decodes_uLongLong {v : Nat} (h : v < 2 ^ 64) :
    Decodes (getULongLong native s.little) (putULongLong s v) v :=
  decodes_number (by decide) (by simpa using h) fun _ => copyswap8_eq

theorem decodes_string {v : Bytes} (h : v.length + 1 < 2 ^ 32) :
    Decodes (getString native s.little) (putString s v) v := by
  have hlen : (v.length + 1) % 2 ^ 32 = v.length + 1 := Nat.mod_eq_of_lt h
  have hb : Decodes (take Fault.invalidData (v.length + 1)) (· ++ (v ++ [0])) (v ++ [0]) :=
    decodes_take (by simp)
  have hend := hb.map (·.dropLast)
  rw [List.dropLast_concat] at hend
  have hcount : Decodes (getULong native s.little) (putULong s (v.length + 1)) (v.length + 1) :=
    decodes_uLong h
  have hall := Decodes.bind (g := fun n => take Fault.invalidData n >>= fun b => pure b.dropLast)
    (p := (· ++ (v ++ [0]))) hcount hend
  unfold getString
  refine ⟨?_, ?_⟩
  · intro d
    unfold putString
    rw [hlen, List.append_assoc]
    exact hall.grows d
  · intro d data hp
    unfold putString at hp ⊢
    rw [hlen, List.append_assoc] at hp ⊢
    exact hall.get d data hp

theorem decodes_octetSeq {v : Bytes} (h : v.length < 2 ^ 32) :
    Decodes (getOctetSeq native s.little) (putOctetSeq s v) v := by
  have hlen : v.length % 2 ^ 32 = v.length := Nat.mod_eq_of_lt h
  have hb : Decodes (take Fault.invalidData v.length) (· ++ v) v := decodes_take rfl
  have hcount : Decodes (getULong native s.little) (putULong s v.length) v.length :=
    decodes_uLong h
  have hall := Decodes.bind (p := (· ++ v)) hcount hb
  unfold putOctetSeq getOctetSeq
  rw [hlen]
  exact hall

theorem putULong_length (v : Nat) (d : Bytes) :
    (putULong s v d).length = alignUp 4 d.length + 4 := by
  unfold putULong putNumber
  rw [List.length_append, pad_length (by decide), orderedBytes_length]

end OpenCpi.Ior
