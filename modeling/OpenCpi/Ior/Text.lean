import Mathlib.Data.List.TakeWhile
import OpenCpi.Ior.Iop

/-!
# References as text

The hexadecimal text form of an IOR in `OcpiUtilIOP.cxx`. Texts are lists of bytes. A text that is
passed as a `const char *` ends at the first NUL.
-/

namespace OpenCpi.Ior

open Infra

/-- An entry of `hc2i`: -1, -2 or the value of a digit. -/
inductive HexEntry where
  | invalid
  | ignore
  | digit (n : Nat)
deriving DecidableEq, Repr

def hc2i (c : UInt8) : HexEntry :=
  if 48 ≤ c ∧ c ≤ 57 then .digit (c.toNat - 48)
  else if 65 ≤ c ∧ c ≤ 70 then .digit (c.toNat - 55)
  else if 97 ≤ c ∧ c ≤ 102 then .digit (c.toNat - 87)
  else if c = 9 ∨ c = 10 ∨ c = 13 ∨ c = 32 then .ignore
  else .invalid

/-- The loop of `hex2blob`; `h1` is the first digit of a byte when the second one is looked for. -/
def hexLoop : Option Nat → Bytes → Option Bytes
  | none, [] => some []
  | some _, [] => none
  | h1, c :: src =>
    match hc2i c with
    | .ignore => hexLoop h1 src
    | .invalid => none
    | .digit n =>
      match h1 with
      | none => hexLoop (some n) src
      | some h => (hexLoop none src).map (UInt8.ofNat (16 * h + n) :: ·)

/-- `hex2blob`; `none` is `false`. -/
def hex2blob (data : Bytes) : Option Bytes := hexLoop none data

def i2hc (n : Nat) : UInt8 := UInt8.ofNat (if n < 10 then 48 + n else 87 + n)

def blob2hex (data : Bytes) : Bytes :=
  data.flatMap fun b => [i2hc (b.toNat / 16), i2hc (b.toNat % 16)]

/-- `c_str()` as far as a reader of the string sees it. -/
def cString (s : Bytes) : Bytes := s.takeWhile (· ≠ 0)

/-- The characters that `decode_ior_string` skips. -/
def leading (c : UInt8) : Bool := c = 32 ∨ c = 9 ∨ c = 13 ∨ c = 10

/-- A text that begins with `IOR:`, in either case, and the rest of it. -/
def iorPrefix : Bytes → Option Bytes
  | i :: o :: r :: colon :: rest =>
    if (i = 73 ∨ i = 105) ∧ (o = 79 ∨ o = 111) ∧ (r = 82 ∨ r = 114) ∧ colon = 58 then some rest
    else none
  | _ => none

/-- `decode_ior_string`: the value that it returns, and `out`. Without the prefix it is `true` and leaves
`out` alone. -/
def decodeIorString (ior out : Bytes) : Bool × Bytes :=
  match iorPrefix ((cString ior).dropWhile leading) with
  | none => (true, out)
  | some rest =>
    match hex2blob rest with
    | none => (false, out)
    | some blob => (true, blob)

variable (native : Bool)

/-- The constructor from a `const char *`. -/
def IOR.ofUri (uri : Bytes) : Except String IOR :=
  let r := decodeIorString uri []
  if !r.1 then .error "Cannot parse stringified IOR" else IOR.decode native r.2

def stringToIor (ior : Bytes) : Except String IOR :=
  let r := decodeIorString ior []
  if r.1 then .error "can not read ior string" else IOR.decode native r.2

def iorToString (ior : IOR) : Bytes := [73, 79, 82, 58] ++ blob2hex (ior.encode native)

/-! ## What is written as digits is read -/

variable {native}

theorem hc2i_i2hc : ∀ n < 16, hc2i (i2hc n) = .digit n := by decide

theorem i2hc_ne_zero : ∀ n < 16, i2hc n ≠ 0 := by decide

theorem byte_halves (b : UInt8) : UInt8.ofNat (16 * (b.toNat / 16) + b.toNat % 16) = b := by
  rw [Nat.div_add_mod, UInt8.ofNat_toNat]

theorem halves_lt (b : UInt8) : b.toNat / 16 < 16 ∧ b.toNat % 16 < 16 := by
  have hb := b.toNat_lt
  omega

/-- **The digits of some bytes** are read back. -/
theorem hex2blob_blob2hex : ∀ data : Bytes, hex2blob (blob2hex data) = some data
  | [] => rfl
  | b :: data => by
    obtain ⟨hhigh, hlow⟩ := halves_lt b
    have ih := hex2blob_blob2hex data
    unfold hex2blob at ih ⊢
    have hcons : blob2hex (b :: data) =
        i2hc (b.toNat / 16) :: i2hc (b.toNat % 16) :: blob2hex data := rfl
    rw [hcons, hexLoop]
    simp only [hc2i_i2hc _ hhigh]
    rw [hexLoop]
    simp only [hc2i_i2hc _ hlow]
    rw [ih, byte_halves]
    rfl

theorem blob2hex_ne_zero {data : Bytes} {c : UInt8} (h : c ∈ blob2hex data) : c ≠ 0 := by
  obtain ⟨b, -, hc⟩ := List.mem_flatMap.mp h
  obtain ⟨hhigh, hlow⟩ := halves_lt b
  rcases List.mem_cons.mp hc with rfl | hc
  · exact i2hc_ne_zero _ hhigh
  · rcases List.mem_cons.mp hc with rfl | hc
    · exact i2hc_ne_zero _ hlow
    · cases hc

/-- **The text of a reference** is decoded to the encoded bytes. -/
theorem decodeIorString_iorToString (ior : IOR) (out : Bytes) :
    decodeIorString (iorToString native ior) out = (true, ior.encode native) := by
  have hplain : cString (iorToString native ior) = iorToString native ior := by
    refine List.takeWhile_eq_self_iff.mpr fun c hc => decide_eq_true ?_
    rcases List.mem_append.mp hc with hc | hc
    · rcases List.mem_cons.mp hc with rfl | hc
      · decide
      · rcases List.mem_cons.mp hc with rfl | hc
        · decide
        · rcases List.mem_cons.mp hc with rfl | hc
          · decide
          · cases List.mem_singleton.mp hc
            decide
    · exact blob2hex_ne_zero hc
  have hrest : iorPrefix ((iorToString native ior).dropWhile leading) =
      some (blob2hex (ior.encode native)) := rfl
  unfold decodeIorString
  rw [hplain, hrest]
  dsimp only
  rw [hex2blob_blob2hex]

end OpenCpi.Ior
