import Mathlib.Algebra.Group.Nat.Defs
import Mathlib.Data.List.GetD

/-!
# Bytes in memory

Memory is a function from addresses to bytes. Words are stored with the low byte first.
-/

namespace OpenCpi.Infra

abbrev Memory := Nat → UInt8

variable {memory memory' : Memory} {addr len a : Nat} {data : List UInt8}

/-- The bytes from an address on. -/
def readBytes (memory : Memory) (addr len : Nat) : List UInt8 :=
  (List.range len).map fun k => memory (addr + k)

/-- Bytes are copied to an address. -/
def writeBytes (memory : Memory) (addr : Nat) (data : List UInt8) : Memory :=
  fun a => if addr ≤ a ∧ a < addr + data.length then data.getD (a - addr) 0 else memory a

/-- The bytes of a 32-bit word. -/
def wordBytes (v : Nat) : List UInt8 :=
  (List.range 4).map fun k => UInt8.ofNat (v / 256 ^ k)

/-- The word that some bytes stand for. -/
def wordOf : List UInt8 → Nat
  | [] => 0
  | b :: rest => b.toNat + 256 * wordOf rest

@[simp] theorem readBytes_length (memory : Memory) (addr len : Nat) :
    (readBytes memory addr len).length = len := by
  simp [readBytes]

@[simp] theorem wordBytes_length (v : Nat) : (wordBytes v).length = 4 := rfl

theorem writeBytes_of_lt (h : a < addr) : writeBytes memory addr data a = memory a := by
  unfold writeBytes
  rw [if_neg (by omega)]

theorem writeBytes_nil (memory : Memory) (addr : Nat) : writeBytes memory addr [] = memory := by
  funext a
  unfold writeBytes
  rw [List.length_nil, if_neg (by omega)]

theorem readBytes_congr (h : ∀ a, addr ≤ a → a < addr + len → memory a = memory' a) :
    readBytes memory addr len = readBytes memory' addr len := by
  unfold readBytes
  refine List.map_congr_left fun k hk => ?_
  have := List.mem_range.mp hk
  exact h _ (by omega) (by omega)

/-- What was written is read. -/
theorem readBytes_writeBytes (memory : Memory) (addr : Nat) (data : List UInt8) :
    readBytes (writeBytes memory addr data) addr data.length = data := by
  refine List.ext_getElem (readBytes_length _ _ _) ?_
  intro k h₁ h₂
  simp only [readBytes, List.getElem_map, List.getElem_range, writeBytes]
  rw [if_pos ⟨Nat.le_add_right _ _, Nat.add_lt_add_left h₂ _⟩, Nat.add_sub_cancel_left,
    List.getD_eq_getElem?_getD, List.getElem?_eq_getElem h₂, Option.getD_some]

/-- A write changes nothing if and only if its bytes are there already. -/
theorem writeBytes_eq_self_iff :
    writeBytes memory addr data = memory ↔ readBytes memory addr data.length = data := by
  constructor
  · intro h
    have hread := readBytes_writeBytes memory addr data
    rwa [h] at hread
  · intro h
    funext a
    unfold writeBytes
    split
    · next ha =>
      have hk : a - addr < data.length := by omega
      have hget := congrArg (fun l : List UInt8 => l.getD (a - addr) 0) h
      rw [← hget, readBytes, List.getD_eq_getElem?_getD, List.getElem?_map, List.getElem?_range hk,
        Option.map_some, Option.getD_some, Nat.add_sub_cancel' ha.1]
    · rfl

/-- Two writes in a row are one. -/
theorem writeBytes_append {x y : List UInt8} :
    writeBytes (writeBytes memory addr x) (addr + x.length) y = writeBytes memory addr (x ++ y) := by
  funext a
  unfold writeBytes
  rw [List.length_append]
  by_cases hx : a < addr + x.length
  · rw [if_neg (by omega)]
    by_cases ha : addr ≤ a
    · rw [if_pos ⟨ha, hx⟩, if_pos (by omega), List.getD_append _ _ _ _ (by omega)]
    · rw [if_neg (by omega), if_neg (by omega)]
  · by_cases hy : a < addr + x.length + y.length
    · rw [if_pos (by omega), if_pos (by omega), List.getD_append_right _ _ _ _ (by omega)]
      congr 1
      omega
    · rw [if_neg (by omega), if_neg (by omega), if_neg (by omega)]

/-- Two reads in a row are one. -/
theorem readBytes_add (memory : Memory) (addr m n : Nat) :
    readBytes memory addr (m + n) = readBytes memory addr m ++ readBytes memory (addr + m) n := by
  unfold readBytes
  rw [List.range_add, List.map_append, List.map_map]
  congr 1
  refine List.map_congr_left fun k _ => ?_
  rw [Function.comp_apply, Nat.add_assoc]

/-- The first of the bytes that are read. -/
theorem readBytes_take (memory : Memory) (addr : Nat) {m n : Nat} (h : m ≤ n) :
    (readBytes memory addr n).take m = readBytes memory addr m := by
  unfold readBytes
  rw [← List.map_take, List.take_range, Nat.min_eq_left h]

theorem wordOf_wordBytes {v : Nat} (h : v < 2 ^ 32) : wordOf (wordBytes v) = v := by
  have hbytes : wordBytes v = [UInt8.ofNat (v / 256 ^ 0), UInt8.ofNat (v / 256 ^ 1),
      UInt8.ofNat (v / 256 ^ 2), UInt8.ofNat (v / 256 ^ 3)] := rfl
  rw [hbytes]
  simp only [wordOf, UInt8.toNat_ofNat']
  omega

end OpenCpi.Infra
