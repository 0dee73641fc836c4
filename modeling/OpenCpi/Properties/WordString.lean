import OpenCpi.Hdl.Types

/-!
# A string in words

`from_string` packs four characters into a word, and `to_string` takes them out. The test for the fourth
character asks for one more character than there has to be.
-/

namespace OpenCpi.Hdl.Types

variable {w : Word} {c : Char8} {s : StringT} {off k m n : Nat}

/-! ## The characters of a word -/

theorem getLsbD_setChar (hk : k < 32) :
    (setChar w n c).getLsbD k = if 8 * n ≤ k ∧ k < 8 * n + 8 then c.getLsbD (k - 8 * n) else w.getLsbD k := by
  simp only [setChar, BitVec.getLsbD_or, BitVec.getLsbD_and, BitVec.getLsbD_not, BitVec.getLsbD_shiftLeft,
    BitVec.getLsbD_setWidth, BitVec.getLsbD_allOnes, hk, show k - 8 * n < 32 by omega, decide_true, Bool.true_and]
  split
  next h =>
    have hlow : ¬k < 8 * n := Nat.not_lt.mpr h.1
    have hhigh : k - 8 * n < 8 := by omega
    simp [hlow, hhigh]
  next h =>
    by_cases hlow : k < 8 * n
    · simp [hlow]
    · have hhigh : 8 ≤ k - 8 * n := by omega
      rw [BitVec.getLsbD_of_ge c _ hhigh]
      simp [hlow, Nat.not_lt.mpr hhigh]

theorem charOf_setChar_self (hn : n < 4) : charOf (setChar w n c) n = c := by
  ext i hi
  rw [charOf, BitVec.getElem_extractLsb', getLsbD_setChar (by omega), if_pos (by omega), Nat.add_sub_cancel_left,
    BitVec.getLsbD_eq_getElem hi]

theorem charOf_setChar_of_ne (hm : m < 4) (h : m ≠ n) : charOf (setChar w n c) m = charOf w m := by
  ext i hi
  rw [charOf, charOf, BitVec.getElem_extractLsb', BitVec.getElem_extractLsb', getLsbD_setChar (by omega),
    if_neg (by omega)]

theorem charOf_zero (n : Nat) : charOf 0#32 n = 0#8 := by
  ext i hi
  simp [charOf]

/-! ## The word of a string -/

/-- The character at a position, or 0 behind the end. -/
def charAt (s : StringT) (i : Nat) : Char8 := s.getD i 0

theorem getElem_eq_charAt {i : Nat} (h : i < s.length) : s[i] = charAt s i := by
  rw [charAt, List.getD_eq_getElem?_getD, List.getElem?_eq_getElem h, Option.getD_some]

theorem charAt_of_ge {i : Nat} (h : s.length ≤ i) : charAt s i = 0 := by
  rw [charAt, List.getD_eq_getElem?_getD, List.getElem?_eq_none h, Option.getD_none]

theorem succ_le_right {i : Nat} : (off : Int) + i ≤ right s ↔ off + i < s.length := by
  unfold right
  omega

/-- The four characters of the word: the fourth one is only taken when there is a fifth. -/
def packed (s : StringT) (off : Nat) : StringT :=
  [charAt s off, charAt s (off + 1), charAt s (off + 2), if off + 4 < s.length then charAt s (off + 3) else 0]

/-- **What `from_string` gives.** -/
theorem toString_fromString (h : off < s.length) : (fromString s off).map toString = some (packed s off) := by
  have h1 : (off : Int) + 1 ≤ right s ↔ off + 1 < s.length := succ_le_right (i := 1)
  have h2 : (off : Int) + 2 ≤ right s ↔ off + 2 < s.length := succ_le_right (i := 2)
  have h3 : (off : Int) + 3 < right s ↔ off + 4 < s.length := by
    unfold right
    omega
  unfold fromString packed
  simp only [List.getElem?_eq_getElem h, getElem_eq_charAt, h1, h2, h3]
  by_cases hlt1 : off + 1 < s.length
  · by_cases hlt2 : off + 2 < s.length
    · by_cases hlt3 : off + 4 < s.length
      · have hlt : off + 3 < s.length := by omega
        simp [hlt, hlt1, hlt2, hlt3, getElem_eq_charAt, toString, charOf_setChar_self, charOf_setChar_of_ne]
      · simp [hlt1, hlt2, hlt3, getElem_eq_charAt, toString, charOf_setChar_self, charOf_setChar_of_ne, charOf_zero]
    · have hlt3 : ¬off + 4 < s.length := by omega
      simp [hlt1, hlt2, hlt3, getElem_eq_charAt, charAt_of_ge (Nat.not_lt.mp hlt2), toString, charOf_setChar_self,
        charOf_setChar_of_ne, charOf_zero]
  · have hlt2 : s.length ≤ off + 2 := by omega
    have hlt3 : ¬off + 4 < s.length := by omega
    simp [hlt1, hlt3, charAt_of_ge (Nat.not_lt.mp hlt1), charAt_of_ge hlt2, toString, charOf_setChar_self,
      charOf_setChar_of_ne, charOf_zero]

/-- The word at an offset gives the next four characters of the string back, and 0 behind its end. -/
def WordKept (s : StringT) (off : Nat) : Prop :=
  (fromString s off).map toString = some [charAt s off, charAt s (off + 1), charAt s (off + 2), charAt s (off + 3)]

instance (s : StringT) (off : Nat) : Decidable (WordKept s off) := inferInstanceAs (Decidable (_ = _))

/-- **The characters of a word are kept** unless the fourth one is the last of the string, and not 0. -/
theorem wordKept_iff (h : off < s.length) : WordKept s off ↔ (off + 4 = s.length → charAt s (off + 3) = 0) := by
  unfold WordKept
  rw [toString_fromString h, packed, Option.some_inj]
  by_cases hlt : off + 4 < s.length
  · rw [if_pos hlt]
    exact iff_of_true rfl fun heq => absurd heq (Nat.ne_of_lt hlt)
  · rw [if_neg hlt]
    by_cases heq : off + 4 = s.length
    · simp [heq, eq_comm]
    · rw [charAt_of_ge (show s.length ≤ off + 3 by omega)]
      exact iff_of_true rfl fun h => absurd h heq

/-- The second word of five characters, and the magic word `CPI` with a 0 behind it. -/
theorem wordKept_last : WordKept [109, 108, 54, 48, 53] 4 ∧ WordKept [67, 80, 73, 0] 0 :=
  ⟨(wordKept_iff (by decide)).mpr (by decide), (wordKept_iff (by decide)).mpr (by decide)⟩

/-- The magic word `Open` becomes `Ope`. -/
theorem open_not_kept : ¬ ∀ (s : StringT) (off : Nat), off % 4 = 0 → off < s.length → WordKept s off := by
  intro h
  exact absurd (h [79, 112, 101, 110] 0 (by decide) (by decide)) (by decide)

end OpenCpi.Hdl.Types
