import OpenCpi.Uri.Escape

/-!
# Escapes come back

A byte is written as itself or as an escape with its two digits, and `decodeURI` reads either one back when `%`
is always escaped.
-/

namespace OpenCpi.Util

variable {s uri allowedChars : Text} {c x1 x2 : UInt8}

/-! ## Reading -/

/-- A character that is no `%` is left alone. -/
theorem decodeURI_cons_of_ne (h : c ≠ percent) (uri : Text) : decodeURI (c :: uri) = c :: decodeURI uri := by
  match uri with
  | [] => rfl
  | [_] => rfl
  | _ :: _ :: _ => rw [decodeURI, if_neg fun hc => h hc.1]

theorem decodeURI_percent (h1 : ishex x1 = true) (h2 : ishex x2 = true) (uri : Text) :
    decodeURI (percent :: x1 :: x2 :: uri) = toChar (escapeInt x1 x2) :: decodeURI uri := by
  rw [decodeURI, if_pos ⟨rfl, h1, h2⟩]

/-! ## Writing -/

theorem ishex_hexChar {x : Nat} (h : x < 16) : ishex (hexChar x) = true := by
  have hall : ∀ x ∈ List.range 16, ishex (hexChar x) = true := by decide
  exact hall x (List.mem_range.mpr h)

theorem escapeInt_hexChar {x y : Nat} (hx : x < 16) (hy : y < 16) :
    escapeInt (hexChar x) (hexChar y) = x * 16 + y := by
  have hall : ∀ x ∈ List.range 16, ∀ y ∈ List.range 16, escapeInt (hexChar x) (hexChar y) = x * 16 + y := by decide
  exact hall x (List.mem_range.mpr hx) y (List.mem_range.mpr hy)

/-- The two digits of a byte. -/
theorem digits_of_byte (c : UInt8) : c.toNat >>> 4 < 16 ∧ c.toNat &&& 15 < 16 ∧
    (c.toNat >>> 4) * 16 + (c.toNat &&& 15) = c.toNat := by
  have hc := c.toNat_lt
  have hand : c.toNat &&& 15 = c.toNat % 16 := Nat.and_two_pow_sub_one_eq_mod c.toNat 4
  rw [Nat.shiftRight_eq_div_pow, hand]
  omega

/-- **An escape is read back** as the byte that it is written for. -/
theorem decodeURI_escape (c : UInt8) (uri : Text) :
    decodeURI (percent :: hexChar (c.toNat >>> 4) :: hexChar (c.toNat &&& 15) :: uri) = c :: decodeURI uri := by
  obtain ⟨h1, h2, hc⟩ := digits_of_byte c
  rw [decodeURI_percent (ishex_hexChar h1) (ishex_hexChar h2), escapeInt_hexChar h1 h2]
  have hint : ((c.toNat >>> 4 : Nat) : Int) * 16 + ((c.toNat &&& 15 : Nat) : Int) = c.toNat := by exact_mod_cast hc
  have hlt := c.toNat_lt
  rw [hint, toChar, show ((c.toNat : Int) % 256).toNat = c.toNat by omega, UInt8.ofNat_toNat]

theorem decodeURI_encodeChar (h : percent ∉ allowedChars) (c : UInt8) (uri : Text) :
    decodeURI (encodeChar allowedChars c ++ uri) = c :: decodeURI uri := by
  unfold encodeChar
  split
  · exact decodeURI_escape c uri
  next hkept =>
    refine decodeURI_cons_of_ne ?_ uri
    rintro rfl
    have hallowed : allowedChars.contains percent = false := by simpa using h
    exact hkept (by rw [hallowed]; rfl)

/-- Some characters, and escapes. -/
inductive Escaped (kept : UInt8 → Prop) : Text → Prop
  | nil : Escaped kept []
  | char {c : UInt8} {s : Text} (hc : kept c) (hs : Escaped kept s) : Escaped kept (c :: s)
  | escape {x1 x2 : UInt8} {s : Text} (h1 : ishex x1 = true) (h2 : ishex x2 = true) (hs : Escaped kept s) :
    Escaped kept (percent :: x1 :: x2 :: s)

/-- The characters that are not escaped. -/
def Kept (allowedChars : Text) (c : UInt8) : Prop := isunreserved c = true ∨ c ∈ allowedChars

theorem escaped_encodeChar (c : UInt8) (hs : Escaped (Kept allowedChars) s) :
    Escaped (Kept allowedChars) (encodeChar allowedChars c ++ s) := by
  unfold encodeChar
  split
  · obtain ⟨h1, h2, -⟩ := digits_of_byte c
    exact .escape (ishex_hexChar h1) (ishex_hexChar h2) hs
  next hkept =>
    refine .char ?_ hs
    simp only [Bool.and_eq_true, Bool.not_eq_true', not_and, Bool.not_eq_false] at hkept
    cases hc : isunreserved c with
    | true => exact .inl hc
    | false => exact .inr (List.contains_iff_mem.mp (hkept hc))

/-! ## Round trip -/

/-- **Escaping is undone by decoding**, and the text has nothing in it but unreserved and allowed characters and
escapes. -/
theorem decodeURI_encodeURI (h : percent ∉ allowedChars) :
    decodeURI (encodeURI s allowedChars) = s ∧ Escaped (Kept allowedChars) (encodeURI s allowedChars) := by
  induction s with
  | nil => exact ⟨rfl, .nil⟩
  | cons c s ih =>
    have hcons : encodeURI (c :: s) allowedChars = encodeChar allowedChars c ++ encodeURI s allowedChars :=
      List.flatMap_cons
    rw [hcons, decodeURI_encodeChar h, ih.1]
    exact ⟨rfl, escaped_encodeChar c ih.2⟩

/-- A slash that is allowed, one that is not, a `%` and a byte above 127. -/
theorem decodeURI_encodeURI_slash :
    decodeURI (encodeURI [97, 47, 37, 200] [47]) = [97, 47, 37, 200] ∧
      encodeURI [97, 47, 37, 200] [47] = [97, 47, 37, 50, 53, 37, 99, 56] :=
  ⟨(decodeURI_encodeURI (by decide)).1, by decide⟩

/-- A letter is never escaped, whether it is in the set or not. -/
theorem letter_not_escaped : ¬ ∀ s allowedChars : Text, percent ∉ allowedChars →
    decodeURI (encodeURI s allowedChars) = s ∧ Escaped (· ∈ allowedChars) (encodeURI s allowedChars) := by
  intro h
  have hletter : encodeURI [97] [] = [97] := by decide
  have hescaped := (h [97] [] (by decide)).2
  rw [hletter] at hescaped
  cases hescaped with
  | char hc => exact List.not_mem_nil hc

end OpenCpi.Util
