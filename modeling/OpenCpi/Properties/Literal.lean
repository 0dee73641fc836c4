import OpenCpi.Value.Literal

/-!
# Exact literals

The parsers of the integer types read the number at the start of a text and do not look at the rest. What
they compute is that number in 64 bits.
-/

namespace OpenCpi.Value

variable {text after s : Text} {t : Scalar} {signed : Bool}

/-! ## What follows an element -/

/-- A character that may follow an element. -/
def Delimiter (c : UInt8) : Prop := isspace c = true ∨ c = 44 ∨ c = 125

theorem Delimited.head {c : UInt8} (h : Delimited (c :: s)) : Delimiter c := by
  by_cases hc : isspace c = true
  · exact Or.inl hc
  · exact Or.inr (h c s (List.dropWhile_cons_of_neg hc))

theorem Delimiter.toNat {c : UInt8} (h : Delimiter c) :
    c.toNat ≤ 32 ∨ c.toNat = 44 ∨ c.toNat = 125 := by
  rcases h with h | rfl | rfl
  · unfold isspace at h
    simp only [Bool.or_eq_true, beq_iff_eq, Bool.and_eq_true, decide_eq_true_eq,
      UInt8.le_iff_toNat_le] at h
    rcases h with rfl | ⟨-, h⟩
    · exact Or.inl (Nat.le_refl _)
    · exact Or.inl (Nat.le_trans h (by decide))
  · exact Or.inr (Or.inl rfl)
  · exact Or.inr (Or.inr rfl)

theorem Delimiter.ne {c d : UInt8} (h : Delimiter c) (hd : 32 < d.toNat) (hne : d.toNat ≠ 44)
    (hne' : d.toNat ≠ 125) : c ≠ d := by
  rintro rfl
  have := h.toNat
  omega

theorem Delimiter.digit {c : UInt8} (h : Delimiter c) (base : Nat) : digit base c = none := by
  have hc := h.toNat
  unfold Value.digit
  simp only [Bool.and_eq_true, decide_eq_true_eq, UInt8.le_iff_toNat_le]
  have h48 : (48 : UInt8).toNat = 48 := rfl
  have h57 : (57 : UInt8).toNat = 57 := rfl
  have h97 : (97 : UInt8).toNat = 97 := rfl
  have h122 : (122 : UInt8).toNat = 122 := rfl
  have h65 : (65 : UInt8).toNat = 65 := rfl
  have h90 : (90 : UInt8).toNat = 90 := rfl
  rw [h48, h57, h97, h122, h65, h90]
  have hdigit : ¬ (48 ≤ c.toNat ∧ c.toNat ≤ 57) := by omega
  have hlower : ¬ (97 ≤ c.toNat ∧ c.toNat ≤ 122) := by omega
  have hupper : ¬ (65 ≤ c.toNat ∧ c.toNat ≤ 90) := by omega
  rw [if_neg hdigit, if_neg hlower, if_neg hupper, if_neg (Nat.lt_irrefl _)]

/-! ## Reading on -/

theorem skipSpaces_append (s after : Text) : skipSpaces (s ++ after) =
    if skipSpaces s = [] then skipSpaces after else skipSpaces s ++ after := by
  unfold skipSpaces
  rw [List.dropWhile_append]
  simp only [List.isEmpty_iff]

theorem digits_append (base : Nat) (h : Delimited after) : ∀ (s : Text) (n : Nat),
    digits base n (s ++ after) = ((digits base n s).1, (digits base n s).2 ++ after)
  | [], n => by
    cases after with
    | nil => rfl
    | cons c s =>
      have hc := h.head.digit base
      rw [List.nil_append]
      unfold digits
      rw [hc]
      rfl
  | c :: s, n => by
    rw [List.cons_append, digits, digits]
    cases digit base c with
    | none => rfl
    | some k => exact digits_append base h s _

/-- A numeral with more text behind it. -/
def Numeral.before (after : Text) (n : Numeral) : Numeral := { n with rest := n.rest ++ after }

theorem unsignedNumeral_other {c : UInt8} (negative : Bool) (h : Delimiter c) (s : Text) :
    unsignedNumeral negative (c :: s) = none := by
  have hc : c ≠ 48 := h.ne (by decide) (by decide) (by decide)
  rw [unsignedNumeral, if_neg hc, h.digit]
  rfl

theorem unsignedNumeral_delimited (negative : Bool) (h : Delimited after) :
    unsignedNumeral negative after = none := by
  cases after with
  | nil => rfl
  | cons c s =>
    exact unsignedNumeral_other negative h.head s

theorem hexPrefix_append (h : Delimited after) : ∀ s : Text,
    hexPrefix (s ++ after) = hexPrefix s
  | [] => by
    cases after with
    | nil => rfl
    | cons x s =>
      cases s with
      | nil => rfl
      | cons y s =>
        have hx : x ≠ 120 := h.head.ne (by decide) (by decide) (by decide)
        have hx' : x ≠ 88 := h.head.ne (by decide) (by decide) (by decide)
        simp [hexPrefix, hx, hx']
  | [x] => by
    cases after with
    | nil => rfl
    | cons y s => simp [hexPrefix, h.head.digit]
  | x :: y :: s => rfl

theorem unsignedNumeral_append (negative : Bool) (h : Delimited after) : ∀ s : Text,
    unsignedNumeral negative (s ++ after) = (unsignedNumeral negative s).map (·.before after)
  | [] => unsignedNumeral_delimited negative h
  | c :: s => by
    have hdecimal := digits_append 10 h (c :: s) 0
    rw [List.cons_append] at hdecimal ⊢
    rw [unsignedNumeral, unsignedNumeral, hexPrefix_append h, digits_append 8 h, hdecimal]
    by_cases hc : c = 48
    · rw [if_pos hc, if_pos hc]
      by_cases hx : hexPrefix s = true
      · obtain ⟨x, r, rfl⟩ : ∃ x r, s = x :: r := by
          cases s with
          | nil => cases hx
          | cons x r => exact ⟨x, r, rfl⟩
        rw [if_pos hx, if_pos hx, List.cons_append, List.tail_cons, List.tail_cons, digits_append 16 h]
        rfl
      · rw [if_neg hx, if_neg hx]
        rfl
    · rw [if_neg hc, if_neg hc]
      by_cases hd : (digit 10 c).isSome = true
      · rw [if_pos hd, if_pos hd]
        rfl
      · rw [if_neg hd, if_neg hd]
        rfl

/-- **What may follow an element does not change its number.** -/
theorem numeral_append (h : Delimited after) (text : Text) :
    numeral (text ++ after) = (numeral text).map (·.before after) := by
  unfold numeral
  rw [skipSpaces_append]
  cases htext : skipSpaces text with
  | nil =>
    rw [if_pos rfl]
    cases hafter : skipSpaces after with
    | nil => rfl
    | cons c s =>
      have hc := h c s hafter
      have hminus : c ≠ 45 := by rcases hc with rfl | rfl <;> decide
      have hplus : c ≠ 43 := by rcases hc with rfl | rfl <;> decide
      have hnone : signedNumeral (c :: s) = none := by
        rw [signedNumeral, if_neg hminus, if_neg hplus]
        exact unsignedNumeral_other false (Or.inr hc) s
      exact hnone
  | cons c s =>
    rw [if_neg (List.cons_ne_nil _ _), List.cons_append, signedNumeral, signedNumeral]
    by_cases hminus : c = 45
    · rw [if_pos hminus, if_pos hminus, unsignedNumeral_append true h]
    · rw [if_neg hminus, if_neg hminus]
      by_cases hplus : c = 43
      · rw [if_pos hplus, if_pos hplus, unsignedNumeral_append false h]
      · rw [if_neg hplus, if_neg hplus, ← List.cons_append, unsignedNumeral_append false h]

theorem multiplier_append (h : Delimited after) : ∀ s : Text,
    multiplier (s ++ after) = ((multiplier s).1, (multiplier s).2 ++ after)
  | [] => by
    cases after with
    | nil => rfl
    | cons c s =>
      have hne (d : UInt8) (hd : 32 < d.toNat ∧ d.toNat ≠ 44 ∧ d.toNat ≠ 125) : c ≠ d :=
        h.head.ne hd.1 hd.2.1 hd.2.2
      have hone : multiplier (c :: s) = (1, c :: s) := by
        rw [multiplier, if_neg (not_or.mpr ⟨hne 75 (by decide), hne 107 (by decide)⟩),
          if_neg (not_or.mpr ⟨hne 77 (by decide), hne 109 (by decide)⟩),
          if_neg (not_or.mpr ⟨hne 71 (by decide), hne 103 (by decide)⟩)]
      exact hone
  | c :: s => by
    rw [List.cons_append, multiplier, multiplier]
    split_ifs <;> rfl

/-- The suffix `-1` counts only where the string ends. -/
theorem minusOne_append (h : Delimited after) (s : Text) :
    minusOne (s ++ after) = (minusOne s && (skipSpaces after).isEmpty) := by
  unfold minusOne
  rw [skipSpaces_append]
  cases hs : skipSpaces s with
  | nil =>
    rw [if_pos rfl]
    cases hafter : skipSpaces after with
    | nil => rfl
    | cons c r => rcases h c r hafter with rfl | rfl <;> rfl
  | cons c r =>
    rw [if_neg (List.cons_ne_nil _ _), List.cons_append]
    dsimp only
    rw [skipSpaces_append]
    cases hr : skipSpaces r with
    | nil =>
      rw [if_pos rfl]
      cases hafter : skipSpaces after with
      | nil => simp
      | cons c' r' => rcases h c' r' hafter with rfl | rfl <;> simp
    | cons c' r' =>
      rw [if_neg (List.cons_ne_nil _ _), List.cons_append]
      dsimp only
      rw [skipSpaces_append]
      cases hr' : skipSpaces r' with
      | nil => simp [Bool.and_assoc]
      | cons c'' r'' => simp

theorem leadingNumber_append (h : Delimited after) (text : Text) :
    leadingNumber (text ++ after) = ((leadingNumber text).1, (leadingNumber text).2 ++ after) := by
  unfold leadingNumber
  rw [numeral_append h]
  cases numeral text with
  | none =>
    rw [Option.map_none, multiplier_append h]
  | some n =>
    rw [Option.map_some]
    dsimp only [Numeral.before]
    rw [multiplier_append h]
    rfl

/-- **The number at the start of a text** is the same whatever follows, but for `-1`. -/
theorem leading_append (h : Delimited after) (text : Text) (signed : Bool) :
    leading signed (text ++ after) [] = leading signed text after := by
  unfold leading suffixed
  rw [leadingNumber_append h, minusOne_append h, ← Bool.and_assoc]
  have hend : (skipSpaces []).isEmpty = true := rfl
  rw [hend, Bool.and_true]

theorem fits_append (h : Delimited after) (text : Text) (signed : Bool) :
    fits signed (text ++ after) ↔ fits signed text := by
  unfold fits
  rw [numeral_append h]
  cases numeral text with
  | none => simp
  | some n =>
    simp only [Option.map_some, Option.some.injEq, forall_eq']
    exact Iff.rfl

/-! ## In 64 bits -/

theorem wrapped_product {val : Nat} {value : Int} (factor : Nat)
    (h : (val : Int) % 2 ^ 64 = value % 2 ^ 64) :
    ((val * factor % 2 ^ 64 : Nat) : Int) = value * factor % 2 ^ 64 := by
  have hcast (p : Nat) : ((p % 2 ^ 64 : Nat) : Int) = (p : Int) % 2 ^ 64 := by omega
  rw [hcast, Int.natCast_mul, Int.mul_emod, h, ← Int.mul_emod]

theorem wrapped_minusOne {x : Nat} {v : Int} (h : (x : Int) = v % 2 ^ 64) :
    (((x + (2 ^ 64 - 1)) % 2 ^ 64 : Nat) : Int) = (v - 1) % 2 ^ 64 := by
  omega

/-- What `getUNum64` makes of a number and what is behind it. -/
theorem scaled {val : Nat} {value : Int} (endptr : Text) (h : (val : Int) % 2 ^ 64 = value % 2 ^ 64) :
    ((if minusOne (multiplier endptr).2 then
        (val * (multiplier endptr).1 % 2 ^ 64 + (2 ^ 64 - 1)) % 2 ^ 64
      else val * (multiplier endptr).1 % 2 ^ 64 : Nat) : Int) =
      (value * (multiplier endptr).1 - if minusOne (multiplier endptr).2 then 1 else 0) % 2 ^ 64 := by
  have hproduct := wrapped_product (multiplier endptr).1 h
  split
  · exact wrapped_minusOne hproduct
  · rw [Int.sub_zero]
    exact hproduct

theorem strtoull_val {n : Numeral} (h : n.magnitude < 2 ^ 64) :
    (((if n.negative then (2 ^ 64 - n.magnitude) % 2 ^ 64 else n.magnitude : Nat) : Nat) : Int) % 2 ^ 64 =
      n.value % 2 ^ 64 := by
  unfold Numeral.value
  split <;> omega

theorem leading_unsigned (s : Text) : leading false s [] =
    (leadingNumber s).1 - if minusOne (leadingNumber s).2 then 1 else 0 := by
  unfold leading suffixed
  simp only [Bool.not_false, Bool.true_and, skipSpaces, List.dropWhile_nil, List.isEmpty_nil,
    Bool.and_true]

theorem getUNum64_some {val : Nat} {endptr : Text} (h : strtoull s = some (val, endptr)) :
    getUNum64 s = some (if minusOne (multiplier endptr).2 then
        (val * (multiplier endptr).1 % 2 ^ 64 + (2 ^ 64 - 1)) % 2 ^ 64
      else val * (multiplier endptr).1 % 2 ^ 64) := by
  unfold getUNum64
  rw [h]
  rfl

theorem getUNum64_none (h : strtoull s = none) : getUNum64 s = none := by
  unfold getUNum64
  rw [h]
  rfl

theorem leadingNumber_none (h : numeral s = none) : leadingNumber s = (0, (multiplier s).2) := by
  unfold leadingNumber
  rw [h]

theorem leadingNumber_some {n : Numeral} (h : numeral s = some n) :
    leadingNumber s = (n.value * (multiplier n.rest).1, (multiplier n.rest).2) := by
  unfold leadingNumber
  rw [h]

theorem fits_none (h : numeral s = none) : fits signed s := by
  intro n hn
  rw [h] at hn
  cases hn

/-- **`getUNum64`** computes the number at the start of the text modulo 2^64. -/
theorem getUNum64_iff (s : Text) (v : Nat) : getUNum64 s = some v ↔
    fits false s ∧ (v : Int) = wrapped false (leading false s []) := by
  have hwrapped : wrapped false (leading false s []) =
      ((leadingNumber s).1 - if minusOne (leadingNumber s).2 then 1 else 0) % 2 ^ 64 := by
    rw [leading_unsigned]
    rfl
  rw [hwrapped]
  cases hn : numeral s with
  | none =>
    have hzero : ((0 : Nat) : Int) % 2 ^ 64 = 0 % 2 ^ 64 := rfl
    have hscaled := scaled s hzero
    rw [Int.zero_mul] at hscaled
    have hrun : strtoull s = some (0, s) := by
      unfold strtoull
      rw [hn]
    rw [getUNum64_some hrun, leadingNumber_none hn, Option.some_inj]
    constructor
    · rintro rfl
      exact ⟨fits_none hn, hscaled⟩
    · rintro ⟨-, hv⟩
      exact Int.ofNat_inj.mp (hscaled.trans hv.symm)
  | some n =>
    have hfits : fits false s ↔ n.magnitude < 2 ^ 64 := by
      unfold fits
      rw [hn]
      exact ⟨fun h => h n rfl, fun h m hm => by cases hm; exact h⟩
    rw [hfits]
    by_cases hbig : 2 ^ 64 ≤ n.magnitude
    · have hrun : strtoull s = none := by
        unfold strtoull
        rw [hn]
        exact if_pos hbig
      rw [getUNum64_none hrun]
      constructor
      · intro h
        cases h
      · rintro ⟨hlt, -⟩
        exact absurd hlt (Nat.not_lt_of_le hbig)
    · have hlt : n.magnitude < 2 ^ 64 := Nat.lt_of_not_le hbig
      have hrun : strtoull s =
          some (if n.negative then (2 ^ 64 - n.magnitude) % 2 ^ 64 else n.magnitude, n.rest) := by
        unfold strtoull
        rw [hn]
        exact if_neg hbig
      have hscaled := scaled n.rest (strtoull_val hlt)
      rw [getUNum64_some hrun, leadingNumber_some hn, Option.some_inj]
      constructor
      · rintro rfl
        exact ⟨hlt, hscaled⟩
      · rintro ⟨-, hv⟩
        exact Int.ofNat_inj.mp (hscaled.trans hv.symm)

theorem leading_signed (s : Text) : leading true s [] = (leadingNumber s).1 := by
  unfold leading suffixed
  exact Int.sub_zero _

theorem getNum64_some {val : Int} {endptr : Text} (h : strtoll s = some (val, endptr)) :
    getNum64 s = some (wrapped true (val * (multiplier endptr).1)) := by
  unfold getNum64
  rw [h]
  rfl

theorem getNum64_none (h : strtoll s = none) : getNum64 s = none := by
  unfold getNum64
  rw [h]
  rfl

/-- **`getNum64`** computes it as a signed number of 64 bits. -/
theorem getNum64_iff (s : Text) (v : Int) : getNum64 s = some v ↔
    fits true s ∧ v = wrapped true (leading true s []) := by
  rw [leading_signed]
  cases hn : numeral s with
  | none =>
    have hrun : strtoll s = some (0, s) := by
      unfold strtoll
      rw [hn]
    rw [getNum64_some hrun, leadingNumber_none hn, Option.some_inj, Int.zero_mul]
    exact ⟨fun h => ⟨fits_none hn, h.symm⟩, fun h => h.2.symm⟩
  | some n =>
    have hfits : fits true s ↔ -2 ^ 63 ≤ n.value ∧ n.value < 2 ^ 63 := by
      unfold fits
      rw [hn]
      exact ⟨fun h => h n rfl, fun h m hm => by cases hm; exact h⟩
    rw [hfits]
    by_cases hbig : n.value < -2 ^ 63 ∨ 2 ^ 63 ≤ n.value
    · have hrun : strtoll s = none := by
        unfold strtoll
        rw [hn]
        exact if_pos hbig
      rw [getNum64_none hrun]
      constructor
      · intro h
        cases h
      · rintro ⟨hlt, -⟩
        omega
    · have hrun : strtoll s = some (n.value, n.rest) := by
        unfold strtoll
        rw [hn]
        exact if_neg hbig
      rw [getNum64_some hrun, leadingNumber_some hn, Option.some_inj]
      exact ⟨fun h => ⟨by omega, h.symm⟩, fun h => h.2.symm⟩

/-! ## The integer types -/

theorem parseNum_iff {min max : Int} {error : String} {v : Int} :
    parseNum min max error text after = .ok v ↔ fits true (text ++ after) ∧
      v = wrapped true (leading true (text ++ after) []) ∧ min ≤ v ∧ v ≤ max := by
  rw [← and_assoc, ← getNum64_iff]
  unfold parseNum
  cases getNum64 (text ++ after) with
  | none => simp
  | some n =>
    by_cases hrange : max < n ∨ n < min
    · simp only [hrange, if_true, Option.some.injEq, reduceCtorEq, false_iff, not_and]
      rintro rfl
      omega
    · simp only [hrange, if_false, Option.some.injEq, Except.ok.injEq]
      constructor
      · rintro rfl
        exact ⟨rfl, by omega, by omega⟩
      · exact fun h => h.1

theorem getUNum64_nonneg (s : Text) (v : Int) : (∃ n : Nat, getUNum64 s = some n ∧ (n : Int) = v) ↔
    fits false s ∧ v = wrapped false (leading false s []) := by
  constructor
  · rintro ⟨n, hn, rfl⟩
    exact (getUNum64_iff s n).mp hn
  · rintro ⟨hfits, rfl⟩
    have hnonneg : 0 ≤ wrapped false (leading false s []) := Int.emod_nonneg _ (by decide)
    obtain ⟨n, hn⟩ := Int.eq_ofNat_of_zero_le hnonneg
    exact ⟨n, (getUNum64_iff s n).mpr ⟨hfits, hn.symm⟩, hn.symm⟩

theorem parseUNum_iff {max : Nat} {error : String} {v : Int} :
    parseUNum max error text after = .ok v ↔ fits false (text ++ after) ∧
      v = wrapped false (leading false (text ++ after) []) ∧ 0 ≤ v ∧ v ≤ max := by
  rw [← and_assoc, ← getUNum64_nonneg]
  unfold parseUNum
  cases getUNum64 (text ++ after) with
  | none => simp
  | some n =>
    by_cases hrange : max < n
    · simp only [hrange, if_true, Option.some.injEq, reduceCtorEq, false_iff, not_and]
      rintro ⟨m, rfl, rfl⟩
      omega
    · simp only [hrange, if_false, Option.some.injEq, Except.ok.injEq]
      constructor
      · rintro rfl
        exact ⟨⟨n, rfl, rfl⟩, by omega, by omega⟩
      · rintro ⟨⟨m, rfl, rfl⟩, -⟩
        rfl

/-- The missing check of the range is not needed. -/
theorem parseULongLong_eq (text after : Text) :
    parseULongLong text after = parseUNum (2 ^ 64 - 1) "bad ULongLong value" text after := by
  unfold parseULongLong parseUNum
  cases hn : getUNum64 (text ++ after) with
  | none => rfl
  | some n =>
    have hlt := ((getUNum64_iff _ n).mp hn).2
    have hmod : wrapped false (leading false (text ++ after) []) < 2 ^ 64 :=
      Int.emod_lt_of_pos _ (by decide)
    exact (if_neg (by omega)).symm

/-- **What the parsers compute**: the number at the start of the text in 64 bits, if the type has it. -/
theorem parseInteger_iff (ht : t.isInteger = true) (h : Delimited after) (v : Int) :
    t.parseInteger text after = .ok v ↔ fits t.signed text ∧
      v = wrapped t.signed (leading t.signed text after) ∧ t.holds v := by
  rw [← fits_append h, ← leading_append h]
  unfold Scalar.holds
  cases t with
  | short | long | longlong =>
    refine parseNum_iff.trans ?_
    simp only [Scalar.signed, if_true, Scalar.bits]
    exact and_congr_right fun _ => and_congr_right fun _ => and_congr_right fun _ => by omega
  | ushort | ulong =>
    refine parseUNum_iff.trans ?_
    simp only [Scalar.signed, Bool.false_eq_true, if_false, Scalar.bits]
    exact and_congr_right fun _ => and_congr_right fun _ => and_congr_right fun _ => by omega
  | ulonglong =>
    have hrun : Scalar.parseInteger .ulonglong text after =
        parseUNum (2 ^ 64 - 1) "bad ULongLong value" text after := parseULongLong_eq text after
    rw [hrun]
    refine parseUNum_iff.trans ?_
    simp only [Scalar.signed, Bool.false_eq_true, if_false, Scalar.bits]
    exact and_congr_right fun _ => and_congr_right fun _ => and_congr_right fun _ => by omega
  | bool | char | double | float | uchar => cases ht

/-! ## Exact parsers -/

/-- The values of an integer type are numbers of 64 bits. -/
theorem wrapped_of_holds {v : Int} (h : t.holds v) : wrapped t.signed v = v := by
  unfold Scalar.holds at h
  unfold wrapped
  cases t <;> simp only [Scalar.signed, Scalar.bits, if_true, Bool.false_eq_true, if_false] at h ⊢
  case short | long | longlong =>
    rw [Int.bmod_eq_of_le] <;> omega
  all_goals omega

/-- What is read of a literal. -/
theorem leading_literal {v : Int} (h : literal signed text = some v) : leading signed text after =
    if suffixed signed text = true ∧ skipSpaces after ≠ [] then v + 1 else v := by
  unfold literal at h
  unfold leading
  split at h
  · cases h
  · by_cases hblank : skipSpaces (leadingNumber text).2 = []
    · have hsuffix : suffixed signed text = false := by
        unfold suffixed minusOne
        rw [hblank, Bool.and_false]
      rw [if_pos hblank] at h
      cases h
      rw [hsuffix, if_neg (by simp), if_neg (by simp), Int.sub_zero]
    · rw [if_neg hblank] at h
      by_cases hsuffix : suffixed signed text = true
      · rw [if_pos hsuffix] at h
        cases h
        rw [hsuffix, Bool.true_and]
        by_cases hafter : skipSpaces after = []
        · rw [hafter, List.isEmpty_nil, if_pos rfl, if_neg (by simp)]
        · rw [if_neg (by simpa using hafter), if_pos ⟨rfl, hafter⟩]
          omega
      · rw [if_neg hsuffix] at h
        cases h

theorem wrapped_succ_ne {v : Int} (hs : t.signed = false) (h : t.holds v) :
    wrapped t.signed (v + 1) ≠ v := by
  unfold Scalar.holds at h
  unfold wrapped
  rw [hs] at h ⊢
  simp only [Bool.false_eq_true, if_false] at h ⊢
  cases t <;> simp only [Scalar.bits] at h <;> omega

theorem signed_of_suffixed (h : suffixed signed text = true) : signed = false := by
  unfold suffixed at h
  cases signed with
  | false => rfl
  | true => simp at h

/-- **Numeric literals are parsed exactly** on a text under exactly the condition. -/
theorem exact_iff_settled (t : Scalar) (text after : Text) (ht : t.isInteger = true)
    (h : Delimited after) : t.Exact text after ↔ t.Settled text after := by
  have hparse (v : Int) : t.parseInteger text after = .ok v ↔ fits t.signed text ∧
      v = wrapped t.signed (leading t.signed text after) ∧ t.holds v := parseInteger_iff ht h v
  constructor
  · intro hexact
    refine ⟨?_, ?_⟩
    · rintro ⟨v, hliteral, hv⟩
      obtain ⟨hfits, hread, -⟩ := (hparse v).mp ((hexact v).mpr ⟨hliteral, hv⟩)
      refine ⟨hfits, fun hsuffix => ?_⟩
      by_contra hafter
      rw [leading_literal hliteral, if_pos ⟨hsuffix, hafter⟩] at hread
      exact wrapped_succ_ne (signed_of_suffixed hsuffix) hv hread.symm
    · rintro hnot ⟨hfits, hholds⟩
      exact hnot ⟨_, (hexact _).mp ((hparse _).mpr ⟨hfits, rfl, hholds⟩)⟩
  · intro hsettled v
    rw [hparse v]
    constructor
    · rintro ⟨hfits, rfl, hholds⟩
      by_cases hdenotes : t.Denotes text
      · obtain ⟨w, hliteral, hw⟩ := hdenotes
        obtain ⟨-, hend⟩ := hsettled.literal ⟨w, hliteral, hw⟩
        rw [leading_literal hliteral, if_neg (fun hc => hc.2 (hend hc.1)), wrapped_of_holds hw]
        exact ⟨hliteral, hw⟩
      · exact absurd ⟨hfits, hholds⟩ (hsettled.other hdenotes)
    · rintro ⟨hliteral, hv⟩
      obtain ⟨hfits, hend⟩ := hsettled.literal ⟨v, hliteral, hv⟩
      rw [leading_literal hliteral, if_neg (fun hc => hc.2 (hend hc.1)), wrapped_of_holds hv]
      exact ⟨hfits, rfl, hv⟩

/-- `12K` before a comma. -/
theorem exact_twelveK : Scalar.Exact .ushort [49, 50, 75] [44, 55] := by
  have hafter : Delimited [44, 55] := by
    intro c s h
    cases h
    exact Or.inl rfl
  have hliteral : literal false [49, 50, 75] = some 12288 := rfl
  have hnumeral : numeral [49, 50, 75] = some ⟨false, 12, [75]⟩ := rfl
  refine (exact_iff_settled .ushort _ _ rfl hafter).mpr ⟨fun _ => ⟨?_, ?_⟩, ?_⟩
  · intro n hn
    rw [hnumeral] at hn
    cases hn
    decide
  · intro hsuffix
    cases hsuffix
  · intro hnot
    exact absurd ⟨12288, hliteral, by decide⟩ hnot

/-- `12abc` is 12. -/
theorem garbage_accepted : ¬ ∀ (t : Scalar) (text after : Text), t.isInteger = true →
    Delimited after → t.Exact text after := by
  intro h
  have hafter : Delimited [] := by
    intro c s hc
    cases hc
  have hread : Scalar.parseInteger .ushort [49, 50, 97, 98, 99] [] = .ok 12 := rfl
  have hliteral : literal false [49, 50, 97, 98, 99] = none := rfl
  have hexact := ((h .ushort [49, 50, 97, 98, 99] [] rfl hafter 12).mp hread).1
  exact absurd (hliteral.symm.trans hexact) (by decide)

end OpenCpi.Value
