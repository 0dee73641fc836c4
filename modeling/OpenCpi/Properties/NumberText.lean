import OpenCpi.Misc.Numbers

/-!
# Numbers come back from their texts

The loop that counts the digits and the one that writes them agree with the digits of a number, and the library
reads those back. Only the least `int`, which has no negative, has no text.
-/

namespace OpenCpi.Misc

open Value (Text Numeral digit digits hexPrefix skipSpaces isspace)

variable {base : Base} {n : Nat} {c : UInt8} {s t : Text}

/-! ## Digits -/

/-- A digit as a byte. -/
def digitByte (k : Nat) : UInt8 := UInt8.ofNat k.digitChar.toNat

/-- The text of a number in a base. -/
def text (b n : Nat) : Text := (Nat.toDigits b n).map fun c => UInt8.ofNat c.toNat

theorem text_of_lt (h : n < base.val) : text base.val n = [digitByte n] := by
  rw [text, Nat.toDigits_of_lt_base h]
  rfl

theorem text_of_le (h : base.val ≤ n) : text base.val n = text base.val (n / base.val) ++ [digitByte (n % base.val)] := by
  rw [text, Nat.toDigits_of_base_le base.two_le h, List.map_append]
  rfl

theorem text_length (b n : Nat) : (text b n).length = (Nat.toDigits b n).length := List.length_map _

theorem text_ne_nil (b n : Nat) : text b n ≠ [] := by
  rw [text, ne_eq, List.map_eq_nil_iff]
  exact Nat.toDigits_ne_nil

theorem i2sDigit_eq {k : Nat} (h : k < 16) : i2sDigit k = .ok (digitByte k) := by
  have hall : ∀ k ∈ List.range 16, i2sDigit (Int.ofNat k) = .ok (digitByte k) := by decide
  exact hall k (List.mem_range.mpr h)

/-- The value of a digit does not depend on the base. -/
theorem digit_mono {b b' k : Nat} (h : digit b' c = some k) (hk : k < b) : digit b c = some k := by
  simp only [digit, Option.ite_none_right_eq_some, Option.some.injEq] at h ⊢
  obtain ⟨hlt, rfl⟩ := h
  split_ifs at hlt hk ⊢
  · exact ⟨hk, rfl⟩
  · exact ⟨hk, rfl⟩
  · exact ⟨hk, rfl⟩
  · exact absurd hlt (Nat.lt_irrefl _)

theorem digit_sixteen {k : Nat} (h : k < 16) : digit 16 (digitByte k) = some k := by
  have hall : ∀ k ∈ List.range 16, digit 16 (digitByte k) = some k := by decide
  exact hall k (List.mem_range.mpr h)

theorem digit_digitByte {k : Nat} (h : k < base.val) : digit base.val (digitByte k) = some k :=
  digit_mono (digit_sixteen (Nat.lt_of_lt_of_le h base.le_sixteen)) h

theorem mem_text (h : c ∈ text base.val n) : ∃ k < base.val, c = digitByte k := by
  induction n using Nat.strongRecOn with
  | ind n ih =>
    have hpos : 0 < base.val := Nat.lt_of_succ_lt base.two_le
    by_cases hle : base.val ≤ n
    · rw [text_of_le hle] at h
      rcases List.mem_append.mp h with h | h
      · exact ih _ (Nat.div_lt_self (Nat.lt_of_lt_of_le hpos hle) base.two_le) h
      · exact ⟨n % base.val, Nat.mod_lt _ hpos, List.mem_singleton.mp h⟩
    · have hlt := Nat.lt_of_not_le hle
      rw [text_of_lt hlt] at h
      exact ⟨n, hlt, List.mem_singleton.mp h⟩

/-! ## Writing -/

theorem tdiv_natCast (n : Nat) (base : Base) : (n : Int).tdiv base.val = (n / base.val : Nat) := (Int.ofNat_tdiv ..).symm

theorem tmod_natCast (n : Nat) (base : Base) : (n : Int).tmod base.val = (n % base.val : Nat) := (Int.ofNat_tmod ..).symm

theorem countLoop_eq (base : Base) (n count : Nat) :
    countLoop base n count + 1 = count + (text base.val n).length := by
  induction n using Nat.strongRecOn generalizing count with
  | ind n ih =>
    rw [countLoop]
    by_cases h : base.val ≤ n
    · have hlt : n / base.val < n := Nat.div_lt_self (Nat.lt_of_lt_of_le (Nat.lt_of_succ_lt base.two_le) h) base.two_le
      rw [if_pos (by exact_mod_cast h), tdiv_natCast, ih _ hlt, text_of_le h, List.length_append]
      simp only [List.length_singleton]
      omega
    · rw [if_neg (by exact_mod_cast h), text_of_lt (Nat.lt_of_not_le h)]
      rfl

theorem ok_bind {α β : Type} (a : α) (f : α → Except Failure β) : (.ok a >>= f : Except Failure β) = f a := rfl

theorem put_eq (front last : Text) (x : UInt8) {count padLen : Nat} (hpos : 0 < count)
    (hcount : count + padLen = front.length + 1) (c : UInt8) :
    put (front ++ x :: last) count padLen c = .ok (front ++ c :: last) := by
  have hindex : count - 1 + padLen = front.length := by omega
  unfold put
  rw [hindex, if_pos ⟨hpos, by simp⟩, List.set_append_right _ _ (Nat.le_refl _), Nat.sub_self, List.set_cons_zero]

/-- **The digits are written** into the places left for them: a turn of the loop writes the last one. `f` is what
is done with the first digit. -/
theorem writeLoop_text (base : Base) (n : Nat) (front blank last : Text) (count padLen : Nat) (f : Int → Int)
    (hf : ∀ k : Nat, k < base.val → f k = k) (hblank : blank.length = (text base.val n).length)
    (hle : blank.length ≤ count) (hcount : count + padLen = front.length + blank.length) :
    (do
      let (value, count, result) ← writeLoop base padLen n count (front ++ blank ++ last)
      put result count padLen (← i2sDigit (f value))) = .ok (front ++ text base.val n ++ last) := by
  induction n using Nat.strongRecOn generalizing blank last count with
  | ind n ih =>
    have hne : blank ≠ [] := by
      rintro rfl
      exact text_ne_nil base.val n (List.length_eq_zero_iff.mp hblank.symm)
    obtain ⟨blank, x, rfl⟩ := (List.eq_nil_or_concat' blank).resolve_left hne
    simp only [List.length_append, List.length_singleton] at hblank hle hcount
    rw [writeLoop, ← List.append_assoc front, List.append_assoc (front ++ blank), List.singleton_append]
    by_cases h : base.val ≤ n
    · have hpos : 0 < base.val := Nat.lt_of_succ_lt base.two_le
      have hlt : n / base.val < n := Nat.div_lt_self (Nat.lt_of_lt_of_le hpos h) base.two_le
      have hdigit : n % base.val < 16 := Nat.lt_of_lt_of_le (Nat.mod_lt _ hpos) base.le_sixteen
      have hput : ∀ c, put (front ++ blank ++ x :: last) count padLen c = .ok (front ++ blank ++ c :: last) :=
        put_eq (front ++ blank) last x (by omega) (by rw [List.length_append]; omega)
      rw [text_of_le h, List.length_append, List.length_singleton] at hblank
      have hrest := ih (n / base.val) hlt blank (digitByte (n % base.val) :: last) (count - 1) (by omega) (by omega)
        (by omega)
      rw [if_pos (by exact_mod_cast h), tmod_natCast, i2sDigit_eq hdigit, text_of_le h, tdiv_natCast]
      rw [ok_bind, hput, ok_bind, hrest, List.append_assoc, List.append_assoc, List.append_assoc,
        List.singleton_append]
    · have hlt := Nat.lt_of_not_le h
      rw [text_of_lt hlt, List.length_singleton] at hblank
      obtain rfl : blank = [] := List.length_eq_zero_iff.mp (Nat.succ.inj hblank)
      rw [if_neg (by exact_mod_cast h), text_of_lt hlt, ok_bind, List.append_nil]
      show (i2sDigit (f n) >>= fun c => put (front ++ x :: last) count padLen c) = _
      rw [hf n hlt, i2sDigit_eq (Nat.lt_of_lt_of_le hlt base.le_sixteen), ok_bind, put_eq _ _ _ (by omega) hcount,
        List.append_assoc, List.singleton_append]

theorem countLoop_one (base : Base) (n : Nat) : countLoop base n 1 = (text base.val n).length := by
  have hcount := countLoop_eq base n 1
  omega

/-- **`unsignedToString`** gives the digits, behind as many pad characters as are missing. -/
theorem digitsToString_eq (n : Nat) (base : Base) (mindigits : Nat) (pad : UInt8) :
    digitsToString n base mindigits pad =
      .ok (List.replicate (mindigits - (text base.val n).length) pad ++ text base.val n) := by
  unfold digitsToString
  rw [countLoop_one]
  by_cases h : (text base.val n).length < mindigits
  · have hfill : List.replicate mindigits pad = List.replicate (mindigits - (text base.val n).length) pad ++
        List.replicate (text base.val n).length pad := by
      rw [← List.replicate_add, Nat.sub_add_cancel (Nat.le_of_lt h)]
    have hwritten := writeLoop_text base n (List.replicate (mindigits - (text base.val n).length) pad)
      (List.replicate (text base.val n).length pad) [] (text base.val n).length
      (mindigits - (text base.val n).length) id (fun _ _ => rfl) List.length_replicate
      (Nat.le_of_eq List.length_replicate) (by rw [List.length_replicate, List.length_replicate, Nat.add_comm])
    rw [List.append_nil, List.append_nil, ← hfill] at hwritten
    simp only [if_pos h]
    exact hwritten
  · have hwritten := writeLoop_text base n [] (List.replicate (text base.val n).length 0) [] (text base.val n).length 0
      id (fun _ _ => rfl) List.length_replicate (Nat.le_of_eq List.length_replicate)
      (by rw [List.length_replicate]; exact Nat.add_comm _ _)
    rw [List.append_nil, List.append_nil, List.nil_append, List.nil_append] at hwritten
    simp only [if_neg h]
    rw [Nat.sub_eq_zero_of_le (Nat.not_lt.mp h), List.replicate_zero, List.nil_append]
    exact hwritten

/-- What `integerToString` does with the absolute value. -/
theorem writeLoop_ten (n : Nat) (front : Text) :
    (do
      let (value, count, result) ← writeLoop .ten 0 n (front.length + (text 10 n).length)
        (front ++ List.replicate (text 10 n).length 0)
      put result count 0 (← i2sDigit (value.tmod 10))) = .ok (front ++ text 10 n) := by
  have hwritten := writeLoop_text .ten n front (List.replicate (text 10 n).length 0) []
    (front.length + (text 10 n).length) 0 (·.tmod 10)
    (fun k hk => (tmod_natCast k .ten).trans (by rw [Nat.mod_eq_of_lt hk])) List.length_replicate
    (by rw [List.length_replicate]; exact Nat.le_add_left _ _) (by rw [List.length_replicate]; rfl)
  rw [List.append_nil, List.append_nil] at hwritten
  exact hwritten

theorem integerToString_of_nonneg {v : Int32} (h : 0 ≤ v) : integerToString v = .ok (text 10 v.toInt.toNat) := by
  have hv : v.toInt = v.toInt.toNat := (Int.toNat_of_nonneg (Int32.le_iff_toInt_le.mp h)).symm
  have hwritten := writeLoop_ten v.toInt.toNat []
  rw [List.length_nil, Nat.zero_add, List.nil_append, List.nil_append, ← hv] at hwritten
  unfold integerToString
  simp only [h, decide_true, if_true]
  rw [show countLoop .ten v.toInt 1 = (text 10 v.toInt.toNat).length by rw [hv]; exact countLoop_one .ten _]
  exact hwritten

/-- The negative of an `int` that is not the least one. -/
theorem toInt_neg {v : Int32} (hneg : ¬0 ≤ v) (hmin : v ≠ Int32.minValue) :
    (-v).toInt = (-v.toInt).toNat ∧ 0 < (-v.toInt).toNat := by
  have hlt : v.toInt < 0 := Int.not_le.mp fun h => hneg (Int32.le_iff_toInt_le.mpr h)
  have hge := Int32.le_toInt v
  have hne : v.toInt ≠ -2 ^ 31 := fun heq => hmin (Int32.toInt_inj.mp heq)
  rw [Int32.toInt_neg, Int.bmod_eq_of_le (by omega) (by omega)]
  omega

theorem integerToString_of_neg {v : Int32} (hneg : ¬0 ≤ v) (hmin : v ≠ Int32.minValue) :
    integerToString v = .ok (minus :: text 10 (-v.toInt).toNat) := by
  obtain ⟨hv, -⟩ := toInt_neg hneg hmin
  have hwritten := writeLoop_ten (-v.toInt).toNat [minus]
  rw [← hv] at hwritten
  have hcount : countLoop .ten (-v).toInt 2 = 1 + (text 10 (-v.toInt).toNat).length := by
    have hcount := countLoop_eq .ten (-v.toInt).toNat 2
    rw [← hv] at hcount
    have hten : Base.ten.val = 10 := rfl
    rw [hten] at hcount
    omega
  unfold integerToString
  simp only [hneg, decide_false, Bool.false_eq_true, if_false]
  rw [hcount, Nat.add_comm 1, List.replicate_succ, List.set_cons_zero, Nat.add_comm _ 1]
  exact hwritten

/-- The least `int` has a negative remainder, which is no index. -/
theorem integerToString_min : integerToString Int32.minValue = .error .outside := by
  have hvalue : ¬((Base.ten.val : Int) ≤ (-Int32.minValue).toInt) := by decide
  unfold integerToString
  simp only [show decide (0 ≤ Int32.minValue) = false from rfl, Bool.false_eq_true, if_false]
  rw [writeLoop, if_neg hvalue]
  rfl

/-! ## Reading -/

theorem digits_append {b a v : Nat} (h : digits b a t = (v, [])) (s : Text) : digits b a (t ++ s) = digits b v s := by
  induction t generalizing a with
  | nil =>
    obtain ⟨rfl, -⟩ := Prod.mk.inj h
    rfl
  | cons c t ih =>
    rw [digits] at h
    rw [List.cons_append, digits]
    cases hc : digit b c with
    | none =>
      rw [hc] at h
      cases h
    | some k =>
      rw [hc] at h
      exact ih h

theorem digits_digitByte {k a : Nat} (h : k < base.val) : digits base.val a [digitByte k] = (a * base.val + k, []) := by
  rw [digits, digit_digitByte h]
  rfl

theorem digits_text (base : Base) (n : Nat) : digits base.val 0 (text base.val n) = (n, []) := by
  induction n using Nat.strongRecOn with
  | ind n ih =>
    have hpos : 0 < base.val := Nat.lt_of_succ_lt base.two_le
    by_cases h : base.val ≤ n
    · rw [text_of_le h, digits_append (ih _ (Nat.div_lt_self (Nat.lt_of_lt_of_le hpos h) base.two_le)),
        digits_digitByte (Nat.mod_lt _ hpos), Nat.div_add_mod']
    · rw [text_of_lt (Nat.lt_of_not_le h), digits_digitByte (Nat.lt_of_not_le h), Nat.zero_mul, Nat.zero_add]

theorem zero_eq : zero = digitByte 0 := rfl

theorem digits_zeros (base : Base) (k : Nat) : digits base.val 0 (List.replicate k zero) = (0, []) := by
  induction k with
  | zero => rfl
  | succ k ih =>
    have hpos : 0 < base.val := Nat.lt_of_succ_lt base.two_le
    rw [List.replicate_succ, digits, zero_eq, digit_digitByte hpos, Nat.zero_mul]
    exact ih

/-- A text of digits that are read as a number. -/
structure Reads (base : Base) (s : Text) (n : Nat) : Prop where
  ne_nil : s ≠ []
  digits_eq : digits base.val 0 s = (n, [])
  all : ∀ c ∈ s, ∃ k < base.val, c = digitByte k

theorem reads_text (base : Base) (n : Nat) : Reads base (text base.val n) n where
  ne_nil := text_ne_nil _ n
  digits_eq := digits_text base n
  all := fun _ h => mem_text h

theorem reads_padded (base : Base) (k n : Nat) : Reads base (List.replicate k zero ++ text base.val n) n where
  ne_nil := List.append_ne_nil_of_right_ne_nil _ (text_ne_nil _ n)
  digits_eq := (digits_append (digits_zeros base k) _).trans (digits_text base n)
  all := by
    intro c hc
    rcases List.mem_append.mp hc with hc | hc
    · exact ⟨0, Nat.lt_of_succ_lt base.two_le, List.eq_of_mem_replicate hc⟩
    · exact mem_text hc

/-- A digit is no other character that the library looks for. -/
theorem digitByte_plain {k : Nat} (h : k < 16) :
    digitByte k ∉ [0, minus, 43, 120, 88] ∧ isspace (digitByte k) = false := by
  have hall : ∀ k ∈ List.range 16, digitByte k ∉ [0, minus, 43, 120, 88] ∧ isspace (digitByte k) = false := by decide
  exact hall k (List.mem_range.mpr h)

theorem Reads.plain (h : Reads base s n) (hc : c ∈ s) : c ∉ [0, minus, 43, 120, 88] ∧ isspace c = false := by
  obtain ⟨k, hk, rfl⟩ := h.all c hc
  exact digitByte_plain (Nat.lt_of_lt_of_le hk base.le_sixteen)

theorem Reads.hexPrefix (h : Reads base (c :: s) n) : hexPrefix s = false := by
  match s, h with
  | [], _ => rfl
  | [x], _ => rfl
  | x :: y :: s, h =>
    have hx := (h.plain (List.mem_cons_of_mem _ List.mem_cons_self)).1
    simp only [List.mem_cons, not_or] at hx
    simp [Value.hexPrefix, hx]

theorem Reads.unsignedNumeral (h : Reads base s n) (negative : Bool) :
    unsignedNumeral base.val negative s = some ⟨negative, n, []⟩ := by
  obtain ⟨c, s, rfl⟩ := List.exists_cons_of_ne_nil h.ne_nil
  obtain ⟨k, hk, rfl⟩ := h.all c List.mem_cons_self
  rw [Misc.unsignedNumeral, h.hexPrefix, if_neg (by simp), digit_digitByte hk, h.digits_eq]
  rfl

theorem Reads.skipSpaces (h : Reads base s n) : skipSpaces s = s := by
  obtain ⟨c, s, rfl⟩ := List.exists_cons_of_ne_nil h.ne_nil
  rw [Value.skipSpaces, List.dropWhile_cons, (h.plain List.mem_cons_self).2]
  rfl

theorem Reads.numeral (h : Reads base s n) : numeral base.val s = some ⟨false, n, []⟩ := by
  rw [Misc.numeral, h.skipSpaces]
  have hsigned := h.unsignedNumeral false
  obtain ⟨c, s, rfl⟩ := List.exists_cons_of_ne_nil h.ne_nil
  have hc := (h.plain List.mem_cons_self).1
  simp only [List.mem_cons, not_or] at hc
  simpa [hc] using hsigned

theorem Reads.numeral_minus (h : Reads base s n) : Misc.numeral base.val (minus :: s) = some ⟨true, n, []⟩ := by
  rw [Misc.numeral, Value.skipSpaces, List.dropWhile_cons]
  exact h.unsignedNumeral true

theorem Reads.cString (h : Reads base s n) : cString s = s :=
  cString_of_notMem fun hc => (h.plain hc).1 List.mem_cons_self

theorem Reads.cString_minus (h : Reads base s n) : Misc.cString (minus :: s) = minus :: s :=
  congrArg (minus :: ·) h.cString

/-! ## Round trips -/

/-- The test for a text that is not a number, after all of it has been read. -/
theorem not_unread {p : Prop} (hs : cString s ≠ []) : ¬(p ∧ [] = cString s ∨ ([] : Text) ≠ []) := by
  rintro (⟨-, heq⟩ | hne)
  · exact hs heq.symm
  · exact hne rfl

theorem stringToInteger_of_strtol {v : Int32} (hs : cString s ≠ []) (h : strtol 10 (cString s) = some (v.toInt, [])) :
    stringToInteger s = .ok v := by
  unfold stringToInteger
  rw [h]
  simp only [if_neg (not_unread hs), Int32.ofInt_toInt]
  exact if_neg (not_not_intro rfl)

theorem stringToInteger_text {v : Int32} (h : 0 ≤ v) : stringToInteger (text 10 v.toInt.toNat) = .ok v := by
  have hreads : Reads .ten (text 10 v.toInt.toNat) v.toInt.toNat := reads_text .ten _
  have hv : (v.toInt.toNat : Int) = v.toInt := Int.toNat_of_nonneg (Int32.le_iff_toInt_le.mp h)
  have hlt := Int32.toInt_lt v
  have hge := Int32.le_toInt v
  refine stringToInteger_of_strtol (by rw [hreads.cString]; exact hreads.ne_nil) ?_
  have hnumeral : numeral 10 (text 10 v.toInt.toNat) = some ⟨false, v.toInt.toNat, []⟩ := hreads.numeral
  rw [hreads.cString, strtol, hnumeral]
  show (if (v.toInt.toNat : Int) < _ ∨ _ ≤ (v.toInt.toNat : Int) then none else some ((v.toInt.toNat : Int), [])) = _
  rw [hv, if_neg (by omega)]

theorem stringToInteger_minus {v : Int32} (hneg : ¬0 ≤ v) (hmin : v ≠ Int32.minValue) :
    stringToInteger (minus :: text 10 (-v.toInt).toNat) = .ok v := by
  have hreads : Reads .ten (text 10 (-v.toInt).toNat) (-v.toInt).toNat := reads_text .ten _
  obtain ⟨-, hpos⟩ := toInt_neg hneg hmin
  have hge := Int32.le_toInt v
  have hv : -((-v.toInt).toNat : Int) = v.toInt := by omega
  refine stringToInteger_of_strtol (by rw [hreads.cString_minus]; exact List.cons_ne_nil _ _) ?_
  have hnumeral : numeral 10 (minus :: text 10 (-v.toInt).toNat) = some ⟨true, (-v.toInt).toNat, []⟩ :=
    hreads.numeral_minus
  rw [hreads.cString_minus, strtol, hnumeral]
  show (if -((-v.toInt).toNat : Int) < _ ∨ _ ≤ -((-v.toInt).toNat : Int) then none
    else some (-((-v.toInt).toNat : Int), [])) = _
  rw [hv, if_neg (by omega)]

/-- An `int` comes back from its text. -/
def IntegerKept (v : Int32) : Prop := ∃ str, integerToString v = .ok str ∧ stringToInteger str = .ok v

/-- **An `int` is kept** unless it is the least one. -/
theorem integerKept_iff (v : Int32) : IntegerKept v ↔ v ≠ Int32.minValue := by
  constructor
  · rintro ⟨str, hstr, -⟩ rfl
    rw [integerToString_min] at hstr
    cases hstr
  · intro hmin
    by_cases h : 0 ≤ v
    · exact ⟨_, integerToString_of_nonneg h, stringToInteger_text h⟩
    · exact ⟨_, integerToString_of_neg h hmin, stringToInteger_minus h hmin⟩

theorem strtoul_padded (base : Base) (k n : Nat) (h : n < 2 ^ 64) :
    cString (List.replicate k zero ++ text base.val n) ≠ [] ∧
      strtoul base.val (cString (List.replicate k zero ++ text base.val n)) = some (n, []) := by
  have hreads := reads_padded base k n
  rw [hreads.cString]
  refine ⟨hreads.ne_nil, ?_⟩
  rw [strtoul, hreads.numeral]
  exact if_neg (Nat.not_le.mpr h)

theorem padded_length (base : Base) (mindigits : Nat) (n : Nat) :
    (List.replicate (mindigits - (text base.val n).length) zero ++ text base.val n).length =
      max mindigits (Nat.toDigits base.val n).length := by
  rw [List.length_append, List.length_replicate, text_length]
  omega

theorem checkedBase_eq {base : UInt32} (h2 : 2 ≤ base) (h16 : base ≤ 16) :
    ∃ b : Base, b.val = base.toNat ∧ checkedBase base = .ok b :=
  ⟨⟨base.toNat, UInt32.le_iff_toNat_le.mp h2, UInt32.le_iff_toNat_le.mp h16⟩, rfl,
    dif_pos ⟨UInt32.le_iff_toNat_le.mp h2, UInt32.le_iff_toNat_le.mp h16⟩⟩

/-- The text of an `unsigned int` has as many characters as are asked for, or as there are digits, and the number is
read back from it. -/
def UnsignedKept (v base mindigits : UInt32) : Prop := ∃ str, unsignedToString v base mindigits zero = .ok str ∧
  stringToUnsigned str base = .ok v ∧ str.length = max mindigits.toNat (Nat.toDigits base.toNat v.toNat).length

/-- And that of an `unsigned long long`. -/
def ULongLongKept (v : UInt64) (base mindigits : UInt32) : Prop :=
  ∃ str, ulonglongToString v base mindigits zero = .ok str ∧ stringToULongLong str base = .ok v ∧
    str.length = max mindigits.toNat (Nat.toDigits base.toNat v.toNat).length

theorem unsignedKept (v mindigits : UInt32) {base : UInt32} (h2 : 2 ≤ base) (h16 : base ≤ 16) :
    UnsignedKept v base mindigits := by
  obtain ⟨b, hb, hchecked⟩ := checkedBase_eq h2 h16
  have hv := v.toNat_lt
  obtain ⟨hne, hread⟩ := strtoul_padded b (mindigits.toNat - (text b.val v.toNat).length) v.toNat (by omega)
  refine ⟨List.replicate (mindigits.toNat - (text b.val v.toNat).length) zero ++ text b.val v.toNat, ?_, ?_, ?_⟩
  · unfold unsignedToString
    rw [hchecked, ok_bind, digitsToString_eq]
  · unfold stringToUnsigned
    rw [← hb, hread]
    simp only [if_neg (not_unread hne), UInt32.ofNat_toNat]
    exact if_neg (not_not_intro rfl)
  · rw [padded_length, hb]

theorem ulonglongKept (v : UInt64) (mindigits : UInt32) {base : UInt32} (h2 : 2 ≤ base) (h16 : base ≤ 16) :
    ULongLongKept v base mindigits := by
  obtain ⟨b, hb, hchecked⟩ := checkedBase_eq h2 h16
  obtain ⟨hne, hread⟩ := strtoul_padded b (mindigits.toNat - (text b.val v.toNat).length) v.toNat v.toNat_lt
  refine ⟨List.replicate (mindigits.toNat - (text b.val v.toNat).length) zero ++ text b.val v.toNat, ?_, ?_, ?_⟩
  · unfold ulonglongToString
    rw [hchecked, ok_bind, digitsToString_eq]
  · unfold stringToULongLong
    rw [← hb, hread]
    simp only [if_neg (not_unread hne), UInt64.ofNat_toNat]
  · rw [padded_length, hb]

/-- **Numbers come back from their texts**: every `int` but the least one, and every unsigned number of either width
in each base, with any number of digits asked for. -/
theorem numbers_kept_iff (v : Int32) (u : UInt32) (w : UInt64) (base mindigits : UInt32) (h2 : 2 ≤ base)
    (h16 : base ≤ 16) :
    (IntegerKept v ↔ v ≠ Int32.minValue) ∧ UnsignedKept u base mindigits ∧ ULongLongKept w base mindigits :=
  ⟨integerKept_iff v, unsignedKept u mindigits h2 h16, ulonglongKept w mindigits h2 h16⟩

/-- A negative number, and the greatest unsigned ones. -/
theorem numbers_kept_greatest : IntegerKept (-2147483647) ∧ UnsignedKept 4294967295 2 40 ∧
    ULongLongKept 18446744073709551615 16 8 := by
  have hbinary := numbers_kept_iff (-2147483647) 4294967295 0 2 40 (by decide) (by decide)
  have hhex := numbers_kept_iff 0 0 18446744073709551615 16 8 (by decide) (by decide)
  exact ⟨hbinary.1.mpr (by decide), hbinary.2.1, hhex.2.2⟩

/-- The least `int` has no text. -/
theorem least_not_kept : ¬ ∀ v : Int32, IntegerKept v := fun h => (integerKept_iff _).mp (h Int32.minValue) rfl

end OpenCpi.Misc
