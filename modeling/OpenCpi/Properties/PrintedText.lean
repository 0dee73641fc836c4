import OpenCpi.Properties.JoinedTexts
import OpenCpi.Properties.NumberText
import OpenCpi.Value.Unparse

/-!
# Printed texts

What the printers of the scalar types write is found again as an element of a list, with all of its blanks,
and is read as the value that was printed. What stands in braces has no brace that is not closed in it.
-/

namespace OpenCpi.Value

variable {text s rest : Text} {c : UInt8} {nBraces : Nat} {escape : Bool}

/-! ## Braces -/

/-- Braces are closed in the text, in this order, and no backslash is left at its end. -/
def closes : Nat → Bool → Text → Bool
  | nBraces, escape, [] => nBraces == 0 && !escape
  | nBraces, true, _ :: s => closes nBraces false s
  | nBraces, false, c :: s =>
    if c = 92 then closes nBraces true s
    else if c = 125 ∧ nBraces = 0 then false
    else closes (bracesBehind c nBraces) false s

theorem closes_of_whole : ∀ {nBraces : Nat} {escape : Bool} {s : Text}, whole nBraces escape s = true →
    closes nBraces escape s = true
  | _, _, [], h => h
  | _, true, _ :: s, h => closes_of_whole (s := s) h
  | nBraces, false, c :: s, h => by
    rw [whole] at h
    rw [closes]
    split_ifs at h ⊢ with hcomma hslash hbrace
    · exact closes_of_whole h
    · exact closes_of_whole h

/-- Two texts behind each other. -/
theorem closes_append (t : Text) : ∀ {nBraces : Nat} {escape : Bool} {s : Text}, closes nBraces escape s = true →
    closes nBraces escape (s ++ t) = closes 0 false t
  | nBraces, escape, [], h => by
    rw [closes, Bool.and_eq_true, beq_iff_eq, Bool.not_eq_true'] at h
    rw [h.1, h.2, List.nil_append]
  | _, true, _ :: s, h => closes_append t (s := s) h
  | nBraces, false, c :: s, h => by
    rw [closes] at h
    rw [List.cons_append, closes]
    split_ifs at h ⊢ with hslash hbrace
    · exact closes_append t h
    · exact closes_append t h

theorem whole_append (t : Text) : ∀ {nBraces : Nat} {escape : Bool} {s : Text}, whole nBraces escape s = true →
    whole nBraces escape (s ++ t) = whole 0 false t
  | nBraces, escape, [], h => by
    rw [whole, Bool.and_eq_true, beq_iff_eq, Bool.not_eq_true'] at h
    rw [h.1, h.2, List.nil_append]
  | _, true, _ :: s, h => whole_append t (s := s) h
  | nBraces, false, c :: s, h => by
    rw [whole] at h
    rw [List.cons_append, whole]
    split_ifs at h ⊢ with hcomma hslash hbrace
    · exact whole_append t h
    · exact whole_append t h

theorem bracesBehind_succ (h : ¬(c = 125 ∧ nBraces = 0)) : bracesBehind c (nBraces + 1) = bracesBehind c nBraces + 1 := by
  unfold bracesBehind
  split_ifs with hopen hclose
  · rfl
  · have hpos : nBraces ≠ 0 := fun hn => h ⟨hclose, hn⟩
    omega
  · rfl

/-- A text in braces, behind the open one. -/
theorem whole_close (t : Text) : ∀ {nBraces : Nat} {escape : Bool} {s : Text}, closes nBraces escape s = true →
    whole (nBraces + 1) escape (s ++ 125 :: t) = whole 0 false t
  | nBraces, escape, [], h => by
    rw [closes, Bool.and_eq_true, beq_iff_eq, Bool.not_eq_true'] at h
    rw [h.1, h.2]
    rfl
  | nBraces, true, _ :: s, h => by
    have hs := whole_close t (show closes nBraces false s = true from h)
    exact hs
  | nBraces, false, c :: s, h => by
    rw [closes] at h
    rw [List.cons_append, whole, if_neg fun hc => Nat.succ_ne_zero _ hc.2]
    by_cases hslash : c = 92
    · rw [if_pos hslash] at h ⊢
      exact whole_close t h
    · rw [if_neg hslash] at h ⊢
      rw [if_neg fun hc => Nat.succ_ne_zero _ hc.2]
      split_ifs at h with hbrace
      rw [bracesBehind_succ hbrace]
      exact whole_close t h

theorem whole_braced (h : closes 0 false s = true) : whole 0 false (braced s) = true :=
  (whole_close [] h : whole 1 false (s ++ [125]) = whole 0 false [])

theorem closes_joined : ∀ {ts : List Text}, (∀ text ∈ ts, closes 0 false text = true) → closes 0 false (joined ts) = true
  | [], _ => rfl
  | text :: ts, h => by
    obtain ⟨htext, hts⟩ := List.forall_mem_cons.mp h
    rw [joined_cons, closes_append _ htext]
    cases ts with
    | nil => rfl
    | cons text' ts => exact closes_joined hts

theorem inBraces_braced (s : Text) : inBraces (braced s) = some s := by
  show (if (123 : UInt8) = 123 ∧ (s ++ [125]).getLast? = some 125 then some (s ++ [125]).dropLast else none) = some s
  rw [if_pos ⟨rfl, List.getLast?_concat⟩, List.dropLast_concat]

/-! ## Elements with their blanks -/

/-- The text is found as it is, whatever stands behind it in a list: no blank is trimmed. -/
structure Tight (text : Text) : Prop where
  whole : whole 0 false text = true
  skip : skipSpaces text = text
  ne_nil : text ≠ []
  scan : ∀ rest, ∃ last, scanElement 0 false (text ++ ending rest) = .ok ⟨text, last, rest⟩ ∧
    (text.drop last).rdropWhile isspace = text.drop last

theorem Tight.found (h : Tight text) (rest : Option Text) :
    doElement (text ++ ending rest) = (none, ⟨text, ending rest, rest.getD []⟩) := by
  obtain ⟨last, hrun, htrim⟩ := h.scan rest
  have hrest : skipSpaces (text ++ ending rest) = text ++ ending rest := by
    rw [skipSpaces_append, h.skip, if_neg h.ne_nil]
  rw [doElement, hrest, hrun]
  have hblank : (text.drop last).rtakeWhile isspace = [] := by
    have hboth := List.rdropWhile_append_rtakeWhile (p := isspace) (l := text.drop last)
    rw [htrim] at hboth
    exact List.self_eq_append_right.mp hboth.symm
  have htail : (⟨text, last, rest⟩ : Scan).tail = ending rest := by
    cases rest <;> rfl
  show (none, (⟨text, last, rest⟩ : Scan).trim) = _
  rw [Scan.trim, htail, htrim, hblank, List.take_append_drop, List.nil_append]

/-- The last character is no blank. -/
theorem tight_of_last (hwhole : whole 0 false text = true) (hskip : skipSpaces text = text) (hne : text ≠ [])
    (hlast : isspace (text.getLast hne) = false) : Tight text := by
  refine ⟨hwhole, hskip, hne, fun rest => ?_⟩
  obtain ⟨last, hrun⟩ := scanElement_whole rest hwhole
  refine ⟨last, hrun, List.rdropWhile_eq_self_iff.mpr fun hdrop => ?_⟩
  rw [List.getLast_drop hdrop, hlast]
  exact Bool.false_ne_true

/-- A text in braces. -/
theorem tight_braced (h : closes 0 false s = true) : Tight (braced s) := by
  refine tight_of_last (whole_braced h) rfl (List.cons_ne_nil _ _) ?_
  have hlast : (braced s).getLast (List.cons_ne_nil _ _) = 125 := List.getLast_concat
  rw [hlast]
  rfl

/-- What the loop of `doElement` protects in a text is protected behind another one. -/
theorem scanElement_append {u : Text} {r : Scan} (hr : scanElement 0 false u = .ok r) (hlast : r.last ≠ 0) :
    ∀ {nBraces : Nat} {escape : Bool} {s : Text}, whole nBraces escape s = true →
      scanElement nBraces escape (s ++ u) = .ok ⟨s ++ r.text, s.length + r.last, r.more⟩
  | nBraces, escape, [], h => by
    rw [whole, Bool.and_eq_true, beq_iff_eq, Bool.not_eq_true'] at h
    rw [h.1, h.2, List.nil_append, hr, List.nil_append, List.length_nil, Nat.zero_add]
  | nBraces, true, c :: s, h => by
    rw [List.cons_append, scanElement, scanElement_append hr hlast (s := s) h]
    simp only [Except.map, Scan.protect, List.cons_append, List.length_cons, Nat.succ_add]
  | nBraces, false, c :: s, h => by
    have hne : s.length + r.last ≠ 0 := by omega
    rw [whole] at h
    rw [List.cons_append, scanElement]
    split_ifs at h ⊢ with hcomma hslash hbrace
    · rw [scanElement_append hr hlast h]
      simp only [Except.map, Scan.protect, List.cons_append, List.length_cons, Nat.succ_add]
    · rw [scanElement_append hr hlast h]
      simp only [Except.map, Scan.plain, List.cons_append, List.length_cons, Nat.succ_add, if_neg hne]

/-- The last character stands behind a backslash. -/
theorem tight_of_escape (hs : whole 0 false s = true) (hskip : skipSpaces (s ++ [92, c]) = s ++ [92, c]) :
    Tight (s ++ [92, c]) := by
  have hwhole : whole 0 false (s ++ [92, c]) = true := whole_append _ hs
  refine ⟨hwhole, hskip, List.append_ne_nil_of_right_ne_nil _ (List.cons_ne_nil _ _), fun rest => ?_⟩
  have hscan : scanElement 0 false ([92, c] ++ ending rest) = .ok ⟨[92, c], 2, rest⟩ := by
    cases rest <;> rfl
  refine ⟨(s ++ [92, c]).length, ?_, ?_⟩
  · rw [List.append_assoc, scanElement_append hscan (Nat.succ_ne_zero 1) hs, List.length_append]
    rfl
  · rw [List.drop_length]
    rfl

/-- A text behind another one. -/
theorem tight_behind (h : Tight text) (hs : whole 0 false s = true) (hskip : skipSpaces (s ++ text) = s ++ text) :
    Tight (s ++ text) := by
  have hwhole : whole 0 false (s ++ text) = true := (whole_append _ hs).trans h.whole
  have hne : s ++ text ≠ [] := List.append_ne_nil_of_right_ne_nil _ h.ne_nil
  refine ⟨hwhole, hskip, hne, fun rest => ?_⟩
  obtain ⟨last, hrun, htrim⟩ := h.scan rest
  by_cases hlast : last = 0
  · subst hlast
    refine (tight_of_last hwhole hskip hne ?_).scan rest
    rw [List.getLast_append_of_ne_nil _ h.ne_nil]
    exact Bool.eq_false_iff.mpr (List.rdropWhile_eq_self_iff.mp htrim h.ne_nil)
  · refine ⟨s.length + last, ?_, ?_⟩
    · rw [List.append_assoc, scanElement_append hrun hlast hs]
    · rw [List.drop_length_add_append]
      exact htrim

/-! ## Plain texts -/

/-- No blank and no character that separates elements. -/
def Plain (c : UInt8) : Prop := isspace c = false ∧ c ∉ ([44, 92, 123, 125] : List UInt8)

instance (c : UInt8) : Decidable (Plain c) := by
  unfold Plain
  infer_instance

/-- For a fixed text the characters can be tested. -/
theorem plain_of_all (h : text.all (fun c => decide (Plain c)) = true) : ∀ c ∈ text, Plain c := by
  simpa using h

theorem whole_plain : ∀ {s : Text}, (∀ c ∈ s, Plain c) → whole 0 false s = true
  | [], _ => rfl
  | c :: s, h => by
    obtain ⟨⟨-, hc⟩, hs⟩ := List.forall_mem_cons.mp h
    simp only [List.mem_cons, List.not_mem_nil, or_false, not_or] at hc
    rw [whole, if_neg fun hcomma => hc.1 hcomma.1, if_neg hc.2.1, if_neg fun hclose => hc.2.2.2 hclose.1, bracesBehind,
      if_neg hc.2.2.1, if_neg hc.2.2.2]
    exact whole_plain hs

theorem skipSpaces_of_head (h : isspace c = false) (s : Text) : skipSpaces (c :: s) = c :: s :=
  List.dropWhile_cons_of_neg (Bool.eq_false_iff.mp h)

theorem tight_plain (hne : text ≠ []) (h : ∀ c ∈ text, Plain c) : Tight text := by
  refine tight_of_last (whole_plain h) ?_ hne (h _ (List.getLast_mem hne)).1
  obtain ⟨c, s, rfl⟩ := List.exists_cons_of_ne_nil hne
  exact skipSpaces_of_head (h c List.mem_cons_self).1 s

/-! ## Characters -/

/-- An octal digit. -/
def octalDigit (k : Nat) : UInt8 := 48 + UInt8.ofNat k

theorem digit_octalDigit {k : Nat} (h : k < 8) : digit 8 (octalDigit k) = some k ∧ Plain (octalDigit k) ∧
    48 ≤ octalDigit k ∧ octalDigit k ≤ 55 ∧ (octalDigit k).toNat - 48 = k ∧ letters.lookup (octalDigit k) = none := by
  have hall : ∀ k ∈ List.range 8, digit 8 (octalDigit k) = some k ∧ Plain (octalDigit k) ∧
    48 ≤ octalDigit k ∧ octalDigit k ≤ 55 ∧ (octalDigit k).toNat - 48 = k ∧ letters.lookup (octalDigit k) = none := by
    decide
  exact hall k (List.mem_range.mpr h)

/-- How a character is printed: as it is, as a letter or itself behind a backslash, or in octal. -/
inductive CharForm (c : UInt8) : Text → Prop
  | plain (hc : Plain c) (hquote : c ≠ 34) (hzero : c ≠ 0) : CharForm c [c]
  | letter (d : UInt8) (h : ∀ s, escaped d s = some (c, s)) : CharForm c [92, d]
  | octal (k l m : Nat) (hk : k < 8) (hl : l < 8) (hm : m < 8) (h : c.toNat = (k * 8 + l) * 8 + m) :
    CharForm c [92, octalDigit k, octalDigit l, octalDigit m]

theorem charForm (c : UInt8) : CharForm c (charText c) := by
  unfold charText
  split_ifs with hprint hspecial
  · rcases hspecial with rfl | rfl | rfl | rfl | rfl | rfl
    · exact .letter 92 fun s => rfl
    · exact .letter 34 fun s => rfl
    · exact .letter 32 fun s => rfl
    · exact .letter 44 fun s => rfl
    · exact .letter 125 fun s => rfl
    · exact .letter 123 fun s => rfl
  · simp only [not_or] at hspecial
    obtain ⟨h92, h34, h32, h44, h125, h123⟩ := hspecial
    unfold isprint at hprint
    simp only [Bool.and_eq_true, decide_eq_true_eq, UInt8.le_iff_toNat_le] at hprint
    have hlow : 32 ≤ c.toNat := hprint.1
    refine .plain ⟨?_, by simp [h44, h92, h123, h125]⟩ h34 ?_
    · have hnot : ¬c ≤ 13 := fun hle => absurd (UInt8.le_iff_toNat_le.mp hle) (by
        show ¬c.toNat ≤ 13
        omega)
      simp [isspace, h32, hnot]
    · rintro rfl
      exact absurd hlow (by decide)
  · unfold letterOf
    split_ifs with h10 h9 h11 h8 h13 h12 h7
    · exact h10 ▸ .letter 110 fun s => rfl
    · exact h9 ▸ .letter 116 fun s => rfl
    · exact h11 ▸ .letter 118 fun s => rfl
    · exact h8 ▸ .letter 98 fun s => rfl
    · exact h13 ▸ .letter 114 fun s => rfl
    · exact h12 ▸ .letter 102 fun s => rfl
    · subst h7
      exact .letter 97 fun s => rfl
    · have hc := c.toNat_lt
      have hand (n : Nat) : n &&& 7 = n % 8 := Nat.and_two_pow_sub_one_eq_mod n 3
      have h6 : c >>> (6 : UInt8) &&& 7 = UInt8.ofNat (c.toNat / 64 % 8) := by
        apply UInt8.toNat_inj.mp
        simp [Nat.shiftRight_eq_div_pow, hand]
        omega
      have h3 : c >>> (3 : UInt8) &&& 7 = UInt8.ofNat (c.toNat / 8 % 8) := by
        apply UInt8.toNat_inj.mp
        simp [Nat.shiftRight_eq_div_pow, hand]
        omega
      have h0 : c &&& 7 = UInt8.ofNat (c.toNat % 8) := by
        apply UInt8.toNat_inj.mp
        simp [hand]
        omega
      rw [h6, h3, h0]
      exact .octal (c.toNat / 64 % 8) (c.toNat / 8 % 8) (c.toNat % 8) (by omega) (by omega) (by omega) (by omega)

/-- **A character is read back** from in front of any text. -/
theorem parseOneChar_charText (c : UInt8) (s : Text) : parseOneChar (charText c ++ s) = some (c, s) := by
  have hform := charForm c
  generalize charText c = text at hform
  cases hform with
  | plain hc hquote hzero =>
    have hslash : c ≠ 92 := fun h => hc.2 (by simp [h])
    cases s with
    | nil => exact if_neg hzero
    | cons d s => exact (if_neg hzero).trans (if_pos hslash)
  | letter d h => exact h s
  | octal k l m hk hl hm h =>
    obtain ⟨-, -, h48, h55, hval, hlookup⟩ := digit_octalDigit hk
    have hne : octalDigit k ≠ 100 ∧ octalDigit k ≠ 117 ∧ octalDigit k ≠ 120 := by
      refine ⟨?_, ?_, ?_⟩ <;> intro heq <;> rw [heq] at h55 <;> exact absurd h55 (by decide)
    have hrun : escaped (octalDigit k) (octalDigit l :: octalDigit m :: s) = some (c, s) := by
      unfold escaped
      have hc := c.toNat_lt
      rw [hlookup]
      dsimp only
      rw [if_neg hne.1, if_neg hne.2.1, if_neg hne.2.2, if_pos ⟨h48, h55⟩, hval, octal, (digit_octalDigit hl).1]
      dsimp only
      rw [(digit_octalDigit hm).1]
      dsimp only
      rw [← h, if_neg (by omega), UInt8.ofNat_toNat]
    exact hrun

theorem parseChar_charText (c : UInt8) : parseChar (charText c) = .ok c := by
  have hread := parseOneChar_charText c []
  rw [List.append_nil] at hread
  rw [parseChar, hread]

theorem charText_cons (c : UInt8) : ∃ d s, charText c = d :: s ∧ isspace d = false ∧ d ≠ 34 := by
  have hform := charForm c
  generalize charText c = text at hform
  cases hform with
  | plain hc hquote hzero => exact ⟨c, [], rfl, hc.1, hquote⟩
  | letter d h => exact ⟨92, [d], rfl, rfl, by decide⟩
  | octal k l m hk hl hm h => exact ⟨92, _, rfl, rfl, by decide⟩

theorem skipSpaces_charText (c : UInt8) (s : Text) : skipSpaces (charText c ++ s) = charText c ++ s := by
  obtain ⟨d, s', hc, hspace, -⟩ := charText_cons c
  rw [hc]
  exact skipSpaces_of_head hspace _

theorem whole_charText (c : UInt8) : whole 0 false (charText c) = true := by
  have hform := charForm c
  generalize charText c = text at hform
  cases hform with
  | plain hc hquote hzero => exact whole_plain fun d hd => List.mem_singleton.mp hd ▸ hc
  | letter d h => rfl
  | octal k l m hk hl hm h =>
    have hplain : whole 0 false [octalDigit l, octalDigit m] = true :=
      whole_plain fun d hd => by
        rcases List.mem_pair.mp hd with rfl | rfl
        · exact (digit_octalDigit hl).2.1
        · exact (digit_octalDigit hm).2.1
    exact hplain

/-- A character at the end of a text. -/
theorem tight_charText (hs : whole 0 false s = true) (hskip : skipSpaces (s ++ charText c) = s ++ charText c) :
    Tight (s ++ charText c) := by
  have hwhole : whole 0 false (s ++ charText c) = true := (whole_append _ hs).trans (whole_charText c)
  have hform := charForm c
  generalize charText c = text at hform hskip hwhole
  cases hform with
  | plain hc hquote hzero =>
    refine tight_of_last hwhole hskip (List.append_ne_nil_of_right_ne_nil _ (List.cons_ne_nil _ _)) ?_
    rw [List.getLast_concat]
    exact hc.1
  | letter d h => exact tight_of_escape hs hskip
  | octal k l m hk hl hm h =>
    refine tight_of_last hwhole hskip (List.append_ne_nil_of_right_ne_nil _ (List.cons_ne_nil _ _)) ?_
    rw [List.getLast_append_of_ne_nil _ (List.cons_ne_nil _ _)]
    exact (digit_octalDigit hm).2.1.1

/-! ## Strings -/

/-- The text of a string that is not empty. -/
theorem tight_string {val : Text} (hne : val ≠ []) : Tight (val.flatMap charText) := by
  obtain ⟨c, val', rfl⟩ := List.exists_cons_of_ne_nil hne
  have hskip : skipSpaces ((c :: val').flatMap charText) = (c :: val').flatMap charText := by
    rw [List.flatMap_cons]
    exact skipSpaces_charText c _
  have hwhole : ∀ chars : Text, whole 0 false (chars.flatMap charText) = true := by
    intro chars
    induction chars with
    | nil => rfl
    | cons b chars ih =>
      rw [List.flatMap_cons, whole_append _ (whole_charText b)]
      exact ih
  obtain ⟨init, last, hval⟩ : ∃ init last, c :: val' = init ++ [last] :=
    ⟨_, _, (List.dropLast_append_getLast hne).symm⟩
  rw [hval, List.flatMap_append, List.flatMap_singleton] at hskip ⊢
  exact tight_charText (hwhole init) hskip

theorem stringChars_text {stringLength : Nat} : ∀ {val : Text} {fuel len : Nat}, (val.flatMap charText).length ≤ fuel →
    (stringLength ≠ 0 → len + val.length ≤ stringLength) →
    stringChars false stringLength fuel len (val.flatMap charText) = (.ok val, val.length + 1)
  | [], fuel, len, _, _ => by
    rw [List.flatMap_nil, stringChars]
    rfl
  | c :: val, fuel, len, hfuel, hlen => by
    obtain ⟨d, s, hc, -, -⟩ := charText_cons c
    have hread := parseOneChar_charText c (val.flatMap charText)
    rw [List.flatMap_cons, List.length_append] at hfuel
    rw [List.flatMap_cons, hc, List.cons_append]
    rw [hc, List.cons_append] at hread
    rw [hc, List.length_cons] at hfuel
    cases fuel with
    | zero => exact absurd hfuel (by omega)
    | succ fuel =>
      have hroom : ¬(stringLength ≠ 0 ∧ stringLength ≤ len) := fun h => by
        have hle := hlen h.1
        rw [List.length_cons] at hle
        omega
      rw [stringChars, Bool.false_and, if_neg Bool.false_ne_true, if_neg hroom, hread]
      dsimp only
      rw [stringChars_text (by omega) fun h => by
        have hle := hlen h
        rw [List.length_cons] at hle
        omega]
      rfl

/-- **A string is read back** within its bound. -/
theorem parseString_text {stringLength : Nat} {val : Text} (hlen : stringLength ≠ 0 → val.length ≤ stringLength) :
    ∃ n, parseString stringLength (unparseString val).1 = (.ok val, n) := by
  unfold unparseString
  split_ifs with hnil
  · subst hnil
    exact ⟨1, rfl⟩
  · obtain ⟨c, val', rfl⟩ := List.exists_cons_of_ne_nil hnil
    obtain ⟨d, s, hc, -, hquote⟩ := charText_cons c
    have hrun : stringChars false stringLength _ 0 ((c :: val').flatMap charText) = (.ok (c :: val'), _) :=
      stringChars_text (Nat.le_refl _) fun h => by
        rw [Nat.zero_add]
        exact hlen h
    refine ⟨(c :: val').length + 1, ?_⟩
    dsimp only
    rw [List.flatMap_cons, hc, List.cons_append, parseString, if_neg hquote]
    rw [List.flatMap_cons, hc, List.cons_append, List.length_cons] at hrun
    exact hrun

theorem tight_unparseString (val : Text) : Tight (unparseString val).1 := by
  unfold unparseString
  split_ifs with hnil
  · exact tight_plain (List.cons_ne_nil _ _) (plain_of_all rfl)
  · exact tight_string hnil

/-! ## Integers -/

theorem unsignedText_eq (n : Nat) : unsignedText n = Misc.text 10 n := rfl

theorem plain_digitByte {k : Nat} (h : k < 10) : Plain (Misc.digitByte k) ∧ Misc.digitByte k ≠ 39 := by
  have hall : ∀ k ∈ List.range 10, Plain (Misc.digitByte k) ∧ Misc.digitByte k ≠ 39 := by decide
  exact hall k (List.mem_range.mpr h)

theorem plain_unsignedText {n : Nat} (hc : c ∈ unsignedText n) : Plain c ∧ c ≠ 39 := by
  obtain ⟨k, hk, rfl⟩ := Misc.mem_text (show c ∈ Misc.text Misc.Base.ten.val n from hc)
  exact plain_digitByte hk

theorem plain_integerText {v : Int} (hc : c ∈ integerText v) : Plain c ∧ c ≠ 39 := by
  unfold integerText at hc
  split_ifs at hc
  · rcases List.mem_cons.mp hc with rfl | hc
    · exact ⟨by decide, by decide⟩
    · exact plain_unsignedText hc
  · exact plain_unsignedText hc

theorem integerText_ne_nil (v : Int) : integerText v ≠ [] := by
  unfold integerText
  split_ifs
  · exact List.cons_ne_nil _ _
  · exact Misc.text_ne_nil 10 _

theorem tight_integerText (v : Int) : Tight (integerText v) :=
  tight_plain (integerText_ne_nil v) fun _ hc => (plain_integerText hc).1

/-- The first digit is no zero, but for the number zero. -/
theorem unsignedText_cons {n : Nat} (h : 0 < n) : ∃ k s, unsignedText n = Misc.digitByte k :: s ∧ 0 < k ∧ k < 10 := by
  induction n using Nat.strongRecOn with
  | ind n ih =>
    by_cases hle : 10 ≤ n
    · obtain ⟨k, s, hs, hk⟩ := ih (n / 10) (by omega) (by omega)
      have htext : Misc.text Misc.Base.ten.val n = _ := Misc.text_of_le hle
      exact ⟨k, s ++ [Misc.digitByte (n % 10)], htext.trans (congrArg (· ++ _) hs), hk⟩
    · have htext : Misc.text Misc.Base.ten.val n = _ := Misc.text_of_lt (Nat.lt_of_not_le hle)
      exact ⟨n, [], htext, h, Nat.lt_of_not_le hle⟩

theorem unsignedNumeral_unsignedText (negative : Bool) (n : Nat) :
    unsignedNumeral negative (unsignedText n) = some ⟨negative, n, []⟩ := by
  by_cases h : 0 < n
  · obtain ⟨k, s, hs, hpos, hlt⟩ := unsignedText_cons h
    have hvalue : digit Misc.Base.ten.val (Misc.digitByte k) = some k := Misc.digit_digitByte hlt
    have hdigit : (digit 10 (Misc.digitByte k)).isSome = true := Option.isSome_of_eq_some hvalue
    have hzero : Misc.digitByte k ≠ 48 := by
      intro hz
      rw [hz] at hvalue
      cases hvalue
      exact absurd hpos (by decide)
    have hdigits : digits 10 0 (unsignedText n) = (n, []) := Misc.digits_text .ten n
    rw [hs] at hdigits ⊢
    rw [unsignedNumeral, if_neg hzero, if_pos hdigit]
    dsimp only
    rw [hdigits]
  · obtain rfl : n = 0 := Nat.eq_zero_of_not_pos h
    rfl

theorem signedNumeral_unsignedText (n : Nat) : signedNumeral (unsignedText n) = some ⟨false, n, []⟩ := by
  have hnumeral := unsignedNumeral_unsignedText false n
  have hread := Misc.reads_text .ten n
  obtain ⟨c, s, hs⟩ := List.exists_cons_of_ne_nil (Misc.text_ne_nil 10 n)
  have hc := (hread.plain (hs ▸ List.mem_cons_self : c ∈ Misc.text 10 n)).1
  simp only [List.mem_cons, not_or] at hc
  rw [unsignedText_eq, hs] at hnumeral ⊢
  rw [signedNumeral, if_neg hc.2.1, if_neg hc.2.2.1, hnumeral]

theorem numeral_integerText (v : Int) : numeral (integerText v) = some ⟨decide (v < 0), v.natAbs, []⟩ := by
  rw [numeral, (tight_integerText v).skip]
  unfold integerText
  by_cases hneg : v < 0
  · rw [if_pos hneg, signedNumeral, if_pos rfl, unsignedNumeral_unsignedText, decide_eq_true hneg]
  · rw [if_neg hneg, signedNumeral_unsignedText, decide_eq_false hneg]

theorem leadingNumber_integerText (v : Int) : leadingNumber (integerText v) = (v, []) := by
  have hvalue : (⟨decide (v < 0), v.natAbs, []⟩ : Numeral).value = v := by
    unfold Numeral.value
    by_cases hneg : v < 0 <;> simp only [hneg, decide_true, decide_false, if_true, Bool.false_eq_true, if_false] <;> omega
  rw [leadingNumber_some (numeral_integerText v), hvalue]
  show (v * 1, ([] : Text)) = _
  rw [Int.mul_one]

theorem suffixed_integerText (signed : Bool) (v : Int) : suffixed signed (integerText v) = false := by
  rw [suffixed, leadingNumber_integerText]
  exact Bool.and_false _

theorem leading_integerText (signed : Bool) (v : Int) : leading signed (integerText v) [] = v := by
  rw [leading_eq _ _ ended_nil, leadingNumber_integerText, suffixed_integerText]
  simp

variable {t : Scalar} {v : Int}

theorem fits_integerText (h : t.holds v) : fits t.signed (integerText v) := by
  intro n hn
  rw [numeral_integerText] at hn
  cases hn
  have hvalue : (if v < 0 then -(v.natAbs : Int) else v.natAbs) = v := by
    split_ifs <;> omega
  unfold Scalar.holds at h
  simp only [Numeral.value, decide_eq_true_eq, hvalue]
  cases t <;> simp only [Scalar.signed, Scalar.bits, if_true, Bool.false_eq_true, if_false] at h ⊢ <;> omega

theorem steady_integerText (t : Scalar) (v : Int) (p : Prop) : t.Steady (integerText v) p := by
  unfold Scalar.Steady
  rw [(tight_integerText v).skip, suffixed_integerText, suffixed_integerText]
  split_ifs
  · have hnot : ∀ s, integerText v ≠ 39 :: s := fun s hs =>
      (plain_integerText (hs ▸ List.mem_cons_self : (39 : UInt8) ∈ integerText v)).2 rfl
    rintro (hs | hs | hs)
    · exact absurd hs (hnot _)
    · exact absurd hs (hnot _)
    · cases hs
  · simp

/-- **An integer is read back** by the parser of a type that holds it. -/
theorem parseInteger_integerText (ht : t.isNumber = true) (hv : t.holds v) (h : Ended rest) :
    t.parseInteger (integerText v) rest = .ok v := by
  have halone : t.parseInteger (integerText v) [] = .ok v := by
    rw [Scalar.isNumber, Bool.or_eq_true, beq_iff_eq] at ht
    rcases ht with ht | rfl
    · rw [parseInteger_iff ht ended_nil.delimited, leading_integerText, wrapped_of_holds hv]
      exact ⟨fits_integerText hv, rfl, hv⟩
    · have hhead : (skipSpaces (integerText v ++ [])).head? ≠ some 39 := by
        rw [List.append_nil, (tight_integerText v).skip]
        intro hs
        exact (plain_integerText (List.mem_of_head? hs)).2 rfl
      show parseUChar (integerText v) [] = .ok v
      rw [parseUChar_number hhead, parseUNum_iff, List.append_nil, List.append_nil, (tight_integerText v).skip,
        leading_integerText]
      refine ⟨fits_integerText (t := .uchar) hv, (wrapped_of_holds (t := .uchar) hv).symm, hv.1, ?_⟩
      have hlt : v < 2 ^ 8 := hv.2
      omega
  have hsteady := (number_steady ht halone h).mpr (steady_integerText t v _)
  rwa [(tight_integerText v).skip] at hsteady

end OpenCpi.Value
