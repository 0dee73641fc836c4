import OpenCpi.Uri.Text

/-!
# Prefixes of URIs

A text is well formed when each percent sign begins an escape and every other character is ASCII, so that it
is a list of tokens. Decoding gives one byte for each token, and `isPrefix` compares token by token: the
split never falls into an escape.
-/

namespace OpenCpi.Util

/-! ## Tokens -/

/-- A character or an escape. -/
inductive Token where
  | char (c : UInt8) (plain : c ≠ percent) (ascii : c < 128)
  | escape (x1 x2 : UInt8) (hex1 : ishex x1 = true) (hex2 : ishex x2 = true)

def Token.text : Token → Text
  | .char c _ _ => [c]
  | .escape x1 x2 _ _ => [percent, x1, x2]

def Token.byte : Token → UInt8
  | .char c _ _ => c
  | .escape x1 x2 _ _ => toChar (escapeInt x1 x2)

def textOf (ts : List Token) : Text := ts.flatMap Token.text

/-- The text is ASCII and its escapes are complete. -/
def WellFormed (s : Text) : Prop := ∃ ts, textOf ts = s

theorem textOf_cons (t : Token) (ts : List Token) : textOf (t :: ts) = t.text ++ textOf ts :=
  List.flatMap_cons

theorem textOf_append (ts us : List Token) : textOf (ts ++ us) = textOf ts ++ textOf us :=
  List.flatMap_append

/-! ## Digits -/

/-- The three kinds of digits. -/
theorem hex_cases {x : UInt8} (hx : ishex x = true) :
    (48 ≤ x.toNat ∧ x.toNat ≤ 57 ∧ hexInt x = x.toNat - 48 ∧ (tolower x).toNat = x.toNat) ∨
      (65 ≤ x.toNat ∧ x.toNat ≤ 70 ∧ hexInt x = x.toNat - 55 ∧ (tolower x).toNat = x.toNat + 32) ∨
        (97 ≤ x.toNat ∧ x.toNat ≤ 102 ∧ hexInt x = x.toNat - 87 ∧ (tolower x).toNat = x.toNat) := by
  have hall : ∀ n < 256, ishex (UInt8.ofNat n) = true →
      (48 ≤ n ∧ n ≤ 57 ∧ hexInt (UInt8.ofNat n) = n - 48 ∧ (tolower (UInt8.ofNat n)).toNat = n) ∨
        (65 ≤ n ∧ n ≤ 70 ∧ hexInt (UInt8.ofNat n) = n - 55 ∧ (tolower (UInt8.ofNat n)).toNat = n + 32) ∨
          (97 ≤ n ∧ n ≤ 102 ∧ hexInt (UInt8.ofNat n) = n - 87 ∧ (tolower (UInt8.ofNat n)).toNat = n) := by
    decide +kernel
  have hn := hall x.toNat x.toNat_lt
  rw [UInt8.ofNat_toNat] at hn
  exact hn hx

theorem hexInt_eq {x : UInt8} (hx : ishex x = true) : ∃ v : Nat, v < 16 ∧ hexInt x = v := by
  rcases hex_cases hx with ⟨h1, h2, h3, -⟩ | ⟨h1, h2, h3, -⟩ | ⟨h1, h2, h3, -⟩
  · exact ⟨x.toNat - 48, by omega, by omega⟩
  · exact ⟨x.toNat - 55, by omega, by omega⟩
  · exact ⟨x.toNat - 87, by omega, by omega⟩

/-- Two digits have the same value when they are the same up to the case. -/
theorem hexInt_inj {x y : UInt8} (hx : ishex x = true) (hy : ishex y = true) :
    hexInt x = hexInt y ↔ tolower x = tolower y := by
  rw [← UInt8.toNat_inj]
  rcases hex_cases hx with ⟨h1, h2, h3, h4⟩ | ⟨h1, h2, h3, h4⟩ | ⟨h1, h2, h3, h4⟩ <;>
    rcases hex_cases hy with ⟨k1, k2, k3, k4⟩ | ⟨k1, k2, k3, k4⟩ | ⟨k1, k2, k3, k4⟩ <;> omega

theorem escapeInt_eq {x1 x2 : UInt8} {v w : Nat} (hv : hexInt x1 = v) (hw : hexInt x2 = w)
    (hlt : w < 16) : escapeInt x1 x2 = (16 * v + w : Nat) := by
  have hor : 16 * v + w = (v * 16) ||| w := by
    have h := Nat.two_pow_add_eq_or_of_lt (i := 4) hlt v
    rw [show (2 : Nat) ^ 4 = 16 from rfl] at h
    rw [h, Nat.mul_comm]
  unfold escapeInt
  rw [hv, hw, hor]
  rfl

/-- The byte of an escape is its value. -/
theorem escape_byte {x1 x2 : UInt8} (h1 : ishex x1 = true) (h2 : ishex x2 = true) :
    escapeInt x1 x2 = (toChar (escapeInt x1 x2)).toNat := by
  obtain ⟨v, hv, hx1⟩ := hexInt_eq h1
  obtain ⟨w, hw, hx2⟩ := hexInt_eq h2
  have hbyte : ((16 * v + w : Nat) : Int) % 256 = (16 * v + w : Nat) :=
    Int.emod_eq_of_lt (Int.natCast_nonneg _) (by omega)
  have hlt : 16 * v + w < 256 := by omega
  rw [escapeInt_eq hx1 hx2 hw]
  unfold toChar
  rw [hbyte, Int.toNat_natCast, UInt8.toNat_ofNat', Nat.mod_eq_of_lt hlt]

theorem toInt_ascii {c : UInt8} (hc : c < 128) : toInt c = c.toNat := if_pos hc

/-- An escape is compared with a character. -/
theorem escape_eq_char {x1 x2 c : UInt8} (h1 : ishex x1 = true) (h2 : ishex x2 = true) (hc : c < 128) :
    escapeInt x1 x2 = toInt c ↔ toChar (escapeInt x1 x2) = c := by
  rw [toInt_ascii hc, ← UInt8.toNat_inj]
  have hbyte := escape_byte h1 h2
  omega

/-- An escape is compared with an escape. -/
theorem escape_eq_escape {x1 x2 y1 y2 : UInt8} (hx1 : ishex x1 = true) (hx2 : ishex x2 = true)
    (hy1 : ishex y1 = true) (hy2 : ishex y2 = true) :
    (tolower x1 = tolower y1 ∧ tolower x2 = tolower y2) ↔
      toChar (escapeInt x1 x2) = toChar (escapeInt y1 y2) := by
  obtain ⟨v, hv, hv1⟩ := hexInt_eq hx1
  obtain ⟨w, hw, hw2⟩ := hexInt_eq hx2
  obtain ⟨v', hv', hv1'⟩ := hexInt_eq hy1
  obtain ⟨w', hw', hw2'⟩ := hexInt_eq hy2
  have hx := escape_byte hx1 hx2
  have hy := escape_byte hy1 hy2
  rw [escapeInt_eq hv1 hw2 hw] at hx
  rw [escapeInt_eq hv1' hw2' hw'] at hy
  rw [← hexInt_inj hx1 hy1, ← hexInt_inj hx2 hy2, hv1, hw2, hv1', hw2', ← UInt8.toNat_inj,
    escapeInt_eq hv1 hw2 hw, escapeInt_eq hv1' hw2' hw']
  omega

/-! ## Decoding -/

theorem decodeURI_char {c : UInt8} (hc : c ≠ percent) : ∀ s, decodeURI (c :: s) = c :: decodeURI s
  | [] => rfl
  | [_] => rfl
  | _ :: _ :: _ => if_neg fun h => hc h.1

theorem decodeURI_token (t : Token) (s : Text) : decodeURI (t.text ++ s) = t.byte :: decodeURI s := by
  cases t with
  | char c plain ascii => exact decodeURI_char plain s
  | escape x1 x2 hex1 hex2 => exact if_pos ⟨rfl, hex1, hex2⟩

theorem decodeURI_textOf (ts : List Token) : decodeURI (textOf ts) = ts.map Token.byte := by
  induction ts with
  | nil => rfl
  | cons t ts ih => rw [textOf_cons, decodeURI_token, ih, List.map_cons]

/-! ## The loop -/

/-- A turn compares two tokens. -/
theorem isPrefixLoop_token (t u : Token) (s r : Text) :
    isPrefixLoop (t.text ++ s) (u.text ++ r) =
      if t.byte = u.byte then (isPrefixLoop s r).map (· + t.text.length) else none := by
  cases t with
  | char c plain ascii =>
    cases u with
    | char d plain' ascii' =>
      show isPrefixLoop (c :: s) (d :: r) = if c = d then (isPrefixLoop s r).map (· + 1) else none
      conv_lhs => unfold isPrefixLoop
      rw [if_neg fun h => plain h.1, if_neg plain, if_neg plain', ite_not]
    | escape y1 y2 hex1' hex2' =>
      have hcompare := escape_eq_char hex1' hex2' ascii
      show isPrefixLoop (c :: s) (percent :: y1 :: y2 :: r) =
        if c = toChar (escapeInt y1 y2) then (isPrefixLoop s r).map (· + 1) else none
      conv_lhs => unfold isPrefixLoop
      rw [if_neg fun h => plain h.1, if_neg plain, if_pos rfl]
      dsimp only
      rw [ite_not]
      exact if_congr (hcompare.trans eq_comm) rfl rfl
  | escape x1 x2 hex1 hex2 =>
    cases u with
    | char d plain' ascii' =>
      have hcompare := escape_eq_char hex1 hex2 ascii'
      show isPrefixLoop (percent :: x1 :: x2 :: s) (d :: r) =
        if toChar (escapeInt x1 x2) = d then (isPrefixLoop s r).map (· + 3) else none
      conv_lhs => unfold isPrefixLoop
      rw [if_neg fun h => plain' h.2, if_pos rfl]
      dsimp only
      rw [ite_not]
      exact if_congr hcompare rfl rfl
    | escape y1 y2 hex1' hex2' =>
      have hcompare := escape_eq_escape hex1 hex2 hex1' hex2'
      show isPrefixLoop (percent :: x1 :: x2 :: s) (percent :: y1 :: y2 :: r) =
        if toChar (escapeInt x1 x2) = toChar (escapeInt y1 y2) then (isPrefixLoop s r).map (· + 3)
        else none
      rw [isPrefixLoop, if_pos ⟨rfl, rfl⟩]
      by_cases hsame : tolower x1 = tolower y1 ∧ tolower x2 = tolower y2
      · rw [if_neg (by rw [not_or, not_not, not_not]; exact hsame), if_pos (hcompare.mp hsame)]
      · rw [if_pos (not_and_or.mp hsame), if_neg fun heq => hsame (hcompare.mpr heq)]

theorem textOf_cons_ne_nil (t : Token) (ts : List Token) : ∃ c s, textOf (t :: ts) = c :: s := by
  rw [textOf_cons]
  cases t with
  | char c plain ascii => exact ⟨c, _, rfl⟩
  | escape x1 x2 hex1 hex2 => exact ⟨percent, _, rfl⟩

/-- The loop ends behind as many tokens as the second text has. -/
theorem isPrefixLoop_textOf : ∀ ts us : List Token, isPrefixLoop (textOf ts) (textOf us) =
    if us.map Token.byte <+: ts.map Token.byte then some (textOf (ts.take us.length)).length else none
  | ts, [] => by
    rw [List.map_nil, if_pos List.nil_prefix]
    cases textOf ts <;> rfl
  | [], u :: us => by
    obtain ⟨c, s, htext⟩ := textOf_cons_ne_nil u us
    have hnot : ¬(u :: us).map Token.byte <+: ([] : List Token).map Token.byte := by simp
    rw [if_neg hnot, htext]
    rfl
  | t :: ts, u :: us => by
    rw [textOf_cons, textOf_cons, isPrefixLoop_token, isPrefixLoop_textOf ts us, List.map_cons,
      List.map_cons]
    by_cases heq : t.byte = u.byte
    · rw [if_pos heq]
      by_cases hprefix : us.map Token.byte <+: ts.map Token.byte
      · rw [if_pos hprefix, if_pos (List.cons_prefix_cons.mpr ⟨heq.symm, hprefix⟩), Option.map_some,
          List.length_cons, List.take_succ_cons, textOf_cons, List.length_append, Nat.add_comm]
      · rw [if_neg hprefix, if_neg fun h => hprefix (List.cons_prefix_cons.mp h).2, Option.map_none]
    · rw [if_neg heq, if_neg fun h => heq (List.cons_prefix_cons.mp h).1.symm]

/-- **On well-formed texts `isPrefix` compares the decoded texts, and splits the first one where the
second one ends.** -/
theorem isPrefix_iff_decoded (fullURI baseURI : Text) (hfull : WellFormed fullURI)
    (hbase : WellFormed baseURI) :
    ((isPrefix fullURI baseURI).isSome = true ↔ decodeURI baseURI <+: decodeURI fullURI) ∧
      ∀ p tail, isPrefix fullURI baseURI = some (p, tail) →
        p ++ tail = fullURI ∧ decodeURI p = decodeURI baseURI := by
  obtain ⟨ts, rfl⟩ := hfull
  obtain ⟨us, rfl⟩ := hbase
  have hsplit : textOf ts = textOf (ts.take us.length) ++ textOf (ts.drop us.length) := by
    rw [← textOf_append, List.take_append_drop]
  unfold isPrefix
  rw [isPrefixLoop_textOf, decodeURI_textOf, decodeURI_textOf]
  by_cases hprefix : us.map Token.byte <+: ts.map Token.byte
  · rw [if_pos hprefix, Option.map_some]
    refine ⟨⟨fun _ => hprefix, fun _ => rfl⟩, fun p tail heq => ?_⟩
    have hbytes : (ts.take us.length).map Token.byte = us.map Token.byte := by
      rw [List.map_take, List.prefix_iff_eq_take.mp hprefix, List.length_map]
    cases heq
    refine ⟨List.take_append_drop _ _, ?_⟩
    rw [hsplit, List.take_left, decodeURI_textOf, hbytes]
  · rw [if_neg hprefix, Option.map_none]
    exact ⟨⟨fun hsome => absurd hsome Bool.false_ne_true, fun h => absurd h hprefix⟩,
      fun p tail heq => nomatch heq⟩

/-- `%41` and `A` -/
theorem isPrefix_iff_escaped : WellFormed [37, 52, 49, 66] ∧ WellFormed [65] ∧
    ((isPrefix [37, 52, 49, 66] [65]).isSome = true ↔
      decodeURI [65] <+: decodeURI [37, 52, 49, 66]) := by
  have hfull : WellFormed [37, 52, 49, 66] :=
    ⟨[.escape 52 49 (by decide) (by decide), .char 66 (by decide) (by decide)], rfl⟩
  have hbase : WellFormed [65] := ⟨[.char 65 (by decide) (by decide)], rfl⟩
  exact ⟨hfull, hbase, (isPrefix_iff_decoded _ _ hfull hbase).1⟩

/-- The text that may be a prefix is the second argument. -/
theorem base_first_not_prefix : ¬∀ base full, WellFormed base → WellFormed full →
    ((isPrefix base full).isSome = true ↔ decodeURI base <+: decodeURI full) := by
  intro h
  have hbase : WellFormed [65] := ⟨[.char 65 (by decide) (by decide)], rfl⟩
  have hfull : WellFormed [65, 66] :=
    ⟨[.char 65 (by decide) (by decide), .char 66 (by decide) (by decide)], rfl⟩
  exact absurd ((h [65] [65, 66] hbase hfull).mpr ⟨[66], rfl⟩) (by decide)

end OpenCpi.Util
