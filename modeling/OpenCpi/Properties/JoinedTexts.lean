import Mathlib.Data.List.Forall2
import OpenCpi.Properties.Element
import OpenCpi.Value.Datum

/-!
# Integers in a list and alone

A text that is accepted as an integer when it stands alone is put into a list with others, with commas
between them. The list is read right if each text keeps its place in it, and if no text has an end that the
parser reads differently there: it goes on reading to the end of the whole string.
-/

namespace OpenCpi.Value

open Infra

variable {strtod : Scalar → Text → Option Nat} {t : Scalar} {d : Decl} {text after s : Text} {ts : List Text}
  {n : Nat}

/-! ## The property and the condition -/

/-- The texts with commas between them. -/
def joined (ts : List Text) : Text := List.intercalate [44] ts

/-- The integer types. -/
def Scalar.isNumber (t : Scalar) : Bool := t.isInteger || t == .uchar

/-- A declaration without dimensions and not of a sequence. -/
def singleDecl : Decl where
  name := []
  arrayDimensions := []
  isSequence := false
  sequenceLength := 0

/-- Alone the text is accepted as a value of the type. -/
def Scalar.Reads (strtod : Scalar → Text → Option Nat) (t : Scalar) (text : Text) (v : Int) : Prop :=
  parseNew singleDecl (t.base strtod) text [] = .ok [.int v]

/-- Declarations for values with `n` elements: a sequence, or an array of this length. Lengths are counted
in 64 bits. -/
inductive Decl.Takes (d : Decl) (n : Nat) : Prop
  | sequence (hseq : d.isSequence = true) (hdims : d.arrayDimensions = [])
    (hbound : d.sequenceLength = 0 ∨ n ≤ d.sequenceLength) (hn : n < 2 ^ 64)
  | array (hseq : d.isSequence = false) (hdims : d.arrayDimensions = [n]) (hn : n < 2 ^ 64)

/-- Where the joined text stands: it is the whole string, or it is in the braces of the value of a member,
with something behind them. -/
inductive Place where
  | top
  | inside (after : Text)

def Place.behind : Place → Text
  | .top => []
  | .inside after => 125 :: after

/-- The text is an element wherever it stands: it has no comma outside of braces and no extra close brace,
and no open brace and no backslash are left at its end. -/
def whole : Nat → Bool → Text → Bool
  | nBraces, escape, [] => nBraces == 0 && !escape
  | nBraces, true, _ :: s => whole nBraces false s
  | nBraces, false, c :: s =>
    if c = 44 ∧ nBraces = 0 then false
    else if c = 92 then whole nBraces true s
    else if c = 125 ∧ nBraces = 0 then false
    else whole (bracesBehind c nBraces) false s

/-- What is read at the end of the text is the same as when it stands alone. An unsigned number with `-1`
behind it needs the end of the string there; so does a quote without a character. Only alone are blanks in
front of `K-1` read. -/
def Scalar.Steady (t : Scalar) (text : Text) (atEnd : Prop) : Prop :=
  if t = .uchar then
    (skipSpaces text = [39] ∨ skipSpaces text = [39, 92] ∨ suffixed false (skipSpaces text) = true) → atEnd
  else suffixed t.signed text = true ↔ suffixed t.signed (skipSpaces text) = true ∧ atEnd

/-- The only text is blank. -/
def Lone (ts : List Text) : Prop := ∃ text, ts = [text] ∧ skipSpaces text = []

/-- The condition on the texts. A single blank text is read as an empty sequence. In an array a blank text
is the end, unless it is the first, so nothing may be left over behind it. -/
structure Kept (t : Scalar) (d : Decl) (place : Place) (ts : List Text) : Prop where
  steady : ∀ front text back, ts = front ++ text :: back → t.Steady text (back = [] ∧ place.behind = [])
  sequence : d.isSequence = true → ¬Lone ts
  array : d.isSequence = false → ∀ front text back, ts = front ++ text :: back → front ≠ [] →
    skipSpaces text = [] → joined back = []

/-! ## One text of the list -/

/-- What stands behind a text: nothing, or a comma and the rest. -/
def ending : Option Text → Text
  | none => []
  | some rest => 44 :: rest

/-- The texts behind the first one. -/
def others : List Text → Option Text
  | [] => none
  | text :: ts => some (joined (text :: ts))

theorem joined_cons (text : Text) (ts : List Text) : joined (text :: ts) = text ++ ending (others ts) := by
  cases ts with
  | nil => rw [joined, List.intercalate_singleton, others, ending, List.append_nil]
  | cons text' ts =>
    rw [joined, List.intercalate_cons_cons, others, ending, List.append_assoc, List.singleton_append, joined]

theorem others_getD (ts : List Text) : (others ts).getD [] = joined ts := by
  cases ts <;> rfl

theorem skipSpaces_ending (rest : Option Text) : skipSpaces (ending rest) = ending rest := by
  cases rest <;> rfl

/-- The loop of `doElement` passes a whole text. -/
theorem scanElement_whole (rest : Option Text) : ∀ {nBraces : Nat} {escape : Bool} {s : Text},
    whole nBraces escape s = true →
      ∃ last, scanElement nBraces escape (s ++ ending rest) = .ok ⟨s, last, rest⟩
  | nBraces, escape, [], h => by
    rw [whole, Bool.and_eq_true, beq_iff_eq, Bool.not_eq_true'] at h
    obtain ⟨rfl, rfl⟩ := h
    cases rest <;> exact ⟨0, rfl⟩
  | nBraces, true, c :: s, h => by
    obtain ⟨last, hs⟩ := scanElement_whole rest (s := s) h
    refine ⟨last + 1, ?_⟩
    rw [List.cons_append, scanElement, hs]
    rfl
  | nBraces, false, c :: s, h => by
    rw [whole] at h
    split_ifs at h with hcomma hslash hbrace
    · obtain ⟨last, hs⟩ := scanElement_whole rest h
      refine ⟨last + 1, ?_⟩
      rw [List.cons_append, scanElement, if_neg hcomma, if_pos hslash, hs]
      rfl
    · obtain ⟨last, hs⟩ := scanElement_whole rest h
      refine ⟨if last = 0 then 0 else last + 1, ?_⟩
      rw [List.cons_append, scanElement, if_neg hcomma, if_neg hslash, if_neg hbrace, hs]
      rfl

theorem blank_ne {c c' : UInt8} (hc : isspace c = true) (hc' : isspace c' = false) : c ≠ c' := by
  rintro rfl
  exact absurd (hc.symm.trans hc') Bool.true_eq_false.mp

/-- Blanks in front do not matter. -/
theorem whole_skipSpaces : ∀ {s : Text}, whole 0 false s = true → whole 0 false (skipSpaces s) = true
  | [], h => h
  | c :: s, h => by
    by_cases hc : isspace c = true
    · rw [whole, if_neg fun hcomma => blank_ne hc rfl hcomma.1, if_neg (blank_ne hc rfl),
        if_neg fun hbrace => blank_ne hc rfl hbrace.1, bracesBehind, if_neg (blank_ne hc rfl),
        if_neg (blank_ne hc rfl)] at h
      rw [skipSpaces, List.dropWhile_cons_of_pos hc]
      exact whole_skipSpaces h
    · rw [skipSpaces, List.dropWhile_cons_of_neg hc]
      exact h

theorem head_skipSpaces {c : UInt8} {s : Text} (h : skipSpaces text = c :: s) : isspace c = false := by
  have hhead := List.head?_dropWhile_not isspace text
  rw [← skipSpaces, h] at hhead
  exact hhead

/-- The element that a text of the list is. -/
structure Placed (text : Text) (rest : Option Text) (e : Element) : Prop where
  split : e.text ++ e.follow = skipSpaces text ++ ending rest
  unparsed : e.unparsed = rest.getD []
  follow : skipSpaces e.follow = ending rest
  blank : e.text = [] ↔ skipSpaces text = []

theorem rdropWhile_ne_nil {c : UInt8} (hc : ¬isspace c = true) (s : Text) :
    (c :: s).rdropWhile isspace ≠ [] := fun h =>
  hc (List.rdropWhile_eq_nil_iff.mp h c List.mem_cons_self)

/-- `doElement` finds the text. -/
theorem doElement_whole (h : whole 0 false text = true) (rest : Option Text) :
    ∃ e, doElement (text ++ ending rest) = (none, e) ∧ Placed text rest e := by
  obtain ⟨last, hscan⟩ := scanElement_whole rest (whole_skipSpaces h)
  have hskip : skipSpaces (text ++ ending rest) = skipSpaces text ++ ending rest := by
    rw [skipSpaces_append, skipSpaces_ending]
    split
    · next hblank => rw [hblank, List.nil_append]
    · rfl
  have hfind : doElement (text ++ ending rest) = (none, (⟨skipSpaces text, last, rest⟩ : Scan).trim) := by
    rw [doElement, hskip, hscan]
  refine ⟨_, hfind, ?_, rfl, ?_, ?_⟩
  · exact (found_of_doElement hfind).split.symm.trans hskip
  · have htail : (⟨skipSpaces text, last, rest⟩ : Scan).tail = ending rest := by
      cases rest <;> rfl
    rw [Scan.trim, htail]
    exact (skipSpaces_blanks (fun c hc => List.mem_rtakeWhile_imp hc) _).trans (skipSpaces_ending rest)
  · constructor
    · intro hempty
      cases hs : skipSpaces text with
      | nil => rfl
      | cons c s =>
        have hc : ¬isspace c = true := Bool.not_eq_true _ ▸ head_skipSpaces hs
        rw [Scan.trim, hs, List.append_eq_nil_iff] at hempty
        cases last with
        | zero => exact absurd hempty.2 (rdropWhile_ne_nil hc s)
        | succ last => exact absurd hempty.1 (List.cons_ne_nil _ _)
    · intro hblank
      rw [Scan.trim, hblank]
      simp

/-! ## What is read of a text -/

/-- What may stand behind a text of the list. -/
def Ended (rest : Text) : Prop := ∀ c s, rest = c :: s → c = 44 ∨ c = 125

variable {rest : Text} {v : Int}

theorem Ended.skipSpaces (h : Ended rest) : skipSpaces rest = rest := by
  cases rest with
  | nil => rfl
  | cons c s =>
    rcases h c s rfl with rfl | rfl
    · rfl
    · rfl

theorem Ended.delimited (h : Ended rest) : Delimited rest := fun c s hs => h c s (h.skipSpaces ▸ hs)

theorem ended_nil : Ended [] := fun _ _ h => absurd h.symm (List.cons_ne_nil _ _)

/-- The parsers do not know where the text ends. -/
theorem parseInteger_congr {text' after' : Text} (h : text ++ after = text' ++ after') :
    t.parseInteger text after = t.parseInteger text' after' := by
  cases t <;> simp only [Scalar.parseInteger, parseShort, parseLong, parseLongLong, parseUShort, parseULong,
    parseULongLong, parseUChar, parseNum, parseUNum, h]

theorem skipSpaces_idem (text : Text) : skipSpaces (skipSpaces text) = skipSpaces text :=
  List.dropWhile_idempotent _ _

theorem numeral_skipSpaces (text : Text) : numeral (skipSpaces text) = numeral text := by
  rw [numeral, skipSpaces_idem, numeral]

theorem leadingNumber_skipSpaces (text : Text) : (leadingNumber (skipSpaces text)).1 = (leadingNumber text).1 := by
  unfold leadingNumber
  rw [numeral_skipSpaces]
  cases numeral text <;> rfl

/-- One less is another number, also in 64 bits. -/
theorem wrapped_sub_inj {signed : Bool} {p q : Prop} [Decidable p] [Decidable q] {n : Int}
    (h : p ∨ q → signed = false) :
    wrapped signed (n - if p then 1 else 0) = wrapped signed (n - if q then 1 else 0) ↔ (p ↔ q) := by
  by_cases hp : p <;> by_cases hq : q
  · simp [hp, hq]
  · have hs := h (.inl hp)
    simp only [hp, hq, hs, wrapped, if_true, if_false, Bool.false_eq_true, not_true_eq_false,
      iff_false]
    omega
  · have hs := h (.inr hq)
    simp only [hp, hq, hs, wrapped, if_true, if_false, Bool.false_eq_true, false_iff, not_true_eq_false,
      iff_false]
    omega
  · simp [hp, hq]

theorem leading_eq (signed : Bool) (text : Text) (h : Ended rest) : leading signed text rest =
    (leadingNumber text).1 - if suffixed signed text = true ∧ rest = [] then 1 else 0 := by
  rw [leading, h.skipSpaces]
  simp only [Bool.and_eq_true, List.isEmpty_iff]

/-- **An integer in its place** is what it is alone if the text is steady there. -/
theorem parseInteger_steady (ht : t.isInteger = true) (halone : t.parseInteger text [] = .ok v) (h : Ended rest) :
    t.parseInteger (skipSpaces text) rest = .ok v ↔ t.Steady text (rest = []) := by
  have huchar : t ≠ .uchar := by
    rintro rfl
    cases ht
  obtain ⟨hfits, hv, hholds⟩ := (parseInteger_iff ht ended_nil.delimited v).mp halone
  have hfits' : fits t.signed (skipSpaces text) := by
    rw [fits, numeral_skipSpaces]
    exact hfits
  rw [leading_eq _ _ ended_nil] at hv
  have hread : v = wrapped t.signed (leading t.signed (skipSpaces text) rest) ↔
      (suffixed t.signed text = true ∧ ([] : Text) = [] ↔ suffixed t.signed (skipSpaces text) = true ∧ rest = []) := by
    rw [leading_eq _ _ h, leadingNumber_skipSpaces, hv]
    refine wrapped_sub_inj ?_
    rintro (hs | hs)
    · exact signed_of_suffixed hs.1
    · exact signed_of_suffixed hs.1
  rw [parseInteger_iff ht h.delimited, hread, Scalar.Steady, if_neg huchar, and_iff_left rfl]
  exact ⟨fun h => h.2.1, fun h => ⟨hfits', h, hholds⟩⟩

theorem parseUChar_number (h : (skipSpaces (text ++ after)).head? ≠ some 39) :
    parseUChar text after = parseUNum (2 ^ 8 - 1) "bad UChar value" (skipSpaces (text ++ after)) [] := by
  unfold parseUChar
  cases hs : skipSpaces (text ++ after) with
  | nil => rfl
  | cons c s =>
    rw [hs] at h
    exact if_neg fun hc => h (congrArg some hc)

/-- The character behind a quote; the NUL at the end of the string. -/
def quoted : Text → Int
  | [] => 0
  | c :: s => if c = 92 then ((s.headD 0).toNat : Int) else (c.toNat : Int)

theorem parseUChar_quote (h : skipSpaces (text ++ after) = 39 :: s) : parseUChar text after = .ok (quoted s) := by
  unfold parseUChar quoted
  rw [h]
  cases s with
  | nil => rfl
  | cons c s => exact (apply_ite Except.ok (c = 92) _ _).symm

/-- Behind a quote only a character that is missing makes a difference. -/
theorem quoted_append (h : Ended rest) : quoted (s ++ rest) = quoted s ↔ (s = [] ∨ s = [92] → rest = []) := by
  cases rest with
  | nil => simp
  | cons c rest =>
    have hc : c ≠ 92 ∧ c.toNat ≠ 0 := by
      rcases h c rest rfl with rfl | rfl
      · exact ⟨by decide, by decide⟩
      · exact ⟨by decide, by decide⟩
    rcases s with _ | ⟨b, _ | ⟨b', s⟩⟩
    · simp [quoted, hc]
    · by_cases hb : b = 92
      · simp [quoted, hb, hc]
      · simp [quoted, hb]
    · simp [quoted]

theorem suffixed_quote : suffixed false (39 :: s) = false := rfl

/-- `UChar` alike. -/
theorem parseUChar_steady (halone : parseUChar text [] = .ok v) (h : Ended rest) :
    parseUChar (skipSpaces text) rest = .ok v ↔ Scalar.uchar.Steady text (rest = []) := by
  have hu : skipSpaces (text ++ []) = skipSpaces text := by rw [List.append_nil]
  have hboth : skipSpaces (skipSpaces text ++ rest) = skipSpaces text ++ rest := by
    rw [skipSpaces_append, skipSpaces_idem, h.skipSpaces]
    split
    · next hblank => rw [hblank, List.nil_append]
    · rfl
  rw [Scalar.Steady, if_pos rfl]
  by_cases hq : (skipSpaces text).head? = some 39
  · obtain ⟨s, hs⟩ := List.head?_eq_some_iff.mp hq
    have hs' : skipSpaces (skipSpaces text ++ rest) = 39 :: (s ++ rest) := by rw [hboth, hs, List.cons_append]
    rw [parseUChar_quote (hu.trans hs), Except.ok.injEq] at halone
    rw [parseUChar_quote hs', Except.ok.injEq, ← halone, quoted_append h, hs, suffixed_quote]
    simp
  · have hq' : (skipSpaces text ++ rest).head? ≠ some 39 := by
      cases hs : skipSpaces text with
      | nil =>
        intro hrest
        obtain ⟨s, rfl⟩ := List.head?_eq_some_iff.mp hrest
        rcases h 39 s rfl with hc | hc
        · cases hc
        · cases hc
      | cons c s =>
        rw [hs] at hq
        exact hq
    rw [parseUChar_number (by rwa [hu]), hu, parseUNum_iff, List.append_nil, leading_eq _ _ ended_nil] at halone
    rw [parseUChar_number (by rwa [hboth]), hboth, parseUNum_iff, List.append_nil, fits_append h.delimited,
      leading_append h.delimited, leading_eq _ _ h]
    obtain ⟨hfits, hv, hrange⟩ := halone
    have hread : v = wrapped false ((leadingNumber (skipSpaces text)).1 -
          if suffixed false (skipSpaces text) = true ∧ rest = [] then 1 else 0) ↔
        (suffixed false (skipSpaces text) = true ∧ ([] : Text) = [] ↔
          suffixed false (skipSpaces text) = true ∧ rest = []) := by
      rw [hv]
      exact wrapped_sub_inj fun _ => rfl
    have hne : skipSpaces text ≠ [39] ∧ skipSpaces text ≠ [39, 92] := by
      constructor <;> intro hs <;> exact hq (by rw [hs]; rfl)
    rw [hread]
    constructor
    · rintro ⟨-, hends, -⟩ (hs | hs | hs)
      · exact absurd hs hne.1
      · exact absurd hs hne.2
      · exact (hends.mp ⟨hs, rfl⟩).2
    · exact fun hends => ⟨hfits, ⟨fun hs => ⟨hs.1, hends (.inr (.inr hs.1))⟩, fun hs => ⟨hs.1, rfl⟩⟩, hrange⟩

/-- **A number in its place.** -/
theorem number_steady (ht : t.isNumber = true) (halone : t.parseInteger text [] = .ok v) (h : Ended rest) :
    t.parseInteger (skipSpaces text) rest = .ok v ↔ t.Steady text (rest = []) := by
  rw [Scalar.isNumber, Bool.or_eq_true, beq_iff_eq] at ht
  rcases ht with ht | rfl
  · exact parseInteger_steady ht halone h
  · exact parseUChar_steady halone h

/-! ## What is read of the list -/

/-- The numbers that a sequence gets. -/
def readings (t : Scalar) (after : Text) : List Text → Except String (List Int)
  | [] => .ok []
  | text :: ts => do
    let x ← t.parseInteger (skipSpaces text) (ending (others ts) ++ after)
    let xs ← readings t after ts
    return x :: xs

/-- The numbers that an array gets, and what is left over behind a blank text. -/
def arrayReadings (t : Scalar) (after : Text) : Bool → List Text → Except String (List Int × Text)
  | _, [] => .ok ([], [])
  | first, text :: ts =>
    if !first && (skipSpaces text).isEmpty then .ok ([], joined ts)
    else do
      let x ← t.parseInteger (skipSpaces text) (ending (others ts) ++ after)
      let r ← arrayReadings t after false ts
      return (x :: r.1, r.2)

theorem readings_cons {zs : List Int} : readings t after (text :: ts) = .ok zs ↔
    ∃ x xs, t.parseInteger (skipSpaces text) (ending (others ts) ++ after) = .ok x ∧
      readings t after ts = .ok xs ∧ zs = x :: xs := by
  rw [readings]
  cases t.parseInteger (skipSpaces text) (ending (others ts) ++ after) with
  | error e => exact ⟨fun h => (by cases h), fun ⟨_, _, h, _⟩ => (by cases h)⟩
  | ok x =>
    cases readings t after ts with
    | error e => exact ⟨fun h => (by cases h), fun ⟨_, _, _, h, _⟩ => (by cases h)⟩
    | ok xs =>
      constructor
      · intro h
        cases h
        exact ⟨x, xs, rfl, rfl, rfl⟩
      · rintro ⟨x', xs', hx, hxs, rfl⟩
        cases hx
        cases hxs
        rfl

theorem arrayReadings_blank (hblank : skipSpaces text = []) :
    arrayReadings t after false (text :: ts) = .ok ([], joined ts) := by
  rw [arrayReadings, hblank]
  rfl

theorem arrayReadings_cons {first : Bool} (h : first = true ∨ skipSpaces text ≠ []) {r : List Int × Text} :
    arrayReadings t after first (text :: ts) = .ok r ↔
      ∃ x r', t.parseInteger (skipSpaces text) (ending (others ts) ++ after) = .ok x ∧
        arrayReadings t after false ts = .ok r' ∧ r = (x :: r'.1, r'.2) := by
  have hgo : ¬(!first && (skipSpaces text).isEmpty) = true := by
    rcases h with rfl | h
    · exact Bool.false_ne_true
    · simp [h]
  rw [arrayReadings, if_neg hgo]
  cases t.parseInteger (skipSpaces text) (ending (others ts) ++ after) with
  | error e => exact ⟨fun h => (by cases h), fun ⟨_, _, h, _⟩ => (by cases h)⟩
  | ok x =>
    cases arrayReadings t after false ts with
    | error e => exact ⟨fun h => (by cases h), fun ⟨_, _, _, h, _⟩ => (by cases h)⟩
    | ok r' =>
      constructor
      · intro h
        cases h
        exact ⟨x, r', rfl, rfl, rfl⟩
      · rintro ⟨x', r'', hx, hr, rfl⟩
        cases hx
        cases hr
        rfl

/-- The base type of the integers. -/
def Scalar.intBase (t : Scalar) : Base Datum where
  zero := .int 0
  parse text after := single .int (t.parseInteger text after)

theorem base_number (ht : t.isNumber = true) : t.base strtod = t.intBase := by
  cases t with
  | bool | char | double | float => cases ht
  | _ => rfl

section

variable {v : ValueState Datum} {items : List Datum} (hvector : d.isVector = true)

include hvector

theorem ends_storeItem (hitems : v.items = .array items) (index : Nat) (x : Datum) :
    Exc.Ends (fun _ w => w.items = .array (items.set index x)) (fun _ _ => False) (storeItem d index x) v := by
  unfold storeItem
  rw [Exc.ends_read_bind, if_pos hvector, hitems]
  rfl

/-- A value is put into its place. -/
theorem ends_parseValue (hitems : v.items = .array items) (text after : Text) (nSeq nArray : Nat) :
    Exc.Ends (fun _ w => ∃ x, t.parseInteger text after = .ok x ∧
        w.items = .array (items.set (nSeq * d.nItems + nArray) (.int x)))
      (fun _ _ => ∀ x, t.parseInteger text after ≠ .ok x) (parseValue d t.intBase text after nSeq nArray) v := by
  unfold parseValue
  cases hread : t.parseInteger text after with
  | error e =>
    simp only [Scalar.intBase, hread, single]
    intro x hx
    cases hx
  | ok x =>
    simp only [Scalar.intBase, hread, single]
    rw [Exc.ends_change_bind]
    exact (ends_storeItem hvector hitems _ _).imp (fun _ w hw => ⟨x, rfl, hw⟩) fun _ _ h => h.elim

/-- **The loop over a sequence** puts the numbers behind those before. -/
theorem ends_sequenceLoop (hdims : d.arrayDimensions = []) (after : Text) : ∀ {ts : List Text} {pre junk : List Datum}
    {v : ValueState Datum}, (∀ text ∈ ts, whole 0 false text = true) → v.items = .array (pre ++ junk) →
      junk.length = ts.length →
    Exc.Ends (fun _ w => ∃ xs, readings t after ts = .ok xs ∧ w.items = .array (pre ++ xs.map .int))
      (fun _ _ => ∀ xs, readings t after ts ≠ .ok xs)
      (sequenceLoop d t.intBase after ts.length pre.length (joined ts)) v
  | [], pre, junk, v, _, hitems, hlen => by
    rw [List.eq_nil_of_length_eq_zero hlen] at hitems
    exact ⟨[], rfl, hitems⟩
  | text :: ts, pre, [], v, _, _, hlen => by cases hlen
  | text :: ts, pre, old :: junk, v, hwhole, hitems, hlen => by
    obtain ⟨htext, hts⟩ := List.forall_mem_cons.mp hwhole
    obtain ⟨e, he, hplaced⟩ := doElement_whole htext (others ts)
    have hread : t.parseInteger e.text (e.follow ++ after) =
        t.parseInteger (skipSpaces text) (ending (others ts) ++ after) :=
      parseInteger_congr (by rw [← List.append_assoc, hplaced.split, List.append_assoc])
    have helement : sequenceElement d t.intBase e.text (e.follow ++ after) pre.length =
        parseValue d t.intBase e.text (e.follow ++ after) pre.length 0 := by
      unfold sequenceElement needsCommaElement parseElement
      rw [hdims]
      rfl
    have hindex : pre.length * d.nItems + 0 = pre.length := by
      rw [Decl.nItems, hdims, List.prod_nil]
      omega
    rw [joined_cons, List.length_cons, sequenceLoop, he]
    dsimp only
    rw [helement, hplaced.unparsed, others_getD]
    refine (ends_parseValue hvector hitems _ _ _ _).seq ?_ ?_
    · intro err w hfail zs hzs
      obtain ⟨x, xs, hx, -⟩ := readings_cons.mp hzs
      exact hfail x (hread.trans hx)
    · rintro - w ⟨x, hx, hw⟩
      rw [hindex, List.set_append_right _ _ (Nat.le_refl _), Nat.sub_self, List.set_cons_zero,
        ← List.singleton_append, ← List.append_assoc] at hw
      have ih := ends_sequenceLoop hdims after hts hw (Nat.succ.inj hlen)
      rw [List.length_append, List.length_singleton] at ih
      refine ih.imp ?_ ?_
      · rintro - w' ⟨xs, hxs, hw'⟩
        refine ⟨x :: xs, readings_cons.mpr ⟨x, xs, hread.symm.trans hx, hxs, rfl⟩, ?_⟩
        rw [hw', List.append_assoc]
        rfl
      · intro err w' hfail zs hzs
        obtain ⟨x', xs, -, hxs, -⟩ := readings_cons.mp hzs
        exact hfail xs hxs

/-- **The loop over an array** puts the numbers into the places from the first one on. -/
theorem ends_dimensionLoop {body : Text → Text → Nat → ParseM Datum Unit}
    (hbody : ∀ text after offset, body text after offset = parseValue d t.intBase text after 0 offset)
    (after : Text) : ∀ {ts : List Text} (first : Bool) {pre junk : List Datum} {v : ValueState Datum},
      (∀ text ∈ ts, whole 0 false text = true) → v.items = .array (pre ++ junk) → junk.length = ts.length →
    Exc.Ends (fun excess w => ∃ xs, arrayReadings t after first ts = .ok (xs, excess) ∧
        w.items = .array (pre ++ xs.map .int ++ junk.drop xs.length))
      (fun _ _ => ∀ r, arrayReadings t after first ts ≠ .ok r)
      (dimensionLoop body 1 after ts.length first pre.length (joined ts)) v
  | [], first, pre, junk, v, _, hitems, hlen => by
    rw [List.eq_nil_of_length_eq_zero hlen] at hitems ⊢
    refine ⟨[], rfl, ?_⟩
    rw [hitems, List.map_nil, List.drop_nil, List.append_nil, List.append_nil]
  | text :: ts, first, pre, [], v, _, _, hlen => by cases hlen
  | text :: ts, first, pre, old :: junk, v, hwhole, hitems, hlen => by
    obtain ⟨htext, hts⟩ := List.forall_mem_cons.mp hwhole
    obtain ⟨e, he, hplaced⟩ := doElement_whole htext (others ts)
    have hread : t.parseInteger e.text (e.follow ++ after) =
        t.parseInteger (skipSpaces text) (ending (others ts) ++ after) :=
      parseInteger_congr (by rw [← List.append_assoc, hplaced.split, List.append_assoc])
    rw [joined_cons, List.length_cons, dimensionLoop, he]
    dsimp only
    rw [hplaced.unparsed, others_getD]
    by_cases hblank : first = false ∧ skipSpaces text = []
    · obtain ⟨rfl, hblank⟩ := hblank
      rw [hplaced.blank.mpr hblank]
      refine ⟨[], arrayReadings_blank hblank, ?_⟩
      rw [hitems, List.map_nil, List.append_nil]
      rfl
    · have hgo : first = true ∨ skipSpaces text ≠ [] := by
        cases first with
        | true => exact Or.inl rfl
        | false => exact Or.inr fun h => hblank ⟨rfl, h⟩
      have hnot : ¬(!first && e.text.isEmpty) = true := by
        rcases hgo with rfl | hgo
        · exact Bool.false_ne_true
        · simp [hplaced.blank, hgo]
      rw [if_neg hnot, hbody]
      refine (ends_parseValue hvector hitems _ _ _ _).seq ?_ ?_
      · intro err w hfail r hr
        obtain ⟨x, r', hx, -⟩ := (arrayReadings_cons hgo).mp hr
        exact hfail x (hread.trans hx)
      · rintro - w ⟨x, hx, hw⟩
        rw [Nat.zero_mul, Nat.zero_add, List.set_append_right _ _ (Nat.le_refl _), Nat.sub_self,
          List.set_cons_zero, ← List.singleton_append, ← List.append_assoc] at hw
        have ih := ends_dimensionLoop hbody after false hts hw (Nat.succ.inj hlen)
        rw [List.length_append, List.length_singleton] at ih
        refine ih.imp ?_ ?_
        · rintro excess w' ⟨xs, hxs, hw'⟩
          refine ⟨x :: xs, (arrayReadings_cons hgo).mpr ⟨x, _, hread.symm.trans hx, hxs, rfl⟩, ?_⟩
          rw [hw', List.append_assoc pre]
          rfl
        · intro err w' hfail r hr
          obtain ⟨x', r', -, hr', -⟩ := (arrayReadings_cons hgo).mp hr
          exact hfail r' hr'

end

/-! ## The whole value -/

theorem length_le_joined : ∀ ts : List Text, ts.length ≤ (joined ts).length + 1
  | [] => Nat.zero_le _
  | text :: ts => by
    have ih := length_le_joined ts
    rw [joined_cons, List.length_cons, List.length_append]
    cases ts with
    | nil => exact Nat.succ_le_succ (Nat.zero_le _)
    | cons text' ts =>
      simp only [others, ending, List.length_cons] at ih ⊢
      omega

/-- The first pass counts the texts, and knows the length of the last one. -/
theorem countElements_joined : ∀ {ts : List Text} {fuel : Nat} {v : ValueState Datum}, ts ≠ [] →
    (∀ text ∈ ts, whole 0 false text = true) → ts.length ≤ fuel →
    ∃ len, countElements fuel (joined ts) v = (.ok len, { v with nElements := v.nElements + ts.length }) ∧
      ∀ text, ts = [text] → (len = 0 ↔ skipSpaces text = [])
  | [], _, _, hne, _, _ => absurd rfl hne
  | text :: ts, 0, _, _, _, hfuel => absurd hfuel (Nat.not_succ_le_zero _)
  | text :: ts, fuel + 1, v, _, hwhole, hfuel => by
    obtain ⟨htext, hts⟩ := List.forall_mem_cons.mp hwhole
    obtain ⟨e, he, hplaced⟩ := doElement_whole htext (others ts)
    rw [joined_cons, countElements, he]
    dsimp only
    rw [hplaced.follow]
    cases ts with
    | nil =>
      refine ⟨e.text.length, rfl, ?_⟩
      rintro _ ⟨⟩
      rw [← hplaced.blank, List.length_eq_zero_iff]
    | cons text' ts =>
      obtain ⟨len, hrun, -⟩ := countElements_joined (v := { v with nElements := v.nElements + 1 })
        (List.cons_ne_nil text' ts) hts (Nat.le_of_succ_le_succ hfuel)
      refine ⟨len, ?_, fun _ h => by cases h⟩
      rw [hplaced.unparsed, others_getD]
      refine Eq.trans hrun ?_
      show _ = (Except.ok len, { v with nElements := v.nElements + ((text' :: ts).length + 1) })
      rw [Nat.add_assoc, Nat.add_comm 1]

/-- A sequence gets as many elements as there are texts. -/
theorem elementCount_joined (hseq : d.isSequence = true) (hne : ts ≠ [])
    (hwhole : ∀ text ∈ ts, whole 0 false text = true) (hlone : ¬Lone ts) (v : ValueState Datum) :
    elementCount d (joined ts) false v = (.ok (), { v with nElements := ts.length }) := by
  obtain ⟨len, hrun, hlast⟩ := countElements_joined (v := { v with nElements := 0 }) hne hwhole (length_le_joined ts)
  unfold elementCount
  rw [if_neg Bool.false_ne_true, if_pos hseq, Exc.run_change_bind, Exc.run_bind_ok hrun]
  unfold Exc.change
  dsimp only
  rw [Nat.zero_add, if_neg]
  rintro ⟨hone, hzero⟩
  obtain ⟨text, hts⟩ := List.length_eq_one_iff.mp hone
  exact hlone ⟨text, hts, (hlast text hts).mp hzero⟩

/-- And none if the only one is blank. -/
theorem elementCount_lone (hseq : d.isSequence = true) (hwhole : ∀ text ∈ ts, whole 0 false text = true)
    (hlone : Lone ts) (v : ValueState Datum) :
    elementCount d (joined ts) false v = (.ok (), { v with nElements := 0 }) := by
  obtain ⟨text, hts, hblank⟩ := hlone
  have hne : ts ≠ [] := hts ▸ List.cons_ne_nil _ _
  obtain ⟨len, hrun, hlast⟩ := countElements_joined (v := { v with nElements := 0 }) hne hwhole (length_le_joined ts)
  unfold elementCount
  rw [if_neg Bool.false_ne_true, if_pos hseq, Exc.run_change_bind, Exc.run_bind_ok hrun]
  unfold Exc.change
  dsimp only
  rw [if_pos ⟨by simp [hts], (hlast text hts).mpr hblank⟩]

theorem elementCount_single (text : Text) (hseq : ¬d.isSequence = true) (v : ValueState Datum) (hv : v.nElements = 0) :
    elementCount d text false v = (.ok (), { v with nElements := 0 }) := by
  unfold elementCount
  rw [if_neg Bool.false_ne_true, if_neg hseq, ← hv]
  rfl

theorem clear_new (d : Decl) : clear d ({} : ValueState Datum) = (.ok (), {}) := by
  unfold clear
  rw [Exc.run_read_bind]
  show (onlyIf (({} : ValueState Datum).nTotal ≠ 0 ∧ d.isVector = true) clearItems : ParseM Datum Unit) {} = _
  unfold onlyIf
  rw [if_neg fun h => h.1 rfl]
  rfl

/-- The space for strings does not touch the items. -/
theorem stringSpace_new (base : Base Datum) (length : Nat) : ∃ w : ValueState Datum, w.nElements = 0 ∧ w.items = .null ∧
    onlyIf (base.isString = true) (stringSpace d length false) ({} : ValueState Datum) = (.ok (), w) := by
  unfold onlyIf
  split
  · refine ⟨{ stringSpaceLength := 0 + (length + 1), stringNext := 0 }, rfl, rfl, ?_⟩
    unfold stringSpace
    rw [Exc.run_read_bind, Bool.false_and, if_neg Bool.false_ne_true]
    rfl
  · exact ⟨{}, rfl, rfl, rfl⟩

/-- The array of items is new. -/
theorem allocate_zeros (base : Base Datum) {v : ValueState Datum} (hn : d.isSequence = true → v.nElements ≠ 0)
    (hbound : d.isSequence = true → d.sequenceLength ≠ 0 → v.nElements ≤ d.sequenceLength) :
    ∃ w : ValueState Datum, allocate d base false v = (.ok (), w) ∧ w.nElements = v.nElements ∧
      (d.isVector = true → w.items = .array (List.replicate v.nTotal base.zero)) := by
  have hitems : onlyIf (d.isVector = true) (allocateItems base false) v = (.ok (),
      if d.isVector = true then { v with items := .array (List.replicate v.nTotal base.zero) } else v) := by
    unfold onlyIf
    split <;> rfl
  unfold allocate
  rw [Exc.run_read_bind, if_neg (by simpa using hn), if_neg (by simpa using hbound), Exc.run_bind_ok hitems,
    Exc.run_change_bind]
  unfold allocateStructs onlyIf
  rw [Bool.and_false, if_neg Bool.false_ne_true]
  by_cases hvector : d.isVector = true
  · rw [if_pos hvector]
    split
    · exact ⟨_, rfl, rfl, fun _ => rfl⟩
    · exact ⟨_, rfl, rfl, fun _ => rfl⟩
  · rw [if_neg hvector]
    split
    · exact ⟨_, rfl, rfl, fun h => absurd h hvector⟩
    · exact ⟨_, rfl, rfl, fun h => absurd h hvector⟩

/-- `parse` up to the elements. -/
theorem parse_run (text after : Text) (base : Base Datum) {n total : Nat}
    (hcount : ∀ v : ValueState Datum, v.nElements = 0 → elementCount d text false v = (.ok (), { v with nElements := n }))
    (hn : d.isSequence = true → n ≠ 0) (hbound : d.isSequence = true → d.sequenceLength ≠ 0 → n ≤ d.sequenceLength)
    (htotal : d.nItems * (if d.isSequence then n else 1) % 2 ^ 64 = total) :
    ∃ w : ValueState Datum, parse d base text after false {} = (do
        parseElements d base text after false
        Exc.change fun v => { v with parsed := true } : ParseM Datum Unit) w ∧
      w.nElements = n ∧ (d.isVector = true → w.items = .array (List.replicate total base.zero)) := by
  obtain ⟨w, hw, -, hspace⟩ := stringSpace_new (d := d) base text.length
  obtain ⟨w', hallocate, hn', hitems⟩ :=
    allocate_zeros (v := { w with nElements := n, nTotal := total }) base hn hbound
  refine ⟨w', ?_, hn', hitems⟩
  unfold parse
  rw [show onlyIf (false = false) (clear d) = (clear d : ParseM Datum Unit) from if_pos rfl,
    Exc.run_bind_ok (clear_new d), Exc.run_bind_ok hspace, Exc.run_bind_ok (hcount w hw), Exc.run_change_bind]
  dsimp only
  rw [htotal]
  exact Exc.run_bind_ok hallocate

/-- What is known of the run is known of the result. -/
theorem of_parse {base : Base Datum} {R : Except Failure (List Datum) → Prop}
    (h : Exc.Ends (fun _ w => R (.ok (w.contents d))) (fun e _ => R (.error e)) (parse d base text after false) {}) :
    R (parseNew d base text after) := by
  unfold Exc.Ends at h
  unfold parseNew
  rcases hrun : parse d base text after false {} with ⟨⟨e⟩ | ⟨u⟩, w⟩
  · rw [hrun] at h
    exact h
  · rw [hrun] at h
    exact h

theorem map_int_inj {xs zs : List Int} : xs.map Datum.int = zs.map Datum.int ↔ xs = zs :=
  (List.map_injective_iff.mpr fun _ _ h => Datum.int.inj h).eq_iff

/-- **A sequence** gets the readings of its texts. -/
theorem parseNew_sequence (hseq : d.isSequence = true) (hdims : d.arrayDimensions = [])
    (hbound : d.sequenceLength = 0 ∨ ts.length ≤ d.sequenceLength) (hn : ts.length < 2 ^ 64) (hne : ts ≠ [])
    (hwhole : ∀ text ∈ ts, whole 0 false text = true) (hlone : ¬Lone ts) (zs : List Int) :
    parseNew d t.intBase (joined ts) after = .ok (zs.map .int) ↔ readings t after ts = .ok zs := by
  have hvector : d.isVector = true := by rw [Decl.isVector, hseq, Bool.true_or]
  have htotal : d.nItems * (if d.isSequence then ts.length else 1) % 2 ^ 64 = ts.length := by
    rw [if_pos hseq, Decl.nItems, hdims, List.prod_nil]
    omega
  obtain ⟨w, hrun, hw, hitems⟩ := parse_run (joined ts) after t.intBase
    (fun v _ => elementCount_joined hseq hne hwhole hlone v) (fun _ => by simpa using hne)
    (fun _ hb => hbound.resolve_left hb) htotal
  refine of_parse (R := fun r => r = .ok (zs.map .int) ↔ readings t after ts = .ok zs) ?_
  unfold Exc.Ends
  rw [hrun]
  change Exc.Ends _ _ _ _
  unfold parseElements
  refine Exc.Ends.bind (P := fun _ w => ∃ xs, readings t after ts = .ok xs ∧ w.items = .array (xs.map .int)) ?_ ?_
  · rw [Exc.ends_read_bind, if_pos hseq, if_neg Bool.false_ne_true, hw]
    have hzeros : w.items = .array ([] ++ List.replicate ts.length t.intBase.zero) := hitems hvector
    refine (ends_sequenceLoop hvector hdims after hwhole hzeros List.length_replicate).imp ?_ ?_
    · exact fun _ w h => h
    · intro e w hfail
      exact ⟨fun h => (by cases h), fun h => absurd h (hfail zs)⟩
  · rintro - w ⟨xs, hxs, hw⟩
    change Except.ok (ValueState.contents d { w with parsed := true }) = _ ↔ _
    unfold ValueState.contents
    rw [if_pos hvector, hw, Except.ok.injEq, map_int_inj, hxs, Except.ok.injEq]

/-- An array gets the readings up to a blank text, and behind them zeros, if nothing is left over. -/
theorem parseNew_array (hseq : d.isSequence = false) (hdims : d.arrayDimensions = [ts.length]) (hn : ts.length < 2 ^ 64)
    (hne : ts ≠ []) (hwhole : ∀ text ∈ ts, whole 0 false text = true) (zs : List Int) :
    parseNew d t.intBase (joined ts) after = .ok (zs.map .int) ↔
      ∃ xs, arrayReadings t after true ts = .ok (xs, []) ∧ zs = xs ++ List.replicate (ts.length - xs.length) 0 := by
  have hvector : d.isVector = true := by
    rw [Decl.isVector, hdims]
    exact Bool.or_true _
  have hnot : ¬d.isSequence = true := by rw [hseq]; exact Bool.false_ne_true
  have hitems : d.nItems = ts.length := by
    rw [Decl.nItems, hdims, List.prod_singleton]
    omega
  have htotal : d.nItems * (if d.isSequence then 0 else 1) % 2 ^ 64 = ts.length := by
    rw [if_neg hnot, hitems]
    omega
  obtain ⟨w, hrun, hw, hzeros⟩ := parse_run (joined ts) after t.intBase
    (fun v hv => elementCount_single (joined ts) hnot v hv) (fun h => absurd h hnot) (fun h => absurd h hnot)
    htotal
  refine of_parse (R := fun r => r = .ok (zs.map .int) ↔
    ∃ xs, arrayReadings t after true ts = .ok (xs, []) ∧ zs = xs ++ List.replicate (ts.length - xs.length) 0) ?_
  unfold Exc.Ends
  rw [hrun]
  change Exc.Ends _ _ _ _
  unfold parseElements parseElement
  refine Exc.Ends.bind (P := fun _ w => ∃ xs, arrayReadings t after true ts = .ok (xs, []) ∧
    w.items = .array ((xs ++ List.replicate (ts.length - xs.length) 0).map .int)) ?_ ?_
  · have hskip : ts.length / ts.length = 1 := Nat.div_self (List.length_pos_iff.mpr hne)
    rw [Exc.ends_read_bind, if_neg hnot, hdims, hitems, List.isEmpty_cons, if_neg Bool.false_ne_true, parseDimension,
      hskip]
    refine (ends_dimensionLoop (t := t) hvector (fun _ _ _ => rfl) after true hwhole (show w.items = .array ([] ++ _) from hzeros hvector)
      List.length_replicate).seq ?_ ?_
    · intro e w hfail
      exact ⟨fun h => (by cases h), fun ⟨xs, hxs, _⟩ => absurd hxs (hfail _)⟩
    · rintro excess w ⟨xs, hxs, hw⟩
      split
      · next hexcess =>
        rw [List.isEmpty_iff.mp hexcess] at hxs
        refine ⟨xs, hxs, hw.trans ?_⟩
        rw [List.nil_append, List.drop_replicate, List.map_append, List.map_replicate]
        rfl
      · next hexcess =>
        refine ⟨fun h => (by cases h), fun ⟨xs', hxs', _⟩ => ?_⟩
        rw [hxs] at hxs'
        cases hxs'
        exact absurd rfl hexcess
  · rintro - w ⟨xs, hxs, hw⟩
    change Except.ok (ValueState.contents d { w with parsed := true }) = _ ↔ _
    unfold ValueState.contents
    rw [if_pos hvector, hw, Except.ok.injEq, map_int_inj]
    constructor
    · exact fun h => ⟨xs, hxs, h.symm⟩
    · rintro ⟨xs', hxs', rfl⟩
      rw [hxs] at hxs'
      cases hxs'
      rfl

/-! ## Blank texts -/

theorem suffixed_blank {signed : Bool} (h : skipSpaces text = []) : suffixed signed text = false := by
  have hrest : skipSpaces (leadingNumber text).2 = [] := by
    rw [leadingNumber, numeral, h]
    cases text with
    | nil => rfl
    | cons c s =>
      have hc : isspace c = true := List.dropWhile_eq_nil_iff.mp h c List.mem_cons_self
      have h75 : ¬(c = 75 ∨ c = 107) := by rintro (rfl | rfl) <;> cases hc
      have h77 : ¬(c = 77 ∨ c = 109) := by rintro (rfl | rfl) <;> cases hc
      have h71 : ¬(c = 71 ∨ c = 103) := by rintro (rfl | rfl) <;> cases hc
      show skipSpaces (multiplier (c :: s)).2 = []
      rw [multiplier, if_neg h75, if_neg h77, if_neg h71]
      exact h
  rw [suffixed, minusOne, hrest, Bool.and_false]

theorem steady_blank (h : skipSpaces text = []) (p : Prop) : t.Steady text p := by
  unfold Scalar.Steady
  rw [h, suffixed_blank h, suffixed_blank (show skipSpaces [] = [] from rfl), suffixed_blank (show skipSpaces [] = [] from rfl)]
  simp

/-- A blank text is read as 0. -/
theorem eq_zero_of_blank (ht : t.isNumber = true) (h : skipSpaces text = []) (hv : t.parseInteger text [] = .ok v) :
    v = 0 := by
  rw [Scalar.isNumber, Bool.or_eq_true, beq_iff_eq] at ht
  rcases ht with ht | rfl
  · obtain ⟨-, hv, -⟩ := (parseInteger_iff ht ended_nil.delimited v).mp hv
    have hnone : numeral text = none := by rw [numeral, h]; rfl
    rw [leading_eq _ _ ended_nil, suffixed_blank h, leadingNumber_none hnone] at hv
    rw [hv]
    cases t <;> rfl
  · have hrun : parseUChar text [] = .ok 0 := by
      unfold parseUChar
      rw [List.append_nil, h]
      rfl
    exact (Except.ok.inj (hrun.symm.trans hv)).symm

theorem joined_eq_nil : joined ts = [] ↔ ts = [] ∨ ts = [[]] := by
  cases ts with
  | nil => exact iff_of_true rfl (Or.inl rfl)
  | cons text ts =>
    rw [joined_cons, List.append_eq_nil_iff]
    cases ts with
    | nil => simp [others, ending]
    | cons text' ts => simp [others, ending]

/-- Nothing is behind a text of an empty list. -/
theorem joined_back {front back : List Text} (h : joined ts = []) (hs : ts = front ++ text :: back) :
    text = [] ∧ joined back = [] := by
  rcases joined_eq_nil.mp h with rfl | rfl
  · simp at hs
  · cases front with
    | nil =>
      cases hs
      exact ⟨rfl, rfl⟩
    | cons text' front => simp at hs

/-! ## The list and its texts -/

/-- What holds of every element of a list and the elements behind it. -/
theorem forall_splits_cons {β : Type} {P : List β → β → List β → Prop} {a : β} {l : List β} :
    (∀ front x back, a :: l = front ++ x :: back → P front x back) ↔
      P [] a l ∧ ∀ front x back, l = front ++ x :: back → P (a :: front) x back := by
  constructor
  · exact fun h => ⟨h [] a l rfl, fun front x back hl => h (a :: front) x back (congrArg (a :: ·) hl)⟩
  · rintro ⟨hhead, htail⟩ front x back hl
    cases front with
    | nil =>
      cases hl
      exact hhead
    | cons b front =>
      cases hl
      exact htail front x back rfl

theorem ended_others (h : Ended after) : Ended (ending (others ts) ++ after) := by
  cases ts with
  | nil => exact h
  | cons text ts =>
    intro c s hs
    cases hs
    exact Or.inl rfl

theorem others_append_eq_nil : ending (others ts) ++ after = [] ↔ ts = [] ∧ after = [] := by
  rw [List.append_eq_nil_iff]
  cases ts with
  | nil => simp [others, ending]
  | cons text ts => simp [others, ending]

section

variable {vs : List Int} (ht : t.isNumber = true) (hafter : Ended after)

include ht hafter

omit hafter in
/-- Blank texts are zeros. -/
theorem eq_replicate_of_blank (halone : List.Forall₂ (fun text v => t.parseInteger text [] = .ok v) ts vs)
    (h : ∀ text ∈ ts, skipSpaces text = []) : vs = List.replicate ts.length 0 := by
  induction halone with
  | nil => rfl
  | cons hv _ ih =>
    obtain ⟨hblank, hts⟩ := List.forall_mem_cons.mp h
    rw [eq_zero_of_blank ht hblank hv, ih hts]
    rfl

/-- The readings of a sequence are the values alone if all texts are steady. -/
theorem readings_iff (halone : List.Forall₂ (fun text v => t.parseInteger text [] = .ok v) ts vs) :
    readings t after ts = .ok vs ↔
      ∀ front text back, ts = front ++ text :: back → t.Steady text (back = [] ∧ after = []) := by
  induction halone with
  | nil => exact iff_of_true rfl fun front text back h => by simp at h
  | @cons text v ts vs hv _ ih =>
    rw [forall_splits_cons (P := fun _ text back => t.Steady text (back = [] ∧ after = [])), ← ih,
      ← others_append_eq_nil, ← number_steady ht hv (ended_others hafter), readings_cons]
    constructor
    · rintro ⟨x, xs, hx, hxs, hcons⟩
      cases hcons
      exact ⟨hx, hxs⟩
    · exact fun ⟨hx, hxs⟩ => ⟨v, vs, hx, hxs, rfl⟩

/-- Those of an array also need that nothing is left over behind a blank text. -/
theorem arrayReadings_iff (halone : List.Forall₂ (fun text v => t.parseInteger text [] = .ok v) ts vs) (first : Bool) :
    (∃ xs, arrayReadings t after first ts = .ok (xs, []) ∧ vs = xs ++ List.replicate (ts.length - xs.length) 0) ↔
      (∀ front text back, ts = front ++ text :: back → t.Steady text (back = [] ∧ after = [])) ∧
      ∀ front text back, ts = front ++ text :: back → (first = true → front ≠ []) → skipSpaces text = [] →
        joined back = [] := by
  induction halone generalizing first with
  | nil =>
    refine iff_of_true ⟨[], rfl, rfl⟩ ⟨fun front text back h => ?_, fun front text back h => ?_⟩
    · simp at h
    · simp at h
  | @cons text v ts vs hv hvs ih =>
    by_cases hblank : first = false ∧ skipSpaces text = []
    · obtain ⟨rfl, hblank⟩ := hblank
      rw [arrayReadings_blank hblank]
      constructor
      · rintro ⟨xs, hxs, -⟩
        have hnil : joined ts = [] := congrArg Prod.snd (Except.ok.inj hxs)
        constructor
        · rw [forall_splits_cons (P := fun _ text back => t.Steady text (back = [] ∧ after = []))]
          refine ⟨steady_blank hblank _, fun front text' back hs => steady_blank ?_ _⟩
          rw [(joined_back hnil hs).1]
          rfl
        · rw [forall_splits_cons (P := fun front text back => (false = true → front ≠ []) →
            skipSpaces text = [] → joined back = [])]
          exact ⟨fun _ _ => hnil, fun front text' back hs _ _ => (joined_back hnil hs).2⟩
      · rintro ⟨-, hback⟩
        have hnil : joined ts = [] := hback [] text ts rfl (fun h => absurd h Bool.false_ne_true) hblank
        refine ⟨[], by rw [hnil], ?_⟩
        refine eq_replicate_of_blank ht (.cons hv hvs) (List.forall_mem_cons.mpr ⟨hblank, fun text' htext => ?_⟩)
        obtain ⟨front, back, hs⟩ := List.append_of_mem htext
        rw [(joined_back hnil hs).1]
        rfl
    · have hgo : first = true ∨ skipSpaces text ≠ [] := by
        cases first with
        | true => exact Or.inl rfl
        | false => exact Or.inr fun h => hblank ⟨rfl, h⟩
      rw [forall_splits_cons (P := fun _ text back => t.Steady text (back = [] ∧ after = [])),
        forall_splits_cons (P := fun front text back => (first = true → front ≠ []) → skipSpaces text = [] →
          joined back = []), ← others_append_eq_nil, ← number_steady ht hv (ended_others hafter)]
      have htail := ih false
      constructor
      · rintro ⟨zs, hzs, hcons⟩
        obtain ⟨x, ⟨xs, excess⟩, hx, hxs, hr⟩ := (arrayReadings_cons hgo).mp hzs
        cases hr
        rw [List.cons_append, List.length_cons, List.length_cons, Nat.add_sub_add_right] at hcons
        cases hcons
        obtain ⟨hsteady, hback⟩ := htail.mp ⟨xs, hxs, rfl⟩
        refine ⟨⟨hx, hsteady⟩, fun hfirst htext => ?_, fun front text' back hs _ => ?_⟩
        · rcases hgo with rfl | hgo
          · exact absurd rfl (hfirst rfl)
          · exact absurd htext hgo
        · exact hback front text' back hs fun h => absurd h Bool.false_ne_true
      · rintro ⟨⟨hx, hsteady⟩, -, hback⟩
        obtain ⟨xs, hxs, hvs'⟩ := htail.mpr ⟨hsteady, fun front text' back hs _ =>
          hback front text' back hs fun _ => List.cons_ne_nil _ _⟩
        refine ⟨v :: xs, (arrayReadings_cons hgo).mpr ⟨v, _, hx, hxs, rfl⟩, ?_⟩
        rw [List.cons_append, List.length_cons, List.length_cons, Nat.add_sub_add_right, ← hvs']

end

/-! ## Alone and in the list -/

/-- What is accepted alone is what the parser of the type reads. -/
theorem reads_iff (ht : t.isNumber = true) {v : Int} : t.Reads strtod text v ↔ t.parseInteger text [] = .ok v := by
  unfold Scalar.Reads
  rw [base_number ht]
  refine of_parse (R := fun r => r = .ok [.int v] ↔ t.parseInteger text [] = .ok v) ?_
  have hrun : parse singleDecl t.intBase text [] false {} = (do
      parseValue singleDecl t.intBase text [] 0 0
      Exc.change fun v => { v with parsed := true } : ParseM Datum Unit) { nTotal := 1, length := 1 } := rfl
  unfold Exc.Ends
  rw [hrun]
  change Exc.Ends _ _ _ _
  unfold parseValue
  cases hread : t.parseInteger text [] with
  | error e =>
    simp only [Scalar.intBase, hread, single]
    exact ⟨fun h => (by cases h), fun h => (by cases h)⟩
  | ok x =>
    simp only [Scalar.intBase, hread, single]
    show Except.ok [Datum.int x] = _ ↔ _
    simp

/-- A value without elements is parsed as such. -/
theorem parseNew_empty (base : Base Datum) (hseq : d.isSequence = true)
    (hcount : ∀ v : ValueState Datum, elementCount d text false v = (.ok (), { v with nElements := 0 })) :
    parseNew d base text after = .ok [] := by
  have hvector : d.isVector = true := by rw [Decl.isVector, hseq, Bool.true_or]
  obtain ⟨w, -, hnull, hspace⟩ := stringSpace_new (d := d) base text.length
  refine of_parse (R := fun r => r = .ok []) ?_
  unfold Exc.Ends parse
  rw [show onlyIf (false = false) (clear d) = (clear d : ParseM Datum Unit) from if_pos rfl,
    Exc.run_bind_ok (clear_new d), Exc.run_bind_ok hspace, Exc.run_bind_ok (hcount w), Exc.run_change_bind]
  unfold allocate parseElements
  rw [hseq]
  show Except.ok (ValueState.contents d _) = _
  unfold ValueState.contents
  rw [if_pos hvector]
  dsimp only
  rw [hnull]

theorem behind_ended (place : Place) : Ended place.behind := by
  cases place with
  | top => exact ended_nil
  | inside after =>
    intro c s hs
    cases hs
    exact Or.inr rfl

/-- **Texts joined by commas** that are elements wherever they stand are read as the values that they have
alone, under exactly the condition. -/
theorem joined_iff_kept (strtod : Scalar → Text → Option Nat) (t : Scalar) (d : Decl) (place : Place) (ts : List Text)
    (vs : List Int) (ht : t.isNumber = true) (hd : d.Takes ts.length) (hne : ts ≠ [])
    (halone : List.Forall₂ (t.Reads strtod) ts vs) (hwhole : ∀ text ∈ ts, whole 0 false text = true) :
    parseNew d (t.base strtod) (joined ts) place.behind = .ok (vs.map .int) ↔ Kept t d place ts := by
  have hvs : List.Forall₂ (fun text v => t.parseInteger text [] = .ok v) ts vs :=
    halone.imp fun _ _ h => (reads_iff ht).mp h
  rw [base_number ht]
  cases hd with
  | sequence hseq hdims hbound hn =>
    by_cases hlone : Lone ts
    · rw [parseNew_empty t.intBase hseq (elementCount_lone hseq hwhole hlone), Except.ok.injEq]
      refine iff_of_false (fun h => ?_) fun h => h.sequence hseq hlone
      have hlen := hvs.length_eq
      rw [List.map_eq_nil_iff.mp h.symm] at hlen
      exact hne (List.eq_nil_of_length_eq_zero hlen)
    · rw [parseNew_sequence hseq hdims hbound hn hne hwhole hlone, readings_iff ht (behind_ended place) hvs]
      exact ⟨fun h => ⟨h, fun _ => hlone, fun h => absurd (hseq.symm.trans h) Bool.true_eq_false.mp⟩,
        fun h => h.steady⟩
  | array hseq hdims hn =>
    rw [parseNew_array hseq hdims hn hne hwhole, arrayReadings_iff ht (behind_ended place) hvs]
    constructor
    · rintro ⟨hsteady, hback⟩
      exact ⟨hsteady, fun h => absurd (hseq.symm.trans h) Bool.false_ne_true,
        fun _ front text back hs hfront => hback front text back hs fun _ => hfront⟩
    · intro h
      exact ⟨h.steady, fun front text back hs hfront => h.array hseq front text back hs (hfront rfl)⟩

/-- `12K` and `7-1`, with `-1` at the end of the string. -/
theorem joined_iff_kept_sizes : parseNew { singleDecl with isSequence := true } (Scalar.ulong.base fun _ _ => none)
    (joined [[49, 50, 75], [55, 45, 49]]) [] = .ok [.int 12288, .int 6] := by
  refine (joined_iff_kept (fun _ _ => none) .ulong { singleDecl with isSequence := true } .top
    [[49, 50, 75], [55, 45, 49]] [12288, 6] rfl (.sequence rfl rfl (.inl rfl) (by decide)) (List.cons_ne_nil _ _)
    ?_ (by decide)).mpr ⟨?_, fun _ => ?_, fun h => ?_⟩
  · exact .cons ((reads_iff rfl).mpr (by decide)) (.cons ((reads_iff rfl).mpr rfl) .nil)
  · rw [forall_splits_cons (P := fun _ text back => Scalar.ulong.Steady text (back = [] ∧ Place.top.behind = [])),
      forall_splits_cons (P := fun _ text back => Scalar.ulong.Steady text (back = [] ∧ Place.top.behind = []))]
    refine ⟨?_, ?_, fun front text back hs => ?_⟩
    · unfold Scalar.Steady
      decide
    · unfold Scalar.Steady
      decide
    · simp at hs
  · rintro ⟨text, hs, -⟩
    cases hs
  · cases h

end OpenCpi.Value
