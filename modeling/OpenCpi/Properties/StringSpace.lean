import OpenCpi.Infra.Run
import OpenCpi.Properties.Element
import OpenCpi.Value.Datum

/-!
# The space for strings

`parse` takes the length of its text and one more for the space of all strings in it. A string has at most
as many characters as its text, and its end takes the place of the comma behind it, or of the end of the
whole text. An element in braces has two characters to spare.
-/

namespace OpenCpi.Value

open Infra

variable {α β : Type} {d : Decl} {base : Base α} {u text after : Text} {m n : Nat}

/-! ## Characters -/

/-- Behind digits there is less text. -/
theorem rest_lt {s t : Text} (h : ∃ c r, t = c :: (r ++ s)) : s.length < t.length := by
  obtain ⟨c, r, rfl⟩ := h
  rw [List.length_cons, List.length_append]
  omega

theorem decimalDigits_rest {limit k : Nat} {s s' : Text} (h : decimalDigits limit s = some (k, s')) :
    s'.length < s.length := by
  match s with
  | [] => cases h
  | c :: s =>
    rw [decimalDigits] at h
    cases hc : digit 10 c with
    | none => simp [hc] at h
    | some a =>
      match s with
      | [] =>
        simp [hc] at h
        obtain ⟨-, rfl⟩ := h
        exact rest_lt ⟨c, [], rfl⟩
      | c₁ :: s =>
        cases hc₁ : digit 10 c₁ with
        | none =>
          simp [hc, hc₁] at h
          obtain ⟨-, rfl⟩ := h
          exact rest_lt ⟨c, [], rfl⟩
        | some a₁ =>
          match s with
          | [] =>
            simp [hc, hc₁] at h
            obtain ⟨-, rfl⟩ := h
            exact rest_lt ⟨c, [c₁], rfl⟩
          | c₂ :: s =>
            cases hc₂ : digit 10 c₂ with
            | none =>
              simp [hc, hc₁, hc₂] at h
              obtain ⟨-, rfl⟩ := h
              exact rest_lt ⟨c, [c₁], rfl⟩
            | some a₂ =>
              simp [hc, hc₁, hc₂] at h
              obtain ⟨-, -, rfl⟩ := h
              exact rest_lt ⟨c, [c₁, c₂], rfl⟩

theorem decimal_rest {isSigned : Bool} {c : UInt8} {s s' : Text}
    (h : decimal isSigned s = some (c, s')) : s'.length < s.length := by
  match s with
  | [] => cases h
  | c₀ :: s =>
    rw [decimal] at h
    split_ifs at h
    · obtain ⟨r, hr, h⟩ := Option.bind_eq_some_iff.mp h
      cases h
      exact Nat.lt_succ_of_lt (decimalDigits_rest hr)
    all_goals
      obtain ⟨r, hr, h⟩ := Option.bind_eq_some_iff.mp h
      cases h
      exact decimalDigits_rest hr

theorem hex_rest {c : UInt8} {s s' : Text} (h : hex s = some (c, s')) : s'.length < s.length := by
  match s with
  | [] => cases h
  | c₀ :: s =>
    rw [hex] at h
    cases hc : digit 16 c₀ with
    | none => simp [hc] at h
    | some a =>
      match s with
      | [] =>
        simp [hc] at h
        obtain ⟨-, rfl⟩ := h
        exact rest_lt ⟨c₀, [], rfl⟩
      | c₁ :: s =>
        cases hc₁ : digit 16 c₁ with
        | none =>
          simp [hc, hc₁] at h
          obtain ⟨-, rfl⟩ := h
          exact rest_lt ⟨c₀, [], rfl⟩
        | some a₁ =>
          simp [hc, hc₁] at h
          obtain ⟨-, rfl⟩ := h
          exact rest_lt ⟨c₀, [c₁], rfl⟩

theorem octal_rest {c : UInt8} {s s' : Text} (h : octal n s = some (c, s')) :
    s'.length ≤ s.length := by
  match s with
  | [] =>
    cases h
    exact Nat.le_refl _
  | c₀ :: s =>
    rw [octal] at h
    cases hc : digit 8 c₀ with
    | none =>
      simp [hc] at h
      obtain ⟨-, rfl⟩ := h
      exact Nat.le_refl _
    | some a =>
      match s with
      | [] =>
        simp [hc] at h
        obtain ⟨-, rfl⟩ := h
        exact Nat.le_of_lt (rest_lt ⟨c₀, [], rfl⟩)
      | c₁ :: s =>
        cases hc₁ : digit 8 c₁ with
        | none =>
          simp [hc, hc₁] at h
          obtain ⟨-, rfl⟩ := h
          exact Nat.le_of_lt (rest_lt ⟨c₀, [], rfl⟩)
        | some a₁ =>
          simp [hc, hc₁] at h
          obtain ⟨-, -, rfl⟩ := h
          exact Nat.le_of_lt (rest_lt ⟨c₀, [c₁], rfl⟩)

theorem escaped_rest {c c' : UInt8} {s s' : Text} (h : escaped c s = some (c', s')) :
    s'.length ≤ s.length := by
  unfold escaped at h
  cases hl : letters.lookup c with
  | some vp =>
    rw [hl] at h
    cases h
    exact Nat.le_refl _
  | none =>
    rw [hl] at h
    dsimp only at h
    by_cases hd : c = 100
    · rw [if_pos hd] at h
      exact Nat.le_of_lt (decimal_rest h)
    rw [if_neg hd] at h
    by_cases hu : c = 117
    · rw [if_pos hu] at h
      exact Nat.le_of_lt (decimal_rest h)
    rw [if_neg hu] at h
    by_cases hx : c = 120
    · rw [if_pos hx] at h
      exact Nat.le_of_lt (hex_rest h)
    rw [if_neg hx] at h
    by_cases ho : 48 ≤ c ∧ c ≤ 55
    · rw [if_pos ho] at h
      exact octal_rest h
    rw [if_neg ho] at h
    by_cases hc : c ∈ [92, 63, 39, 34, 44, 123, 125, 32]
    · rw [if_pos hc] at h
      cases h
      exact Nat.le_refl _
    · rw [if_neg hc] at h
      cases h

/-- **A character** takes at least one of the text. -/
theorem parseOneChar_rest {c : UInt8} {s s' : Text} (h : parseOneChar s = some (c, s')) :
    s'.length < s.length := by
  match s with
  | [] => cases h
  | [c₀] =>
    rw [parseOneChar] at h
    split_ifs at h
    cases h
    exact Nat.one_pos
  | c₀ :: c₁ :: s =>
    rw [parseOneChar] at h
    split_ifs at h
    · cases h
      exact Nat.lt_succ_self _
    · have := escaped_rest h
      simp only [List.length_cons]
      omega

theorem stringChars_moved (quoted : Bool) (stringLength : Nat) : ∀ (fuel len : Nat) (s : Text),
    (stringChars quoted stringLength fuel len s).2 ≤ s.length + 1
  | _, _, [] => by
    rw [stringChars]
    exact Nat.le_refl _
  | 0, _, _ :: _ => by
    rw [stringChars]
    exact Nat.zero_le _
  | fuel + 1, len, c :: s => by
    rw [stringChars]
    split_ifs
    · exact Nat.zero_le _
    · exact Nat.le_add_left _ _
    · exact Nat.zero_le _
    · cases hc : parseOneChar (c :: s) with
      | none => exact Nat.le_add_left _ _
      | some r =>
        obtain ⟨vp, s'⟩ := r
        have hrest := parseOneChar_rest hc
        have ih := stringChars_moved quoted stringLength fuel (len + 1) s'
        dsimp only
        rcases hr : stringChars quoted stringLength fuel (len + 1) s' with ⟨⟨e⟩ | ⟨chars⟩, k⟩
        all_goals
          rw [hr] at ih
          dsimp only at ih ⊢
          omega

/-- **A string** takes as many places as its text has characters, and one more. -/
theorem parseString_moved (stringLength : Nat) (text : Text) :
    (parseString stringLength text).2 ≤ text.length + 1 := by
  cases text with
  | nil => exact stringChars_moved _ _ _ _ _
  | cons c s =>
    rw [parseString]
    split_ifs
    · have := stringChars_moved true stringLength s.length 0 s
      simp only [List.length_cons]
      omega
    · exact stringChars_moved _ _ _ _ _

/-! ## Steps of `parse` -/

/-- A computation moves `m_stringNext` by at most some places and leaves the space alone. -/
def Moved (n : Nat) (x : ParseM α β) : Prop := ∀ v,
  (x v).2.stringNext ≤ v.stringNext + n ∧ (x v).2.stringSpaceLength = v.stringSpaceLength

theorem Moved.mono {x : ParseM α β} (h : Moved m x) (hle : m ≤ n) : Moved n x :=
  fun v => ⟨Nat.le_trans (h v).1 (Nat.add_le_add_left hle _), (h v).2⟩

theorem moved_pure (b : β) : Moved n (pure b : ParseM α β) := fun _ => ⟨Nat.le_add_right _ _, rfl⟩

theorem moved_throw (e : Failure) : Moved n (Exc.raise e : ParseM α β) :=
  fun _ => ⟨Nat.le_add_right _ _, rfl⟩

theorem moved_change {f : ValueState α → ValueState α} (hf : ∀ v, (f v).stringNext ≤ v.stringNext + n ∧
    (f v).stringSpaceLength = v.stringSpaceLength) : Moved n (Exc.change f) := hf

theorem Moved.bind {γ : Type} {x : ParseM α β} {f : β → ParseM α γ} (hx : Moved m x)
    (hf : ∀ b, Moved n (f b)) : Moved (m + n) (x >>= f) := by
  intro v
  show (Exc.bind x f v).2.stringNext ≤ _ ∧ (Exc.bind x f v).2.stringSpaceLength = _
  unfold Exc.bind
  have hx := hx v
  rcases hr : x v with ⟨⟨e⟩ | ⟨b⟩, v'⟩
  · rw [hr] at hx
    exact ⟨by have := hx.1; dsimp only at this ⊢; omega, hx.2⟩
  · rw [hr] at hx
    have hf := hf b v'
    dsimp only at hx ⊢
    exact ⟨by omega, hf.2.trans hx.2⟩

/-- Reading the state moves nothing. -/
theorem moved_read_bind {f : ValueState α → ParseM α β} (hf : ∀ v, Moved n (f v)) :
    Moved n (Exc.read >>= f) := fun v => hf v v

/-- The parser of single values moves at most as far as the text is long, and one more. -/
def Base.Bounded (base : Base α) : Prop := ∀ text after, (base.parse text after).2 ≤ text.length + 1

theorem moved_parseValue (h : base.Bounded) (text after : Text) (nSeq nArray : Nat) :
    Moved (text.length + 1) (parseValue d base text after nSeq nArray) := by
  unfold parseValue
  refine Moved.bind (n := 0) (moved_change fun v => ⟨?_, rfl⟩) fun _ => ?_
  · exact Nat.add_le_add_left (h text after) _
  · match (base.parse text after).1 with
    | .error (.message e) => exact moved_throw _
    | .error .crash => exact moved_throw _
    | .ok x =>
      refine moved_read_bind fun v => ?_
      split
      · split
        · exact moved_change fun v => ⟨Nat.le_refl _, rfl⟩
        · exact moved_throw _
      · exact moved_change fun v => ⟨Nat.le_refl _, rfl⟩

theorem inBraces_length {inner : Text} (h : inBraces text = some inner) :
    inner.length + 2 = text.length := by
  rw [inBraces_eq h]
  simp

/-- An element moves at most as far as its text is long, and one more. -/
def ElementMoved (body : Text → Text → Nat → ParseM α Unit) : Prop :=
  ∀ text after offset, Moved (text.length + 1) (body text after offset)

theorem moved_parseItem (h : base.Bounded) (nSeq : Nat) : ElementMoved (parseItem d base nSeq) := by
  intro text after offset
  unfold parseItem
  split
  · split
    · exact moved_throw _
    · next inner hinner =>
      have := inBraces_length hinner
      exact (moved_parseValue h inner _ nSeq offset).mono (by omega)
  · exact moved_parseValue h text after nSeq offset

/-- Each element but the first has a comma in front. -/
theorem moved_dimensionLoop {body : Text → Text → Nat → ParseM α Unit} (h : ElementMoved body)
    (skip : Nat) (after : Text) : ∀ (k : Nat) (first : Bool) (offset : Nat) (u : Text),
    Moved (if first = false ∧ u = [] then 0 else u.length + 1)
      (dimensionLoop body skip after k first offset u)
  | 0, _, _, _ => moved_pure _
  | k + 1, first, offset, u => by
    rw [dimensionLoop]
    rcases hd : doElement u with ⟨⟨⟩ | ⟨err⟩, e⟩
    · have hfound := found_of_doElement hd
      have hlen := hfound.length
      dsimp only
      by_cases hbreak : (!first && e.text.isEmpty) = true
      · rw [if_pos hbreak]
        exact moved_pure _
      · have hfirst : ¬ (first = false ∧ u = []) := by
          rintro ⟨rfl, rfl⟩
          exact hbreak (by rw [hfound.text_of_nil]; rfl)
        rw [if_neg hbreak, if_neg hfirst]
        have hrest := moved_dimensionLoop h skip after k false (offset + skip) e.unparsed
        refine (Moved.bind (h e.text (e.follow ++ after) offset) fun _ => hrest).mono ?_
        split_ifs with hnil
        · omega
        · rcases hlen.2 with hu | hle
          · exact absurd ⟨rfl, hu⟩ hnil
          · omega
    · exact moved_throw _

theorem moved_parseDimension (h : base.Bounded) (nSeq : Nat) : ∀ (dims : List Nat) (nItems offset : Nat)
    (text after : Text), Moved (text.length + 1) (parseDimension d base nSeq dims nItems offset text after)
  | [], _, _, _, _ => moved_pure _
  | dimension :: rest, nItems, offset, text, after => by
    rw [parseDimension]
    refine Moved.bind (n := 0) ?_ fun excess => ?_
    · refine (moved_dimensionLoop ?_ _ after dimension true offset text).mono ?_
      · intro text after offset
        dsimp only
        split
        · exact moved_parseItem h nSeq text after offset
        · split
          · exact moved_throw _
          · next inner hinner =>
            have := inBraces_length hinner
            exact (moved_parseDimension h nSeq rest _ offset inner _).mono (by omega)
      · exact Nat.le_of_eq (if_neg fun hc => Bool.false_ne_true hc.1.symm)
    · split
      · exact moved_pure _
      · exact moved_throw _

theorem moved_parseElement (h : base.Bounded) (text after : Text) (nSeq : Nat) :
    Moved (text.length + 1) (parseElement d base text after nSeq) := by
  unfold parseElement
  split
  · exact moved_parseValue h text after nSeq 0
  · exact moved_parseDimension h nSeq _ _ 0 text after

theorem moved_sequenceElement (h : base.Bounded) (text after : Text) (n : Nat) :
    Moved (text.length + 1) (sequenceElement d base text after n) := by
  unfold sequenceElement
  split
  · split
    · exact moved_throw _
    · next inner hinner =>
      have := inBraces_length hinner
      exact (moved_parseElement h inner _ n).mono (by omega)
  · exact moved_parseElement h text _ n

/-- **The second pass** over the elements of a sequence. -/
theorem moved_sequenceLoop (h : base.Bounded) (after : Text) {u : Text} {es : List Element}
    (hs : Splits u es) : ∀ n, Moved (u.length + 1) (sequenceLoop d base after es.length n u) := by
  induction hs with
  | @last u e hd hend =>
    intro n
    have hlen := (found_of_doElement hd).length
    rw [List.length_singleton, sequenceLoop, hd]
    exact ((moved_sequenceElement h e.text _ n).bind fun _ => moved_pure (n := 0) _).mono (by omega)
  | @cons u e es hd hcomma hs ih =>
    intro n
    have hlen := (found_of_doElement hd).comma_length hcomma
    rw [List.length_cons, sequenceLoop, hd]
    exact ((moved_sequenceElement h e.text _ n).bind fun _ => ih (n + 1)).mono (by omega)

/-! ## Runs -/

/-- What was written is in the space. -/
def Room (v : ValueState α) : Prop := v.stringNext ≤ v.stringSpaceLength

/-- There is space for the strings of a text. -/
def Spare (text : Text) (v : ValueState α) : Prop :=
  v.stringNext + (text.length + 1) ≤ v.stringSpaceLength

theorem Spare.room {v : ValueState α} (h : Spare text v) : Room v :=
  Nat.le_trans (Nat.le_add_right _ _) h

theorem clear_room {v : ValueState α} (hv : Room v) :
    Exc.Ends (fun _ v' => Room v' ∧ v'.stringSpaceLength = 0) (fun _ v' => Room v') (clear d) v := by
  unfold clear
  rw [Exc.ends_read_bind]
  split
  · exact hv
  · rw [Exc.ends_change_bind]
    unfold onlyIf
    split
    · unfold clearItems
      rw [Exc.ends_read_bind]
      split
      · exact Nat.le_refl _
      · exact ⟨Nat.le_refl _, rfl⟩
    · exact ⟨Nat.le_refl _, rfl⟩

theorem stringSpace_room {v : ValueState α} {add : Bool} (hv : Room v)
    (hclear : add = false → v.stringSpaceLength = 0) :
    Exc.Ends (fun _ v' => Spare text v') (fun _ v' => Room v') (stringSpace d text.length add) v := by
  unfold stringSpace
  rw [Exc.ends_read_bind]
  split
  · exact hv
  · rw [Exc.ends_change]
    unfold Spare
    cases add with
    | false =>
      have := hclear rfl
      dsimp only
      rw [if_neg Bool.false_ne_true]
      omega
    | true =>
      dsimp only
      rw [if_pos rfl]

/-- The elements of a sequence are counted. -/
def Counted (d : Decl) (text : Text) (add : Bool) (v : ValueState α) : Prop :=
  d.isSequence = true → add = false → v.nElements = 0 ∨ ∃ es, Splits text es ∧ v.nElements = es.length

theorem elementCount_room {v : ValueState α} {add : Bool} (hv : Spare text v) :
    Exc.Ends (fun _ v' => Spare text v' ∧ Counted d text add v') (fun _ v' => Room v')
      (elementCount d text add) v := by
  unfold elementCount
  cases add with
  | true => exact ⟨hv, fun _ h => absurd h.symm Bool.false_ne_true⟩
  | false =>
    rw [if_neg Bool.false_ne_true]
    by_cases hseq : d.isSequence = true
    · rw [if_pos hseq, Exc.ends_change_bind]
      have hkeep := keeps_countElements (fun v : ValueState α => (v.stringNext, v.stringSpaceLength))
        (fun _ _ => rfl) (text.length + 1) text { v with nElements := 0 }
      refine Exc.Ends.bind (P := fun len v' => Spare text v' ∧ ∃ es, Splits text es ∧
        v'.nElements = es.length) ?_ ?_
      · unfold Exc.Ends
        rcases hr : countElements (text.length + 1) text { v with nElements := 0 } with ⟨⟨e⟩ | ⟨len⟩, v'⟩
        all_goals
          rw [hr] at hkeep
          obtain ⟨hnext, hspace⟩ : v'.stringNext = v.stringNext ∧
            v'.stringSpaceLength = v.stringSpaceLength := Prod.mk.inj hkeep
        · show v'.stringNext ≤ v'.stringSpaceLength
          rw [hnext, hspace]
          exact hv.room
        · obtain ⟨es, hs, hcount, -⟩ := countElements_ok (Nat.lt_succ_self _) hr
          refine ⟨?_, es, hs, ?_⟩
          · unfold Spare
            rw [hnext, hspace]
            exact hv
          · rw [hcount]
            exact Nat.zero_add _
      · rintro len v' ⟨hspare, es, hs, hcount⟩
        rw [Exc.ends_change]
        split
        · exact ⟨hspare, fun _ _ => Or.inl rfl⟩
        · exact ⟨hspare, fun _ _ => Or.inr ⟨es, hs, hcount⟩⟩
    · rw [if_neg hseq]
      exact ⟨hv, fun h => absurd h hseq⟩

theorem parseElements_room (h : base.Bounded) {v : ValueState α} {add : Bool} (hv : Spare text v)
    (hcount : Counted d text add v) : Room (parseElements d base text after add v).2 := by
  have hroom {x : ParseM α Unit} (hx : Moved (text.length + 1) x) : Room (x v).2 := by
    obtain ⟨hnext, hspace⟩ := hx v
    unfold Room
    rw [hspace]
    exact Nat.le_trans hnext hv
  have hrun : (parseElements d base text after add v).2 =
      ((if d.isSequence then
        if add then parseElement d base text after (v.nElements - 1)
        else sequenceLoop d base after v.nElements 0 text
      else parseElement d base text after 0) v).2 := rfl
  rw [hrun]
  by_cases hseq : d.isSequence = true
  · rw [if_pos hseq]
    cases add with
    | true =>
      rw [if_pos rfl]
      exact hroom (moved_parseElement h text after _)
    | false =>
      rw [if_neg Bool.false_ne_true]
      rcases hcount hseq rfl with hzero | ⟨es, hs, hn⟩
      · rw [hzero]
        exact hv.room
      · rw [hn]
        exact hroom (moved_sequenceLoop h after hs 0)
  · rw [if_neg hseq]
    exact hroom (moved_parseElement h text after 0)

/-- **Step**: a call of `parse` writes into the space only. -/
theorem parse_room (h : base.Bounded) (hstring : base.isString = true) (text after : Text) (add : Bool)
    {v : ValueState α} (hv : Room v) : Room (parse d base text after add v).2 := by
  have hends : Exc.Ends (fun _ v' => Room v') (fun _ v' => Room v') (parse d base text after add) v := by
    unfold parse
    refine Exc.Ends.bind (P := fun _ v' => Room v' ∧ (add = false → v'.stringSpaceLength = 0)) ?_ ?_
    · unfold onlyIf
      split
      · exact (clear_room hv).imp (fun _ _ hc => ⟨hc.1, fun _ => hc.2⟩) fun _ _ => id
      · exact ⟨hv, fun hadd => absurd hadd ‹_›⟩
    rintro - v ⟨hv, hclear⟩
    refine Exc.Ends.bind (P := fun _ v' => Spare text v') ?_ ?_
    · unfold onlyIf
      rw [if_pos hstring]
      exact stringSpace_room hv hclear
    rintro - v hv
    refine Exc.Ends.bind (elementCount_room hv) ?_
    rintro - v ⟨hv, hcount⟩
    rw [Exc.ends_change_bind]
    refine Exc.Ends.bind (P := fun _ v' => Spare text v' ∧ Counted d text add v') ?_ ?_
    · refine ((keeps_allocate add).ends _).imp ?_ ?_
      · rintro - v' hkeep
        obtain ⟨hn, hspace⟩ := Prod.mk.inj hkeep
        obtain ⟨hnext, hspace⟩ := Prod.mk.inj hspace
        unfold Spare Counted
        rw [hnext, hspace, (Prod.mk.inj hn).1]
        exact ⟨hv, hcount⟩
      · rintro - v' hkeep
        obtain ⟨hnext, hspace⟩ := Prod.mk.inj (Prod.mk.inj hkeep).2
        unfold Room
        rw [hnext, hspace]
        exact hv.room
    rintro - v ⟨hv, hcount⟩
    refine Exc.Ends.bind (P := fun _ v' => Room v') ?_ fun _ v hv => hv
    have hroom : Room (parseElements d base text after add v).2 := parseElements_room h hv hcount
    unfold Exc.Ends
    rcases hr : parseElements d base text after add v with ⟨⟨e⟩ | ⟨b⟩, v'⟩ <;> rwa [hr] at hroom
  unfold Exc.Ends at hends
  rcases hr : parse d base text after add v with ⟨⟨e⟩ | ⟨b⟩, v'⟩ <;> rwa [hr] at hends

theorem stringBase_bounded (stringLength : Nat) : (stringBase stringLength).Bounded := by
  intro text after
  have hmoved := parseString_moved stringLength text
  unfold stringBase
  dsimp only
  rcases hr : parseString stringLength text with ⟨⟨e⟩ | ⟨chars⟩, n⟩ <;> rwa [hr] at hmoved

/-- **Run**: what was written is always in the space. -/
theorem reach_room {v : ValueState Datum} {stringLength : Nat}
    (h : Reach (parseStep d (stringBase stringLength)) anyStep {} v) : Room v := by
  refine h.invariant (Nat.le_refl _) fun v c v' hv _ hstep => ?_
  have hroom : Room (parse d (stringBase stringLength) c.text c.after c.add v).2 :=
    parse_room (stringBase_bounded stringLength) rfl c.text c.after c.add hv
  unfold parseStep at hstep
  rcases hr : parse d (stringBase stringLength) c.text c.after c.add v with ⟨⟨e⟩ | ⟨b⟩, v''⟩
  · rw [hr] at hstep hroom
    cases e with
    | message text =>
      cases hstep
      exact hroom
    | crash => cases hstep
  · rw [hr] at hstep hroom
    cases hstep
    exact hroom

/-- **Parsed strings fit**: after any calls of `parse` on a value whose base type is `String`, the next
call writes into the space for strings only, whatever its text and whether or not it succeeds. -/
theorem strings_fit (d : Decl) (stringLength : Nat) (v : ValueState Datum) (c : Call)
    (h : Reach (parseStep d (stringBase stringLength)) anyStep {} v) :
    (parse d (stringBase stringLength) c.text c.after c.add v).2.stringNext ≤
      (parse d (stringBase stringLength) c.text c.after c.add v).2.stringSpaceLength :=
  parse_room (stringBase_bounded stringLength) rfl c.text c.after c.add (reach_room h)

/-- A sequence of pairs of strings. -/
def namePairs : Decl where
  name := [110]
  arrayDimensions := [2]
  isSequence := true
  sequenceLength := 0

/-- `{a,b},{c}` and then `d` as one more pair. -/
theorem strings_fit_namePairs : ∃ v : ValueState Datum,
    exec (parseStep namePairs (stringBase 0)) {}
      [⟨[123, 97, 44, 98, 125, 44, 123, 99, 125], [], false⟩] = some v ∧
    (parse namePairs (stringBase 0) [100] [] true v).2.stringNext ≤
      (parse namePairs (stringBase 0) [100] [] true v).2.stringSpaceLength := by
  obtain ⟨v, hv⟩ : ∃ v : ValueState Datum, exec (parseStep namePairs (stringBase 0)) {}
    [⟨[123, 97, 44, 98, 125, 44, 123, 99, 125], [], false⟩] = some v := ⟨_, rfl⟩
  exact ⟨v, hv, strings_fit namePairs 0 v ⟨[100], [], true⟩ (reach_of_exec _ hv)⟩

end OpenCpi.Value
