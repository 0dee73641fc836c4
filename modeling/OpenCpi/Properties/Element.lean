import OpenCpi.Properties.Literal
import OpenCpi.Value.Parse

/-!
# Elements of a text

An element and what is behind it make up the text, less the blanks in front. Behind it are blanks and then
the end of the text or a comma. The elements that the first pass of `parse` counts are those that the
second pass parses.
-/

namespace OpenCpi.Value

open Infra

variable {α : Type} {d : Decl} {base : Base α} {u text after : Text} {e : Element}

/-! ## One element -/

theorem scanElement_split : ∀ {s : Text} {nBraces : Nat} {escape : Bool} {r : Scan},
    scanElement nBraces escape s = .ok r → s = r.text ++ r.tail
  | [], nBraces, escape, r, h => by
    cases escape <;> cases h <;> rfl
  | c :: s, nBraces, true, r, h => by
    rw [scanElement] at h
    cases hr : scanElement nBraces false s with
    | error rest =>
      rw [hr] at h
      cases h
    | ok r' =>
      rw [hr] at h
      cases h
      exact congrArg (c :: ·) (scanElement_split hr)
  | c :: s, nBraces, false, r, h => by
    rw [scanElement] at h
    split_ifs at h with hcomma hslash hbrace
    · cases h
      rw [hcomma.1]
      rfl
    · cases hr : scanElement nBraces true s with
      | error rest =>
        rw [hr] at h
        cases h
      | ok r' =>
        rw [hr] at h
        cases h
        exact congrArg (c :: ·) (scanElement_split hr)
    · cases hr : scanElement (bracesBehind c nBraces) false s with
      | error rest =>
        rw [hr] at h
        cases h
      | ok r' =>
        rw [hr] at h
        cases h
        exact congrArg (c :: ·) (scanElement_split hr)

/-- An element at the start of a text. -/
structure Found (u : Text) (e : Element) : Prop where
  split : skipSpaces u = e.text ++ e.follow
  follow : (skipSpaces e.follow = [] ∧ e.unparsed = []) ∨ skipSpaces e.follow = 44 :: e.unparsed

theorem skipSpaces_blanks {s : Text} (h : ∀ c ∈ s, isspace c = true) (t : Text) :
    skipSpaces (s ++ t) = skipSpaces t := by
  have hs : skipSpaces s = [] := List.dropWhile_eq_nil_iff.mpr h
  rw [skipSpaces_append, if_pos hs]

/-- **`doElement`** takes the text apart. -/
theorem found_of_doElement (h : doElement u = (none, e)) : Found u e := by
  unfold doElement at h
  cases hr : scanElement 0 false (skipSpaces u) with
  | error rest =>
    rw [hr] at h
    cases h
  | ok r =>
    rw [hr] at h
    cases h
    have htrim : r.text = r.text.take r.last ++ ((r.text.drop r.last).rdropWhile isspace ++
        (r.text.drop r.last).rtakeWhile isspace) := by
      rw [List.rdropWhile_append_rtakeWhile, List.take_append_drop]
    refine ⟨?_, ?_⟩
    · have hsplit := scanElement_split hr
      rw [htrim] at hsplit
      rw [hsplit]
      unfold Scan.trim
      simp only [List.append_assoc]
    · have hblanks := skipSpaces_blanks (s := (r.text.drop r.last).rtakeWhile isspace)
        (fun c hc => List.mem_rtakeWhile_imp hc) r.tail
      have hfollow : skipSpaces r.trim.follow = skipSpaces r.tail := hblanks
      rw [hfollow]
      unfold Scan.tail Scan.trim
      cases r.more with
      | none => exact Or.inl ⟨rfl, rfl⟩
      | some rest => exact Or.inr rfl

theorem skipSpaces_length (u : Text) : (skipSpaces u).length ≤ u.length :=
  (List.dropWhile_suffix _).length_le

/-- The lengths of an element and of what is left over, with a comma between them. -/
theorem Found.comma_length (h : Found u e) (hcomma : skipSpaces e.follow ≠ []) :
    e.text.length + 1 + e.unparsed.length ≤ u.length := by
  have hu := skipSpaces_length u
  have hf := skipSpaces_length e.follow
  have hsplit := congrArg List.length h.split
  rw [List.length_append] at hsplit
  rcases h.follow with ⟨hend, -⟩ | hfollow
  · exact absurd hend hcomma
  · rw [hfollow, List.length_cons] at hf
    omega

/-- The lengths in any case. -/
theorem Found.length (h : Found u e) : e.text.length ≤ u.length ∧
    (e.unparsed = [] ∨ e.text.length + 1 + e.unparsed.length ≤ u.length) := by
  have hu := skipSpaces_length u
  have hsplit := congrArg List.length h.split
  rw [List.length_append] at hsplit
  refine ⟨by omega, ?_⟩
  by_cases hcomma : skipSpaces e.follow = []
  · rcases h.follow with ⟨-, hend⟩ | hfollow
    · exact Or.inl hend
    · exact absurd (hcomma.symm.trans hfollow) (List.cons_ne_nil _ _).symm
  · exact Or.inr (h.comma_length hcomma)

/-- An element is empty only at the end of the text or before a comma. -/
theorem Found.text_of_nil (h : Found [] e) : e.text = [] :=
  List.eq_nil_of_length_eq_zero (Nat.le_zero.mp h.length.1)

theorem inBraces_eq {inner : Text} (h : inBraces text = some inner) : text = 123 :: inner ++ [125] := by
  cases text with
  | nil => cases h
  | cons c s =>
    rw [inBraces] at h
    split_ifs at h with hc
    cases h
    rw [hc.1, List.cons_append, List.dropLast_append_getLast? _ hc.2]

/-! ## All elements -/

/-- A text falls into elements. -/
inductive Splits : Text → List Element → Prop
  | last {u : Text} {e : Element} (h : doElement u = (none, e)) (hend : skipSpaces e.follow = []) :
    Splits u [e]
  | cons {u : Text} {e : Element} {es : List Element} (h : doElement u = (none, e))
    (hcomma : skipSpaces e.follow ≠ []) (hs : Splits e.unparsed es) : Splits u (e :: es)

/-- Each element but the last has its comma. -/
theorem Splits.length_le {es : List Element} (h : Splits u es) : es.length ≤ u.length + 1 := by
  induction h with
  | last h hend => exact Nat.succ_le_succ (Nat.zero_le _)
  | cons h hcomma hs ih =>
    have hlen := (found_of_doElement h).comma_length hcomma
    rw [List.length_cons]
    omega

/-- **The first pass** counts the elements that a text falls into. -/
theorem countElements_ok : ∀ {fuel : Nat} {u : Text} {v v' : ValueState α} {len : Nat}, u.length < fuel →
    countElements fuel u v = (.ok len, v') → ∃ es, Splits u es ∧
      v' = { v with nElements := v.nElements + es.length } ∧
      ∀ e, es = [e] → len = e.text.length
  | 0, u, v, v', len, hfuel, _ => absurd hfuel (Nat.not_lt_zero _)
  | fuel + 1, u, v, v', len, hfuel, h => by
    rw [countElements] at h
    obtain ⟨err, e, hd⟩ : ∃ err e, doElement u = (err, e) := ⟨_, _, rfl⟩
    rw [hd] at h
    cases err with
    | some error => cases h
    | none =>
      by_cases hend : skipSpaces e.follow = []
      · dsimp only at h
        rw [if_pos hend] at h
        cases h
        exact ⟨[e], .last hd hend, rfl, fun _ he => by cases he; rfl⟩
      · dsimp only at h
        rw [if_neg hend] at h
        have hlen := (found_of_doElement hd).comma_length hend
        have hshort : e.unparsed.length < fuel := by omega
        obtain ⟨es, hs, hv, -⟩ := countElements_ok hshort h
        refine ⟨e :: es, .cons hd hend hs, ?_, ?_⟩
        · rw [hv]
          simp only [List.length_cons]
          congr 1
          omega
        · intro e' he
          cases he
          cases hs

/-! ## What a step leaves alone -/

/-- A computation does not change a part of the state. -/
def Keeps {α β γ : Type} (part : ValueState α → γ) (x : ParseM α β) : Prop := ∀ v, part (x v).2 = part v

section

variable {β γ δ : Type} {part : ValueState α → γ} {x : ParseM α β}

theorem keeps_pure (b : β) : Keeps part (pure b : ParseM α β) := fun _ => rfl

theorem keeps_throw (e : Failure) : Keeps part (Exc.raise e : ParseM α β) := fun _ => rfl

theorem keeps_change {f : ValueState α → ValueState α} (hf : ∀ v, part (f v) = part v) :
    Keeps part (Exc.change f) := hf

theorem keeps_read_bind {f : ValueState α → ParseM α β} (hf : ∀ v, Keeps part (f v)) :
    Keeps part (Exc.read >>= f) := fun v => hf v v

theorem Keeps.bind {f : β → ParseM α δ} (hx : Keeps part x) (hf : ∀ b, Keeps part (f b)) :
    Keeps part (x >>= f) := by
  intro v
  show part (Exc.bind x f v).2 = part v
  unfold Exc.bind
  have hx := hx v
  rcases hr : x v with ⟨⟨e⟩ | ⟨b⟩, v'⟩
  · rw [hr] at hx
    exact hx
  · rw [hr] at hx
    exact (hf b v').trans hx

theorem Keeps.onlyIf {c : Prop} [Decidable c] {x : ParseM α Unit} (hx : Keeps part x) :
    Keeps part (Infra.onlyIf c x) := by
  unfold Infra.onlyIf
  split
  · exact hx
  · exact keeps_pure ()

/-- What is kept, in the form of a condition on how a computation ends. -/
theorem Keeps.ends (hx : Keeps part x) (v : ValueState α) :
    Exc.Ends (fun _ v' => part v' = part v) (fun _ v' => part v' = part v) x v := by
  have hx := hx v
  unfold Exc.Ends
  rcases hr : x v with ⟨⟨e⟩ | ⟨b⟩, v'⟩ <;> rwa [hr] at hx

/-- The pass that counts elements changes nothing but the count. -/
theorem keeps_countElements (p : ValueState α → γ) (hp : ∀ v n, p { v with nElements := n } = p v) :
    ∀ (fuel : Nat) (u : Text), Keeps p (countElements fuel u)
  | 0, _ => keeps_pure _
  | fuel + 1, u => by
    rw [countElements]
    rcases doElement u with ⟨⟨⟩ | ⟨err⟩, e⟩
    · refine Keeps.bind (keeps_change fun v => hp v _) fun _ => ?_
      split
      · exact keeps_pure _
      · exact keeps_countElements p hp fuel e.unparsed
    · exact keeps_throw _

end

/-- The counters, and the space for strings. -/
def ValueState.counts (v : ValueState α) : (Nat × Nat) × Nat × Nat :=
  ((v.nElements, v.nTotal), v.stringNext, v.stringSpaceLength)

/-- **`allocate`** does not change the counters. -/
theorem keeps_allocate (add : Bool) : Keeps ValueState.counts (allocate d base add) := by
  unfold allocate
  refine keeps_read_bind fun v => ?_
  split
  · exact keeps_pure ()
  · split
    · exact keeps_throw _
    · refine Keeps.bind (Keeps.onlyIf ?_) fun _ => Keeps.bind (keeps_change fun _ => rfl) fun _ => ?_
      · refine keeps_read_bind fun v => ?_
        split
        · exact keeps_throw _
        · exact keeps_change fun _ => rfl
      · unfold allocateStructs
        split
        · exact keeps_throw _
        · exact Keeps.onlyIf (keeps_change fun _ => rfl)

end OpenCpi.Value
