import OpenCpi.Uri.Text

/-!
# Dot segments

`normalizePath` edits the text of its result: it cuts the text at the last slash for `..` and leaves `.` out.
As a path without dot segments is the list of its segments, this is a stack: the cut pops, and everything
else is pushed. Where the path ends in a dot segment, the result ends in a slash.
-/

namespace OpenCpi.Util

/-! ## The stack -/

/-- `.` or `..` -/
def IsDots (seg : Text) : Prop := seg = [dot] ∨ seg = [dot, dot]

instance (seg : Text) : Decidable (IsDots seg) := inferInstanceAs (Decidable (_ ∨ _))

def pushSegment (stack : List Text) (seg : Text) : List Text :=
  if seg = [dot] then stack else if seg = [dot, dot] then stack.dropLast else stack ++ [seg]

/-- What follows a dot segment at the end: an empty segment. -/
def trailing (segs : List Text) : List Text := if ∃ seg ∈ segs.getLast?, IsDots seg then [[]] else []

/-- The segments without `.` and `..`. -/
def removeDots (segs : List Text) : List Text := segs.foldl pushSegment [] ++ trailing segs

/-- The text of a path. -/
def render (segs : List Text) : Text := segs.flatMap (slash :: ·)

theorem render_append (segs segs' : List Text) : render (segs ++ segs') = render segs ++ render segs' :=
  List.flatMap_append

theorem render_concat (segs : List Text) (seg : Text) : render (segs ++ [seg]) = render segs ++ slash :: seg := by
  rw [render_append]
  show render segs ++ (slash :: seg ++ []) = _
  rw [List.append_nil]

theorem render_ne_nil {segs : List Text} (h : segs ≠ []) : (render segs).length ≠ 0 := by
  cases segs with
  | nil => exact absurd rfl h
  | cons seg segs => exact Nat.succ_ne_zero _

/-! ## Segments -/

theorem segments_eq_splitOn (path : Text) : segments path = path.splitOn slash := by
  induction path with
  | nil => rw [List.splitOn_nil]; rfl
  | cons c path ih =>
    rw [List.splitOn_cons_eq_if_modifyHead, ← ih, segments]
    simp only [beq_iff_eq]

theorem segments_ne_nil (path : Text) : segments path ≠ [] := by
  rw [segments_eq_splitOn]
  exact List.splitOn_ne_nil slash path

theorem slash_notMem_segments (path : Text) : ∀ seg ∈ segments path, slash ∉ seg := by
  induction path with
  | nil =>
    intro seg hseg
    rw [List.mem_singleton.mp hseg]
    exact List.not_mem_nil
  | cons c path ih =>
    unfold segments
    split
    · exact List.forall_mem_cons.mpr ⟨List.not_mem_nil, ih⟩
    · next hc =>
      cases hsegs : segments path with
      | nil => exact absurd hsegs (segments_ne_nil path)
      | cons seg segs =>
        rw [hsegs] at ih
        obtain ⟨hseg, hsegs⟩ := List.forall_mem_cons.mp ih
        rw [List.modifyHead_cons]
        refine List.forall_mem_cons.mpr ⟨fun hmem => ?_, hsegs⟩
        rcases List.mem_cons.mp hmem with heq | hmem
        · exact hc heq.symm
        · exact hseg hmem

/-- Reading a path back gives its segments. -/
theorem segments_render {segs : List Text} (hne : segs ≠ []) (hslash : ∀ seg ∈ segs, slash ∉ seg) :
    ∃ path, render segs = slash :: path ∧ segments path = segs := by
  have htail : ∀ {segs : List Text}, segs ≠ [] → render segs = slash :: [slash].intercalate segs := by
    intro segs hne
    induction segs with
    | nil => exact absurd rfl hne
    | cons seg segs ih =>
      show slash :: seg ++ render segs = _
      cases segs with
      | nil => simp [render]
      | cons seg' segs =>
        rw [ih (List.cons_ne_nil _ _), List.intercalate_cons_cons]
        simp
  refine ⟨[slash].intercalate segs, htail hne, ?_⟩
  rw [segments_eq_splitOn, List.splitOn_intercalate slash hslash hne]

/-! ## The last slash -/

theorem rfind_eq_none {c : UInt8} {text : Text} (h : c ∉ text) : rfind c text = none := by
  induction text with
  | nil => rfl
  | cons x text ih =>
    obtain ⟨hx, htext⟩ := not_or.mp (mt List.mem_cons.mpr h)
    unfold rfind
    rw [ih htext]
    exact if_neg (Ne.symm hx)

theorem rfind_append {c : UInt8} {text : Text} (h : c ∉ text) (front : Text) :
    rfind c (front ++ c :: text) = some front.length := by
  induction front with
  | nil =>
    show rfind c (c :: text) = some 0
    unfold rfind
    rw [rfind_eq_none h]
    exact if_pos rfl
  | cons x front ih =>
    show rfind c (x :: (front ++ c :: text)) = some (front.length + 1)
    unfold rfind
    rw [ih]

/-- The cut pops the last segment. -/
theorem rfind_render {stack : List Text} {seg : Text} (h : slash ∉ seg) :
    rfind slash (render (stack ++ [seg])) = some (render stack).length := by
  rw [render_concat, rfind_append h]

/-! ## The loop -/

section

variable {stack : List Text} (hstack : ∀ seg ∈ stack, slash ∉ seg)

theorem slash_notMem_pushSegment {seg : Text} (hseg : slash ∉ seg) (hstack : ∀ seg ∈ stack, slash ∉ seg) :
    ∀ seg' ∈ pushSegment stack seg, slash ∉ seg' := by
  unfold pushSegment
  split
  · exact hstack
  · split
    · exact fun seg' hmem => hstack seg' (List.dropLast_subset stack hmem)
    · exact List.forall_mem_append.mpr ⟨hstack, List.forall_mem_singleton.mpr hseg⟩

include hstack in
/-- A turn of the loop is a step of the stack. -/
theorem addSegment_render (seg : Text) : addSegment false (render stack) seg = render (pushSegment stack seg) := by
  unfold addSegment pushSegment
  split
  · rfl
  · split
    · cases List.eq_nil_or_concat stack with
      | inl hnil =>
        rw [hnil]
        rfl
      | inr hconcat =>
        obtain ⟨front, top, heq⟩ := hconcat
        rw [List.concat_eq_append] at heq
        have htop : slash ∉ top := hstack top (by rw [heq]; exact List.mem_append_right _ List.mem_cons_self)
        rw [heq, rfind_render htop, List.dropLast_concat]
        dsimp only
        rw [render_append, List.take_left]
        rfl
    · exact (render_concat stack seg).symm

/-- The end of `normalizePath`. -/
def orSlash (res : Text) : Text := if res.length = 0 then [slash] else res

theorem orSlash_render {segs : List Text} (h : segs ≠ []) : orSlash (render segs) = render segs :=
  if_neg (render_ne_nil h)

include hstack in
/-- The last turn. -/
theorem addSegment_last (seg : Text) : orSlash (addSegment true (render stack) seg) =
    render (pushSegment stack seg ++ trailing [seg]) := by
  have hdots (h : IsDots seg) : trailing [seg] = [[]] := if_pos ⟨seg, rfl, h⟩
  have hends {stack : List Text} : orSlash (render stack ++ [slash]) = render (stack ++ [[]]) := by
    rw [← render_concat]
    exact orSlash_render (List.append_ne_nil_of_right_ne_nil _ (List.cons_ne_nil _ _))
  unfold addSegment pushSegment
  split
  · next hdot =>
    rw [hdots (Or.inl hdot)]
    exact hends
  · next hdot =>
    split
    · next hdotdot =>
      rw [hdots (Or.inr hdotdot)]
      cases List.eq_nil_or_concat stack with
      | inl hnil =>
        rw [hnil]
        rfl
      | inr hconcat =>
        obtain ⟨front, top, heq⟩ := hconcat
        rw [List.concat_eq_append] at heq
        have htop : slash ∉ top := hstack top (by rw [heq]; exact List.mem_append_right _ List.mem_cons_self)
        rw [heq, rfind_render htop, List.dropLast_concat]
        dsimp only
        rw [if_pos rfl, render_append, List.take_left]
        exact hends
    · next hdotdot =>
      have hplain : trailing [seg] = [] := by
        refine if_neg ?_
        rintro ⟨seg', hseg', hdots⟩
        cases hseg'
        exact hdots.elim hdot hdotdot
      rw [hplain, List.append_nil, ← render_concat]
      exact orSlash_render (List.append_ne_nil_of_right_ne_nil _ (List.cons_ne_nil _ _))

end

/-- The loop is a fold over the stack. -/
theorem normalizeLoop_render : ∀ {segs stack : List Text}, segs ≠ [] → (∀ seg ∈ segs, slash ∉ seg) →
    (∀ seg ∈ stack, slash ∉ seg) →
      orSlash (normalizeLoop (render stack) segs) = render (segs.foldl pushSegment stack ++ trailing segs)
  | [], _, hne, _, _ => absurd rfl hne
  | [seg], _, _, _, hstack => addSegment_last hstack seg
  | seg :: seg' :: segs, stack, _, hslash, hstack => by
    obtain ⟨hseg, hslash⟩ := List.forall_mem_cons.mp hslash
    have htrailing : trailing (seg :: seg' :: segs) = trailing (seg' :: segs) := by
      unfold trailing
      rw [List.getLast?_cons_cons]
    show orSlash (normalizeLoop (addSegment false (render stack) seg) (seg' :: segs)) = _
    rw [addSegment_render hstack, normalizeLoop_render (List.cons_ne_nil _ _) hslash
      (slash_notMem_pushSegment hseg hstack), htrailing]
    rfl

theorem normalizePath_eq_render (path : Text) :
    normalizePath (slash :: path) = render (removeDots (segments path)) := by
  have hempty : ∀ seg ∈ ([] : List Text), slash ∉ seg := fun seg hseg => absurd hseg List.not_mem_nil
  have hloop := normalizeLoop_render (segments_ne_nil path) (slash_notMem_segments path) hempty
  rw [normalizePath, if_neg (not_not_intro rfl)]
  exact hloop

/-! ## The result -/

/-- What is on the stack has no slash and is no dot segment. -/
theorem foldl_pushSegment_plain : ∀ {segs stack : List Text}, (∀ seg ∈ segs, slash ∉ seg) →
    (∀ seg ∈ stack, slash ∉ seg ∧ ¬IsDots seg) →
      ∀ seg ∈ segs.foldl pushSegment stack, slash ∉ seg ∧ ¬IsDots seg
  | [], _, _, hstack => hstack
  | seg :: segs, stack, hslash, hstack => by
    obtain ⟨hseg, hslash⟩ := List.forall_mem_cons.mp hslash
    show ∀ seg' ∈ segs.foldl pushSegment (pushSegment stack seg), slash ∉ seg' ∧ ¬IsDots seg'
    refine foldl_pushSegment_plain hslash ?_
    unfold pushSegment
    split
    · exact hstack
    · split
      · exact fun seg' hmem => hstack seg' (List.dropLast_subset stack hmem)
      · next hdot hdotdot =>
        exact List.forall_mem_append.mpr ⟨hstack, List.forall_mem_singleton.mpr
          ⟨hseg, fun hdots => hdots.elim hdot hdotdot⟩⟩

theorem removeDots_plain {segs : List Text} (hslash : ∀ seg ∈ segs, slash ∉ seg) :
    ∀ seg ∈ removeDots segs, slash ∉ seg ∧ ¬IsDots seg := by
  refine List.forall_mem_append.mpr ⟨foldl_pushSegment_plain hslash
    fun seg hseg => absurd hseg List.not_mem_nil, ?_⟩
  unfold trailing
  split
  · exact List.forall_mem_singleton.mpr ⟨List.not_mem_nil, by decide⟩
  · exact fun seg hseg => absurd hseg List.not_mem_nil

/-- Nothing is left out of a path without dot segments. -/
theorem foldl_pushSegment_id : ∀ {segs stack : List Text}, (∀ seg ∈ segs, ¬IsDots seg) →
    segs.foldl pushSegment stack = stack ++ segs
  | [], stack, _ => (List.append_nil stack).symm
  | seg :: segs, stack, hplain => by
    obtain ⟨hseg, hplain⟩ := List.forall_mem_cons.mp hplain
    have hpush : pushSegment stack seg = stack ++ [seg] := by
      unfold pushSegment
      rw [if_neg fun h => hseg (Or.inl h), if_neg fun h => hseg (Or.inr h)]
    rw [List.foldl_cons, hpush, foldl_pushSegment_id hplain, List.append_assoc, List.singleton_append]

theorem removeDots_id {segs : List Text} (hplain : ∀ seg ∈ segs, ¬IsDots seg) : removeDots segs = segs := by
  have htrailing : trailing segs = [] := by
    refine if_neg ?_
    rintro ⟨seg, hseg, hdots⟩
    exact hplain seg (List.mem_of_getLast? hseg) hdots
  unfold removeDots
  rw [foldl_pushSegment_id hplain, htrailing, List.append_nil, List.nil_append]

theorem removeDots_ne_nil {segs : List Text} (hne : segs ≠ []) : removeDots segs ≠ [] := by
  rcases List.eq_nil_or_concat segs with hnil | ⟨front, last, heq⟩
  · exact absurd hnil hne
  · rw [List.concat_eq_append] at heq
    unfold removeDots
    by_cases hdots : IsDots last
    · have htrailing : trailing segs = [[]] := if_pos ⟨last, by rw [heq]; simp, hdots⟩
      rw [htrailing]
      exact List.append_ne_nil_of_right_ne_nil _ (List.cons_ne_nil _ _)
    · rw [heq, List.foldl_append]
      show pushSegment (front.foldl pushSegment []) last ++ _ ≠ []
      unfold pushSegment
      rw [if_neg fun h => hdots (Or.inl h), if_neg fun h => hdots (Or.inr h)]
      exact List.append_ne_nil_of_left_ne_nil
        (List.append_ne_nil_of_right_ne_nil _ (List.cons_ne_nil _ _)) _

/-- **An absolute path is normalized to the path that the stack gives. It has no dot segment, and does not
change when it is normalized again.** -/
theorem normalizePath_removes_dots (path : Text) :
    normalizePath (slash :: path) = render (removeDots (segments path)) ∧
      (∃ path', normalizePath (slash :: path) = slash :: path' ∧ ∀ seg ∈ segments path', ¬IsDots seg) ∧
        normalizePath (normalizePath (slash :: path)) = normalizePath (slash :: path) := by
  have hplain := removeDots_plain (slash_notMem_segments path)
  obtain ⟨path', hpath', hsegs⟩ := segments_render (removeDots_ne_nil (segments_ne_nil path))
    fun seg hseg => (hplain seg hseg).1
  have hdots : ∀ seg ∈ segments path', ¬IsDots seg := by
    rw [hsegs]
    exact fun seg hseg => (hplain seg hseg).2
  have heq := normalizePath_eq_render path
  refine ⟨heq, ⟨path', heq.trans hpath', hdots⟩, ?_⟩
  rw [heq, hpath', normalizePath_eq_render, removeDots_id hdots, hsegs, hpath']

example : normalizePath [slash, 97, slash, dot, dot, slash, dot, dot, slash, 98, slash, dot] =
    [slash, 98, slash] := by decide

end OpenCpi.Util
