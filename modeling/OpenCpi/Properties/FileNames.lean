import OpenCpi.Os.FileSystem
import OpenCpi.Properties.UriPath

/-!
# Names and paths

A path is the list of its components. An absolute name is the text of a path, and a relative one is that of a
path below some directory.
-/

namespace OpenCpi.Os

open Util (Text slash dot segments rfind render)

/-- Components that a name can have. -/
def Plain (p : List Text) : Prop := ∀ c ∈ p, c ≠ [] ∧ slash ∉ c

/-- The components with slashes between them. -/
def relName (p : List Text) : Text := [slash].intercalate p

def absName (p : List Text) : Text := slash :: relName p

/-- **The path of a name**, in a directory. -/
def pathAt (dir : List Text) : Text → List Text
  | [] => dir
  | c :: rest => if c = slash then (if rest = [] then [] else segments rest) else dir ++ segments (c :: rest)

variable {p q : List Text} {c : Text}

theorem Plain.append (hp : Plain p) (hq : Plain q) : Plain (p ++ q) :=
  List.forall_mem_append.mpr ⟨hp, hq⟩

theorem Plain.noSlash (h : Plain p) : ∀ c ∈ p, slash ∉ c := fun c hc => (h c hc).2

theorem relName_singleton (c : Text) : relName [c] = c := List.intercalate_singleton

theorem relName_cons_cons (c d : Text) (p : List Text) : relName (c :: d :: p) = c ++ slash :: relName (d :: p) := by
  unfold relName
  rw [List.intercalate_cons_cons]
  simp

theorem relName_cons (c : Text) (h : p ≠ []) : relName (c :: p) = c ++ slash :: relName p := by
  cases p with
  | nil => exact absurd rfl h
  | cons d p => exact relName_cons_cons c d p

theorem relName_append (hp : p ≠ []) (hq : q ≠ []) : relName (p ++ q) = relName p ++ slash :: relName q := by
  induction p with
  | nil => exact absurd rfl hp
  | cons c p ih =>
    cases p with
    | nil =>
      show relName (c :: q) = _
      rw [relName_cons c hq, relName_singleton]
    | cons d p =>
      show relName (c :: d :: (p ++ q)) = _
      rw [relName_cons_cons, relName_cons_cons]
      show c ++ slash :: relName (d :: p ++ q) = _
      rw [ih (List.cons_ne_nil _ _), List.append_assoc]
      rfl

/-- A slash cuts a name. -/
theorem segments_cut (front rest : Text) :
    segments (front ++ slash :: rest) = segments front ++ segments rest := by
  rw [Util.segments_eq_splitOn, List.splitOn_append_cons_self, ← Util.segments_eq_splitOn,
    ← Util.segments_eq_splitOn]

theorem segments_relName (hne : p ≠ []) (h : ∀ c ∈ p, slash ∉ c) : segments (relName p) = p := by
  rw [Util.segments_eq_splitOn]
  exact List.splitOn_intercalate slash h hne

theorem relName_eq_nil (h : Plain p) : relName p = [] ↔ p = [] := by
  constructor
  · intro hnil
    cases p with
    | nil => rfl
    | cons c p =>
      have hc := (h c (List.mem_cons_self ..)).1
      cases p with
      | nil => exact absurd (relName_singleton c ▸ hnil) hc
      | cons d p =>
        rw [relName_cons_cons] at hnil
        exact absurd (List.append_eq_nil_iff.mp hnil).1 hc
  · rintro rfl
    rfl

/-- A relative name does not begin with a slash. -/
theorem relName_head (h : Plain p) : (relName p).head? ≠ some slash := by
  cases p with
  | nil => exact nofun
  | cons c p =>
    obtain ⟨hne, hslash⟩ := h c (List.mem_cons_self ..)
    obtain ⟨x, c, rfl⟩ := List.exists_cons_of_ne_nil hne
    have hx : x ≠ slash := fun hx => hslash (hx ▸ List.mem_cons_self ..)
    have hhead : (relName ((x :: c) :: p)).head? = some x := by
      cases p with
      | nil => rw [relName_singleton]; rfl
      | cons d p => rw [relName_cons_cons]; rfl
    rw [hhead]
    exact fun heq => hx (Option.some.inj heq)

theorem pathAt_absName (dir : List Text) (h : Plain p) : pathAt dir (absName p) = p := by
  rw [absName, pathAt, if_pos rfl]
  by_cases hp : p = []
  · subst hp
    exact if_pos rfl
  · rw [if_neg (mt (relName_eq_nil h).mp hp), segments_relName hp h.noSlash]

theorem pathAt_relName (dir : List Text) (h : Plain p) : pathAt dir (relName p) = dir ++ p := by
  by_cases hp : p = []
  · subst hp
    exact (List.append_nil dir).symm
  · obtain ⟨x, rest, hx⟩ := List.exists_cons_of_ne_nil (mt (relName_eq_nil h).mp hp)
    have hhead := relName_head h
    rw [hx] at hhead ⊢
    rw [pathAt, if_neg (fun heq => hhead (congrArg some heq)), ← hx, segments_relName hp h.noSlash]

theorem absName_inj (hp : Plain p) (hq : Plain q) : absName p = absName q ↔ p = q := by
  constructor
  · intro heq
    rw [← pathAt_absName [] hp, heq, pathAt_absName [] hq]
  · exact congrArg _

theorem plain_nil : Plain [] := fun _ h => nomatch h

theorem absName_eq_root (hp : Plain p) : absName p = [slash] ↔ p = [] :=
  absName_inj hp plain_nil

/-- **Joining** goes on from a directory. -/
theorem joinNames_absName (hplain : Plain p) (hq : Plain q) (hne : q ≠ []) :
    joinNames (absName p) (relName q) = some (absName (p ++ q)) := by
  obtain ⟨x, rest, hx⟩ := List.exists_cons_of_ne_nil (mt (relName_eq_nil hq).mp hne)
  have hhead := relName_head hq
  rw [hx] at hhead
  unfold joinNames
  rw [hx]
  dsimp only
  rw [if_neg (fun heq => hhead (congrArg some heq)), ← hx, if_neg (by exact Nat.succ_ne_zero _)]
  by_cases hp : p = []
  · subst hp
    rfl
  · have hroot : absName p ≠ [slash] := fun heq => hp ((absName_eq_root hplain).mp heq)
    rw [if_pos hroot, absName, absName, relName_append hp hne]
    simp

/-- A name that goes on behind another one with a slash is the name of a path below it. -/
theorem prefix_iff (hp : Plain p) (hq : Plain q) (hne : p ≠ []) :
    absName p ++ [slash] <+: absName q ↔ p <+: q ∧ p ≠ q := by
  constructor
  · rintro ⟨rest, hrest⟩
    have hname : relName p ++ [slash] ++ rest = relName q := (List.cons.inj hrest).2
    rw [List.append_assoc, List.singleton_append] at hname
    have hq' : q ≠ [] := by
      rintro rfl
      exact absurd hname (List.append_ne_nil_of_right_ne_nil _ (List.cons_ne_nil _ _))
    have hsegs : p ++ segments rest = q :=
      calc p ++ segments rest
          = segments (relName p ++ slash :: rest) := by
            rw [segments_cut, segments_relName hne hp.noSlash]
        _ = q := by rw [hname, segments_relName hq' hq.noSlash]
    refine ⟨⟨_, hsegs⟩, ?_⟩
    rintro rfl
    exact Util.segments_ne_nil rest (List.append_right_eq_self.mp hsegs)
  · rintro ⟨⟨r, rfl⟩, hneq⟩
    have hr : r ≠ [] := by
      rintro rfl
      exact hneq (List.append_nil p).symm
    refine ⟨relName r, ?_⟩
    rw [absName, absName, relName_append hne hr]
    simp

end OpenCpi.Os
