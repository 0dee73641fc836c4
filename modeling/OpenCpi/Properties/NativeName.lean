import OpenCpi.Properties.FileNames

/-!
# Native names

`fromNativeName` edits the text of a name for each component. As long as the name is that of a path, the cut
at the last slash goes to the directory above it. The root has no such name: it is not `""`, so that the cut
refuses a name with one component, or leaves a name that is taken for the current directory.
-/

namespace OpenCpi.Os

open Util (Text slash dot segments rfind)

/-! ## What a native name means -/

/-- `.` and `..` resolved in a directory; `none` above the root. -/
def resolve : List Text → List Text → Option (List Text)
  | stack, [] => some stack
  | stack, c :: rest =>
    if c = [dot] then resolve stack rest
    else if c = [dot, dot] then if stack = [] then none else resolve stack.dropLast rest
    else resolve (stack ++ [c]) rest

/-- The texts between slashes without an empty one at the end. -/
def withoutEnd : List Text → List Text
  | [] => []
  | [c] => if c = [] then [] else [c]
  | c :: rest => c :: withoutEnd rest

def isAbsolute (nativeName : Text) : Bool := nativeName.head? == some slash

/-- The components of a native name; a slash at the end is ignored. -/
def components (nativeName : Text) : List Text :=
  withoutEnd (segments (if isAbsolute nativeName then nativeName.drop 1 else nativeName))

/-- Where a native name begins. -/
def base (dir : List Text) (nativeName : Text) : List Text := if isAbsolute nativeName then [] else dir

/-- **A name that may be refused**: it is empty, has an empty component before its end, or goes above the
root. -/
def Bad (dir : List Text) (nativeName : Text) : Prop :=
  nativeName = [] ∨ [] ∈ components nativeName ∨ resolve (base dir nativeName) (components nativeName) = none

/-- **A native name keeps its meaning.** -/
def NameKept (dir : List Text) (nativeName : Text) : Prop :=
  match fromNativeName (absName dir) nativeName with
  | .error _ => Bad dir nativeName
  | .ok name => (∀ c ∈ segments name, c ≠ [dot] ∧ c ≠ [dot, dot]) ∧
      resolve (base dir nativeName) (components nativeName) = some (pathAt dir name)

/-- A `..` on the way leads to the root, or above it. -/
def PassesRoot : List Text → List Text → Prop
  | _, [] => False
  | stack, c :: rest =>
    if c = [dot] then PassesRoot stack rest
    else if c = [dot, dot] then stack.dropLast = [] ∨ PassesRoot stack.dropLast rest
    else PassesRoot (stack ++ [c]) rest

/-- **When the meaning is kept**: the name may be refused, or it is not `..` alone and no `..` leads to the
root; in the root directory it may, if the name begins with a component that is not `.`. -/
def KeptWhen (dir : List Text) (nativeName : Text) : Prop :=
  Bad dir nativeName ∨
    nativeName ≠ [dot, dot] ∧
      (¬PassesRoot (base dir nativeName) (components nativeName) ∨
        dir = [] ∧ isAbsolute nativeName = false ∧ (segments nativeName).head? ≠ some [dot])

/-- Components without `.` and `..`. -/
def NoDots (p : List Text) : Prop := ∀ c ∈ p, c ≠ [dot] ∧ c ≠ [dot, dot]

/-! ## Resolving -/

variable {c : Text} {p stack rest dir : List Text}

theorem resolve_dot : resolve stack ([dot] :: rest) = resolve stack rest := if_pos rfl

theorem resolve_dots (hne : stack ≠ []) : resolve stack ([dot, dot] :: rest) = resolve stack.dropLast rest := by
  rw [resolve, if_neg (by decide), if_pos rfl, if_neg hne]

theorem resolve_dots_root : resolve [] ([dot, dot] :: rest) = none := by
  rw [resolve, if_neg (by decide), if_pos rfl, if_pos rfl]

theorem resolve_name (h₁ : c ≠ [dot]) (h₂ : c ≠ [dot, dot]) :
    resolve stack (c :: rest) = resolve (stack ++ [c]) rest := by
  rw [resolve, if_neg h₁, if_neg h₂]

theorem passesRoot_dot : PassesRoot stack ([dot] :: rest) ↔ PassesRoot stack rest := by
  rw [PassesRoot, if_pos rfl]

theorem passesRoot_dots : PassesRoot stack ([dot, dot] :: rest) ↔
    stack.dropLast = [] ∨ PassesRoot stack.dropLast rest := by
  rw [PassesRoot, if_neg (by decide), if_pos rfl]

theorem passesRoot_name (h₁ : c ≠ [dot]) (h₂ : c ≠ [dot, dot]) :
    PassesRoot stack (c :: rest) ↔ PassesRoot (stack ++ [c]) rest := by
  rw [PassesRoot, if_neg h₁, if_neg h₂]

/-- The case split over a component. -/
theorem component_cases {P : Text → Prop} (h₁ : P [dot]) (h₂ : P [dot, dot])
    (h₃ : ∀ c, c ≠ [dot] → c ≠ [dot, dot] → P c) (c : Text) : P c := by
  by_cases hc : c = [dot]
  · exact hc ▸ h₁
  · by_cases hc' : c = [dot, dot]
    · exact hc' ▸ h₂
    · exact h₃ c hc hc'

/-- A name that leaves a directory just below the root gets there. -/
theorem passesRoot_append {dir : List Text} (hroot : dir.dropLast = []) (h : resolve stack rest = none) :
    PassesRoot (dir ++ stack) rest := by
  induction rest generalizing stack with
  | nil => cases h
  | cons c rest ih =>
    revert h
    refine component_cases (P := fun c => resolve stack (c :: rest) = none → PassesRoot (dir ++ stack) (c :: rest))
      ?_ ?_ ?_ c
    · rw [resolve_dot, passesRoot_dot]
      exact ih
    · intro h
      rw [passesRoot_dots]
      by_cases hne : stack = []
      · exact .inl (by rw [hne, List.append_nil, hroot])
      · rw [resolve_dots hne] at h
        rw [List.dropLast_append_of_ne_nil hne]
        exact .inr (ih h)
    · intro c h₁ h₂
      rw [resolve_name h₁ h₂, passesRoot_name h₁ h₂, List.append_assoc]
      exact ih

/-- What resolves in one directory resolves below any other. -/
theorem resolve_append (h : resolve stack rest = some p) (front : List Text) :
    resolve (front ++ stack) rest = some (front ++ p) := by
  induction rest generalizing stack with
  | nil =>
    cases h
    rfl
  | cons c rest ih =>
    revert h
    refine component_cases (P := fun c => resolve stack (c :: rest) = some p →
      resolve (front ++ stack) (c :: rest) = some (front ++ p)) ?_ ?_ ?_ c
    · rw [resolve_dot, resolve_dot]
      exact ih
    · intro h
      by_cases hne : stack = []
      · rw [hne, resolve_dots_root] at h
        cases h
      · rw [resolve_dots hne] at h
        rw [resolve_dots (List.append_ne_nil_of_right_ne_nil _ hne), List.dropLast_append_of_ne_nil hne]
        exact ih h
    · intro c h₁ h₂
      rw [resolve_name h₁ h₂, resolve_name h₁ h₂, List.append_assoc]
      exact ih

theorem noDots_resolve (h : NoDots stack) (hp : resolve stack rest = some p) : NoDots p := by
  induction rest generalizing stack with
  | nil =>
    cases hp
    exact h
  | cons c rest ih =>
    revert hp
    refine component_cases (P := fun c => resolve stack (c :: rest) = some p → NoDots p) ?_ ?_ ?_ c
    · rw [resolve_dot]
      exact ih h
    · intro hp
      by_cases hne : stack = []
      · rw [hne, resolve_dots_root] at hp
        cases hp
      · rw [resolve_dots hne] at hp
        exact ih (fun c hc => h c (List.mem_of_mem_dropLast hc)) hp
    · intro c h₁ h₂ hp
      rw [resolve_name h₁ h₂] at hp
      exact ih (List.forall_mem_append.mpr ⟨h, List.forall_mem_singleton.mpr ⟨h₁, h₂⟩⟩) hp

theorem plain_resolve (h : Plain stack) (hrest : Plain rest) (hp : resolve stack rest = some p) : Plain p := by
  induction rest generalizing stack with
  | nil =>
    cases hp
    exact h
  | cons c rest ih =>
    obtain ⟨hc, hrest⟩ := List.forall_mem_cons.mp hrest
    revert hp hc
    refine component_cases (P := fun c => resolve stack (c :: rest) = some p → c ≠ [] ∧ slash ∉ c → Plain p)
      ?_ ?_ ?_ c
    · rw [resolve_dot]
      exact fun hp _ => ih h hrest hp
    · intro hp _
      by_cases hne : stack = []
      · rw [hne, resolve_dots_root] at hp
        cases hp
      · rw [resolve_dots hne] at hp
        exact ih (fun c hc => h c (List.mem_of_mem_dropLast hc)) hrest hp
    · intro c h₁ h₂ hp hc
      rw [resolve_name h₁ h₂] at hp
      exact ih (h.append (List.forall_mem_singleton.mpr hc)) hrest hp

/-! ## The text of the name -/

theorem absName_concat (hne : p ≠ []) (c : Text) : absName (p ++ [c]) = absName p ++ slash :: c := by
  rw [absName, relName_append hne (List.cons_ne_nil c []), relName_singleton]
  rfl

theorem relName_concat (hne : p ≠ []) (c : Text) : relName (p ++ [c]) = relName p ++ slash :: c := by
  rw [relName_append hne (List.cons_ne_nil c []), relName_singleton]

theorem addComponent_absName (h : Plain p) (c : Text) : addComponent (absName p) c = absName (p ++ [c]) := by
  unfold addComponent
  by_cases hp : p = []
  · subst hp
    rw [if_neg (fun hc => hc.2.elim (fun h => h rfl) (fun h => h rfl))]
    exact congrArg (slash :: ·) (relName_singleton c).symm
  · have hlen : (absName p).length ≠ 1 := by
      intro hlen
      have hnil : relName p = [] := List.length_eq_zero_iff.mp (Nat.succ.inj hlen)
      exact hp ((relName_eq_nil h).mp hnil)
    rw [if_pos ⟨Nat.succ_ne_zero _, .inl hlen⟩, absName_concat hp, List.append_assoc]
    rfl

theorem addComponent_relName (h : Plain p) (c : Text) : addComponent (relName p) c = relName (p ++ [c]) := by
  unfold addComponent
  by_cases hp : p = []
  · subst hp
    rw [if_neg (fun hc => hc.1 rfl)]
    exact (relName_singleton c).symm
  · have hlen : (relName p).length ≠ 0 := fun hlen => hp ((relName_eq_nil h).mp (List.length_eq_zero_iff.mp hlen))
    rw [if_pos ⟨hlen, .inr (relName_head h)⟩, relName_concat hp, List.append_assoc]
    rfl

/-- The cut of an absolute name: the directory above, when that is not the root. -/
theorem rfind_absName (h : Plain stack) : rfind slash (absName stack) =
    if stack.dropLast = [] then some 0 else some (absName stack.dropLast).length := by
  rcases List.eq_nil_or_concat' stack with rfl | ⟨p, c, rfl⟩
  · rfl
  · have hc := (h c (List.mem_append_right _ (List.mem_singleton_self c))).2
    rw [List.dropLast_concat]
    by_cases hp : p = []
    · subst hp
      rw [if_pos rfl]
      show rfind slash (slash :: relName [c]) = _
      rw [relName_singleton]
      exact Util.rfind_append hc []
    · rw [if_neg hp, absName_concat hp, Util.rfind_append hc]

theorem take_absName (h : Plain stack) (hne : stack.dropLast ≠ []) :
    (absName stack).take (absName stack.dropLast).length = absName stack.dropLast := by
  rcases List.eq_nil_or_concat' stack with rfl | ⟨p, c, rfl⟩
  · exact absurd rfl hne
  · rw [List.dropLast_concat] at hne ⊢
    rw [absName_concat hne, List.take_left']
    rfl

/-- The cut of a relative name with several components. -/
theorem rfind_relName (h : Plain stack) : rfind slash (relName stack) =
    if stack.dropLast = [] then none else some (relName stack.dropLast).length := by
  rcases List.eq_nil_or_concat' stack with rfl | ⟨p, c, rfl⟩
  · rfl
  · have hc := (h c (List.mem_append_right _ (List.mem_singleton_self c))).2
    rw [List.dropLast_concat]
    by_cases hp : p = []
    · subst hp
      rw [if_pos rfl]
      show rfind slash (relName [c]) = _
      rw [relName_singleton, Util.rfind_eq_none hc]
    · rw [if_neg hp, relName_concat hp, Util.rfind_append hc]

theorem take_relName (hne : stack.dropLast ≠ []) :
    (relName stack).take (relName stack.dropLast).length = relName stack.dropLast := by
  rcases List.eq_nil_or_concat' stack with rfl | ⟨p, c, rfl⟩
  · exact absurd rfl hne
  · rw [List.dropLast_concat] at hne ⊢
    rw [relName_concat hne, List.take_left']
    rfl

/-! ## The loop -/

theorem processComponents_dot {cwd name : Text} {mayBackUp : Bool} :
    processComponents cwd name mayBackUp ([dot] :: rest) = processComponents cwd name mayBackUp rest := by
  rw [processComponents, if_neg (by decide), if_pos rfl]

theorem processComponents_name {cwd name : Text} {mayBackUp : Bool} (hc : c ≠ []) (h₁ : c ≠ [dot])
    (h₂ : c ≠ [dot, dot]) : processComponents cwd name mayBackUp (c :: rest) =
      processComponents cwd (addComponent name c) mayBackUp rest := by
  rw [processComponents, if_neg (fun h => hc (List.length_eq_zero_iff.mp h)), if_neg h₁, if_neg h₂]

theorem processComponents_dots {cwd name : Text} {mayBackUp : Bool} (hname : name ≠ []) :
    processComponents cwd name mayBackUp ([dot, dot] :: rest) =
      (rfind slash name).elim (processComponents cwd [] mayBackUp rest) fun pos =>
        if pos = 0 then .error "unprocessible '..' path component"
        else processComponents cwd (name.take pos) mayBackUp rest := by
  have hlen : ¬name.length = 0 := fun h => hname (List.length_eq_zero_iff.mp h)
  rw [processComponents, if_neg (by decide), if_neg (by decide), if_pos rfl, if_neg (fun h => hlen h.1)]
  simp only [hlen, decide_false, if_neg Bool.false_ne_true]
  rcases rfind slash name with _ | _ | pos
  · rfl
  · rfl
  · rfl

/-- The name of the current directory is taken for no name. -/
theorem processComponents_backUp {cwd : Text} (hcwd : cwd ≠ []) :
    processComponents cwd [] true ([dot, dot] :: rest) = processComponents cwd cwd false ([dot, dot] :: rest) := by
  rw [processComponents_dots hcwd, processComponents, if_neg (by decide), if_neg (by decide), if_pos rfl,
    if_neg (fun h => nomatch h.2)]
  simp only [List.length_nil, decide_true, if_pos]
  rcases rfind slash cwd with _ | _ | pos
  · rfl
  · rfl
  · rfl

/-- A turn of `..` on an absolute name. -/
theorem dots_absName {cwd : Text} {mayBackUp : Bool} (h : Plain stack) :
    processComponents cwd (absName stack) mayBackUp ([dot, dot] :: rest) =
      if stack.dropLast = [] then .error "unprocessible '..' path component"
      else processComponents cwd (absName stack.dropLast) mayBackUp rest := by
  have hne : absName stack ≠ [] := List.cons_ne_nil _ _
  rw [processComponents_dots hne, rfind_absName h]
  by_cases hroot : stack.dropLast = []
  · rw [if_pos hroot, if_pos hroot]
    rfl
  · rw [if_neg hroot, if_neg hroot, Option.elim_some, if_neg (by exact Nat.succ_ne_zero _), take_absName h hroot]

/-- A turn of `..` on a relative name. -/
theorem dots_relName {cwd : Text} {mayBackUp : Bool} (h : Plain stack) (hne : stack ≠ []) :
    processComponents cwd (relName stack) mayBackUp ([dot, dot] :: rest) =
      processComponents cwd (relName stack.dropLast) mayBackUp rest := by
  have hplain : Plain stack.dropLast := fun c hc => h c (List.mem_of_mem_dropLast hc)
  rw [processComponents_dots (mt (relName_eq_nil h).mp hne), rfind_relName h]
  by_cases hroot : stack.dropLast = []
  · rw [if_pos hroot, hroot]
    rfl
  · have hlen : (relName stack.dropLast).length ≠ 0 :=
      fun hlen => hroot ((relName_eq_nil hplain).mp (List.length_eq_zero_iff.mp hlen))
    rw [if_neg hroot, Option.elim_some, if_neg hlen, take_relName hroot]

theorem withoutEnd_cons (hne : rest ≠ []) : withoutEnd (c :: rest) = c :: withoutEnd rest := by
  cases rest with
  | nil => exact absurd rfl hne
  | cons d rest => rfl

/-- **The texts between slashes, one at a time**: an empty one ends the name or is refused. -/
theorem raw_cases (rest : List Text) : (rest = [] ∨ rest = [[]]) ∨
    ∃ c rest', rest = c :: rest' ∧ (c = [] ∧ rest' ≠ [] ∨ c ≠ [] ∧ withoutEnd rest = c :: withoutEnd rest') := by
  cases rest with
  | nil => exact .inl (.inl rfl)
  | cons c rest =>
    by_cases hc : c = []
    · by_cases hrest : rest = []
      · exact .inl (.inr (by rw [hc, hrest]))
      · exact .inr ⟨c, rest, rfl, .inl ⟨hc, hrest⟩⟩
    · refine .inr ⟨c, rest, rfl, .inr ⟨hc, ?_⟩⟩
      cases rest with
      | nil => exact if_neg hc
      | cons d rest => rfl

/-- What the loop refuses of an absolute name. -/
def Refused (stack rest : List Text) : Prop := [] ∈ withoutEnd rest ∨ PassesRoot stack (withoutEnd rest)

theorem withoutEnd_eq_nil (h : rest = [] ∨ rest = [[]]) : withoutEnd rest = [] := by
  rcases h with rfl | rfl
  · rfl
  · rfl

theorem processComponents_end {cwd name : Text} {mayBackUp : Bool} (h : rest = [] ∨ rest = [[]]) :
    processComponents cwd name mayBackUp rest = .ok name := by
  rcases h with rfl | rfl
  · rfl
  · rfl

theorem processComponents_empty {cwd name : Text} {mayBackUp : Bool} (h : rest ≠ []) :
    processComponents cwd name mayBackUp ([] :: rest) = .error "empty path component" := by
  rw [processComponents, if_pos List.length_nil, if_neg (fun hnil => h (List.isEmpty_iff.mp hnil))]

theorem empty_mem_withoutEnd (h : rest ≠ []) : [] ∈ withoutEnd ([] :: rest) := by
  rw [withoutEnd_cons h]
  exact List.mem_cons_self ..

/-- **Absolute names**: the loop resolves the path, or refuses it. -/
theorem process_absName (cwd : Text) (mayBackUp : Bool) (h : Plain stack) (hslash : ∀ c ∈ rest, slash ∉ c) :
    (∃ e, processComponents cwd (absName stack) mayBackUp rest = .error e ∧ Refused stack rest) ∨
      ∃ p, processComponents cwd (absName stack) mayBackUp rest = .ok (absName p) ∧ ¬Refused stack rest ∧
        resolve stack (withoutEnd rest) = some p := by
  induction rest generalizing stack with
  | nil => exact .inr ⟨stack, rfl, fun hr => hr.elim nofun id, rfl⟩
  | cons c rest ih =>
    obtain ⟨hc, hrest⟩ := List.forall_mem_cons.mp hslash
    rcases raw_cases (c :: rest) with hend | ⟨c', rest', heq, hcase⟩
    · rw [processComponents_end hend]
      unfold Refused
      rw [withoutEnd_eq_nil hend]
      exact .inr ⟨stack, rfl, fun hr => hr.elim nofun id, rfl⟩
    · obtain ⟨rfl, rfl⟩ := List.cons.inj heq
      rcases hcase with ⟨rfl, hne⟩ | ⟨hne, hwithout⟩
      · rw [processComponents_empty hne]
        exact .inl ⟨_, rfl, .inl (empty_mem_withoutEnd hne)⟩
      · unfold Refused
        rw [hwithout, List.mem_cons, or_iff_right (Ne.symm hne)]
        clear heq hwithout hslash
        revert hc hne
        refine component_cases (P := fun c => slash ∉ c → c ≠ [] →
          (∃ e, processComponents cwd (absName stack) mayBackUp (c :: rest) = .error e ∧
              ([] ∈ withoutEnd rest ∨ PassesRoot stack (c :: withoutEnd rest))) ∨
            ∃ p, processComponents cwd (absName stack) mayBackUp (c :: rest) = .ok (absName p) ∧
              ¬([] ∈ withoutEnd rest ∨ PassesRoot stack (c :: withoutEnd rest)) ∧
                resolve stack (c :: withoutEnd rest) = some p) ?_ ?_ ?_ c
        · intro _ _
          rw [processComponents_dot, passesRoot_dot, resolve_dot]
          exact ih h hrest
        · intro _ _
          rw [dots_absName h, passesRoot_dots]
          by_cases hroot : stack.dropLast = []
          · rw [if_pos hroot]
            exact .inl ⟨_, rfl, .inr (.inl hroot)⟩
          · have hne : stack ≠ [] := fun hnil => hroot (by rw [hnil]; rfl)
            rw [if_neg hroot, or_iff_right hroot, resolve_dots hne]
            exact ih (fun c hc => h c (List.mem_of_mem_dropLast hc)) hrest
        · intro c h₁ h₂ hc hne
          rw [processComponents_name hne h₁ h₂, addComponent_absName h, passesRoot_name h₁ h₂, resolve_name h₁ h₂]
          exact ih (h.append (List.forall_mem_singleton.mpr ⟨hne, hc⟩)) hrest

/-- **Relative names**: the loop stays below the directory, or backs up from it once and goes on with an
absolute name, or refuses the path. -/
theorem process_relName (hdir : Plain dir) (h : Plain stack) (hslash : ∀ c ∈ rest, slash ∉ c) :
    (∃ p, processComponents (absName dir) (relName stack) true rest = .ok (relName p) ∧ [] ∉ withoutEnd rest ∧
        resolve stack (withoutEnd rest) = some p) ∨
      (∃ p, processComponents (absName dir) (relName stack) true rest = .ok (absName p) ∧ dir.dropLast ≠ [] ∧
        ¬Refused (dir ++ stack) rest ∧ resolve (dir ++ stack) (withoutEnd rest) = some p) ∨
      ∃ e, processComponents (absName dir) (relName stack) true rest = .error e ∧
        ([] ∈ withoutEnd rest ∨ resolve stack (withoutEnd rest) = none ∧
          (dir.dropLast = [] ∨ PassesRoot (dir ++ stack) (withoutEnd rest))) := by
  induction rest generalizing stack with
  | nil => exact .inl ⟨stack, rfl, nofun, rfl⟩
  | cons c rest ih =>
    obtain ⟨hc, hrest⟩ := List.forall_mem_cons.mp hslash
    rcases raw_cases (c :: rest) with hend | ⟨c', rest', heq, hcase⟩
    · rw [processComponents_end hend, withoutEnd_eq_nil hend]
      exact .inl ⟨stack, rfl, nofun, rfl⟩
    · obtain ⟨rfl, rfl⟩ := List.cons.inj heq
      rcases hcase with ⟨rfl, hne⟩ | ⟨hne, hwithout⟩
      · rw [processComponents_empty hne]
        exact .inr (.inr ⟨_, rfl, .inl (empty_mem_withoutEnd hne)⟩)
      · unfold Refused at ih ⊢
        rw [hwithout, List.mem_cons, or_iff_right (Ne.symm hne)]
        clear heq hwithout hslash
        by_cases h₁ : c = [dot]
        · subst h₁
          rw [processComponents_dot, passesRoot_dot, resolve_dot, resolve_dot]
          exact ih h hrest
        · by_cases h₂ : c = [dot, dot]
          · subst h₂
            rw [passesRoot_dots]
            by_cases hstack : stack = []
            · subst hstack
              have hcwd : absName dir ≠ [] := List.cons_ne_nil _ _
              rw [show relName [] = [] from rfl, processComponents_backUp hcwd, dots_absName hdir, List.append_nil]
              by_cases hroot : dir.dropLast = []
              · rw [if_pos hroot]
                exact .inr (.inr ⟨_, rfl, .inr ⟨resolve_dots_root, .inl hroot⟩⟩)
              · have hdirNe : dir ≠ [] := fun hnil => hroot (by rw [hnil]; rfl)
                rw [if_neg hroot, or_iff_right hroot, resolve_dots hdirNe]
                rcases process_absName (absName dir) false
                  (fun c hc => hdir c (List.mem_of_mem_dropLast hc)) hrest with ⟨e, he, hr⟩ | ⟨p, hp, hr, hres⟩
                · exact .inr (.inr ⟨e, he, hr.imp id fun hpass => ⟨resolve_dots_root, .inr hpass⟩⟩)
                · exact .inr (.inl ⟨p, hp, hroot, hr, hres⟩)
            · have happend : dir ++ stack ≠ [] := List.append_ne_nil_of_right_ne_nil _ hstack
              rw [dots_relName h hstack, resolve_dots hstack, resolve_dots happend,
                List.dropLast_append_of_ne_nil hstack]
              rcases ih (fun c hc => h c (List.mem_of_mem_dropLast hc)) hrest with hok | hok | ⟨e, he, hr⟩
              · exact .inl hok
              · obtain ⟨p, hp, hroot, hr, hres⟩ := hok
                have hne : dir ++ stack.dropLast ≠ [] := by
                  intro hnil
                  rw [(List.append_eq_nil_iff.mp hnil).1] at hroot
                  exact hroot rfl
                exact .inr (.inl ⟨p, hp, hroot, by rwa [or_iff_right hne], hres⟩)
              · exact .inr (.inr ⟨e, he, hr.imp id fun hnone => ⟨hnone.1, hnone.2.imp id .inr⟩⟩)
          · rw [processComponents_name hne h₁ h₂, addComponent_relName h, passesRoot_name h₁ h₂,
              resolve_name h₁ h₂, resolve_name h₁ h₂, List.append_assoc]
            exact ih (h.append (List.forall_mem_singleton.mpr ⟨hne, hc⟩)) hrest

/-! ## Which names keep their meaning -/

/-- An empty name stands for the current directory. -/
def orDirectory (dir : List Text) (name : Text) : Text := if name.isEmpty then absName dir else name

theorem orDirectory_absName : orDirectory dir (absName p) = absName p := rfl

theorem pathAt_orDirectory (hdir : Plain dir) (h : Plain p) : pathAt dir (orDirectory dir (relName p)) = dir ++ p := by
  unfold orDirectory
  by_cases hp : p = []
  · rw [if_pos (List.isEmpty_iff.mpr ((relName_eq_nil h).mpr hp)), pathAt_absName dir hdir, hp, List.append_nil]
  · rw [if_neg (mt (fun he => (relName_eq_nil h).mp (List.isEmpty_iff.mp he)) hp), pathAt_relName dir h]

theorem noDots_segments_absName (h : Plain p) (hdots : NoDots p) : NoDots (segments (absName p)) := by
  have hempty : ([] : Text) ≠ [dot] ∧ ([] : Text) ≠ [dot, dot] := by decide
  rw [show absName p = [] ++ slash :: relName p from rfl, segments_cut]
  refine List.forall_mem_append.mpr ⟨List.forall_mem_singleton.mpr hempty, ?_⟩
  by_cases hp : p = []
  · subst hp
    exact List.forall_mem_singleton.mpr hempty
  · rwa [segments_relName hp h.noSlash]

theorem noDots_orDirectory (hdir : Plain dir) (hdots : NoDots dir) (h : Plain p) (hp : NoDots p) :
    NoDots (segments (orDirectory dir (relName p))) := by
  unfold orDirectory
  by_cases hnil : p = []
  · rw [if_pos (List.isEmpty_iff.mpr ((relName_eq_nil h).mpr hnil))]
    exact noDots_segments_absName hdir hdots
  · rw [if_neg (mt (fun he => (relName_eq_nil h).mp (List.isEmpty_iff.mp he)) hnil), segments_relName hnil h.noSlash]
    exact hp

/-- A name that stays below a directory passes the root only in the root. -/
theorem not_passesRoot_append (hdir : dir ≠ []) (h : resolve stack rest = some p) : ¬PassesRoot (dir ++ stack) rest := by
  induction rest generalizing stack with
  | nil => exact id
  | cons c rest ih =>
    revert h
    refine component_cases (P := fun c => resolve stack (c :: rest) = some p → ¬PassesRoot (dir ++ stack) (c :: rest))
      ?_ ?_ ?_ c
    · rw [resolve_dot, passesRoot_dot]
      exact ih
    · intro h
      by_cases hne : stack = []
      · rw [hne, resolve_dots_root] at h
        cases h
      · rw [resolve_dots hne] at h
        rw [passesRoot_dots, List.dropLast_append_of_ne_nil hne, or_iff_right (List.append_ne_nil_of_left_ne_nil hdir _)]
        exact ih h
    · intro c h₁ h₂
      rw [resolve_name h₁ h₂, passesRoot_name h₁ h₂, List.append_assoc]
      exact ih

theorem mem_of_mem_withoutEnd (h : c ∈ withoutEnd rest) : c ∈ rest := by
  induction rest with
  | nil => cases h
  | cons d rest ih =>
    cases rest with
    | nil =>
      rw [withoutEnd] at h
      split at h
      · cases h
      · exact h
    | cons e rest =>
      rcases List.mem_cons.mp h with rfl | h
      · exact List.mem_cons_self ..
      · exact List.mem_cons_of_mem _ (ih h)

theorem plain_withoutEnd (hslash : ∀ c ∈ rest, slash ∉ c) (h : [] ∉ withoutEnd rest) : Plain (withoutEnd rest) :=
  fun c hc => ⟨fun hnil => h (hnil ▸ hc), hslash c (mem_of_mem_withoutEnd hc)⟩

variable {nativeName : Text}

theorem nameKept_error {e : String} (h : fromNativeName (absName dir) nativeName = .error e) :
    NameKept dir nativeName ↔ Bad dir nativeName := by
  unfold NameKept
  rw [h]

theorem nameKept_ok {name : Text} (h : fromNativeName (absName dir) nativeName = .ok name) :
    NameKept dir nativeName ↔ NoDots (segments name) ∧
      resolve (base dir nativeName) (components nativeName) = some (pathAt dir name) := by
  unfold NameKept
  rw [h]
  rfl

/-- **Names whose loop runs on an absolute name**. -/
theorem kept_of_absName {mayBackUp : Bool} (h : Plain stack) (hdots : NoDots stack) (hslash : ∀ c ∈ rest, slash ∉ c)
    (hname : fromNativeName (absName dir) nativeName =
      (processComponents (absName dir) (absName stack) mayBackUp rest).map (orDirectory dir))
    (hback : nativeName ≠ [dot, dot])
    (hempty : [] ∈ components nativeName ↔ [] ∈ withoutEnd rest)
    (hresolve : resolve (base dir nativeName) (components nativeName) = resolve stack (withoutEnd rest))
    (hpass : PassesRoot (base dir nativeName) (components nativeName) ↔ PassesRoot stack (withoutEnd rest))
    (hroot : ¬(dir = [] ∧ isAbsolute nativeName = false ∧ (segments nativeName).head? ≠ some [dot])) :
    NameKept dir nativeName ↔ KeptWhen dir nativeName := by
  unfold KeptWhen
  rw [and_iff_right hback, or_iff_left hroot, hpass]
  rcases process_absName (absName dir) mayBackUp h hslash with ⟨e, he, hr⟩ | ⟨p, hp, hr, hres⟩
  · rw [he] at hname
    rw [nameKept_error hname]
    refine ⟨.inl, fun hkept => hkept.elim id fun hkept => ?_⟩
    exact .inr (.inl (hempty.mpr (hr.resolve_right hkept)))
  · rw [hp] at hname
    have hplain : Plain p := by
      exact plain_resolve h (plain_withoutEnd hslash (fun hnil => hr (.inl hnil))) hres
    rw [nameKept_ok hname, orDirectory_absName, hresolve, hres, pathAt_absName dir hplain]
    exact ⟨fun _ => .inr (fun hpassed => hr (.inr hpassed)),
      fun _ => ⟨noDots_segments_absName hplain (noDots_resolve hdots hres), rfl⟩⟩

/-! ### The kinds of names -/

theorem segments_noSlash (h : slash ∉ c) : segments c = [c] := by
  have hseg := segments_relName (List.cons_ne_nil c []) (List.forall_mem_singleton.mpr h)
  rwa [relName_singleton] at hseg

/-- The case split over a name: empty, absolute, relative with several components, one component. -/
theorem name_cases (nativeName : Text) : nativeName = [] ∨ (∃ rest, nativeName = slash :: rest) ∨
    (∃ first rest, nativeName = first ++ slash :: rest ∧ first ≠ [] ∧ slash ∉ first) ∨
      nativeName ≠ [] ∧ slash ∉ nativeName := by
  by_cases hnil : nativeName = []
  · exact .inl hnil
  · by_cases hslash : slash ∈ nativeName
    · obtain ⟨first, rest, heq, hfirst⟩ := List.eq_append_cons_of_mem hslash
      cases first with
      | nil => exact .inr (.inl ⟨rest, heq⟩)
      | cons x first => exact .inr (.inr (.inl ⟨_, rest, heq, List.cons_ne_nil x first, hfirst⟩))
    · exact .inr (.inr (.inr ⟨hnil, hslash⟩))

theorem isAbsolute_of_notMem (hslash : slash ∉ c) (hne : c ≠ []) (rest : Text) : isAbsolute (c ++ rest) = false := by
  obtain ⟨x, c, rfl⟩ := List.exists_cons_of_ne_nil hne
  exact beq_false_of_ne fun heq => hslash (Option.some.inj heq ▸ List.mem_cons_self ..)

theorem slash_notMem_dot : slash ∉ ([dot] : Text) := by decide

theorem slash_notMem_dots : slash ∉ ([dot, dot] : Text) := by decide

theorem kept_empty : NameKept dir [] ↔ KeptWhen dir [] :=
  ⟨fun _ => .inl (.inl rfl), fun _ => (nameKept_error rfl).mpr (.inl rfl)⟩

theorem kept_absolute (rest : Text) : NameKept dir (slash :: rest) ↔ KeptWhen dir (slash :: rest) := by
  have hname : fromNativeName (absName dir) (slash :: rest) =
      (processComponents (absName dir) (absName []) false (segments rest)).map (orDirectory dir) := rfl
  have hback : slash :: rest ≠ [dot, dot] := fun h => absurd (List.cons.inj h).1 (by decide)
  exact kept_of_absName plain_nil (fun _ h => nomatch h) (Util.slash_notMem_segments rest) hname hback Iff.rfl rfl Iff.rfl
    (fun h => nomatch h.2.1)

section several
variable {first tail : Text}

theorem idxOf_first (h : slash ∉ first) : (first ++ slash :: tail).idxOf? slash = some first.length := by
  induction first with
  | nil => rfl
  | cons x first ih =>
    have hx : (x == slash) = false := beq_false_of_ne fun heq => h (heq ▸ List.mem_cons_self ..)
    rw [List.cons_append, List.idxOf?_cons, hx, if_neg Bool.false_ne_true,
      ih (fun hmem => h (List.mem_cons_of_mem _ hmem))]
    rfl

theorem fromNativeName_several (hne : first ≠ []) (h : slash ∉ first) :
    fromNativeName (absName dir) (first ++ slash :: tail) =
      (firstComponent (absName dir) first false).bind fun r =>
        (processComponents (absName dir) r.1 true (segments tail)).map (orDirectory dir) := by
  obtain ⟨n, hn⟩ := Nat.exists_eq_add_one_of_ne_zero (mt List.length_eq_zero_iff.mp hne)
  have htake : (first ++ slash :: tail).take (n + 1) = first := List.take_left' hn
  have hdrop : (first ++ slash :: tail).drop (n + 1 + 1) = tail := by
    rw [show n + 1 = first.length from hn.symm, List.drop_append]
    simp
  unfold fromNativeName
  rw [idxOf_first h, hn]
  show (firstComponent _ ((first ++ slash :: tail).take (n + 1)) false).bind (fun r =>
    (processComponents _ r.1 true (segments ((first ++ slash :: tail).drop (n + 1 + 1)))).map (orDirectory dir)) = _
  rw [htake, hdrop]

theorem components_several (hne : first ≠ []) (h : slash ∉ first) :
    components (first ++ slash :: tail) = first :: withoutEnd (segments tail) := by
  unfold components
  rw [isAbsolute_of_notMem h hne, if_neg Bool.false_ne_true, segments_cut, segments_noSlash h]
  exact withoutEnd_cons (Util.segments_ne_nil tail)

theorem base_several (hne : first ≠ []) (h : slash ∉ first) : base dir (first ++ slash :: tail) = dir := by
  unfold base
  rw [isAbsolute_of_notMem h hne, if_neg Bool.false_ne_true]

theorem head_several (h : slash ∉ first) : (segments (first ++ slash :: tail)).head? = some first := by
  rw [segments_cut, segments_noSlash h]
  rfl

theorem several_ne_dots : first ++ slash :: tail ≠ [dot, dot] := by
  intro heq
  have hmem : slash ∈ first ++ slash :: tail := List.mem_append_right _ (List.mem_cons_self ..)
  exact slash_notMem_dots (heq ▸ hmem)

theorem kept_dot (hdir : Plain dir) (hdots : NoDots dir) :
    NameKept dir ([dot] ++ slash :: tail) ↔ KeptWhen dir ([dot] ++ slash :: tail) := by
  have hne : ([dot] : Text) ≠ [] := List.cons_ne_nil _ _
  have hname : fromNativeName (absName dir) ([dot] ++ slash :: tail) = _ := fromNativeName_several hne slash_notMem_dot
  refine kept_of_absName hdir hdots (Util.slash_notMem_segments tail) hname several_ne_dots ?_ ?_ ?_ ?_
  · rw [components_several hne slash_notMem_dot, List.mem_cons, or_iff_right (Ne.symm hne)]
  · rw [components_several hne slash_notMem_dot, base_several hne slash_notMem_dot, resolve_dot]
  · rw [components_several hne slash_notMem_dot, base_several hne slash_notMem_dot, passesRoot_dot]
  · rw [head_several slash_notMem_dot]
    exact fun h => h.2.2 rfl

theorem firstComponent_dots (hdir : Plain dir) (only : Bool) : firstComponent (absName dir) [dot, dot] only =
    if dir = [] then .error "invalid file name '..' in top-level directory"
    else .ok (if dir.dropLast = [] then [] else absName dir.dropLast, false) := by
  unfold firstComponent
  rw [if_neg (by decide), if_pos rfl, rfind_absName hdir]
  by_cases hnil : dir = []
  · rw [if_pos hnil, hnil]
    exact if_pos rfl
  · have hlen : (absName dir).length ≠ 1 := fun hlen =>
      hnil ((relName_eq_nil hdir).mp (List.length_eq_zero_iff.mp (Nat.succ.inj hlen)))
    rw [if_neg hlen, if_neg hnil]
    by_cases hroot : dir.dropLast = []
    · rw [if_pos hroot, if_pos hroot]
      rfl
    · rw [if_neg hroot, if_neg hroot, Option.getD_some, take_absName hdir hroot]

theorem kept_dots (hdir : Plain dir) (hdots : NoDots dir) :
    NameKept dir ([dot, dot] ++ slash :: tail) ↔ KeptWhen dir ([dot, dot] ++ slash :: tail) := by
  have hne : ([dot, dot] : Text) ≠ [] := List.cons_ne_nil _ _
  have hslash : slash ∉ ([dot, dot] : Text) := slash_notMem_dots
  have hplain : Plain dir.dropLast := fun c hc => hdir c (List.mem_of_mem_dropLast hc)
  have hcomps : components ([dot, dot] ++ slash :: tail) = _ := components_several hne hslash
  have hbase : base dir ([dot, dot] ++ slash :: tail) = dir := base_several hne hslash
  have hname : fromNativeName (absName dir) ([dot, dot] ++ slash :: tail) = _ := fromNativeName_several hne hslash
  rw [firstComponent_dots hdir] at hname
  by_cases hnil : dir = []
  · rw [if_pos hnil] at hname
    have hbad : Bad dir ([dot, dot] ++ slash :: tail) := by
      refine .inr (.inr ?_)
      rw [hcomps, hbase, hnil, resolve_dots_root]
    exact ⟨fun _ => .inl hbad, fun _ => (nameKept_error hname).mpr hbad⟩
  · by_cases hroot : dir.dropLast = []
    · rw [if_neg hnil, if_pos hroot] at hname
      have hwhen : KeptWhen dir ([dot, dot] ++ slash :: tail) ↔ Bad dir ([dot, dot] ++ slash :: tail) := by
        unfold KeptWhen
        rw [hcomps, hbase, passesRoot_dots]
        exact ⟨fun h => h.elim id fun h => (h.2.elim (fun h => h (.inl hroot)) (fun h => hnil h.1)).elim, .inl⟩
      have hresolve : resolve dir ([dot, dot] :: withoutEnd (segments tail)) = _ := resolve_dots hnil
      rw [hwhen]
      -- the name that is left is empty, which stands for the directory and not for the root
      rcases process_relName hdir plain_nil (Util.slash_notMem_segments tail) with
        ⟨p, hp, hmem, hres⟩ | ⟨p, -, hne, -⟩ | ⟨e, he, hr⟩
      · have hplain : Plain p :=
          plain_resolve plain_nil (plain_withoutEnd (Util.slash_notMem_segments tail) hmem) hres
        have hok : fromNativeName (absName dir) ([dot, dot] ++ slash :: tail) = .ok (orDirectory dir (relName p)) :=
          hname.trans (congrArg (Except.map (orDirectory dir)) hp)
        unfold Bad
        rw [nameKept_ok hok, pathAt_orDirectory hdir hplain, hcomps, hbase, hresolve, hroot, hres]
        constructor
        · intro h
          exact absurd (List.self_eq_append_left.mp (Option.some.inj h.2)) hnil
        · rintro (h | h | h)
          · cases h
          · exact absurd ((List.mem_cons.mp h).resolve_left (Ne.symm hne)) hmem
          · cases h
      · exact absurd hroot hne
      · have herr : fromNativeName (absName dir) ([dot, dot] ++ slash :: tail) = .error e :=
          hname.trans (congrArg (Except.map (orDirectory dir)) he)
        exact nameKept_error herr
    · rw [if_neg hnil, if_neg hroot] at hname
      have hnodots : NoDots dir.dropLast := fun c hc => hdots c (List.mem_of_mem_dropLast hc)
      refine kept_of_absName hplain hnodots (Util.slash_notMem_segments tail) hname several_ne_dots ?_ ?_ ?_
        (fun h => hnil h.1)
      · rw [hcomps, List.mem_cons, or_iff_right (Ne.symm hne)]
      · rw [hcomps, hbase, resolve_dots hnil]
      · rw [hcomps, hbase, passesRoot_dots, or_iff_right hroot]

theorem kept_first (hdir : Plain dir) (hdots : NoDots dir) (hne : first ≠ []) (h : slash ∉ first)
    (h₁ : first ≠ [dot]) (h₂ : first ≠ [dot, dot]) :
    NameKept dir (first ++ slash :: tail) ↔ KeptWhen dir (first ++ slash :: tail) := by
  have hfirst : Plain [first] := List.forall_mem_singleton.mpr ⟨hne, h⟩
  have hfirstDots : NoDots [first] := List.forall_mem_singleton.mpr ⟨h₁, h₂⟩
  have hcomps : components (first ++ slash :: tail) = _ := components_several hne h
  have hbase : base dir (first ++ slash :: tail) = dir := base_several hne h
  have hname : fromNativeName (absName dir) (first ++ slash :: tail) =
      (processComponents (absName dir) (relName [first]) true (segments tail)).map (orDirectory dir) := by
    rw [fromNativeName_several hne h, firstComponent, if_neg h₁, if_neg h₂, relName_singleton]
    rfl
  have hresolve : resolve dir (first :: withoutEnd (segments tail)) = _ := resolve_name h₁ h₂
  have hroot : dir = [] → dir = [] ∧ isAbsolute (first ++ slash :: tail) = false ∧
      (segments (first ++ slash :: tail)).head? ≠ some [dot] := fun hnil =>
    ⟨hnil, isAbsolute_of_notMem h hne _, by rw [head_several h]; exact fun heq => h₁ (Option.some.inj heq)⟩
  unfold KeptWhen
  rw [and_iff_right several_ne_dots, hcomps, hbase, passesRoot_name h₁ h₂]
  rcases process_relName hdir hfirst (Util.slash_notMem_segments tail) with
    ⟨p, hp, hmem, hres⟩ | ⟨p, hp, hne, hr, hres⟩ | ⟨e, he, hr⟩
  · have hrest := plain_withoutEnd (Util.slash_notMem_segments tail) hmem
    have hplain : Plain p := plain_resolve hfirst hrest hres
    have hpdots : NoDots p := noDots_resolve hfirstDots hres
    rw [hp] at hname
    rw [nameKept_ok hname, pathAt_orDirectory hdir hplain, hcomps, hbase, hresolve]
    refine ⟨fun _ => .inr ?_, fun _ => ⟨noDots_orDirectory hdir hdots hplain hpdots, resolve_append hres dir⟩⟩
    by_cases hnil : dir = []
    · exact .inr (hroot hnil)
    · exact .inl (not_passesRoot_append hnil hres)
  · have hmem : [] ∉ withoutEnd (segments tail) := fun hmem => hr (.inl hmem)
    have hrest := plain_withoutEnd (Util.slash_notMem_segments tail) hmem
    have hplain : Plain p := plain_resolve (hdir.append hfirst) hrest hres
    have hpdots : NoDots p := noDots_resolve (List.forall_mem_append.mpr ⟨hdots, hfirstDots⟩) hres
    rw [hp] at hname
    rw [nameKept_ok hname, orDirectory_absName, pathAt_absName dir hplain, hcomps, hbase, hresolve]
    exact ⟨fun _ => .inr (.inl fun hpass => hr (.inr hpass)),
      fun _ => ⟨noDots_segments_absName hplain hpdots, hres⟩⟩
  · rw [he] at hname
    rw [nameKept_error hname]
    refine ⟨.inl, fun hkept => hkept.elim id fun hkept => ?_⟩
    unfold Bad
    rw [hcomps, hbase, hresolve]
    rcases hr with hmem | ⟨hnone, hpass⟩
    · exact .inr (.inl (List.mem_cons_of_mem _ hmem))
    · have hpassed : PassesRoot (dir ++ [first]) (withoutEnd (segments tail)) :=
        hpass.elim (fun hroot => passesRoot_append hroot hnone) id
      rcases hkept with hkept | ⟨hnil, -⟩
      · exact absurd hpassed hkept
      · rw [hnil, List.nil_append]
        exact .inr (.inr hnone)

end several

section single
variable {name : Text}

theorem idxOf_single (h : slash ∉ name) : name.idxOf? slash = none := List.idxOf?_eq_none_iff.mpr h

theorem fromNativeName_single (hne : name ≠ []) (h : slash ∉ name) : fromNativeName (absName dir) name =
    (firstComponent (absName dir) name true).bind fun r =>
      if r.2 then .ok r.1 else (processComponents (absName dir) r.1 true [name]).map (orDirectory dir) := by
  unfold fromNativeName
  rw [idxOf_single h, ← segments_noSlash h]
  exact if_neg (mt List.length_eq_zero_iff.mp hne)

theorem isAbsolute_single (hne : name ≠ []) (h : slash ∉ name) : isAbsolute name = false := by
  have habs := isAbsolute_of_notMem h hne []
  rwa [List.append_nil] at habs

theorem components_single (hne : name ≠ []) (h : slash ∉ name) : components name = [name] := by
  unfold components
  rw [isAbsolute_single hne h, if_neg Bool.false_ne_true, segments_noSlash h]
  exact if_neg hne

theorem base_single (hne : name ≠ []) (h : slash ∉ name) : base dir name = dir := by
  unfold base
  rw [isAbsolute_single hne h, if_neg Bool.false_ne_true]

theorem kept_dot_alone (hdir : Plain dir) (hdots : NoDots dir) : NameKept dir [dot] ↔ KeptWhen dir [dot] := by
  have hok : fromNativeName (absName dir) [dot] = .ok (absName dir) := rfl
  rw [nameKept_ok hok, pathAt_absName dir hdir]
  exact ⟨fun _ => .inr ⟨by decide, .inl id⟩, fun _ => ⟨noDots_segments_absName hdir hdots, rfl⟩⟩

/-- `..` alone is met twice. -/
theorem kept_dots_alone (hdir : Plain dir) : NameKept dir [dot, dot] ↔ KeptWhen dir [dot, dot] := by
  have hplain : Plain dir.dropLast := fun c hc => hdir c (List.mem_of_mem_dropLast hc)
  have hname : fromNativeName (absName dir) [dot, dot] = _ :=
    fromNativeName_single (List.cons_ne_nil _ _) slash_notMem_dots
  rw [firstComponent_dots hdir] at hname
  by_cases hnil : dir = []
  · rw [if_pos hnil] at hname
    have hbad : Bad dir [dot, dot] := .inr (.inr (by rw [hnil]; rfl))
    exact ⟨fun _ => .inl hbad, fun _ => (nameKept_error hname).mpr hbad⟩
  · have hresolve : resolve dir [[dot, dot]] = some dir.dropLast := resolve_dots hnil
    have hbad : ¬Bad dir [dot, dot] := by
      rintro (h | h | h)
      · cases h
      · exact absurd (List.mem_singleton.mp h) (by decide)
      · exact absurd (hresolve.symm.trans h) nofun
    have hkept : ¬NameKept dir [dot, dot] := by
      rw [if_neg hnil] at hname
      by_cases hroot : dir.dropLast = []
      · rw [if_pos hroot] at hname
        have herr : fromNativeName (absName dir) [dot, dot] = .error "unprocessible '..' path component" := by
          have hcwd : absName dir ≠ [] := List.cons_ne_nil _ _
          rw [hname]
          show (processComponents (absName dir) [] true [[dot, dot]]).map (orDirectory dir) = _
          rw [processComponents_backUp hcwd, dots_absName hdir, if_pos hroot]
          rfl
        exact mt (nameKept_error herr).mp hbad
      · rw [if_neg hroot] at hname
        have hprocess : fromNativeName (absName dir) [dot, dot] =
            (processComponents (absName dir) (absName dir.dropLast) true [[dot, dot]]).map (orDirectory dir) := hname
        rw [dots_absName hplain] at hprocess
        by_cases hup : dir.dropLast.dropLast = []
        · rw [if_pos hup] at hprocess
          exact mt (nameKept_error hprocess).mp hbad
        · rw [if_neg hup] at hprocess
          have hup' : Plain dir.dropLast.dropLast := fun c hc => hplain c (List.mem_of_mem_dropLast hc)
          have hok : fromNativeName (absName dir) [dot, dot] = .ok (absName dir.dropLast.dropLast) := hprocess
          rw [nameKept_ok hok, pathAt_absName dir hup']
          intro h
          have heq : dir.dropLast.length = dir.dropLast.dropLast.length :=
            congrArg List.length (Option.some.inj (hresolve.symm.trans h.2))
          have hpos : dir.dropLast.length ≠ 0 := mt List.length_eq_zero_iff.mp hroot
          have hlen : dir.dropLast.dropLast.length = dir.dropLast.length - 1 := List.length_dropLast
          omega
    exact ⟨fun h => absurd h hkept, fun h => absurd (h.resolve_right (fun h => h.1 rfl)) hbad⟩

theorem kept_single (hdir : Plain dir) (hdots : NoDots dir) (hne : name ≠ []) (h : slash ∉ name) :
    NameKept dir name ↔ KeptWhen dir name := by
  revert hne h
  refine component_cases (P := fun name => name ≠ [] → slash ∉ name → (NameKept dir name ↔ KeptWhen dir name))
    ?_ ?_ ?_ name
  · exact fun _ _ => kept_dot_alone hdir hdots
  · exact fun _ _ => kept_dots_alone hdir
  · intro name h₁ h₂ hne h
    have hok : fromNativeName (absName dir) name = .ok name := by
      rw [fromNativeName_single hne h, firstComponent, if_neg h₁, if_neg h₂]
      rfl
    have hplain : Plain [name] := List.forall_mem_singleton.mpr ⟨hne, h⟩
    have hpath : pathAt dir name = dir ++ [name] := by
      rw [← pathAt_relName dir hplain, relName_singleton]
    unfold KeptWhen
    rw [nameKept_ok hok, hpath, components_single hne h, base_single hne h, resolve_name h₁ h₂, segments_noSlash h,
      passesRoot_name h₁ h₂]
    exact ⟨fun _ => .inr ⟨h₂, .inl id⟩, fun _ => ⟨List.forall_mem_singleton.mpr ⟨h₁, h₂⟩, rfl⟩⟩

end single

/-- **Which native names keep their meaning**: `..` alone loses it, and so does a name with a `..` that leads
to the root; all others are resolved, or refused for what they are. -/
theorem name_kept_iff (hdir : Plain dir) (hdots : NoDots dir) (nativeName : Text) :
    NameKept dir nativeName ↔ KeptWhen dir nativeName := by
  rcases name_cases nativeName with rfl | ⟨rest, rfl⟩ | ⟨first, tail, rfl, hne, h⟩ | ⟨hne, h⟩
  · exact kept_empty
  · exact kept_absolute rest
  · revert hne h
    refine component_cases (P := fun first => first ≠ [] → slash ∉ first →
      (NameKept dir (first ++ slash :: tail) ↔ KeptWhen dir (first ++ slash :: tail))) ?_ ?_ ?_ first
    · exact fun _ _ => kept_dot hdir hdots
    · exact fun _ _ => kept_dots hdir hdots
    · exact fun first h₁ h₂ hne h => kept_first hdir hdots hne h h₁ h₂
  · exact kept_single hdir hdots hne h

/-- `../x` in `/a/b` is `/a/x`. -/
theorem sibling_kept : NameKept [[97], [98]] [dot, dot, slash, 120] :=
  (name_kept_iff (by unfold Plain; decide) (by unfold NoDots; decide) _).mpr
    (.inr ⟨by decide, .inl (not_or.mpr ⟨by decide, id⟩)⟩)

/-- `..` in `/a/b/c` is `/a`, and in `/a/b` it is refused. -/
theorem dots_lose_directories :
    fromNativeName (absName [[97], [98], [99]]) [dot, dot] = .ok (absName [[97]]) ∧
      fromNativeName (absName [[97], [98]]) [dot, dot] = .error "unprocessible '..' path component" ∧
        ¬∀ dir nativeName, Plain dir → NoDots dir → NameKept dir nativeName := by
  refine ⟨by decide, by decide, fun h => ?_⟩
  have hkept : NameKept [[97], [98], [99]] [dot, dot] :=
    h _ _ (by unfold Plain; decide) (by unfold NoDots; decide)
  have hok : fromNativeName (absName [[97], [98], [99]]) [dot, dot] = .ok (absName [[97]]) := by decide
  have hpath := ((nameKept_ok hok).mp hkept).2
  exact absurd hpath (by decide)

end OpenCpi.Os
