import Mathlib.Order.Nat
import OpenCpi.Library.Manager

/-!
# The search for an artifact sees a part of the libraries

A driver asks its first library only, and an artifact is judged by its first implementation of the spec name
and the model. The first driver that finds something ends the search, an implementation for which the
expression has no number ends it with an error, and scores are compared modulo 2^32.
-/

namespace OpenCpi.Lib

open Infra

variable {μ : Type} (eval : String → μ → Except String ExprValue) (caps : Capabilities) (spec : String)
  (select : Option String)

/-! ## What the search is for -/

/-- The value of an expression for an implementation, when it is a number. -/
def value (expr : String) (i : Implementation μ) : Option Int :=
  match eval expr i.metadataImpl with
  | .ok val => if val.isNumber then some val.number else none
  | .error _ => none

/-- An implementation satisfies the selection, if there is one. -/
def Satisfies (i : Implementation μ) : Prop :=
  ∀ expr, select = some expr → ∃ v, value eval expr i = some v ∧ 0 < v

/-- The artifact is for the container. -/
def Artifact.Fits (a : Artifact μ) : Prop := a.os = caps.os ∧ a.platform = caps.platform

/-- The implementations of the spec name and the model in an artifact for the container. -/
def Artifact.Offers (a : Artifact μ) (i : Implementation μ) : Prop :=
  a.Fits caps ∧ i ∈ a.workers ∧ i.specName = spec ∧ i.model = caps.model

/-- The artifact has an implementation that can be used. -/
def Usable (a : Artifact μ) (i : Implementation μ) : Prop :=
  a.Offers caps spec i ∧ Satisfies eval select i

/-- The artifacts of all libraries of all drivers. -/
def Manager.artifacts (m : Manager μ) : List (Artifact μ) := m.flatten.flatten

/-- No implementation anywhere has a higher value than one of this artifact. -/
def Highest (m : Manager μ) (expr : String) (a : Artifact μ) : Prop :=
  ∃ i v, Usable eval caps spec (some expr) a i ∧ value eval expr i = some v ∧
    ∀ b ∈ m.artifacts, ∀ j w, Usable eval caps spec (some expr) b j → value eval expr j = some w → w ≤ v

/-- The search is complete: it throws when there is nothing to find only, and finds the best. -/
structure Complete (m : Manager μ) : Prop where
  throws : (∃ e, m.findArtifact eval caps spec select = .error e) ↔
    ¬∃ a ∈ m.artifacts, ∃ i, Usable eval caps spec select a i
  highest : ∀ expr a, select = some expr → m.findArtifact eval caps spec select = .ok a →
    Highest eval caps spec m expr a

/-! ## What the search sees -/

/-- The implementation by which an artifact is judged. -/
def Artifact.first (a : Artifact μ) : Option (Implementation μ) :=
  if a.os = caps.os ∧ a.platform = caps.platform then
    a.workers.find? fun i => i.specName = spec ∧ i.model = caps.model
  else none

/-- The score of an artifact by its first implementation. -/
def Artifact.score (expr : String) (a : Artifact μ) : Option Nat :=
  (a.first caps spec).bind fun i => (value eval expr i).bind fun v =>
    if 0 < v then some (v.toNat % 2 ^ 32) else none

/-- The first implementation of no artifact of the library is without a value. -/
def Sound (expr : String) (l : List (Artifact μ)) : Prop :=
  ∀ a ∈ l, ∀ i, a.first caps spec = some i → value eval expr i ≠ none

/-- The first library of a driver. -/
def Driver.shown (d : Driver μ) : List (Artifact μ) := d.headD []

/-- Nothing is found in a library. -/
def Quiet (l : List (Artifact μ)) : Prop :=
  match select with
  | none => ∀ a ∈ l, a.first caps spec = none
  | some expr => Sound eval caps spec expr l ∧ ∀ a ∈ l, a.score eval caps spec expr = none

/-- The artifact that a library shows. -/
def Shows (l : List (Artifact μ)) (a : Artifact μ) : Prop :=
  match select with
  | none => ∃ before after, l = before ++ a :: after ∧ (∀ b ∈ before, b.first caps spec = none) ∧
      a.first caps spec ≠ none
  | some expr => Sound eval caps spec expr l ∧ LastMax (Artifact.score eval caps spec expr) l a

/-- The artifact that the drivers show. -/
def Visible (m : Manager μ) (a : Artifact μ) : Prop :=
  ∃ before d after, m = before ++ d :: after ∧ (∀ b ∈ before, Quiet eval caps spec select b.shown) ∧
    Shows eval caps spec select d.shown a

/-! ## One artifact -/

variable {eval caps spec select} {expr : String} {a : Artifact μ} {i : Implementation μ}
  {l : List (Artifact μ)} {d : Driver μ} {m : Manager μ}

theorem first_eq_none (h : ¬a.Fits caps) : a.first caps spec = none := if_neg h

theorem first_eq_find (h : a.Fits caps) : a.first caps spec =
    a.workers.find? fun i => i.specName = spec ∧ i.model = caps.model := if_pos h

/-- The implementation by which an artifact is judged is one of those that it offers. -/
theorem offers_of_first (h : a.first caps spec = some i) : a.Offers caps spec i := by
  by_cases hfits : a.Fits caps
  · rw [first_eq_find hfits] at h
    have hprop := List.find?_some h
    rw [decide_eq_true_iff] at hprop
    exact ⟨hfits, List.mem_of_find?_eq_some h, hprop.1, hprop.2⟩
  · rw [first_eq_none hfits] at h
    cases h

theorem meetsLoop_eq : ∀ range : List (Implementation μ), meetsLoop eval caps select range =
    match range.find? (fun i => decide (i.model = caps.model)) with
    | none => .ok none
    | some wi =>
      match select with
      | none => .ok (some 0)
      | some selection =>
        (satisfiesSelection eval selection wi.metadataImpl).map fun (satisfied, score) =>
          if satisfied then some score else none
  | [] => rfl
  | wi :: range => by
    unfold meetsLoop
    by_cases h : wi.model = caps.model
    · rw [List.find?_cons_of_pos (by rw [decide_eq_true_iff]; exact h)]
      exact if_neg (fun hne => hne h.symm)
    · rw [if_pos (fun he => h he.symm), meetsLoop_eq range, List.find?_cons_of_neg (by simpa using h)]

theorem meetsRequirements_eq : a.meetsRequirements eval caps spec select =
    match a.first caps spec with
    | none => .ok none
    | some i =>
      match select with
      | none => .ok (some 0)
      | some selection =>
        (satisfiesSelection eval selection i.metadataImpl).map fun (satisfied, score) =>
          if satisfied then some score else none := by
  by_cases h : a.Fits caps
  · have heq : a.meetsRequirements eval caps spec select =
      meetsLoop eval caps select (a.workers.filter (·.specName = spec)) := if_pos h
    rw [heq, first_eq_find h, meetsLoop_eq, List.find?_filter]
    simp only [decide_eq_true_eq]
  · rw [first_eq_none h]
    exact if_neg h

/-- An implementation without a value ends the search. -/
theorem satisfiesSelection_error (h : value eval expr i = none) :
    ∃ e, satisfiesSelection eval expr i.metadataImpl = .error e := by
  unfold value at h
  unfold satisfiesSelection
  cases hval : eval expr i.metadataImpl with
  | error e => exact ⟨_, rfl⟩
  | ok val =>
    rw [hval] at h
    dsimp only at h ⊢
    cases hnum : val.isNumber with
    | true => rw [hnum, if_pos rfl] at h; cases h
    | false => exact ⟨_, rfl⟩

theorem satisfiesSelection_ok {v : Int} (h : value eval expr i = some v) :
    satisfiesSelection eval expr i.metadataImpl = .ok (0 < v, v.toNat % 2 ^ 32) := by
  unfold value at h
  unfold satisfiesSelection
  cases hval : eval expr i.metadataImpl with
  | error e => rw [hval] at h; cases h
  | ok val =>
    rw [hval] at h
    dsimp only at h ⊢
    cases hnum : val.isNumber with
    | false => rw [hnum, if_neg Bool.false_ne_true] at h; cases h
    | true =>
      rw [hnum, if_pos rfl, Option.some.injEq] at h
      rw [h, if_neg (by decide)]
      congr 3
      split
      · next hneg => rw [Int.toNat_of_nonpos (Int.le_of_lt hneg), Int.toNat_zero]
      · rfl

/-! ## Libraries -/

/-- A library without a selection. -/
theorem libraryLoop_none : ∀ (l : List (Artifact μ)) (best : Option (Artifact μ)) (bestScore : Nat),
    libraryLoop eval caps spec none l best bestScore =
      .ok ((l.find? fun a => (a.first caps spec).isSome).or best)
  | [], _, _ => rfl
  | a :: l, best, bestScore => by
    unfold libraryLoop
    rw [meetsRequirements_eq]
    cases h : a.first caps spec with
    | none =>
      rw [List.find?_cons_of_neg (by rw [h]; exact Bool.false_ne_true)]
      exact libraryLoop_none l best bestScore
    | some i =>
      rw [List.find?_cons_of_pos (by rw [h]; rfl)]
      rfl

/-- What an artifact is worth with a selection. -/
theorem meetsRequirements_ok (h : ∀ i, a.first caps spec = some i → value eval expr i ≠ none) :
    a.meetsRequirements eval caps spec (some expr) = .ok (a.score eval caps spec expr) := by
  rw [meetsRequirements_eq]
  unfold Artifact.score
  cases hfirst : a.first caps spec with
  | none => rfl
  | some i =>
    cases hvalue : value eval expr i with
    | none => exact absurd hvalue (h i hfirst)
    | some v =>
      dsimp only
      rw [satisfiesSelection_ok hvalue, Option.bind_some, hvalue, Option.bind_some]
      simp only [Except.map, decide_eq_true_eq]

theorem meetsRequirements_error (hfirst : a.first caps spec = some i) (h : value eval expr i = none) :
    ∃ e, a.meetsRequirements eval caps spec (some expr) = .error e := by
  obtain ⟨e, he⟩ := satisfiesSelection_error h
  refine ⟨e, ?_⟩
  rw [meetsRequirements_eq, hfirst]
  dsimp only
  rw [he]
  rfl

/-- A library with a selection, when every expression has a value. -/
theorem libraryLoop_ok : ∀ (l : List (Artifact μ)) (best : Option (Artifact μ)) (bestScore : Nat),
    Sound eval caps spec expr l → libraryLoop eval caps spec (some expr) l best bestScore =
      .ok (latest (Artifact.score eval caps spec expr) l best bestScore)
  | [], _, _, _ => rfl
  | a :: l, best, bestScore, h => by
    obtain ⟨ha, hl⟩ := List.forall_mem_cons.mp h
    unfold libraryLoop
    rw [meetsRequirements_ok ha, latest_cons]
    cases a.score eval caps spec expr with
    | none => exact libraryLoop_ok l best bestScore hl
    | some s =>
      show (if bestScore ≤ s then _ else _) = _
      dsimp only
      split
      · exact libraryLoop_ok l (some a) s hl
      · exact libraryLoop_ok l best bestScore hl

theorem libraryLoop_error : ∀ (l : List (Artifact μ)) (best : Option (Artifact μ)) (bestScore : Nat),
    ¬Sound eval caps spec expr l →
    ∃ e, libraryLoop eval caps spec (some expr) l best bestScore = .error e
  | [], _, _, h => absurd (fun _ ha => nomatch ha) h
  | a :: l, best, bestScore, h => by
    unfold libraryLoop
    by_cases ha : ∀ i, a.first caps spec = some i → value eval expr i ≠ none
    · have hl : ¬Sound eval caps spec expr l := fun hl => h (List.forall_mem_cons.mpr ⟨ha, hl⟩)
      rw [meetsRequirements_ok ha]
      cases a.score eval caps spec expr with
      | none => exact libraryLoop_error l best bestScore hl
      | some s =>
        show ∃ e, (if bestScore ≤ s then _ else _) = _
        split
        · exact libraryLoop_error l (some a) s hl
        · exact libraryLoop_error l best bestScore hl
    · obtain ⟨i, hi⟩ := not_forall.mp ha
      obtain ⟨hfirst, hvalue⟩ := Classical.not_imp.mp hi
      obtain ⟨e, he⟩ := meetsRequirements_error hfirst (not_not.mp hvalue)
      rw [he]
      exact ⟨e, rfl⟩

/-- A driver asks its first library. -/
theorem findArtifact_eq : d.findArtifact eval caps spec select =
    libraryLoop eval caps spec select d.shown none 0 := by
  cases d with
  | nil => rfl
  | cons l rest => rfl

/-- A driver that finds nothing. -/
theorem findArtifact_quiet :
    d.findArtifact eval caps spec select = .ok none ↔ Quiet eval caps spec select d.shown := by
  rw [findArtifact_eq]
  unfold Quiet
  cases select with
  | none =>
    rw [libraryLoop_none, Except.ok.injEq, Option.or_none, List.find?_eq_none]
    refine forall₂_congr fun a _ => ?_
    rw [Option.not_isSome_iff_eq_none]
  | some expr =>
    dsimp only
    by_cases h : Sound eval caps spec expr d.shown
    · rw [libraryLoop_ok _ _ _ h, Except.ok.injEq]
      exact (latest_eq_none d.shown).trans ⟨fun hall => ⟨h, hall⟩, fun hall => hall.2⟩
    · obtain ⟨e, he⟩ := libraryLoop_error d.shown none 0 h
      rw [he]
      exact ⟨(fun hq => nomatch hq), fun hq => absurd hq.1 h⟩

/-- What a driver finds. -/
theorem findArtifact_shows :
    d.findArtifact eval caps spec select = .ok (some a) ↔ Shows eval caps spec select d.shown a := by
  rw [findArtifact_eq]
  unfold Shows
  cases select with
  | none =>
    rw [libraryLoop_none, Except.ok.injEq, Option.or_none, List.find?_eq_some_iff_append]
    dsimp only
    constructor
    · rintro ⟨ha, before, after, hl, hbefore⟩
      refine ⟨before, after, hl, fun b hb => ?_, Option.isSome_iff_ne_none.mp ha⟩
      simpa using hbefore b hb
    · rintro ⟨before, after, hl, hbefore, ha⟩
      refine ⟨Option.isSome_iff_ne_none.mpr ha, before, after, hl, fun b hb => ?_⟩
      simpa using hbefore b hb
  | some expr =>
    dsimp only
    by_cases h : Sound eval caps spec expr d.shown
    · rw [libraryLoop_ok _ _ _ h, Except.ok.injEq]
      exact latest_eq_some_iff.trans ⟨fun hmax => ⟨h, hmax⟩, fun hmax => hmax.2⟩
    · obtain ⟨e, he⟩ := libraryLoop_error d.shown none 0 h
      rw [he]
      exact ⟨(fun hq => nomatch hq), fun hq => absurd hq.1 h⟩

/-! ## The manager -/

/-- What the manager finds is what the drivers show. -/
theorem findArtifact_visible : ∀ m : Manager μ,
    m.findArtifact eval caps spec select = .ok a ↔ Visible eval caps spec select m a
  | [] => by
    refine ⟨fun h => (nomatch h), ?_⟩
    rintro ⟨before, d, after, h, -⟩
    exact absurd h (by simp)
  | d :: rest => by
    unfold Manager.findArtifact
    constructor
    · intro h
      cases hd : d.findArtifact eval caps spec select with
      | error e => rw [hd] at h; cases h
      | ok found =>
        rw [hd] at h
        cases found with
        | none =>
          obtain ⟨before, d', after, rfl, hbefore, hshows⟩ := (findArtifact_visible rest).mp h
          refine ⟨d :: before, d', after, rfl, fun b hb => ?_, hshows⟩
          rcases List.mem_cons.mp hb with rfl | hb
          · exact findArtifact_quiet.mp hd
          · exact hbefore b hb
        | some b =>
          cases h
          exact ⟨[], d, rest, rfl, (fun _ hb => nomatch hb), findArtifact_shows.mp hd⟩
    · rintro ⟨before, d', after, hm, hbefore, hshows⟩
      cases before with
      | nil =>
        obtain ⟨rfl, rfl⟩ := List.cons.inj hm
        rw [findArtifact_shows.mpr hshows]
        rfl
      | cons b before =>
        obtain ⟨rfl, rfl⟩ := List.cons.inj hm
        rw [findArtifact_quiet.mpr (hbefore d List.mem_cons_self)]
        exact (findArtifact_visible _).mpr
          ⟨before, d', after, rfl, fun b hb => hbefore b (List.mem_cons_of_mem _ hb), hshows⟩

/-- A library shows one of its artifacts, and that one can be used. -/
theorem usable_of_shows (h : Shows eval caps spec select l a) :
    a ∈ l ∧ ∃ i, Usable eval caps spec select a i := by
  unfold Shows at h
  cases select with
  | none =>
    obtain ⟨before, after, rfl, -, hfirst⟩ := h
    obtain ⟨i, hi⟩ := Option.ne_none_iff_exists'.mp hfirst
    exact ⟨List.mem_append_right _ List.mem_cons_self, i, offers_of_first hi, fun _ he => nomatch he⟩
  | some expr =>
    obtain ⟨-, hmax⟩ := h
    refine ⟨hmax.mem, ?_⟩
    obtain ⟨-, -, s, -, hs, -⟩ := hmax
    obtain ⟨i, hi, hv⟩ := Option.bind_eq_some_iff.mp hs
    obtain ⟨v, hv, hs⟩ := Option.bind_eq_some_iff.mp hv
    refine ⟨i, offers_of_first hi, fun expr' he => ⟨v, ?_, ?_⟩⟩
    · cases he
      exact hv
    · by_contra hneg
      rw [if_neg hneg] at hs
      cases hs

theorem usable_of_visible (h : Visible eval caps spec select m a) :
    a ∈ m.artifacts ∧ ∃ i, Usable eval caps spec select a i := by
  obtain ⟨before, d, after, rfl, -, hshows⟩ := h
  obtain ⟨ha, husable⟩ := usable_of_shows hshows
  refine ⟨?_, husable⟩
  cases d with
  | nil => cases ha
  | cons l rest =>
    refine List.mem_flatten.mpr ⟨l, List.mem_flatten.mpr ⟨l :: rest, ?_, List.mem_cons_self⟩, ha⟩
    exact List.mem_append_right _ List.mem_cons_self

/-- **The search is complete exactly when there is nothing to find, or the drivers show an artifact** that
has, with a selection, an implementation of the highest value. -/
theorem complete_iff (eval : String → μ → Except String ExprValue) (caps : Capabilities) (spec : String)
    (select : Option String) (m : Manager μ) : Complete eval caps spec select m ↔
      (¬∃ a ∈ m.artifacts, ∃ i, Usable eval caps spec select a i) ∨
        ∃ a, Visible eval caps spec select m a ∧
          ∀ expr, select = some expr → Highest eval caps spec m expr a := by
  constructor
  · intro h
    cases hfind : m.findArtifact eval caps spec select with
    | error e => exact Or.inl (h.throws.mp ⟨e, hfind⟩)
    | ok a =>
      exact Or.inr ⟨a, (findArtifact_visible m).mp hfind, fun expr he => h.highest expr a he hfind⟩
  · rintro (hnone | ⟨a, hvisible, hhighest⟩)
    · cases hfind : m.findArtifact eval caps spec select with
      | error e => exact ⟨⟨fun _ => hnone, fun _ => ⟨e, hfind⟩⟩, fun _ _ _ ha => nomatch hfind.symm.trans ha⟩
      | ok a => exact absurd ⟨a, usable_of_visible ((findArtifact_visible m).mp hfind)⟩ hnone
    · have hfind := (findArtifact_visible m).mpr hvisible
      refine ⟨⟨?_, fun hnone => absurd ⟨a, usable_of_visible hvisible⟩ hnone⟩, ?_⟩
      · rintro ⟨e, he⟩
        cases hfind.symm.trans he
      · intro expr b he hb
        cases hfind.symm.trans hb
        exact hhighest expr he

/-- The library path has two directories, and the implementation is in the second one. -/
theorem second_library_unseen : ¬Complete (fun _ (_ : Unit) => .ok ⟨"", 1, true⟩) ⟨"rcc", "linux", "x86_64"⟩
    "ocpi.copy" none [[[], [⟨"copy.so", "linux", "x86_64", [⟨"ocpi.copy", "rcc", ()⟩]⟩]]] := by
  intro h
  refine h.throws.mp ⟨_, rfl⟩ ⟨_, List.mem_singleton_self _, _, ⟨⟨rfl, rfl⟩, List.mem_singleton_self _, rfl, rfl⟩, ?_⟩
  intro expr he
  cases he

end OpenCpi.Lib
