import Mathlib.Order.BoundedOrder.Basic
import Mathlib.Order.Lattice

/-!
# The last of the best

A search through a list that keeps what it finds when it is at least as good as what it has. Elements without
a score are passed over.
-/

namespace OpenCpi.Infra

variable {α β : Type*} [LinearOrder β] {score : α → Option β} {l : List α} {a x : α}

/-- The search, from what it has and its score on. -/
def latest (score : α → Option β) : List α → Option α → β → Option α
  | [], best, _ => best
  | x :: l, best, bestScore =>
    match score x with
    | some s => if bestScore ≤ s then latest score l (some x) s else latest score l best bestScore
    | none => latest score l best bestScore

theorem latest_cons {best : Option α} {bestScore : β} : latest score (x :: l) best bestScore =
    match score x with
    | some s => if bestScore ≤ s then latest score l (some x) s else latest score l best bestScore
    | none => latest score l best bestScore := rfl

/-- The last of the elements with the largest score. -/
def LastMax (score : α → Option β) (l : List α) (a : α) : Prop :=
  ∃ before after s, l = before ++ a :: after ∧ score a = some s ∧
    (∀ b ∈ before, ∀ t, score b = some t → t ≤ s) ∧ ∀ b ∈ after, ∀ t, score b = some t → t < s

theorem LastMax.mem (h : LastMax score l a) : a ∈ l := by
  obtain ⟨before, after, -, rfl, -⟩ := h
  exact List.mem_append_right before List.mem_cons_self

theorem lastMax_nil : ¬LastMax score [] a := fun h => nomatch h.mem

/-- The last of the best is the head, or is found behind it and is not worse. -/
theorem lastMax_cons : LastMax score (x :: l) a ↔
    (a = x ∧ ∃ s, score x = some s ∧ ∀ b ∈ l, ∀ t, score b = some t → t < s) ∨
      LastMax score l a ∧ ∀ s t, score a = some s → score x = some t → t ≤ s := by
  constructor
  · rintro ⟨before, after, s, hl, hs, hbefore, hafter⟩
    cases before with
    | nil =>
      obtain ⟨rfl, rfl⟩ := List.cons.inj hl
      exact Or.inl ⟨rfl, s, hs, hafter⟩
    | cons y before =>
      obtain ⟨rfl, rfl⟩ := List.cons.inj hl
      refine Or.inr ⟨⟨before, after, s, rfl, hs, fun b hb => hbefore b (List.mem_cons_of_mem _ hb), hafter⟩, ?_⟩
      intro s' t hs' ht
      rw [hs, Option.some.injEq] at hs'
      exact hs' ▸ hbefore x List.mem_cons_self t ht
  · rintro (⟨rfl, s, hs, hall⟩ | ⟨⟨before, after, s, rfl, hs, hbefore, hafter⟩, hx⟩)
    · exact ⟨[], l, s, rfl, hs, (fun _ hb => nomatch hb), hall⟩
    · refine ⟨x :: before, after, s, rfl, hs, ?_, hafter⟩
      rintro b hb t ht
      rcases List.mem_cons.mp hb with rfl | hb
      · exact hx s t hs ht
      · exact hbefore b hb t ht

/-- What the search ends with. -/
theorem latest_eq_some : ∀ (l : List α) (best : Option α) (bestScore : β),
    latest score l best bestScore = some a ↔
      (LastMax score l a ∧ ∀ s, score a = some s → bestScore ≤ s) ∨
        best = some a ∧ ∀ x ∈ l, ∀ s, score x = some s → s < bestScore
  | [], best, bestScore => by
    refine ⟨fun h => Or.inr ⟨h, fun _ hx => nomatch hx⟩, ?_⟩
    rintro (⟨h, -⟩ | ⟨h, -⟩)
    · exact absurd h lastMax_nil
    · exact h
  | x :: l, best, bestScore => by
    unfold latest
    cases hx : score x with
    | none =>
      refine (latest_eq_some l best bestScore).trans ?_
      rw [lastMax_cons, List.forall_mem_cons]
      simp [hx]
    | some s =>
      dsimp only
      by_cases hle : bestScore ≤ s
      · rw [if_pos hle, latest_eq_some l, lastMax_cons, List.forall_mem_cons]
        constructor
        · rintro (⟨h, hs⟩ | ⟨h, hall⟩)
          · refine Or.inl ⟨Or.inr ⟨h, fun s' t hs' ht => ?_⟩, fun s' hs' => le_trans hle (hs s' hs')⟩
            rw [hx, Option.some.injEq] at ht
            exact ht ▸ hs s' hs'
          · obtain rfl := Option.some.inj h
            refine Or.inl ⟨Or.inl ⟨rfl, s, hx, hall⟩, fun s' hs' => ?_⟩
            rw [hx, Option.some.injEq] at hs'
            exact hs' ▸ hle
        · rintro (⟨⟨rfl, s', hs', hall⟩ | ⟨h, hmax⟩, -⟩ | ⟨-, hlt, -⟩)
          · rw [hx, Option.some.injEq] at hs'
            exact Or.inr ⟨rfl, hs' ▸ hall⟩
          · exact Or.inl ⟨h, fun s' hs' => hmax s' s hs' hx⟩
          · exact absurd hle (not_le.mpr (hlt s hx))
      · rw [if_neg hle, latest_eq_some l, lastMax_cons, List.forall_mem_cons]
        have hlt : s < bestScore := not_le.mp hle
        constructor
        · rintro (⟨h, hs⟩ | ⟨h, hall⟩)
          · refine Or.inl ⟨Or.inr ⟨h, fun s' t hs' ht => ?_⟩, hs⟩
            rw [hx, Option.some.injEq] at ht
            exact ht ▸ le_trans (le_of_lt hlt) (hs s' hs')
          · refine Or.inr ⟨h, fun s' hs' => ?_, hall⟩
            rw [hx, Option.some.injEq] at hs'
            exact hs' ▸ hlt
        · rintro (⟨⟨rfl, s', hs', -⟩ | ⟨h, -⟩, hs⟩ | ⟨h, -, hall⟩)
          · exact absurd (hs s' hs') (not_le.mpr (by rw [hx, Option.some.injEq] at hs'; exact hs' ▸ hlt))
          · exact Or.inl ⟨h, hs⟩
          · exact Or.inr ⟨h, hall⟩

/-- A search from the least score on finds the last of the best. -/
theorem latest_eq_some_iff [OrderBot β] : latest score l none ⊥ = some a ↔ LastMax score l a := by
  refine (latest_eq_some l none ⊥).trans ⟨?_, fun h => Or.inl ⟨h, fun _ _ => bot_le⟩⟩
  rintro (⟨h, -⟩ | ⟨h, -⟩)
  · exact h
  · cases h

/-- What is found is not lost. -/
theorem latest_some_ne_none : ∀ (l : List α) (x : α) (bestScore : β),
    latest score l (some x) bestScore ≠ none
  | [], _, _ => fun h => nomatch h
  | y :: l, x, bestScore => by
    unfold latest
    cases score y with
    | none => exact latest_some_ne_none l x bestScore
    | some s =>
      dsimp only
      split
      · exact latest_some_ne_none l y s
      · exact latest_some_ne_none l x bestScore

/-- A search finds nothing where nothing has a score. -/
theorem latest_eq_none [OrderBot β] : ∀ l : List α,
    latest score l none ⊥ = none ↔ ∀ x ∈ l, score x = none
  | [] => ⟨(fun _ _ hx => nomatch hx), fun _ => rfl⟩
  | x :: l => by
    rw [List.forall_mem_cons, ← latest_eq_none l, latest_cons]
    cases score x with
    | none => exact ⟨fun h => ⟨rfl, h⟩, fun h => h.2⟩
    | some s =>
      dsimp only
      rw [if_pos bot_le]
      exact ⟨fun h => absurd h (latest_some_ne_none l x s), fun h => nomatch h.1⟩

end OpenCpi.Infra
