import Mathlib.Data.Set.Basic
import Mathlib.Order.Defs.LinearOrder

/-!
# Searches for a best solution

A search goes through solutions one after another and keeps the first one with the largest score. It is a
function from what was found before to what is found then, which may fail. `Searches f S` says that `f` goes
through the set `S`; the rules follow the way in which a search is put together.
-/

namespace OpenCpi.Infra

/-- What was found, with its score. -/
structure Best (α β : Type*) where
  score : β
  found : α
deriving DecidableEq, Repr

section

variable {α β ι : Type*} [LinearOrder β] {f g : Best α β → Option (Best α β)} {S T : Set (Best α β)}

/-- The search keeps what it had or finds a better solution of the set, and no solution of the set is better
than what it ends with. -/
def Searches (f : Best α β → Option (Best α β)) (S : Set (Best α β)) : Prop :=
  ∀ best, ∃ best', f best = some best' ∧ (best' = best ∨ best' ∈ S ∧ best.score < best'.score) ∧
    ∀ x ∈ S, x.score ≤ best'.score

/-- A solution is recorded when it is better. -/
def record (x best : Best α β) : Best α β := if best.score < x.score then x else best

theorem Searches.le (h : Searches f S) {best best' : Best α β} (hf : f best = some best') :
    best.score ≤ best'.score := by
  obtain ⟨b, hb, hkeep, -⟩ := h best
  rw [hf] at hb
  cases hb
  rcases hkeep with rfl | ⟨-, hlt⟩
  · exact le_refl _
  · exact le_of_lt hlt

theorem searches_empty : Searches (some : Best α β → Option (Best α β)) ∅ := fun best =>
  ⟨best, rfl, Or.inl rfl, fun _ hx => hx.elim⟩

theorem searches_record (x : Best α β) : Searches (fun best => some (record x best)) {x} := by
  intro best
  refine ⟨record x best, rfl, ?_, ?_⟩
  · unfold record
    split
    · next hlt => exact Or.inr ⟨rfl, hlt⟩
    · exact Or.inl rfl
  · rintro y rfl
    unfold record
    split
    · exact le_refl _
    · next hle => exact not_lt.mp hle

/-- One search after another. -/
theorem Searches.bind (hf : Searches f S) (hg : Searches g T) :
    Searches (fun best => (f best).bind g) (S ∪ T) := by
  intro best
  obtain ⟨b₁, hb₁, hkeep₁, hall₁⟩ := hf best
  obtain ⟨b₂, hb₂, hkeep₂, hall₂⟩ := hg b₁
  have hle : b₁.score ≤ b₂.score := hg.le hb₂
  have hf₂ : (f best).bind g = some b₂ := by rw [hb₁, Option.bind_some, hb₂]
  refine ⟨b₂, hf₂, ?_, ?_⟩
  · rcases hkeep₂ with rfl | ⟨hmem, hlt⟩
    · exact hkeep₁.imp_right fun h => ⟨Or.inl h.1, h.2⟩
    · exact Or.inr ⟨Or.inr hmem, lt_of_le_of_lt (hf.le hb₁) hlt⟩
  · rintro x (hx | hx)
    · exact le_trans (hall₁ x hx) hle
    · exact hall₂ x hx

/-- Solutions may be left out where one that is as good is not. -/
theorem Searches.cover (h : Searches f S) (hsub : S ⊆ T) (hcover : ∀ x ∈ T, ∃ y ∈ S, x.score ≤ y.score) :
    Searches f T := by
  intro best
  obtain ⟨b, hb, hkeep, hall⟩ := h best
  refine ⟨b, hb, hkeep.imp_right fun h => ⟨hsub h.1, h.2⟩, fun x hx => ?_⟩
  obtain ⟨y, hy, hle⟩ := hcover x hx
  exact le_trans hle (hall y hy)

theorem Searches.congr (h : Searches f S) (heq : S = T) : Searches f T := heq ▸ h

/-- A loop searches what its turns search. -/
theorem searches_foldlM {step : Best α β → ι → Option (Best α β)} {R : ι → Set (Best α β)} :
    ∀ {l : List ι}, (∀ i ∈ l, Searches (fun best => step best i) (R i)) →
      Searches (fun best => l.foldlM step best) {x | ∃ i ∈ l, x ∈ R i}
  | [], _ => searches_empty.congr (by simp)
  | i :: l, h => by
    have hrest := searches_foldlM fun j hj => h j (List.mem_cons_of_mem i hj)
    refine ((h i List.mem_cons_self).bind hrest).congr ?_
    ext x
    simp only [Set.mem_union, Set.mem_ofPred_eq, List.mem_cons, exists_eq_or_imp]

end

end OpenCpi.Infra
