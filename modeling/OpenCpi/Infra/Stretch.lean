import Mathlib.Algebra.BigOperators.Group.List.Basic
import Mathlib.Algebra.GroupWithZero.Nat

/-!
# Longest stretches

A list whose elements have sizes is divided from the front into longest stretches of at most a given
size, as a greedy packer does it.
-/

namespace OpenCpi.Infra

variable {α : Type} {size : α → Nat} {left : Nat} {t g rest : List α}

/-- `g` is the longest stretch at the front of `g ++ rest` that has at most the size `left`. -/
structure Stretch (size : α → Nat) (left : Nat) (g rest : List α) : Prop where
  fits : (g.map size).sum ≤ left
  full : ∀ m ∈ rest.head?, left < (g.map size).sum + size m

theorem exists_stretch (size : α → Nat) (left : Nat) (t : List α) :
    ∃ g rest, t = g ++ rest ∧ Stretch size left g rest := by
  induction t generalizing left with
  | nil => exact ⟨[], [], rfl, Nat.zero_le _, fun m hm => nomatch hm⟩
  | cons m t ih =>
    by_cases hm : left < size m
    · refine ⟨[], m :: t, rfl, Nat.zero_le _, fun m' hm' => ?_⟩
      obtain rfl := Option.some.inj hm'
      rw [List.map_nil, List.sum_nil, Nat.zero_add]
      exact hm
    · obtain ⟨g, rest, rfl, hfits, hfull⟩ := ih (left - size m)
      refine ⟨m :: g, rest, rfl, ?_, fun m' hm' => ?_⟩
      · rw [List.map_cons, List.sum_cons]
        omega
      · have := hfull m' hm'
        rw [List.map_cons, List.sum_cons]
        omega

/-- The rest of a stretch, without its first element. -/
theorem Stretch.tail {m : α} (h : Stretch size left (m :: g) rest) : Stretch size (left - size m) g rest := by
  obtain ⟨hfits, hfull⟩ := h
  rw [List.map_cons, List.sum_cons] at hfits
  refine ⟨by omega, fun m' hm' => ?_⟩
  have := hfull m' hm'
  rw [List.map_cons, List.sum_cons] at this
  omega

theorem Stretch.head_le {m : α} (h : Stretch size left (m :: g) rest) : size m ≤ left := by
  have hfits := h.fits
  rw [List.map_cons, List.sum_cons] at hfits
  omega

end OpenCpi.Infra
