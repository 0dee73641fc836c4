import OpenCpi.Misc.Glob
import OpenCpi.Properties.Listing

/-!
# The two pattern matchers agree

One of them takes the stars of a run together, the other one by one; both decide whether a name matches.
-/

namespace OpenCpi.Misc

open Value (Text)
open Vfs (star question anyTail anyTail_iff Matches matches_star matches_stars)

variable {pat str : Text}

/-! ## Runs of stars -/

theorem matches_skipStars : Matches (star :: skipStars pat) str ↔ Matches (star :: pat) str := by
  induction pat generalizing str with
  | nil => exact Iff.rfl
  | cons p pat ih =>
    by_cases hp : p = star
    · subst hp
      rw [show skipStars (star :: pat) = skipStars pat from rfl, ih, matches_star, matches_star]
      constructor
      · rintro ⟨front, back, rfl, hback⟩
        exact ⟨front, back, rfl, matches_star.mpr ⟨[], back, rfl, hback⟩⟩
      · rintro ⟨front, back, rfl, hback⟩
        obtain ⟨front', back', rfl, hback'⟩ := matches_star.mp hback
        exact ⟨front ++ front', back', (List.append_assoc ..).symm, hback'⟩
    · rw [skipStars, List.dropWhile_cons_of_neg (by simpa using hp)]

/-- Behind the stars there is no other star that could match nothing. -/
theorem matches_skipStars_nil : Matches (skipStars pat) [] ↔ skipStars pat = [] := by
  rw [← matches_stars]
  constructor
  · intro hall
    by_contra hne
    have hhead : ((skipStars pat).head hne == star) = false := List.head_dropWhile_not (· == star) hne
    rw [List.all_eq_true.mp hall _ (List.head_mem hne)] at hhead
    exact Bool.noConfusion hhead
  · intro h
    rw [h]
    rfl

theorem mem_skipStars {c : UInt8} (h : c ∈ skipStars pat) : c ∈ pat := (List.dropWhile_sublist _).subset h

/-! ## Matching -/

/-- **`glob` decides whether a name matches**, for names and patterns without a NUL. -/
theorem glob_iff (str pat : Text) (hstr : 0 ∉ str) (hpat : 0 ∉ pat) : glob str pat = true ↔ Matches pat str := by
  induction h : pat.length using Nat.strongRecOn generalizing str pat with
  | ind n ih =>
    subst h
    match str, pat with
    | str, [] =>
      rw [glob, Matches]
      exact List.isEmpty_iff
    | [], p :: pat =>
      rw [glob]
      exact matches_stars (p :: pat)
    | c :: str, p :: pat =>
      have hpat' : 0 ∉ pat := fun h => hpat (List.mem_cons_of_mem _ h)
      rw [glob]
      by_cases hp : p = star
      · subst hp
        have hrest : 0 ∉ skipStars pat := fun h => hpat' (mem_skipStars h)
        have hlen : (skipStars pat).length < pat.length + 1 :=
          Nat.lt_succ_of_le (List.dropWhile_sublist _).length_le
        rw [if_pos rfl, Bool.or_eq_true, anyTail_iff, ← matches_skipStars, matches_star, List.isEmpty_iff]
        -- a rest of the name without a NUL goes on as it is
        have hback : ∀ front back, c :: str = front ++ back →
            (glob (cString back) (cString (skipStars pat)) = true ↔ Matches (skipStars pat) back) := by
          intro front back heq
          have hnul : 0 ∉ back := fun h => hstr (heq ▸ List.mem_append_right _ h)
          rw [cString_of_notMem hnul, cString_of_notMem hrest]
          exact ih _ hlen back (skipStars pat) hnul hrest rfl
        constructor
        · rintro (⟨front, back, heq, -, hglob⟩ | hnil)
          · exact ⟨front, back, heq, (hback front back heq).mp hglob⟩
          · exact ⟨c :: str, [], (List.append_nil _).symm, matches_skipStars_nil.mpr hnil⟩
        · rintro ⟨front, back, heq, hmatches⟩
          by_cases hne : back = []
          · subst hne
            exact .inr (matches_skipStars_nil.mp hmatches)
          · exact .inl ⟨front, back, heq, hne, (hback front back heq).mpr hmatches⟩
      · rw [if_neg hp, Matches, if_neg hp]
        have hstr' : 0 ∉ str := fun h => hstr (List.mem_cons_of_mem _ h)
        by_cases hc : p = question ∨ p = c
        · rw [if_pos hc, ih pat.length (Nat.lt_succ_self _) str pat hstr' hpat' rfl]
          constructor
          · exact fun h => ⟨c, str, rfl, hc, h⟩
          · rintro ⟨c', rest, heq, -, h⟩
            obtain ⟨-, rfl⟩ := List.cons.inj heq
            exact h
        · rw [if_neg hc]
          refine iff_of_false Bool.false_ne_true ?_
          rintro ⟨c', rest, heq, hc', -⟩
          obtain ⟨rfl, -⟩ := List.cons.inj heq
          exact hc hc'

/-- **Both matchers are right**, and so they agree. -/
theorem globs_agree (str pat : Text) (hstr : 0 ∉ str) (hpat : 0 ∉ pat) :
    (glob str pat = true ↔ Matches pat str) ∧ (Vfs.glob str pat = true ↔ Matches pat str) :=
  ⟨glob_iff str pat hstr hpat, Vfs.glob_iff str pat⟩

/-- `*a?**` matches `banana`, whichever matcher is asked. -/
theorem globs_agree_banana : glob [98, 97, 110, 97, 110, 97] [42, 97, 63, 42, 42] = true ∧
    Vfs.glob [98, 97, 110, 97, 110, 97] [42, 97, 63, 42, 42] = true := by
  have hvfs : Vfs.glob [98, 97, 110, 97, 110, 97] [42, 97, 63, 42, 42] = true := by decide
  have hagree := globs_agree [98, 97, 110, 97, 110, 97] [42, 97, 63, 42, 42] (by decide) (by decide)
  exact ⟨hagree.1.mpr (hagree.2.mp hvfs), hvfs⟩

end OpenCpi.Misc
