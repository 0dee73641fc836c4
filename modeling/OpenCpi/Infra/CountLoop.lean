import Mathlib.Algebra.Group.Nat.Defs
import Mathlib.Data.Nat.Basic
import Mathlib.Logic.Function.Iterate

/-!
# Loops with a counter of so many bits

`for (i = 0; i < count; i++)`, where `i` is an unsigned number that wraps. With a bound that the counter can
hold it is the body so many times, with a larger one it has no end.
-/

namespace OpenCpi.Infra

variable {σ : Type} {w count : Nat} {body : σ → σ}

/-- The loop from a value of the counter on; `none` when the steps run out. -/
def countLoop (w : Nat) (body : σ → σ) (count : Nat) : Nat → Nat → σ → Option σ
  | 0, _, _ => none
  | fuel + 1, i, s => if i < count then countLoop w body count fuel ((i + 1) % 2 ^ w) (body s) else some s

theorem countLoop_from (hcount : count < 2 ^ w) (fuel : Nat) : ∀ (i : Nat) (s : σ), i ≤ count →
    countLoop w body count fuel i s = if count - i < fuel then some (body^[count - i] s) else none := by
  induction fuel with
  | zero => exact fun _ _ _ => (if_neg (Nat.not_lt_zero _)).symm
  | succ fuel ih =>
    intro i s hi
    unfold countLoop
    rcases Nat.lt_or_eq_of_le hi with hlt | rfl
    · have hleft : count - i = count - (i + 1) + 1 := by omega
      rw [if_pos hlt, Nat.mod_eq_of_lt (by omega), ih _ _ hlt, hleft, Function.iterate_succ_apply]
      exact if_congr Nat.succ_lt_succ_iff.symm rfl rfl
    · rw [if_neg (Nat.lt_irrefl _), Nat.sub_self, if_pos (Nat.succ_pos _)]
      rfl

/-- **A loop with an end** runs its body `count` times. -/
theorem countLoop_eq (hcount : count < 2 ^ w) (fuel : Nat) (s : σ) :
    countLoop w body count fuel 0 s = if count < fuel then some (body^[count] s) else none :=
  countLoop_from hcount fuel 0 s (Nat.zero_le _)

/-- **A loop without an end**: the counter never gets to the bound. -/
theorem countLoop_eq_none (hcount : 2 ^ w ≤ count) (fuel : Nat) : ∀ {i : Nat} (s : σ), i < 2 ^ w →
    countLoop w body count fuel i s = none := by
  induction fuel with
  | zero => exact fun _ _ => rfl
  | succ fuel ih =>
    intro i s hi
    unfold countLoop
    rw [if_pos (Nat.lt_of_lt_of_le hi hcount)]
    exact ih _ (Nat.mod_lt _ (Nat.two_pow_pos w))

end OpenCpi.Infra
