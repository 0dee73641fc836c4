import Mathlib.Logic.Relation

/-!
# Runs of a partial step function

A component is modelled by a step function `step : σ → α → Option σ`: `none` means that the
operation is not enabled in the state (the caller may not make it there, or the program stops).
A run is a sequence of enabled steps. Which steps a theorem speaks about is a second parameter,
`ok`: a condition on the state before the step and on the operation.
-/

namespace OpenCpi.Infra

variable {σ α : Type*} {step : σ → α → Option σ} {ok : σ → α → Prop} {s₀ s s' : σ}

/-- One enabled step that meets the condition `ok`. -/
def StepOk (step : σ → α → Option σ) (ok : σ → α → Prop) (s s' : σ) : Prop :=
  ∃ a, ok s a ∧ step s a = some s'

/-- `s` is reached from `s₀` by a run all of whose steps meet `ok`. -/
def Reach (step : σ → α → Option σ) (ok : σ → α → Prop) (s₀ s : σ) : Prop :=
  Relation.ReflTransGen (StepOk step ok) s₀ s

/-- The condition that every step meets. -/
def anyStep : σ → α → Prop := fun _ _ => True

/-- **The induction rule.** What holds at the start and is kept by each step from a state that
the run reaches holds in every state a run reaches. -/
theorem Reach.induct {P : σ → Prop} (h : Reach step ok s₀ s) (h₀ : P s₀)
    (hstep : ∀ s a s', Reach step ok s₀ s → P s → ok s a → step s a = some s' → P s') : P s := by
  induction h with
  | refl => exact h₀
  | tail hr hs ih =>
    obtain ⟨a, hok, hs⟩ := hs
    exact hstep _ a _ hr ih hok hs

/-- **The invariant rule**, for properties that each step keeps from any state. -/
theorem Reach.invariant {P : σ → Prop} (h : Reach step ok s₀ s) (h₀ : P s₀)
    (hstep : ∀ s a s', P s → ok s a → step s a = some s' → P s') : P s :=
  h.induct h₀ fun s a s' _ => hstep s a s'

/-- A run that meets a condition meets every weaker one. -/
theorem Reach.mono {ok' : σ → α → Prop} (h : Reach step ok s₀ s)
    (hok : ∀ s a, ok s a → ok' s a) : Reach step ok' s₀ s := by
  refine Relation.ReflTransGen.mono ?_ _ _ h
  rintro s s' ⟨a, ha, hs⟩
  exact ⟨a, hok s a ha, hs⟩

/-- Run a list of operations. -/
def exec (step : σ → α → Option σ) : σ → List α → Option σ
  | s, [] => some s
  | s, a :: as => (step s a).bind fun s' => exec step s' as

/-- The step function restricted to the steps that meet `ok`. -/
def checked (step : σ → α → Option σ) (ok : σ → α → Prop) [∀ s a, Decidable (ok s a)] (s : σ)
    (a : α) : Option σ :=
  if ok s a then step s a else none

/-- The end of an executed list of operations is reached by a run. -/
theorem reach_of_exec_checked [∀ s a, Decidable (ok s a)] : ∀ (as : List α) {s₀ : σ},
    exec (checked step ok) s₀ as = some s → Reach step ok s₀ s
  | [], s₀, h => by
    cases h
    exact Relation.ReflTransGen.refl
  | a :: as, s₀, h => by
    obtain ⟨s₁, h₁, h₂⟩ := Option.bind_eq_some_iff.mp h
    rw [checked] at h₁
    split at h₁
    · next hok => exact Relation.ReflTransGen.head ⟨a, hok, h₁⟩ (reach_of_exec_checked as h₂)
    · simp at h₁

theorem reach_of_exec (as : List α) (h : exec step s₀ as = some s) :
    Reach step anyStep s₀ s := by
  have : ∀ (s : σ) (a : α), Decidable (anyStep s a) := fun _ _ => .isTrue trivial
  have hstep : checked step anyStep = step := by
    funext s a
    exact if_pos trivial
  refine reach_of_exec_checked as ?_
  rw [hstep]
  exact h

end OpenCpi.Infra
