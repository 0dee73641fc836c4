/-!
# Machines that answer alike

A machine answers what it is asked and goes on to another state. Machines whose states are in a relation that keeps
their answers alike answer alike in every run.
-/

namespace OpenCpi.Infra

variable {σ τ α β : Type}

/-- The same answers, and states in a relation. -/
def Alike (R : σ → τ → Prop) (x : β × σ) (y : β × τ) : Prop := x.1 = y.1 ∧ R x.2 y.2

/-- What a machine answers to a list of questions. -/
def answers (step : σ → α → β × σ) (s : σ) : List α → List β
  | [] => []
  | a :: as => (step s a).1 :: answers step (step s a).2 as

/-- **The run rule**, for questions that meet a condition. -/
theorem answers_eq {step : σ → α → β × σ} {step' : τ → α → β × τ} {R : σ → τ → Prop} {ok : α → Prop}
    (hstep : ∀ {s t}, R s t → ∀ a, ok a → Alike R (step s a) (step' t a)) (as : List α) (has : ∀ a ∈ as, ok a) :
    ∀ {s t}, R s t → answers step s as = answers step' t as := by
  induction as with
  | nil => exact fun _ => rfl
  | cons a as ih =>
    intro s t h
    obtain ⟨hanswer, hnext⟩ := hstep h a (has a List.mem_cons_self)
    rw [answers, answers, hanswer, ih (fun b hb => has b (List.mem_cons_of_mem _ hb)) hnext]

end OpenCpi.Infra
