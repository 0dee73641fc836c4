/-!
# Computations that report what they do

A computation on a state that returns a value or throws, and reports events on the way. It is guarded
from a state when all its events there are good ones and it does not end in a bad way. The rules reduce
that for a compound computation to its parts.
-/

namespace OpenCpi.Infra

/-- A computation on a state `σ` that returns an `α` or throws an `ε`, with the events `ev`. -/
def Traced (σ ε ev α : Type) := σ → List ev × Except ε α × σ

namespace Traced

variable {σ ε ev α β : Type} {good : ev → Prop} {bad : ε → Prop} {s : σ}

protected def pure (a : α) : Traced σ ε ev α := fun s => ([], .ok a, s)

protected def bind (x : Traced σ ε ev α) (f : α → Traced σ ε ev β) : Traced σ ε ev β := fun s =>
  match x s with
  | (log, .ok a, s) => (log ++ (f a s).1, (f a s).2)
  | (log, .error e, s) => (log, .error e, s)

instance : Monad (Traced σ ε ev) where
  pure := Traced.pure
  bind := Traced.bind

def raise (e : ε) : Traced σ ε ev α := fun s => ([], .error e, s)

def read : Traced σ ε ev σ := fun s => ([], .ok s, s)

def change (f : σ → σ) : Traced σ ε ev Unit := fun s => ([], .ok (), f s)

def report (e : ev) : Traced σ ε ev Unit := fun s => ([e], .ok (), s)

/-- All events are good, and the end is not a bad one. -/
structure Guarded (good : ev → Prop) (bad : ε → Prop) (x : Traced σ ε ev α) (s : σ) : Prop where
  events : ∀ e ∈ (x s).1, good e
  ending : ∀ e, (x s).2.1 = .error e → ¬bad e

theorem guarded_pure (a : α) : Guarded good bad (pure a : Traced σ ε ev α) s :=
  ⟨(fun _ he => nomatch he), fun _ he => nomatch he⟩

theorem guarded_raise {e : ε} : Guarded good bad (raise e : Traced σ ε ev α) s ↔ ¬bad e := by
  refine ⟨fun h => h.ending e rfl, fun h => ⟨(fun _ he => nomatch he), fun e' he => ?_⟩⟩
  cases he
  exact h

theorem guarded_change (f : σ → σ) : Guarded good bad (change f : Traced σ ε ev Unit) s :=
  ⟨(fun _ he => nomatch he), fun _ he => nomatch he⟩

theorem guarded_read_bind {f : σ → Traced σ ε ev α} :
    Guarded good bad (read >>= f) s ↔ Guarded good bad (f s) s := by
  have hrun : (read >>= f) s = f s s := rfl
  constructor
  · rintro ⟨h, h'⟩
    rw [hrun] at h h'
    exact ⟨h, h'⟩
  · rintro ⟨h, h'⟩
    refine ⟨?_, ?_⟩ <;> rw [hrun] <;> assumption

/-- **The rule of sequence.** -/
theorem guarded_bind {x : Traced σ ε ev α} {f : α → Traced σ ε ev β} :
    Guarded good bad (x >>= f) s ↔ Guarded good bad x s ∧
      ∀ a s', (x s).2 = (.ok a, s') → Guarded good bad (f a) s' := by
  have hbind : (x >>= f) s = Traced.bind x f s := rfl
  rcases hx : x s with ⟨log, ⟨e⟩ | ⟨a⟩, s'⟩
  · have hrun : (x >>= f) s = (log, .error e, s') := by
      rw [hbind, Traced.bind, hx]
    constructor
    · rintro ⟨hevents, hending⟩
      rw [hrun] at hevents hending
      refine ⟨⟨?_, ?_⟩, fun a s'' h => ?_⟩
      · rw [hx]
        exact hevents
      · rw [hx]
        intro e' he
        cases he
        exact hending e rfl
      · cases h
    · rintro ⟨⟨hevents, hending⟩, -⟩
      rw [hx] at hevents hending
      refine ⟨?_, ?_⟩
      · rw [hrun]
        exact hevents
      · rw [hrun]
        intro e' he
        cases he
        exact hending e rfl
  · have hrun : (x >>= f) s = (log ++ (f a s').1, (f a s').2) := by
      rw [hbind, Traced.bind, hx]
    constructor
    · rintro ⟨hevents, hending⟩
      rw [hrun] at hevents hending
      refine ⟨⟨?_, ?_⟩, fun a' s'' h => ?_⟩
      · rw [hx]
        exact fun e he => hevents e (List.mem_append_left _ he)
      · rw [hx]
        intro e he
        cases he
      · cases h
        exact ⟨fun e he => hevents e (List.mem_append_right _ he), hending⟩
    · rintro ⟨⟨hevents, -⟩, hf⟩
      rw [hx] at hevents
      obtain ⟨hevents', hending⟩ := hf a s' rfl
      refine ⟨?_, ?_⟩
      · rw [hrun]
        intro e he
        rcases List.mem_append.mp he with he | he
        · exact hevents e he
        · exact hevents' e he
      · rw [hrun]
        exact hending

/-! ## Where a computation ends -/

/-- The first part returns, the second part decides. -/
theorem end_bind_ok {x : Traced σ ε ev α} {f : α → Traced σ ε ev β} {a : α} {t : σ}
    (hx : (x s).2 = (.ok a, t)) : ((x >>= f) s).2 = (f a t).2 := by
  show (Traced.bind x f s).2 = (f a t).2
  unfold Traced.bind
  rcases hr : x s with ⟨log, r⟩
  rw [hr] at hx
  cases hx
  rfl

theorem end_bind_error {x : Traced σ ε ev α} {f : α → Traced σ ε ev β} {e : ε} {s' : σ}
    (hx : (x s).2 = (.error e, s')) : ((x >>= f) s).2 = (.error e, s') := by
  show (Traced.bind x f s).2 = _
  unfold Traced.bind
  rcases hr : x s with ⟨log, r⟩
  rw [hr] at hx
  cases hx
  rfl

/-- A computation keeps a condition on the state, and only throws certain exceptions. -/
def Preserves (I : σ → Prop) (Q : ε → Prop) (x : Traced σ ε ev α) : Prop :=
  ∀ s, I s → I (x s).2.2 ∧ ∀ e, (x s).2.1 = .error e → Q e

variable {I : σ → Prop} {Q : ε → Prop}

theorem preserves_pure (a : α) : Preserves I Q (pure a : Traced σ ε ev α) :=
  fun _ h => ⟨h, fun _ he => nomatch he⟩

theorem preserves_raise {e : ε} (h : Q e) : Preserves I Q (raise e : Traced σ ε ev α) := by
  refine fun _ hs => ⟨hs, fun e' he => ?_⟩
  cases he
  exact h

theorem preserves_read : Preserves I Q (read : Traced σ ε ev σ) := fun _ h => ⟨h, fun _ he => nomatch he⟩

theorem preserves_report (e : ev) : Preserves I Q (report e : Traced σ ε ev Unit) :=
  fun _ h => ⟨h, fun _ he => nomatch he⟩

theorem preserves_change {f : σ → σ} (h : ∀ s, I s → I (f s)) :
    Preserves I Q (change f : Traced σ ε ev Unit) := fun s hs => ⟨h s hs, fun _ he => nomatch he⟩

theorem Preserves.bind {x : Traced σ ε ev α} {f : α → Traced σ ε ev β} (h : Preserves I Q x)
    (hf : ∀ a, Preserves I Q (f a)) : Preserves I Q (x >>= f) := by
  intro s hs
  obtain ⟨hx, hq⟩ := h s hs
  rcases hr : (x s).2 with ⟨⟨e⟩ | ⟨a⟩, s'⟩
  · rw [end_bind_error hr]
    rw [hr] at hx hq
    refine ⟨hx, fun e' he => ?_⟩
    cases he
    exact hq e rfl
  · rw [end_bind_ok hr]
    rw [hr] at hx
    exact hf a s' hx

theorem bind_assoc {γ : Type} (x : Traced σ ε ev α) (f : α → Traced σ ε ev β)
    (g : β → Traced σ ε ev γ) : x >>= f >>= g = x >>= fun a => f a >>= g := by
  funext s
  show Traced.bind (Traced.bind x f) g s = Traced.bind x (fun a => Traced.bind (f a) g) s
  unfold Traced.bind
  rcases x s with ⟨log, ⟨e⟩ | ⟨a⟩, s'⟩
  · rfl
  · dsimp only
    rcases f a s' with ⟨log', ⟨e⟩ | ⟨b⟩, s''⟩
    · rfl
    · dsimp only
      rw [List.append_assoc]

theorem pure_bind (a : α) (f : α → Traced σ ε ev β) : (pure a >>= f : Traced σ ε ev β) = f a := rfl

theorem guarded_change_bind {g : σ → σ} {f : Unit → Traced σ ε ev α} :
    Guarded good bad (change g >>= f) s ↔ Guarded good bad (f ()) (g s) := by
  rw [guarded_bind]
  refine ⟨fun h => h.2 () (g s) rfl, fun h => ⟨guarded_change g, fun _ _ he => ?_⟩⟩
  cases he
  exact h

theorem guarded_report_bind {e : ev} {f : Unit → Traced σ ε ev α} :
    Guarded good bad (report e >>= f) s ↔ good e ∧ Guarded good bad (f ()) s := by
  rw [guarded_bind]
  constructor
  · rintro ⟨h, hf⟩
    exact ⟨h.events e List.mem_cons_self, hf () s rfl⟩
  · rintro ⟨he, hf⟩
    refine ⟨⟨fun e' he' => ?_, fun _ hend => by cases hend⟩, fun _ _ hr => ?_⟩
    · cases List.mem_singleton.mp he'
      exact he
    · cases hr
      exact hf

end Traced

end OpenCpi.Infra
