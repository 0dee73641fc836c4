/-!
# Computations with a state that survives exceptions

A computation that is left by an exception keeps what it did to the state up to there, as a method
of an object does. `Ends` says how a computation ends: with a result or with an exception, each with
its own condition on the state then.
-/

namespace OpenCpi.Infra

/-- A computation on a state `σ` that returns an `α` or throws an `ε`. -/
def Exc (σ ε α : Type) := σ → Except ε α × σ

namespace Exc

variable {σ ε α β : Type} {ok : α → σ → Prop} {fail : ε → σ → Prop} {s : σ}

protected def bind (m : Exc σ ε α) (f : α → Exc σ ε β) : Exc σ ε β := fun s =>
  match m s with
  | (.ok a, s) => f a s
  | (.error e, s) => (.error e, s)

instance : Monad (Exc σ ε) where
  pure a := fun s => (.ok a, s)
  bind := Exc.bind

def raise (e : ε) : Exc σ ε α := fun s => (.error e, s)

def read : Exc σ ε σ := fun s => (.ok s, s)

def change (f : σ → σ) : Exc σ ε Unit := fun s => (.ok (), f s)

/-- A computation whose exceptions are thrown again after a clean-up, as far as they can be caught. -/
def cleaned (caught : ε → Bool) (m : Exc σ ε α) (cleanUp : Exc σ ε Unit) : Exc σ ε α := fun s =>
  match m s with
  | (.ok a, s) => (.ok a, s)
  | (.error e, s) => if caught e then Exc.bind cleanUp (fun _ => raise e) s else (.error e, s)

theorem run_read_bind {f : σ → Exc σ ε α} : (read >>= f) s = f s s := rfl

theorem run_change_bind {f : σ → σ} {g : Unit → Exc σ ε α} : (change f >>= g) s = g () (f s) := rfl

theorem run_bind_ok {m : Exc σ ε β} {f : β → Exc σ ε α} {b : β} {s' : σ} (h : m s = (.ok b, s')) :
    (m >>= f) s = f b s' := by
  show Exc.bind m f s = f b s'
  rw [Exc.bind, h]

/-- From the state `s` the computation returns with `ok` or throws with `fail`. -/
def Ends (ok : α → σ → Prop) (fail : ε → σ → Prop) (m : Exc σ ε α) (s : σ) : Prop :=
  match m s with
  | (.ok a, s) => ok a s
  | (.error e, s) => fail e s

theorem ends_pure {a : α} : Ends ok fail (pure a : Exc σ ε α) s ↔ ok a s := Iff.rfl

theorem ends_raise {e : ε} : Ends ok fail (raise e : Exc σ ε α) s ↔ fail e s := Iff.rfl

theorem ends_change {ok : Unit → σ → Prop} {f : σ → σ} :
    Ends ok fail (change f : Exc σ ε Unit) s ↔ ok () (f s) := Iff.rfl

/-- Reading the state. -/
theorem ends_read_bind {f : σ → Exc σ ε α} :
    Ends ok fail (read >>= f) s ↔ Ends ok fail (f s) s := Iff.rfl

theorem ends_change_bind {f : σ → σ} {g : Unit → Exc σ ε α} :
    Ends ok fail (change f >>= g) s ↔ Ends ok fail (g ()) (f s) := Iff.rfl

/-- **The rule of sequence**, with the conditions of the first part as the goal's. -/
theorem Ends.bind {P : β → σ → Prop} {m : Exc σ ε β} {f : β → Exc σ ε α}
    (h : Ends P fail m s) (hf : ∀ b s', P b s' → Ends ok fail (f b) s') :
    Ends ok fail (m >>= f) s := by
  show Ends ok fail (Exc.bind m f) s
  unfold Ends Exc.bind
  unfold Ends at h
  rcases hm : m s with ⟨⟨e⟩ | ⟨b⟩, s'⟩
  · rw [hm] at h
    exact h
  · rw [hm] at h
    exact hf b s' h

/-- **The rule of consequence.** -/
theorem Ends.imp {ok' : α → σ → Prop} {fail' : ε → σ → Prop} {m : Exc σ ε α}
    (h : Ends ok fail m s) (hok : ∀ a s', ok a s' → ok' a s')
    (hfail : ∀ e s', fail e s' → fail' e s') : Ends ok' fail' m s := by
  unfold Ends at h ⊢
  rcases hm : m s with ⟨⟨e⟩ | ⟨b⟩, s'⟩
  · rw [hm] at h
    exact hfail e s' h
  · rw [hm] at h
    exact hok b s' h

/-- The rule of sequence after a first part that has a condition of its own for its exceptions. -/
theorem Ends.seq {P : β → σ → Prop} {F : ε → σ → Prop} {m : Exc σ ε β} {f : β → Exc σ ε α}
    (h : Ends P F m s) (hfail : ∀ e s', F e s' → fail e s')
    (hf : ∀ b s', P b s' → Ends ok fail (f b) s') : Ends ok fail (m >>= f) s :=
  (h.imp (fun _ _ hp => hp) hfail).bind hf

/-- **The rule of conjunction.** -/
theorem Ends.and {ok' : α → σ → Prop} {fail' : ε → σ → Prop} {m : Exc σ ε α}
    (h : Ends ok fail m s) (h' : Ends ok' fail' m s) :
    Ends (fun a t => ok a t ∧ ok' a t) (fun e t => fail e t ∧ fail' e t) m s := by
  unfold Ends at h h' ⊢
  rcases hm : m s with ⟨⟨e⟩ | ⟨b⟩, s'⟩ <;> rw [hm] at h h' <;> exact ⟨h, h'⟩

/-- **The rule of cleaning up.** -/
theorem Ends.cleaned {caught : ε → Bool} {P : ε → σ → Prop} {m : Exc σ ε α} {cleanUp : Exc σ ε Unit}
    (h : Ends ok P m s)
    (hcaught : ∀ e s', caught e = true → P e s' → Ends (fun _ => fail e) fail cleanUp s')
    (hother : ∀ e s', caught e = false → P e s' → fail e s') :
    Ends ok fail (cleaned caught m cleanUp) s := by
  unfold Ends at h ⊢
  unfold Exc.cleaned
  rcases hm : m s with ⟨⟨e⟩ | ⟨b⟩, s'⟩
  · rw [hm] at h
    cases hc : caught e with
    | true =>
      simp only [hc, if_true]
      exact Ends.bind (f := fun _ => raise e) (hcaught e s' hc h) fun _ _ hf => hf
    | false =>
      simp only [hc, Bool.false_eq_true, if_false]
      exact hother e s' hc h
  · rw [hm] at h
    exact h

/-- What is known of a computation holds of the outcome it has. -/
theorem Ends.of_error {m : Exc σ ε α} {e : ε} {s' : σ} (h : Ends ok fail m s)
    (hm : m s = (.error e, s')) : fail e s' := by
  unfold Ends at h
  rwa [hm] at h

end Exc

end OpenCpi.Infra
