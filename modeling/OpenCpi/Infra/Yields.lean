/-!
# Rules for fallible computations

What a computation in `Except` gives: a value with a property, or an error with another.
-/

namespace OpenCpi.Infra

variable {ε α β σ : Type} {ok ok' : α → Prop} {fail fail' : ε → Prop}

def Yields (ok : α → Prop) (fail : ε → Prop) : Except ε α → Prop
  | .ok a => ok a
  | .error e => fail e

theorem Yields.imp {x : Except ε α} (h : Yields ok fail x) (hok : ∀ a, ok a → ok' a)
    (hfail : ∀ e, fail e → fail' e) : Yields ok' fail' x := by
  cases x with
  | ok a => exact hok a h
  | error e => exact hfail e h

/-- **The rule of sequence**. -/
theorem Yields.bind {x : Except ε α} {f : α → Except ε β} {ok' : β → Prop} (h : Yields ok fail x)
    (hf : ∀ a, ok a → Yields ok' fail (f a)) : Yields ok' fail (x >>= f) := by
  cases x with
  | ok a => exact hf a h
  | error e => exact h

/-- **The rule of loops**: an invariant over the elements that are done. -/
theorem Yields.foldlM {f : σ → β → Except ε σ} {P : List β → σ → Prop} {l : List β} {s : σ} (hstart : P [] s)
    (hstep : ∀ done b s, b ∈ l → P done s → Yields (P (done ++ [b])) fail (f s b)) :
    Yields (P l) fail (l.foldlM f s) := by
  have hall : ∀ (l' done : List β) (s : σ), (∀ b ∈ l', b ∈ l) → P done s →
      Yields (P (done ++ l')) fail (l'.foldlM f s) := by
    intro l'
    induction l' with
    | nil =>
      intro done s _ h
      rw [List.append_nil]
      exact h
    | cons b l' ih =>
      intro done s hmem h
      rw [List.foldlM_cons]
      refine (hstep done b s (hmem b (List.mem_cons_self ..)) h).bind fun s' hs' => ?_
      have hrest := ih (done ++ [b]) s' (fun b' hb' => hmem b' (List.mem_cons_of_mem _ hb')) hs'
      rwa [List.append_assoc] at hrest
  exact hall l [] s (fun _ h => h) hstart

/-- **The rule of `mapM`**: what each element yields, and what it tells about the element. -/
theorem Yields.mapM {γ : Type} {f : β → Except ε α} {g : α → γ} {h : β → γ} {Q : β → Prop} : ∀ {l : List β},
    (∀ b ∈ l, Yields (fun a => g a = h b ∧ Q b) fail (f b)) →
    Yields (fun as => as.map g = l.map h ∧ ∀ b ∈ l, Q b) fail (l.mapM f)
  | [], _ => ⟨rfl, fun _ hb => nomatch hb⟩
  | b :: l, hf => by
    rw [List.mapM_cons]
    refine (hf b List.mem_cons_self).bind fun a ha => ?_
    refine (Yields.mapM fun b' hb' => hf b' (List.mem_cons_of_mem b hb')).bind fun as has => ?_
    refine ⟨?_, fun b' hb' => ?_⟩
    · rw [List.map_cons, List.map_cons, ha.1, has.1]
    · rcases List.mem_cons.mp hb' with rfl | hmem
      · exact ha.2
      · exact has.2 b' hmem

/-- **The rule of `forM`**. -/
theorem Yields.forM {f : β → Except ε Unit} {Q : β → Prop} : ∀ {l : List β},
    (∀ b ∈ l, Yields (fun _ => Q b) fail (f b)) → Yields (fun _ => ∀ b ∈ l, Q b) fail (l.forM f)
  | [], _ => fun _ hb => absurd hb List.not_mem_nil
  | b :: l, hf => by
    show Yields _ fail (f b >>= fun _ => l.forM f)
    refine (hf b List.mem_cons_self).bind fun _ hb => ?_
    exact (Yields.forM fun b' hb' => hf b' (List.mem_cons_of_mem b hb')).imp
      (fun _ hall => List.forall_mem_cons.mpr ⟨hb, hall⟩) fun _ he => he

theorem Yields.mapError {ε' : Type} {fail' : ε' → Prop} {f : ε → ε'} {x : Except ε α} (h : Yields ok fail x)
    (hf : ∀ e, fail e → fail' (f e)) : Yields ok fail' (x.mapError f) := by
  cases x with
  | ok a => exact h
  | error e => exact hf e h

theorem Yields.of_ok {x : Except ε α} {a : α} (h : Yields ok fail x) (hx : x = .ok a) : ok a := by
  subst hx
  exact h

theorem Yields.of_error {x : Except ε α} {e : ε} (h : Yields ok fail x) (hx : x = .error e) : fail e := by
  subst hx
  exact h

end OpenCpi.Infra
