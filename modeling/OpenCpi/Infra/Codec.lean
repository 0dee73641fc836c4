import OpenCpi.Infra.Bytes

/-!
# Encoders and decoders that agree

An encoder takes events from a source and writes them into a buffer, a decoder walks over a buffer
and reports events. Both move a cursor over the rest of the buffer and may fail. An encoder and a
decoder agree when the decoder, run over the bytes that the encoder wrote, reports the same events
and stops where the encoder stopped. Agreement is kept by sequencing and by loops, so that it has to
be shown for the smallest steps only.
-/

namespace OpenCpi.Infra

/-- The state of an encoder: the memory, the cursor, the room behind it, the source of the values,
and the events so far. -/
structure Encoding (σ ev : Type) where
  memory : Memory
  data : Nat
  length : Nat
  source : σ
  events : List ev

/-- The state of a decoder; it only reads the memory. -/
structure Decoding (ev : Type) where
  data : Nat
  length : Nat
  events : List ev

abbrev Encoder (σ ev α : Type) := StateT (Encoding σ ev) (Except String) α

abbrev Decoder (ev α : Type) := StateT (Decoding ev) (Except String) α

variable {σ ev α β : Type} {ok : ev → Prop}

/-! ## Running the steps of a state machine that may fail

These are rewrite rules on purpose: unfolding a step by computation would also compute the
conditions inside it. -/

theorem run_get_bind {st : Type} (f : st → StateT st (Except String) β) (s : st) :
    (get >>= f) s = f s s := rfl

theorem run_modify {st : Type} (g : st → st) (s : st) :
    (modify g : StateT st (Except String) Unit) s = .ok ((), g s) := rfl

theorem run_modify_bind {st : Type} (g : st → st) (f : Unit → StateT st (Except String) β)
    (s : st) : (modify g >>= f) s = f () (g s) := rfl

theorem run_modifyGet_bind {st : Type} (g : st → α × st) (f : α → StateT st (Except String) β)
    (s : st) : (modifyGet g >>= f) s = f (g s).1 (g s).2 := rfl

theorem run_bind_ok {st : Type} {a : StateT st (Except String) α}
    {f : α → StateT st (Except String) β} {s s' : st} {v : α} (h : a s = .ok (v, s')) :
    (a >>= f) s = f v s' := by
  simp only [bind, StateT.bind, h, Except.bind]

/-- A run of two steps that succeeds is a run of the first and then of the second. -/
theorem run_bind_eq_ok {st : Type} {a : StateT st (Except String) α}
    {f : α → StateT st (Except String) β} {s s'' : st} {v' : β}
    (h : (a >>= f) s = .ok (v', s'')) : ∃ v s', a s = .ok (v, s') ∧ f v s' = .ok (v', s'') := by
  cases ha : a s with
  | error e => simp [bind, StateT.bind, Except.bind, ha] at h
  | ok r =>
    obtain ⟨v, s'⟩ := r
    rw [run_bind_ok ha] at h
    exact ⟨v, s', rfl, h⟩

/-- A step that is made only under a condition. -/
def onlyIf {m : Type → Type} [Monad m] (c : Prop) [Decidable c] (a : m Unit) : m Unit :=
  if c then a else pure ()

/-- A loop over the numbers from `k` on. -/
def loopFrom {m : Type → Type} [Monad m] (body : Nat → m Unit) : Nat → Nat → m Unit
  | 0, _ => pure ()
  | n + 1, k => do
    body k
    loopFrom body n (k + 1)

/-- A run of an encoder that wrote between two cursors and took some events from the source. -/
structure Wrote (s s' : Encoding σ ev) (events : List ev) : Prop where
  le : s.data ≤ s'.data
  room : s'.data + s'.length = s.data + s.length
  frame : ∀ a < s.data, s'.memory a = s.memory a
  trace : s'.events = s.events ++ events

/-- A decoder reads certain events from the bytes between two cursors. -/
def Reads (b : Memory → Decoder ev α) (memory : Memory) (first last : Nat) (events : List ev)
    (v : α) : Prop :=
  ∀ memory' length old, (∀ a, first ≤ a → a < last → memory' a = memory a) →
    last ≤ first + length →
    b memory' ⟨first, length, old⟩ = .ok (v, ⟨last, first + length - last, old ++ events⟩)

/-- **Agreement** for events that are `ok`. -/
def Agree (ok : ev → Prop) (a : Encoder σ ev α) (b : Memory → Decoder ev α) : Prop :=
  ∀ s s' v, a s = .ok (v, s') → ∃ events, Wrote s s' events ∧
    ((∀ e ∈ events, ok e) → Reads b s'.memory s.data s'.data events v)

theorem agree_pure (v : α) : Agree ok (pure v : Encoder σ ev α) fun _ => pure v := by
  intro s s' v' h
  cases h
  refine ⟨[], ⟨Nat.le_refl _, rfl, fun _ _ => rfl, (List.append_nil _).symm⟩, ?_⟩
  intro _ memory' length old _ _
  rw [Nat.add_sub_cancel_left, List.append_nil]
  rfl

theorem agree_throw {error : String} {b : Memory → Decoder ev α} :
    Agree ok (throw error : Encoder σ ev α) b := by
  intro s s' v h
  cases h

/-- One step after the other. -/
theorem Agree.bind {a : Encoder σ ev α} {b : Memory → Decoder ev α} {f : α → Encoder σ ev β}
    {g : α → Memory → Decoder ev β} (h : Agree ok a b) (hf : ∀ v, Agree ok (f v) (g v)) :
    Agree ok (a >>= f) fun memory => b memory >>= fun v => g v memory := by
  intro s s'' v' hrun
  obtain ⟨v, s', ha, hrun⟩ := run_bind_eq_ok hrun
  obtain ⟨events, hw, hr⟩ := h s s' v ha
  obtain ⟨events', hw', hr'⟩ := hf v s' s'' v' hrun
  refine ⟨events ++ events', ⟨Nat.le_trans hw.le hw'.le, hw'.room.trans hw.room, ?_, ?_⟩, ?_⟩
  · intro a ha
    rw [hw'.frame a (Nat.lt_of_lt_of_le ha hw.le), hw.frame a ha]
  · rw [hw'.trace, hw.trace, List.append_assoc]
  · intro hok memory' length old hmem hlen
    have hle := hw.le
    have hle' := hw'.le
    have h₁ := hr (fun e he => hok e (List.mem_append_left _ he)) memory' length old
      (fun a hge hlt => by rw [hmem a hge (by omega), hw'.frame a hlt]) (by omega)
    have h₂ := hr' (fun e he => hok e (List.mem_append_right _ he)) memory'
      (s.data + length - s'.data) (old ++ events)
      (fun a hge hlt => hmem a (by omega) hlt) (by omega)
    have hrest : s'.data + (s.data + length - s'.data) = s.data + length := by omega
    rw [hrest, List.append_assoc] at h₂
    exact (run_bind_ok h₁).trans h₂

/-- A choice that both sides make alike. -/
theorem Agree.ite {c : Prop} [Decidable c] {a a' : Encoder σ ev α} {b b' : Memory → Decoder ev α}
    (h : c → Agree ok a b) (h' : ¬c → Agree ok a' b') :
    Agree ok (if c then a else a') fun memory => if c then b memory else b' memory := by
  by_cases hc : c
  · simp only [hc, if_true]
    exact h hc
  · simp only [hc, if_false]
    exact h' hc

theorem Agree.onlyIf {c : Prop} [Decidable c] {a : Encoder σ ev Unit}
    {b : Memory → Decoder ev Unit} (h : Agree ok a b) :
    Agree ok (Infra.onlyIf c a) fun memory => Infra.onlyIf c (b memory) :=
  Agree.ite (fun _ => h) fun _ => agree_pure ()

theorem agree_loopFrom {body : Nat → Encoder σ ev Unit} {body' : Memory → Nat → Decoder ev Unit}
    (h : ∀ k, Agree ok (body k) fun memory => body' memory k) (n k : Nat) :
    Agree ok (loopFrom body n k) fun memory => loopFrom (body' memory) n k := by
  induction n generalizing k with
  | zero => exact agree_pure ()
  | succ n ih => exact (h k).bind fun _ => ih (k + 1)

end OpenCpi.Infra
