import Mathlib.Logic.Function.Basic
import OpenCpi.Infra.Traced

/-!
# Filling slots one after the other

A computation without a state whose events are the slots that it fills, and that is left by an exception at
the first value that it refuses. At the end, what a list of slots leaves when each is written to the place
that it names.
-/

namespace OpenCpi.Infra

/-- A computation that fills slots `ev`, or stops at an `ε`. -/
abbrev Filling (ε ev α : Type) := Traced Unit ε ev α

namespace Filling

variable {ε ev α : Type} {x : Filling ε ev Unit} {f : Unit → Filling ε ev Unit}

/-- The slots that are filled, also when the computation throws. -/
def slots (x : Filling ε ev Unit) : List ev := (x ()).1

def Returns (x : Filling ε ev Unit) : Prop := (x ()).2.1 = .ok ()

instance (x : Filling ε ev Unit) : Decidable x.Returns :=
  match h : (x ()).2.1 with
  | .ok () => isTrue h
  | .error _ => isFalse fun h' => nomatch h.symm.trans h'

theorem returns_pure : Returns (pure () : Filling ε ev Unit) := rfl

theorem slots_pure : slots (pure () : Filling ε ev Unit) = [] := rfl

theorem not_returns_raise (e : ε) : ¬Returns (Traced.raise e : Filling ε ev Unit) := fun h => nomatch h

theorem returns_report (s : ev) : Returns (Traced.report s : Filling ε ev Unit) := rfl

theorem bind_of_returns (h : x.Returns) :
    (x >>= f) () = (x.slots ++ (f ()).slots, (f () ()).2) := by
  show Traced.bind x f () = _
  unfold Returns at h
  unfold Traced.bind slots
  rcases hx : x () with ⟨log, r, u⟩
  rw [hx] at h
  cases h
  rfl

theorem bind_of_not_returns (h : ¬x.Returns) : (x >>= f) () = x () := by
  show Traced.bind x f () = _
  unfold Returns at h
  unfold Traced.bind
  rcases hx : x () with ⟨log, ⟨e⟩ | ⟨u⟩, v⟩
  · rfl
  · rw [hx] at h
    exact absurd rfl h

theorem returns_bind : (x >>= f).Returns ↔ x.Returns ∧ (f ()).Returns := by
  by_cases h : x.Returns
  · unfold Returns
    rw [bind_of_returns h]
    exact (and_iff_right h).symm
  · refine iff_of_false (fun hb => h ?_) fun hb => h hb.1
    unfold Returns at hb
    rw [bind_of_not_returns h] at hb
    exact hb

theorem slots_bind_of_returns (h : x.Returns) : (x >>= f).slots = x.slots ++ (f ()).slots := by
  unfold slots
  rw [bind_of_returns h]
  rfl

theorem slots_bind_of_not_returns (h : ¬x.Returns) : (x >>= f).slots = x.slots := by
  unfold slots
  rw [bind_of_not_returns h]

/-! ## Loops -/

/-- `body` for each element in turn. -/
def each (body : α → Filling ε ev Unit) : List α → Filling ε ev Unit
  | [] => pure ()
  | a :: as => body a >>= fun _ => each body as

variable {body : α → Filling ε ev Unit}

/-- **A loop returns when its body does each time.** -/
theorem returns_each : ∀ {as : List α}, (each body as).Returns ↔ ∀ a ∈ as, (body a).Returns
  | [] => iff_of_true returns_pure fun _ h => nomatch h
  | a :: as => by
    unfold each
    rw [returns_bind, returns_each, List.forall_mem_cons]

/-- What a loop that returns has filled. -/
theorem slots_each : ∀ {as : List α}, (each body as).Returns →
    (each body as).slots = as.flatMap fun a => (body a).slots
  | [], _ => rfl
  | a :: as, h => by
    unfold each at h ⊢
    obtain ⟨ha, has⟩ := returns_bind.mp h
    rw [slots_bind_of_returns ha, slots_each has, List.flatMap_cons]

/-- A loop whose body fills at most one slot fills no more than it has elements. -/
theorem length_slots_each (hbody : ∀ a, (body a).slots.length ≤ 1) :
    ∀ {as : List α}, (each body as).slots.length ≤ as.length
  | [] => Nat.le_refl _
  | a :: as => by
    have ha := hbody a
    have has : (each body as).slots.length ≤ as.length := length_slots_each hbody
    unfold each
    by_cases hr : (body a).Returns
    · rw [slots_bind_of_returns hr, List.length_append, List.length_cons]
      omega
    · rw [slots_bind_of_not_returns hr, List.length_cons]
      omega

end Filling

/-! ## What slots leave -/

section writes

variable {κ ν : Type} [DecidableEq κ]

/-- Each value is written to its place, in order. -/
def written (ws : List (κ × ν)) (start : κ → Option ν) : κ → Option ν :=
  ws.foldl (fun s w => Function.update s w.1 (some w.2)) start

/-- The values for a place. -/
def valuesAt (ws : List (κ × ν)) (k : κ) : List ν := ws.filterMap fun w => if w.1 = k then some w.2 else none

theorem valuesAt_cons (w : κ × ν) (ws : List (κ × ν)) (k : κ) :
    valuesAt (w :: ws) k = if w.1 = k then w.2 :: valuesAt ws k else valuesAt ws k := by
  rw [valuesAt, List.filterMap_cons]
  by_cases hk : w.1 = k
  · rw [if_pos hk, if_pos hk]
    rfl
  · rw [if_neg hk, if_neg hk]
    rfl

theorem valuesAt_append (ws ws' : List (κ × ν)) (k : κ) :
    valuesAt (ws ++ ws') k = valuesAt ws k ++ valuesAt ws' k := List.filterMap_append

/-- **The last value for a place stays there.** -/
theorem written_apply (start : κ → Option ν) (k : κ) : ∀ ws : List (κ × ν),
    written ws start k = (valuesAt ws k).getLast?.or (start k) := by
  intro ws
  induction ws generalizing start with
  | nil => rfl
  | cons w ws ih =>
    have hstep : written (w :: ws) start = written ws (Function.update start w.1 (some w.2)) := rfl
    rw [hstep, ih, valuesAt_cons]
    by_cases hk : w.1 = k
    · subst hk
      rw [Function.update_self, if_pos rfl, List.getLast?_cons]
      cases (valuesAt ws w.1).getLast? <;> rfl
    · rw [Function.update_of_ne (Ne.symm hk), if_neg hk]

/-- One value at most for each place, the index in a list. -/
theorem valuesAt_zipIdx {α : Type} (f : α → Nat → Option ν) (k : Nat) : ∀ (xs : List α) (first : Nat),
    valuesAt ((xs.zipIdx first).filterMap fun x => (f x.1 x.2).map fun v => (x.2, v)) k =
      if k < first then [] else ((xs[k - first]?).bind fun x => f x k).toList
  | [], first => by
    rw [List.getElem?_nil]
    split <;> rfl
  | x :: xs, first => by
    have hxs := valuesAt_zipIdx f k xs (first + 1)
    have hcons : valuesAt (((x :: xs).zipIdx first).filterMap fun x => (f x.1 x.2).map fun v => (x.2, v)) k =
        (if first = k then (f x first).toList else []) ++
          valuesAt ((xs.zipIdx (first + 1)).filterMap fun x => (f x.1 x.2).map fun v => (x.2, v)) k := by
      rw [List.zipIdx_cons, List.filterMap_cons]
      dsimp only
      cases f x first with
      | none =>
        rw [Option.map_none, Option.toList_none, ite_self]
        rfl
      | some v =>
        rw [Option.map_some, valuesAt_cons]
        split <;> rfl
    rw [hcons, hxs]
    rcases Nat.lt_trichotomy k first with hlt | rfl | hgt
    · rw [if_neg (Nat.ne_of_gt hlt), if_pos (Nat.lt_succ_of_lt hlt), if_pos hlt]
      rfl
    · rw [if_pos rfl, if_pos (Nat.lt_succ_self k), if_neg (Nat.lt_irrefl k), Nat.sub_self]
      exact List.append_nil _
    · have hindex : k - first = k - (first + 1) + 1 := by omega
      rw [if_neg (Nat.ne_of_lt hgt), if_neg (Nat.not_lt_of_le hgt), if_neg (Nat.lt_asymm hgt), hindex,
        List.getElem?_cons_succ]
      rfl

end writes

end OpenCpi.Infra
