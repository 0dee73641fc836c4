import Mathlib.Data.List.Basic
import Mathlib.Tactic.SplitIfs

/-!
# Elastic components

A component between two queues works in some of its cycles. Then it sees the element in front of it, takes it or leaves
it there, and gives something or not. What comes out in the end does not depend on the cycles in which it works, also
not for two components with a queue between them.
-/

namespace OpenCpi.Infra

variable {σ τ α β γ : Type}

/-- What a component does with the element in front of it. -/
structure Elastic (σ α β : Type) where
  take : σ → α → Bool
  give : σ → α → Option β
  next : σ → α → σ

namespace Elastic

/-- What is left of the queue in front. -/
def left (E : Elastic σ α β) (s : σ) : List α → List α
  | [] => []
  | a :: as => if E.take s a then as else a :: as

/-- What is given in a cycle. -/
def out (E : Elastic σ α β) (s : σ) (as : List α) : List β := (as.head?.bind (E.give s)).toList

def after (E : Elastic σ α β) (s : σ) (as : List α) : σ := as.head?.elim s (E.next s)

/-- `f` says what comes out of a state and a queue. -/
structure Yields (E : Elastic σ α β) (f : σ → List α → List β) : Prop where
  nil : ∀ s, f s [] = []
  cons : ∀ s a as, f s (a :: as) = (E.give s a).toList ++ f (E.next s a) (E.left s (a :: as))

/-- What is given, and what still comes, is what would have come. -/
theorem Yields.out_append {E : Elastic σ α β} {f : σ → List α → List β} (h : E.Yields f) (s : σ) (as : List α) :
    E.out s as ++ f (E.after s as) (E.left s as) = f s as := by
  cases as with
  | nil => rfl
  | cons a as => exact (h.cons s a as).symm

/-- More elements behind the queue do not change what a component does. -/
theorem Yields.out_append_append {E : Elastic σ α β} {f : σ → List α → List β} (h : E.Yields f) (s : σ) {as : List α}
    (has : as ≠ []) (bs : List α) : E.out s as ++ f (E.after s as) (E.left s as ++ bs) = f s (as ++ bs) := by
  cases as with
  | nil => exact absurd rfl has
  | cons a as =>
    have hleft : E.left s (a :: as) ++ bs = E.left s (a :: (as ++ bs)) := by
      rw [left, left]
      split_ifs <;> rfl
    rw [hleft]
    exact (h.cons s a (as ++ bs)).symm

/-! ## One component -/

/-- A component, with what is in front of it and what it gave. -/
structure Place (σ α β : Type) where
  state : σ
  pending : List α
  given : List β := []

/-- A cycle in which the component works or does not. -/
def Place.clock (E : Elastic σ α β) (p : Place σ α β) (works : Bool) : Place σ α β :=
  if works then
    { state := E.after p.state p.pending
      pending := E.left p.state p.pending
      given := p.given ++ E.out p.state p.pending }
  else p

theorem Yields.clock {E : Elastic σ α β} {f : σ → List α → List β} (h : E.Yields f) (p : Place σ α β) (works : Bool) :
    (p.clock E works).given ++ f (p.clock E works).state (p.clock E works).pending = p.given ++ f p.state p.pending := by
  unfold Place.clock
  split_ifs
  · dsimp only
    rw [List.append_assoc, h.out_append]
  · rfl

/-- **The run rule** for one component. -/
theorem Yields.run {E : Elastic σ α β} {f : σ → List α → List β} (h : E.Yields f) (cycles : List Bool)
    (p : Place σ α β) : (cycles.foldl (Place.clock E) p).given ++
      f (cycles.foldl (Place.clock E) p).state (cycles.foldl (Place.clock E) p).pending = p.given ++ f p.state p.pending := by
  induction cycles generalizing p with
  | nil => rfl
  | cons works cycles ih =>
    rw [List.foldl_cons, ih]
    exact h.clock p works

/-- A component that gives something whenever it works comes to the end in as many cycles. -/
theorem Yields.length_clock {E : Elastic σ α β} {f : σ → List α → List β} (h : E.Yields f)
    (hgive : ∀ s a, (E.give s a).isSome) (p : Place σ α β) (works : Bool) :
    (f (p.clock E works).state (p.clock E works).pending).length = (f p.state p.pending).length - works.toNat := by
  unfold Place.clock
  cases works with
  | false => rfl
  | true =>
    rw [if_pos rfl, ← h.out_append p.state p.pending, List.length_append]
    dsimp only
    cases p.pending with
    | nil => simp [left, h.nil, out]
    | cons a as =>
      obtain ⟨b, hb⟩ := Option.isSome_iff_exists.mp (hgive p.state a)
      simp [out, hb]

theorem Yields.length_run {E : Elastic σ α β} {f : σ → List α → List β} (h : E.Yields f)
    (hgive : ∀ s a, (E.give s a).isSome) (cycles : List Bool) (p : Place σ α β) :
    (f (cycles.foldl (Place.clock E) p).state (cycles.foldl (Place.clock E) p).pending).length =
      (f p.state p.pending).length - cycles.count true := by
  induction cycles generalizing p with
  | nil => rfl
  | cons works cycles ih =>
    rw [List.foldl_cons, ih, h.length_clock hgive, List.count_cons, Nat.sub_sub, Nat.add_comm]
    cases works <;> rfl

/-! ## Two components -/

/-- Two components with a queue between them. -/
structure Chain (σ τ α β γ : Type) where
  first : σ
  second : τ
  pending : List α
  between : List β := []
  given : List γ := []

/-- A cycle. What the first component gives is in the queue in the next one. -/
def Chain.clock (E : Elastic σ α β) (F : Elastic τ β γ) (c : Chain σ τ α β γ) (works : Bool × Bool) :
    Chain σ τ α β γ where
  first := if works.1 then E.after c.first c.pending else c.first
  second := if works.2 then F.after c.second c.between else c.second
  pending := if works.1 then E.left c.first c.pending else c.pending
  between := (if works.2 then F.left c.second c.between else c.between) ++
    if works.1 then E.out c.first c.pending else []
  given := c.given ++ if works.2 then F.out c.second c.between else []

/-- What came out of a chain and what still comes. -/
def Chain.total (f : σ → List α → List β) (g : τ → List β → List γ) (c : Chain σ τ α β γ) : List γ :=
  c.given ++ g c.second (c.between ++ f c.first c.pending)

section

variable {E : Elastic σ α β} {F : Elastic τ β γ} {f : σ → List α → List β} {g : τ → List β → List γ}

theorem Chain.total_clock (hf : E.Yields f) (hg : F.Yields g) (c : Chain σ τ α β γ) (works : Bool × Bool) :
    (c.clock E F works).total f g = c.total f g := by
  obtain ⟨works₁, works₂⟩ := works
  -- what the second component has before it and what it will get are the same
  have hfirst (front : List β) : front ++ (if works₁ then E.out c.first c.pending else []) ++
      f (if works₁ then E.after c.first c.pending else c.first) (if works₁ then E.left c.first c.pending else c.pending) =
        front ++ f c.first c.pending := by
    split_ifs
    · rw [List.append_assoc, hf.out_append]
    · rw [List.append_nil]
  unfold Chain.total Chain.clock
  dsimp only
  rw [hfirst]
  by_cases hworks : works₂ = true
  · rw [if_pos hworks, if_pos hworks, if_pos hworks, List.append_assoc]
    cases hbetween : c.between with
    | nil => rfl
    | cons b bs => rw [hg.out_append_append _ (List.cons_ne_nil b bs)]
  · rw [if_neg hworks, if_neg hworks, if_neg hworks, List.append_nil]

/-- **The run rule** for two components. -/
theorem Chain.total_run (hf : E.Yields f) (hg : F.Yields g) (cycles : List (Bool × Bool)) (c : Chain σ τ α β γ) :
    (cycles.foldl (Chain.clock E F) c).total f g = c.total f g := by
  induction cycles generalizing c with
  | nil => rfl
  | cons works cycles ih => rw [List.foldl_cons, ih, Chain.total_clock hf hg]

end

end Elastic

end OpenCpi.Infra
