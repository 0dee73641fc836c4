import Mathlib.Data.List.Pairwise
import Mathlib.Data.Nat.Basic
import Mathlib.Data.Set.BooleanAlgebra
import Mathlib.Order.CompletePartialOrder
import Mathlib.Order.Interval.Set.Basic

/-!
# Spans of addresses

A span is the address range `[start, start + size)`. Allocators keep lists of spans that must
not overlap; the lemmas here say how non-overlap survives cutting a span, joining two
neighbours and reordering the list.
-/

namespace OpenCpi.Infra

/-- The range of addresses `[start, start + size)`. -/
structure Span where
  start : Nat
  size : Nat
deriving DecidableEq, Repr

namespace Span

/-- The first address behind the span. -/
def stop (a : Span) : Nat := a.start + a.size

/-- The addresses of the span. -/
def toSet (a : Span) : Set Nat := Set.Ico a.start a.stop

/-- The two spans share no address. -/
def Apart (a b : Span) : Prop :=
  a.size = 0 ∨ b.size = 0 ∨ a.stop ≤ b.start ∨ b.stop ≤ a.start

/-- `a` lies inside `b`. -/
def Within (a b : Span) : Prop := b.start ≤ a.start ∧ a.stop ≤ b.stop

instance (a b : Span) : Decidable (a.Apart b) :=
  inferInstanceAs (Decidable (_ ∨ _ ∨ _ ∨ _))

instance (a b : Span) : Decidable (a.Within b) := inferInstanceAs (Decidable (_ ∧ _))

variable {a b c a' b' : Span}

/-- `Apart` is disjointness of the address sets. -/
theorem apart_iff_disjoint : a.Apart b ↔ Disjoint a.toSet b.toSet := by
  simp only [toSet, Set.disjoint_left, Set.mem_Ico, Apart, stop]
  constructor
  · intro h k hk
    omega
  · intro h
    have ha := @h a.start
    have hb := @h b.start
    omega

theorem Apart.symm (h : a.Apart b) : b.Apart a := by
  simp only [Apart, stop] at *
  omega

/-- Parts of spans that are apart are apart. -/
theorem Apart.mono (h : a.Apart b) (ha : a'.Within a) (hb : b'.Within b) : a'.Apart b' := by
  simp only [Apart, Within, stop] at *
  omega

theorem Within.refl (a : Span) : a.Within a := ⟨le_rfl, le_rfl⟩

theorem Within.trans (h₁ : a.Within b) (h₂ : b.Within c) : a.Within c :=
  ⟨h₂.1.trans h₁.1, h₁.2.trans h₂.2⟩

/-- What is apart from two neighbours is apart from the span they form together. -/
theorem Apart.join (ha : a.Apart c) (hb : b.Apart c) (hab : a.stop = b.start) :
    Apart ⟨a.start, a.size + b.size⟩ c := by
  simp only [Apart, stop] at *
  omega

end Span

/-- No two elements of the list have overlapping spans. -/
def ApartList {β : Type*} (span : β → Span) (l : List β) : Prop :=
  l.Pairwise fun x y => (span x).Apart (span y)

namespace ApartList

variable {β : Type*} {span : β → Span} {l l' : List β} {x y z : β}

instance [DecidableEq β] : Decidable (ApartList span l) :=
  inferInstanceAs (Decidable (l.Pairwise _))

theorem perm (h : ApartList span l) (hp : l.Perm l') : ApartList span l' :=
  hp.pairwise h fun hxy => hxy.symm

theorem cons : ApartList span (x :: l) ↔
    (∀ y ∈ l, (span x).Apart (span y)) ∧ ApartList span l := List.pairwise_cons

theorem map_iff {γ : Type*} {f : γ → β} {l : List γ} :
    ApartList span (l.map f) ↔ ApartList (fun x => span (f x)) l := List.pairwise_map

theorem of_mem (h : ApartList span l) (hx : x ∈ l) (hy : y ∈ l) (hne : x ≠ y) :
    (span x).Apart (span y) := by
  have : Std.Symm fun x y => (span x).Apart (span y) := ⟨fun _ _ hxy => hxy.symm⟩
  exact List.Pairwise.forall h hx hy hne

/-- An element may be replaced by one whose span lies inside the old one. -/
theorem shrink (h : ApartList span (x :: l)) (hy : (span y).Within (span x)) :
    ApartList span (y :: l) := by
  rw [cons] at h ⊢
  exact ⟨fun z hz => (h.1 z hz).mono hy (Span.Within.refl _), h.2⟩

/-- **Cutting.** An element may be replaced by two that lie apart inside it. -/
theorem split (h : ApartList span (x :: l)) (hy : (span y).Within (span x))
    (hz : (span z).Within (span x)) (hyz : (span y).Apart (span z)) :
    ApartList span (y :: z :: l) := by
  have hzl := shrink h hz
  have hyl := shrink h hy
  rw [cons] at hyl ⊢
  refine ⟨?_, hzl⟩
  intro w hw
  rcases List.mem_cons.mp hw with rfl | hw
  · exact hyz
  · exact hyl.1 w hw

/-- **Joining.** Two neighbours may be replaced by the element that covers both. -/
theorem join (h : ApartList span (x :: y :: l)) (hxy : (span x).stop = (span y).start)
    (hz : span z = ⟨(span x).start, (span x).size + (span y).size⟩) :
    ApartList span (z :: l) := by
  rw [cons, cons] at h
  rw [cons]
  refine ⟨?_, h.2.2⟩
  intro w hw
  rw [hz]
  exact (h.1 w (List.mem_cons_of_mem _ hw)).join (h.2.1 w hw) hxy

theorem sublist (h : ApartList span l) (hs : l'.Sublist l) : ApartList span l' :=
  List.Pairwise.sublist hs h

/-- Spans at multiples of a pitch that they do not exceed. -/
theorem stride {pitch size : Nat} (start : Nat) (h : size ≤ pitch) (n : Nat) :
    ApartList id ((List.range n).map fun i => (⟨start + i * pitch, size⟩ : Span)) := by
  rw [map_iff]
  refine List.Pairwise.imp ?_ List.pairwise_lt_range
  intro i j hij
  have hnext : (i + 1) * pitch ≤ j * pitch := Nat.mul_le_mul_right pitch hij
  rw [Nat.succ_mul] at hnext
  refine Or.inr (Or.inr (Or.inl ?_))
  simp only [id, Span.stop]
  omega

end ApartList

/-! ## Covering -/

/-- Every address of the span lies in a span of the list. -/
def Covered (held : List Span) (a : Span) : Prop := ∀ x ∈ a.toSet, ∃ h ∈ held, x ∈ h.toSet

namespace Covered

variable {held : List Span} {a b c : Span}

theorem of_mem (h : a ∈ held) : Covered held a := fun _ hx => ⟨a, h, hx⟩

theorem cons (h : Covered held a) : Covered (c :: held) a := by
  intro x hx
  obtain ⟨d, hd, hxd⟩ := h x hx
  exact ⟨d, List.mem_cons_of_mem _ hd, hxd⟩

/-- What is apart from the covering spans is apart from what they cover. -/
theorem apart (h : Covered held a) (hc : ∀ d ∈ held, b.Apart d) : b.Apart a := by
  rw [Span.apart_iff_disjoint, Set.disjoint_left]
  intro x hxb hxa
  obtain ⟨d, hd, hxd⟩ := h x hxa
  exact Set.disjoint_left.mp (Span.apart_iff_disjoint.mp (hc d hd)) hxb hxd

/-- A span apart from `a` can be taken out of the covering. -/
theorem erase (h : Covered held a) (hc : c.Apart a) : Covered (held.erase c) a := by
  intro x hx
  obtain ⟨d, hd, hxd⟩ := h x hx
  have hne : d ≠ c := by
    rintro rfl
    exact Set.disjoint_left.mp (Span.apart_iff_disjoint.mp hc) hxd hx
  exact ⟨d, (List.mem_erase_of_ne hne).mpr hd, hxd⟩

theorem join (ha : Covered held a) (hb : Covered held b) (hab : a.stop = b.start) :
    Covered held ⟨a.start, a.size + b.size⟩ := by
  intro x hx
  by_cases hxa : x < a.stop
  · exact ha x ⟨hx.1, hxa⟩
  · refine hb x ⟨by omega, ?_⟩
    have := hx.2
    simp only [Span.stop] at *
    omega

end Covered

end OpenCpi.Infra
