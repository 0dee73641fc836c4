import Mathlib.Data.List.Basic

/-!
# A tape that is read once

What a reader of a stream has before it: the elements that were not read yet, after at most one that it
put back. The tape remembers the last element it gave out, and whether it was asked for more than it has.
-/

namespace OpenCpi.Infra

variable {α : Type*}

structure Tape (α : Type*) where
  back : Option α
  rest : List α
  last : Option α
  ended : Bool

namespace Tape

/-- The tape before it is read. -/
def start (l : List α) : Tape α := ⟨none, l, none, false⟩

/-- What the reader gets from now on. -/
def ahead (t : Tape α) : List α := t.back.toList ++ t.rest

/-- `n` elements are asked for. -/
def advance (t : Tape α) (n : Nat) : Tape α where
  back := if n = 0 then t.back else none
  rest := t.rest.drop (n - t.back.toList.length)
  last := (t.ahead.take n).getLast?.or t.last
  ended := t.ended || t.ahead.length < n

/-- The next element is asked for and not taken. -/
def look (t : Tape α) : Tape α := { t with ended := t.ended || t.ahead = [] }

/-- An element is put back. -/
def putBack (t : Tape α) (c : α) : Tape α := { t with back := some c }

theorem ahead_of_back_none {t : Tape α} (h : t.back = none) : t.ahead = t.rest := by
  unfold ahead
  rw [h]
  rfl

theorem ahead_of_back_some {t : Tape α} {c : α} (h : t.back = some c) :
    t.ahead = c :: t.rest := by
  unfold ahead
  rw [h]
  rfl

/-- **What is asked for comes off the front.** -/
theorem ahead_advance (t : Tape α) (n : Nat) : (t.advance n).ahead = t.ahead.drop n := by
  obtain ⟨back, rest, last, ended⟩ := t
  cases n with
  | zero => rw [List.drop_zero, advance, ahead, if_pos rfl, Nat.zero_sub, List.drop_zero, ahead]
  | succ n =>
    cases back with
    | none => rfl
    | some c => rfl

theorem advance_zero (t : Tape α) : t.advance 0 = t := by
  obtain ⟨back, rest, last, ended⟩ := t
  unfold advance
  dsimp only
  rw [if_pos rfl, Nat.zero_sub, List.drop_zero, List.take_zero, List.getLast?_nil, Option.none_or,
    decide_eq_false (Nat.not_lt_zero _), Bool.or_false]

/-- More is asked for than there is. -/
theorem advance_ended {t : Tape α} {n : Nat} (h : t.ahead.length < n) :
    (t.advance n).ended = true := by
  unfold advance
  dsimp only
  rw [decide_eq_true h, Bool.or_true]

theorem advance_ended_of_ended {t : Tape α} (h : t.ended = true) (n : Nat) :
    (t.advance n).ended = true := by
  unfold advance
  dsimp only
  rw [h, Bool.true_or]

/-! The tape after a read, when no element is put back, and when one is. -/

section
variable {t : Tape α} {c : α}

theorem advance_back (h : t.back = none) (n : Nat) : (t.advance n).back = none := by
  unfold advance
  dsimp only
  rw [h, ite_self]

theorem advance_rest (h : t.back = none) (n : Nat) : (t.advance n).rest = t.rest.drop n := by
  unfold advance
  dsimp only
  rw [h]
  rfl

theorem advance_last (h : t.back = none) (n : Nat) :
    (t.advance n).last = (t.rest.take n).getLast?.or t.last := by
  unfold advance
  dsimp only
  rw [ahead_of_back_none h]

theorem advance_succ_rest (h : t.back = some c) (n : Nat) :
    (t.advance (n + 1)).rest = t.rest.drop n := by
  unfold advance
  dsimp only
  rw [h]
  rfl

theorem advance_succ_last (h : t.back = some c) (n : Nat) :
    (t.advance (n + 1)).last = (c :: t.rest.take n).getLast?.or t.last := by
  unfold advance
  dsimp only
  rw [ahead_of_back_some h, List.take_succ_cons]

end

end Tape

end OpenCpi.Infra
