import Mathlib.Algebra.GroupWithZero.Nat
import OpenCpi.Bounds.MessageBounds

/-!
# Message boundaries survive a core

The counts that are in the FIFO are those of the messages that were taken and not sent. The output side sends
the words of the first of them, while those of the others are in the core. This breaks in five kinds of cycle:
an empty message in one beat is taken while the FIFO is full; the last word of a message comes out while the
output port is not ready, or before its count is in the FIFO; a word comes out while the first count is zero;
and a count gets behind a zero, which is not sent while the FIFO is full.
-/

namespace OpenCpi.Bounds

open Infra

variable {w : Nat} {s s' : System w} {c : Cycle}

/-! ## Counted messages

What the ports have seen, apart from how the circuit keeps it. -/

/-- **The boundaries are kept**: the messages that were taken are those that were sent and the pending ones,
whose words are in the core or given already. -/
structure Kept (taken given : Passed) (inCore : Nat) (pending : List Nat) : Prop where
  order : taken.messages = given.messages ++ pending
  words : given.words + inCore = pending.sum + taken.words
  first : ∀ k ∈ pending.head?, given.words < max k 1

section Counted

variable {taken given : Passed} {inCore k : Nat} {pending : List Nat}

theorem Passed.beat_word (p : Passed) (valid : Bool) :
    p.beat valid false = ⟨p.words + valid.toNat, p.messages⟩ := rfl

theorem Passed.beat_end (p : Passed) (valid : Bool) :
    p.beat valid true = ⟨0, p.messages ++ [p.words + valid.toNat]⟩ := rfl

/-- A word comes out that is not the last of the first message. -/
theorem Kept.word_out (h : Kept taken given inCore pending) (hcore : 0 < inCore)
    (hfirst : ∀ k ∈ pending.head?, given.words + 1 < k) :
    Kept taken (given.beat true false) (inCore - 1) pending := by
  refine ⟨h.order, ?_, ?_⟩
  · have := h.words
    show given.words + 1 + (inCore - 1) = _
    omega
  · intro k hk
    have := hfirst k hk
    show given.words + 1 < max k 1
    omega

/-- The first message ends, with its last word or, when it has none, without. -/
theorem Kept.end_out (h : Kept taken given inCore (k :: pending)) (word : Bool) (hcore : word.toNat ≤ inCore)
    (hk : given.words + word.toNat = k) :
    Kept taken (given.beat word true) (inCore - word.toNat) pending := by
  refine ⟨?_, ?_, ?_⟩
  · show _ = given.messages ++ [given.words + word.toNat] ++ pending
    rw [h.order, hk, List.append_assoc, List.singleton_append]
  · have := h.words
    rw [List.sum_cons] at this
    show 0 + (inCore - word.toNat) = _
    omega
  · intro k' hk'
    show 0 < max k' 1
    omega

/-- A beat is taken that does not end its message. -/
theorem Kept.beat_in (h : Kept taken given inCore pending) (valid : Bool) :
    Kept (taken.beat valid false) given (inCore + valid.toNat) pending := by
  refine ⟨h.order, ?_, h.first⟩
  have := h.words
  show _ = pending.sum + (taken.words + valid.toNat)
  omega

/-- A message is counted; when no other is, one of its words is still to come, if it has any. -/
theorem Kept.end_in (h : Kept taken given inCore pending) (valid : Bool)
    (hlast : pending = [] → given.words < max (taken.words + valid.toNat) 1) :
    Kept (taken.beat valid true) given (inCore + valid.toNat) (pending ++ [taken.words + valid.toNat]) := by
  refine ⟨?_, ?_, ?_⟩
  · show taken.messages ++ _ = _
    rw [h.order, List.append_assoc]
  · have := h.words
    rw [List.sum_append, List.sum_singleton]
    show _ = _ + 0
    omega
  · cases pending with
    | nil =>
      intro k hk
      rw [← Option.some.inj hk]
      exact hlast rfl
    | cons k pending => exact h.first

end Counted

/-! ## The circuit keeps them -/

/-- **The counts are in the FIFO**, and the counters are those of the messages under way. -/
structure Inv (s : System w) (pending : List Nat) : Prop where
  kept : Kept s.taken s.given s.inCore pending
  inCount : s.bounds.inCount = BitVec.ofNat w s.taken.words
  outCount : s.bounds.outCount = BitVec.ofNat w (s.given.words + 1)
  fifo : s.bounds.fifo = pending.map (BitVec.ofNat w)
  room : pending.length ≤ 2
  zero : pending.length = 2 → pending.head? ≠ some 0
  pendingShort : ∀ k ∈ pending, k < 2 ^ w - 1
  takenShort : s.taken.words = 0 ∨ s.taken.words < 2 ^ w - 1
  held : s.held.valid = false → s.held.som = false
  heldShort : s.held ≠ .idle → s.taken.words + s.held.valid.toNat < 2 ^ w - 1

/-- **The cycles in which boundaries are kept.** -/
structure Unbroken (s : System w) (c : Cycle) : Prop where
  /-- no empty message in one beat while the FIFO is full -/
  room : s.bounds.fifo.length = 2 → c.beat ≠ ⟨true, false, true⟩
  /-- the last word of a message comes out when the output port is ready -/
  ready : c.coreOut = true → s.bounds.fifo.head? = some s.bounds.outCount → c.readyOut = true
  /-- an end without a word is taken before the last word of its message comes out -/
  late : s.bounds.fifo = [] → c.beat.valid = false → c.beat.eom = true → s.bounds.inCount ≠ 0#w →
    c.coreOut.toNat < s.inCore
  /-- no word comes out while the first message is an empty one -/
  first : c.coreOut = true → s.bounds.fifo.head? ≠ some 0#w
  /-- no count gets behind that of an empty message -/
  behind : s.bounds.fifo = [0#w] → c.readyOut = false → c.beat.eom = true → c.beat.valid = true

theorem ofNat_inj {a b : Nat} (ha : a < 2 ^ w) (hb : b < 2 ^ w) : BitVec.ofNat w a = BitVec.ofNat w b ↔ a = b := by
  constructor
  · intro h
    have hmod := congrArg BitVec.toNat h
    rwa [BitVec.toNat_ofNat, BitVec.toNat_ofNat, Nat.mod_eq_of_lt ha, Nat.mod_eq_of_lt hb] at hmod
  · exact congrArg _

section Outputs

variable {k : Nat} {pending : List Nat}

theorem Inv.first_lt (h : Inv s (k :: pending)) : s.given.words < max k 1 :=
  h.kept.first k rfl

theorem Inv.first_short (h : Inv s (k :: pending)) : k < 2 ^ w - 1 :=
  h.pendingShort k (List.mem_cons_self ..)

theorem Inv.fifoDeq_nil (h : Inv s []) (c : Cycle) : s.bounds.fifoDeq c = false := by
  unfold MessageBounds.fifoDeq MessageBounds.fifoEom
  rw [h.fifo]
  rfl

/-- The head of the FIFO is zero when the first message is empty. -/
theorem Inv.first_zero (h : Inv s (k :: pending)) : BitVec.ofNat w k = 0#w ↔ k = 0 :=
  ofNat_inj (by have := h.first_short; omega) (Nat.two_pow_pos w)

/-- The counter is at the head of the FIFO when the last word is next. -/
theorem Inv.at_last (h : Inv s (k :: pending)) : s.bounds.outCount = BitVec.ofNat w k ↔ s.given.words + 1 = k := by
  have hlt := h.first_lt
  have hshort := h.first_short
  rw [h.outCount, ofNat_inj (by omega) (by omega)]

theorem Inv.zeroCount (h : Inv s (k :: pending)) : s.bounds.zeroCount = decide (k = 0) := by
  unfold MessageBounds.zeroCount MessageBounds.fifoReady MessageBounds.fifoCount
  rw [h.fifo, List.map_cons, List.headD_cons]
  by_cases hk : k = 0
  · have hroom : (BitVec.ofNat w k :: pending.map (BitVec.ofNat w)).length < 2 := by
      have hle := h.room
      have hzero : (k :: pending).length ≠ 2 := fun hlen => h.zero hlen (congrArg some hk)
      rw [List.length_cons] at hle hzero ⊢
      rw [List.length_map]
      omega
    rw [decide_eq_true hroom, decide_eq_true hk, beq_iff_eq.mpr (h.first_zero.mpr hk)]
    rfl
  · rw [decide_eq_false hk, beq_eq_false_iff_ne.mpr (fun hz => hk (h.first_zero.mp hz)), Bool.and_false]

/-- **When a message is sent**: with its last word, or when it is empty. -/
theorem Inv.fifoDeq (h : Inv s (k :: pending)) (c : Cycle) : s.bounds.fifoDeq c =
    (c.readyOut && ((c.coreOut && decide (s.given.words + 1 = k)) || decide (k = 0))) := by
  unfold MessageBounds.fifoDeq MessageBounds.fifoEom
  rw [h.zeroCount]
  unfold MessageBounds.fifoCount
  rw [h.fifo, List.map_cons, List.headD_cons]
  have hlast : (s.bounds.outCount == BitVec.ofNat w k) = decide (s.given.words + 1 = k) := by
    rw [Bool.eq_iff_iff, beq_iff_eq, decide_eq_true_iff]
    exact h.at_last
  rw [hlast]
  rfl

/-- What the output port sees in a cycle. -/
theorem given_clock (s : System w) (c : Cycle) : (s.clock c).given =
    if s.bounds.fifoDeq c then s.given.beat c.coreOut true else s.given.beat c.coreOut false := by
  show (if s.bounds.giveOut c then s.given.beat c.coreOut (s.bounds.fifoDeq c) else s.given) = _
  unfold MessageBounds.giveOut
  cases s.bounds.fifoDeq c with
  | true => rw [Bool.or_true, if_pos rfl, if_pos rfl]
  | false =>
    rw [Bool.or_false]
    cases c.coreOut with
    | true => rfl
    | false => rfl

/-- The output side of a cycle. -/
theorem Inv.output {pending : List Nat} (h : Inv s pending) (ha : s.Allowed c) (hu : Unbroken s c) :
    Kept s.taken (s.clock c).given (s.inCore - c.coreOut.toNat)
      (if s.bounds.fifoDeq c then pending.tail else pending) := by
  have hstay (hcore : c.coreOut = false) (hdeq : s.bounds.fifoDeq c = false) :
      Kept s.taken (s.clock c).given (s.inCore - c.coreOut.toNat)
        (if s.bounds.fifoDeq c then pending.tail else pending) := by
    rw [given_clock, hdeq, hcore]
    exact h.kept
  cases pending with
  | nil =>
    cases hcore : c.coreOut with
    | false => exact hcore ▸ hstay hcore (h.fifoDeq_nil c)
    | true =>
      rw [given_clock, h.fifoDeq_nil c, hcore]
      exact h.kept.word_out (ha.coreOut hcore) nofun
  | cons k pending =>
    have hlt := h.first_lt
    have hwords := h.kept.words
    rw [List.sum_cons] at hwords
    cases hcore : c.coreOut with
    | false =>
      by_cases hsend : k = 0 ∧ c.readyOut = true
      · obtain ⟨rfl, hready⟩ := hsend
        have hdeq : s.bounds.fifoDeq c = true := by
          rw [h.fifoDeq, hready, hcore]
          rfl
        have hnone : s.given.words + false.toNat = 0 := by
          show s.given.words + 0 = 0
          omega
        rw [given_clock, hdeq, hcore]
        exact h.kept.end_out false (Nat.zero_le _) hnone
      · refine hcore ▸ hstay hcore ?_
        rw [h.fifoDeq, hcore, Bool.false_and, Bool.false_or, Bool.and_comm]
        rw [Bool.and_eq_false_iff, decide_eq_false_iff_not, ← Bool.not_eq_true]
        exact Decidable.not_and_iff_not_or_not.mp hsend
    | true =>
      have hne : k ≠ 0 := by
        intro hk
        refine hu.first hcore ?_
        rw [h.fifo, List.map_cons, List.head?_cons, h.first_zero.mpr hk]
      by_cases hlast : s.given.words + 1 = k
      · have hready : c.readyOut = true := by
          refine hu.ready hcore ?_
          rw [h.fifo, List.map_cons, List.head?_cons, h.at_last.mpr hlast]
        have hdeq : s.bounds.fifoDeq c = true := by
          rw [h.fifoDeq, hready, hcore, decide_eq_true hlast]
          rfl
        rw [given_clock, hdeq, hcore]
        exact h.kept.end_out true (ha.coreOut hcore) hlast
      · have hdeq : s.bounds.fifoDeq c = false := by
          rw [h.fifoDeq, decide_eq_false hlast, decide_eq_false hne, Bool.and_false, Bool.or_false, Bool.and_false]
        rw [given_clock, hdeq, hcore]
        refine h.kept.word_out (ha.coreOut hcore) ?_
        intro k' hk'
        rw [← Option.some.inj hk']
        omega

end Outputs

section Inputs

variable {pending : List Nat}

theorem fifoReady_eq (h : Inv s pending) : s.bounds.fifoReady = decide (pending.length < 2) := by
  unfold MessageBounds.fifoReady
  rw [h.fifo, List.length_map]

/-- A beat with a word is taken together with the core. -/
theorem coreEnable_of_take (htake : s.bounds.takeIn c = true) : s.bounds.coreEnable c = c.beat.valid := by
  unfold MessageBounds.takeIn at htake
  unfold MessageBounds.coreEnable at htake ⊢
  cases hvalid : c.beat.valid with
  | false => rw [Bool.and_false, Bool.false_and, Bool.false_and]
  | true =>
    rw [hvalid] at htake
    simpa using htake

theorem coreEnable_of_not_take (htake : s.bounds.takeIn c = false) : s.bounds.coreEnable c = false :=
  (Bool.or_eq_false_iff.mp htake).1

/-- A beat that is not taken and has no word is not the first of a message. -/
theorem som_of_not_take (htake : s.bounds.takeIn c = false) (hvalid : c.beat.valid = false) :
    c.beat.som = false := by
  have h := (Bool.or_eq_false_iff.mp htake).2
  rw [hvalid] at h
  exact (Bool.or_eq_false_iff.mp h).1

theorem not_idle_of_take (htake : s.bounds.takeIn c = true) : c.beat ≠ .idle := by
  intro hidle
  have hvalid : c.beat.valid = false := by rw [hidle]; rfl
  have hcore := coreEnable_of_take htake
  unfold MessageBounds.takeIn at htake
  rw [hcore, hidle] at htake
  simp [Beat.idle] at htake

/-- Only an empty message in one beat is taken without looking whether its count has room. -/
theorem end_of_full (heom : c.beat.eom = true) (htake : s.bounds.takeIn c = true)
    (hready : s.bounds.fifoReady = false) : c.beat = ⟨true, false, true⟩ := by
  have hcore : s.bounds.coreEnable c = false := by
    unfold MessageBounds.coreEnable
    rw [heom, hready]
    exact Bool.and_false _
  have hvalid : c.beat.valid = false := (coreEnable_of_take htake).symm.trans hcore
  have hsom : c.beat.som = true := by
    unfold MessageBounds.takeIn at htake
    rw [hcore, hvalid, hready] at htake
    simpa using htake
  have hbeat : c.beat = ⟨c.beat.som, c.beat.valid, c.beat.eom⟩ := rfl
  rw [hbeat, hsom, hvalid, heom]

/-- **A count has room**, and does not get behind a zero. -/
theorem Inv.enq_room (h : Inv s pending) (hu : Unbroken s c) (henq : s.bounds.fifoEnq c = true) :
    pending.length < 2 ∧ (pending.head? = some 0 → s.bounds.fifoDeq c = true) := by
  obtain ⟨heom, htake⟩ := Bool.and_eq_true_iff.mp henq
  have hroom : pending.length < 2 := by
    refine Decidable.byContradiction fun hfull => ?_
    have hready : s.bounds.fifoReady = false := by rw [fifoReady_eq h, decide_eq_false hfull]
    have hlen : s.bounds.fifo.length = 2 := by
      have := h.room
      rw [h.fifo, List.length_map]
      omega
    exact hu.room hlen (end_of_full heom htake hready)
  refine ⟨hroom, ?_⟩
  intro hhead
  cases pending with
  | nil => cases hhead
  | cons k pending =>
    obtain rfl := Option.some.inj hhead
    obtain rfl : pending = [] := by
      rw [List.length_cons] at hroom
      exact List.length_eq_zero_iff.mp (by omega)
    rw [h.fifoDeq, decide_eq_true rfl, Bool.or_true, Bool.and_true]
    cases hready : c.readyOut with
    | true => rfl
    | false =>
      have hvalid := hu.behind h.fifo hready heom
      have hcore := coreEnable_of_take htake
      unfold MessageBounds.coreEnable at hcore
      rw [hready, hvalid, Bool.false_and, Bool.false_and, Bool.false_and] at hcore
      cases hcore

/-- The words that the core holds, and the counts, after a cycle. -/
def System.pendingNext (s : System w) (c : Cycle) (pending : List Nat) : List Nat :=
  (if s.bounds.fifoDeq c then pending.tail else pending) ++
    if s.bounds.fifoEnq c then [s.taken.words + c.beat.valid.toNat] else []

/-- When no other message is counted, a word of the counted one is still to come. -/
theorem Inv.counted_first (h : Inv s pending) (ha : s.Allowed c) (hu : Unbroken s c)
    (heom : c.beat.eom = true) (hnone : (if s.bounds.fifoDeq c then pending.tail else pending) = []) :
    (s.clock c).given.words < max (s.taken.words + c.beat.valid.toNat) 1 := by
  have hmid := (h.output ha hu).words
  rw [hnone] at hmid
  cases hdeq : s.bounds.fifoDeq c with
  | true =>
    rw [given_clock, hdeq, if_pos rfl, Passed.beat_end]
    exact Nat.lt_of_lt_of_le Nat.zero_lt_one (Nat.le_max_right ..)
  | false =>
    rw [hdeq, if_neg Bool.false_ne_true] at hnone
    subst hnone
    change _ = 0 + s.taken.words at hmid
    cases hvalid : c.beat.valid with
    | true =>
      show _ < max (s.taken.words + 1) 1
      omega
    | false =>
      show _ < max (s.taken.words + 0) 1
      by_cases hzero : s.taken.words = 0
      · omega
      · have hcount : s.bounds.inCount ≠ 0#w := by
          intro hz
          rw [h.inCount] at hz
          have hshort := h.takenShort
          exact hzero ((ofNat_inj (by omega) (Nat.two_pow_pos w)).mp hz)
        have := hu.late h.fifo hvalid heom hcount
        omega

/-- **The counts after a cycle** are those of the messages that are not sent. -/
theorem Inv.kept_clock (h : Inv s pending) (ha : s.Allowed c) (hu : Unbroken s c) :
    Kept (s.clock c).taken (s.clock c).given (s.clock c).inCore (s.pendingNext c pending) := by
  have hout := h.output ha hu
  unfold System.pendingNext MessageBounds.fifoEnq
  cases htake : s.bounds.takeIn c with
  | false =>
    have htaken : (s.clock c).taken = s.taken := by
      show (if s.bounds.takeIn c then _ else _) = _
      rw [htake]
      rfl
    have hcore : (s.clock c).inCore = s.inCore - c.coreOut.toNat := by
      show _ + (s.bounds.coreEnable c).toNat = _
      rw [coreEnable_of_not_take htake]
      rfl
    rw [htaken, hcore, Bool.and_false, if_neg Bool.false_ne_true, List.append_nil]
    exact hout
  | true =>
    have htaken : (s.clock c).taken = s.taken.beat c.beat.valid c.beat.eom := by
      show (if s.bounds.takeIn c then _ else _) = _
      rw [htake]
      rfl
    have hcore : (s.clock c).inCore = s.inCore - c.coreOut.toNat + c.beat.valid.toNat := by
      show _ + (s.bounds.coreEnable c).toNat = _
      rw [coreEnable_of_take htake]
    rw [htaken, hcore, Bool.and_true]
    cases heom : c.beat.eom with
    | false =>
      rw [if_neg Bool.false_ne_true, List.append_nil]
      exact hout.beat_in _
    | true =>
      rw [if_pos rfl]
      exact hout.end_in _ (h.counted_first ha hu heom)

/-- What the input port has given in a cycle. -/
theorem taken_clock (s : System w) (c : Cycle) :
    (s.clock c).taken = if s.bounds.takeIn c then s.taken.beat c.beat.valid c.beat.eom else s.taken := rfl

theorem held_clock (s : System w) (c : Cycle) :
    (s.clock c).held = if s.bounds.takeIn c then .idle else c.beat := rfl

theorem ofNat_words (n : Nat) (word : Bool) :
    BitVec.ofNat w (n + word.toNat) = if word then BitVec.ofNat w n + 1#w else BitVec.ofNat w n := by
  cases word with
  | false => rfl
  | true => exact BitVec.ofNat_add n 1

theorem clock_bounds (hrst : c.rst = false) : (s.clock c).bounds =
    ⟨if s.bounds.takeIn c then
        if c.beat.eom then 0#w else if c.beat.valid then s.bounds.inCount + 1#w else s.bounds.inCount
      else s.bounds.inCount,
      if s.bounds.fifoDeq c then 1#w else if c.coreOut then s.bounds.outCount + 1#w else s.bounds.outCount,
      (if s.bounds.fifoDeq c then s.bounds.fifo.tail else s.bounds.fifo) ++
        if s.bounds.fifoEnq c && s.bounds.fifoReady then [s.bounds.fifoIn c] else []⟩ := by
  show s.bounds.clock c = _
  unfold MessageBounds.clock
  rw [hrst]
  rfl

theorem Inv.inCount_clock (h : Inv s pending) (hrst : c.rst = false) :
    (s.clock c).bounds.inCount = BitVec.ofNat w (s.clock c).taken.words := by
  rw [clock_bounds hrst, taken_clock]
  dsimp only
  rw [h.inCount]
  cases s.bounds.takeIn c with
  | false => rfl
  | true =>
    cases c.beat.eom with
    | true => rfl
    | false => exact (ofNat_words _ _).symm

theorem Inv.outCount_clock (h : Inv s pending) (hrst : c.rst = false) :
    (s.clock c).bounds.outCount = BitVec.ofNat w ((s.clock c).given.words + 1) := by
  rw [clock_bounds hrst, given_clock]
  dsimp only
  rw [h.outCount]
  cases s.bounds.fifoDeq c with
  | true => rfl
  | false =>
    rw [if_neg Bool.false_ne_true, if_neg Bool.false_ne_true, Passed.beat_word, Nat.add_right_comm]
    exact (ofNat_words _ _).symm

theorem Inv.fifo_clock (h : Inv s pending) (ha : s.Allowed c) (hu : Unbroken s c) :
    (s.clock c).bounds.fifo = (s.pendingNext c pending).map (BitVec.ofNat w) := by
  have hroom (henq : s.bounds.fifoEnq c = true) : s.bounds.fifoReady = true := by
    rw [fifoReady_eq h, decide_eq_true (h.enq_room hu henq).1]
  have hdeq : (if s.bounds.fifoDeq c then s.bounds.fifo.tail else s.bounds.fifo) =
      (if s.bounds.fifoDeq c then pending.tail else pending).map (BitVec.ofNat w) := by
    rw [h.fifo]
    split
    · exact List.map_tail.symm
    · rfl
  have henq : (if s.bounds.fifoEnq c && s.bounds.fifoReady then [s.bounds.fifoIn c] else []) =
      (if s.bounds.fifoEnq c then [s.taken.words + c.beat.valid.toNat] else []).map (BitVec.ofNat w) := by
    cases henq : s.bounds.fifoEnq c with
    | false => rfl
    | true =>
      have htake := (Bool.and_eq_true_iff.mp henq).2
      unfold MessageBounds.fifoIn
      rw [hroom henq, htake, Bool.and_true, Bool.and_true, if_pos rfl, if_pos rfl, List.map_singleton, ofNat_words,
        h.inCount]
  rw [clock_bounds ha.rst, System.pendingNext, List.map_append, ← hdeq, ← henq]

/-- A count that comes in finds at most one other, which is not zero if it stays. -/
theorem Inv.room_clock (h : Inv s pending) (hu : Unbroken s c) :
    (s.pendingNext c pending).length ≤ 2 ∧
      ((s.pendingNext c pending).length = 2 → (s.pendingNext c pending).head? ≠ some 0) := by
  have htail : (if s.bounds.fifoDeq c then pending.tail else pending).length ≤ pending.length := by
    split
    · rw [List.length_tail]
      exact Nat.sub_le _ _
    · exact Nat.le_refl _
  unfold System.pendingNext
  cases henq : s.bounds.fifoEnq c with
  | false =>
    rw [if_neg Bool.false_ne_true, List.append_nil]
    refine ⟨Nat.le_trans htail h.room, ?_⟩
    cases hdeq : s.bounds.fifoDeq c with
    | false => exact h.zero
    | true =>
      intro hlen
      rw [if_pos rfl, List.length_tail] at hlen
      have := h.room
      omega
  | true =>
    obtain ⟨hlt, hzero⟩ := h.enq_room hu henq
    rw [if_pos rfl, List.length_append, List.length_singleton]
    refine ⟨by omega, ?_⟩
    intro hlen hhead
    cases hdeq : s.bounds.fifoDeq c with
    | true =>
      rw [hdeq, if_pos rfl, List.length_tail] at hlen
      omega
    | false =>
      rw [hdeq, if_neg Bool.false_ne_true] at hlen hhead
      obtain ⟨k, rfl⟩ := List.length_eq_one_iff.mp (Nat.succ.inj hlen)
      exact absurd (hzero hhead) (hdeq ▸ Bool.false_ne_true)

theorem Inv.short_clock (h : Inv s pending) (ha : s.Allowed c) :
    (∀ k ∈ s.pendingNext c pending, k < 2 ^ w - 1) ∧
      ((s.clock c).taken.words = 0 ∨ (s.clock c).taken.words < 2 ^ w - 1) := by
  have hbeat (htake : s.bounds.takeIn c = true) := ha.short (not_idle_of_take htake)
  constructor
  · intro k hk
    rcases List.mem_append.mp hk with hk | hk
    · refine h.pendingShort k ?_
      split at hk
      · exact List.mem_of_mem_tail hk
      · exact hk
    · split at hk
      · next henq =>
        rw [List.mem_singleton.mp hk]
        exact hbeat (Bool.and_eq_true_iff.mp henq).2
      · cases hk
  · rw [taken_clock]
    cases htake : s.bounds.takeIn c with
    | false => exact h.takenShort
    | true =>
      cases c.beat.eom with
      | true => exact .inl rfl
      | false => exact .inr (hbeat htake)

/-- **The step lemma.** -/
theorem inv_clock (h : Inv s pending) (ha : s.Allowed c) (hu : Unbroken s c) :
    Inv (s.clock c) (s.pendingNext c pending) where
  kept := h.kept_clock ha hu
  inCount := h.inCount_clock ha.rst
  outCount := h.outCount_clock ha.rst
  fifo := h.fifo_clock ha hu
  room := (h.room_clock hu).1
  zero := (h.room_clock hu).2
  pendingShort := (h.short_clock ha).1
  takenShort := (h.short_clock ha).2
  held := by
    rw [held_clock]
    cases htake : s.bounds.takeIn c with
    | true => exact fun _ => rfl
    | false => exact som_of_not_take htake
  heldShort := by
    rw [held_clock, taken_clock]
    cases s.bounds.takeIn c with
    | true => exact fun hidle => absurd rfl hidle
    | false => exact ha.short

end Inputs

/-! ## Every run -/

theorem inv_start (w : Nat) : Inv (System.start w) [] where
  kept := ⟨rfl, rfl, nofun⟩
  inCount := rfl
  outCount := rfl
  fifo := rfl
  room := Nat.zero_le 2
  zero := nofun
  pendingShort := nofun
  takenShort := .inl rfl
  held := fun _ => rfl
  heldShort := fun hidle => absurd rfl hidle

theorem step_allowed (h : s.step c = some s') : s.Allowed c ∧ s' = s.clock c := by
  unfold System.step at h
  split at h
  · next ha => exact ⟨ha, (Option.some.inj h).symm⟩
  · cases h

theorem step_of_allowed (h : s.Allowed c) : s.step c = some (s.clock c) := if_pos h

theorem inv_of_reach (h : Reach System.step Unbroken (System.start w) s) : ∃ pending, Inv s pending := by
  refine h.invariant (P := fun s => ∃ pending, Inv s pending) ⟨[], inv_start w⟩ ?_
  rintro s c s' ⟨pending, hinv⟩ hu hstep
  obtain ⟨ha, rfl⟩ := step_allowed hstep
  exact ⟨_, inv_clock hinv ha hu⟩

section Runs

variable {k : Nat} {pending : List Nat}

/-- The words given of a message are fewer than the counter can count, when anything is given. -/
theorem Inv.given_short (h : Inv s pending) (ha : s.Allowed c) (hgive : s.bounds.giveOut c = true) :
    s.given.words + 1 < 2 ^ w := by
  cases pending with
  | nil =>
    have hcore : c.coreOut = true := by
      unfold MessageBounds.giveOut at hgive
      rwa [h.fifoDeq_nil, Bool.or_false] at hgive
    have hwords := h.kept.words
    have hin := ha.coreOut hcore
    have hshort := h.takenShort
    rw [List.sum_nil] at hwords
    omega
  | cons k pending =>
    have hlt := h.first_lt
    have hshort := h.first_short
    omega

/-- **A message begins where the last one ended.** -/
theorem Inv.som_out (h : Inv s pending) (ha : s.Allowed c) (hgive : s.bounds.giveOut c = true) :
    s.bounds.somOut c = true ↔ s.given.words = 0 := by
  have hshort := h.given_short ha hgive
  have hone : s.bounds.outCount = 1#w ↔ s.given.words = 0 := by
    rw [h.outCount, ofNat_inj hshort (by omega)]
    omega
  have hany : (c.coreOut || (s.bounds.fifoEom && s.bounds.zeroCount)) = true := by
    unfold MessageBounds.giveOut MessageBounds.fifoDeq at hgive
    cases hcore : c.coreOut with
    | true => rfl
    | false =>
      rw [hcore] at hgive
      rw [Bool.false_or, Bool.false_and, Bool.false_or] at hgive
      obtain ⟨hready, hzero⟩ := Bool.and_eq_true_iff.mp hgive
      rw [(Bool.and_eq_true_iff.mp hready).1, hzero]
      rfl
  unfold MessageBounds.somOut
  rw [hany, Bool.and_true, beq_iff_eq]
  exact hone

/-- The port goes on to show its beat, and the core puts out a word unless the first message is empty. -/
def System.drain (s : System w) : Cycle :=
  ⟨false, s.held, decide (s.bounds.fifo.head? ≠ some 0#w), false, true⟩

theorem Inv.drain_coreOut (h : Inv s (k :: pending)) : s.drain.coreOut = decide (k ≠ 0) := by
  have hiff : s.bounds.fifo.head? ≠ some 0#w ↔ k ≠ 0 := by
    rw [h.fifo, List.map_cons, List.head?_cons, Ne, Option.some_inj, h.first_zero]
  exact decide_eq_decide.mpr hiff

theorem Inv.drain_allowed (h : Inv s (k :: pending)) : s.Allowed s.drain where
  rst := rfl
  coreOut := by
    intro hcore
    rw [h.drain_coreOut] at hcore
    have hne := of_decide_eq_true hcore
    have hlt := h.first_lt
    have hwords := h.kept.words
    rw [List.sum_cons] at hwords
    omega
  held := fun _ => rfl
  short := h.heldShort

theorem Inv.drain_unbroken (h : Inv s (k :: pending)) : Unbroken s s.drain where
  room := by
    intro _ hbeat
    have hsom := h.held (congrArg Beat.valid hbeat)
    exact Bool.false_ne_true (hsom.symm.trans (congrArg Beat.som hbeat))
  ready := fun _ _ => rfl
  late := by
    intro hnil
    rw [h.fifo] at hnil
    cases hnil
  first := of_decide_eq_true
  behind := fun _ hready => nomatch hready

theorem Inv.drain_deq (h : Inv s (k :: pending)) :
    s.bounds.fifoDeq s.drain = decide (k = 0 ∨ s.given.words + 1 = k) := by
  have hready : s.drain.readyOut = true := rfl
  rw [h.fifoDeq, h.drain_coreOut, hready, Bool.true_and, Bool.eq_iff_iff]
  by_cases hk : k = 0
  · simp [hk]
  · simp [hk]

/-- One word more of the first message, or the end of it. -/
theorem Inv.drain_given (h : Inv s (k :: pending)) : (s.clock s.drain).given =
    if k = 0 ∨ s.given.words + 1 = k then ⟨0, s.given.messages ++ [k]⟩
    else ⟨s.given.words + 1, s.given.messages⟩ := by
  rw [given_clock, h.drain_deq, h.drain_coreOut]
  by_cases hlast : k = 0 ∨ s.given.words + 1 = k
  · have hsum : s.given.words + (decide (k ≠ 0)).toNat = k := by
      have hlt := h.first_lt
      rcases hlast with rfl | hlast
      · show s.given.words + 0 = 0
        omega
      · rw [decide_eq_true (by omega : k ≠ 0)]
        exact hlast
    rw [decide_eq_true hlast, if_pos rfl, if_pos hlast, Passed.beat_end, hsum]
  · have hne : k ≠ 0 := fun hk => hlast (.inl hk)
    rw [decide_eq_false hlast, if_neg Bool.false_ne_true, if_neg hlast, Passed.beat_word, decide_eq_true hne]
    rfl

/-- **The first message is sent**, in as many cycles as it has words left. -/
theorem Inv.sends (h : Inv s (k :: pending)) :
    ∃ s', Reach System.step Unbroken s s' ∧ s'.given.messages = s.given.messages ++ [k] := by
  induction hn : k - s.given.words generalizing s pending with
  | zero =>
    have hlt := h.first_lt
    have hgiven := h.drain_given
    rw [if_pos (by omega)] at hgiven
    exact ⟨_, Relation.ReflTransGen.single ⟨_, h.drain_unbroken, step_of_allowed h.drain_allowed⟩,
      congrArg Passed.messages hgiven⟩
  | succ n ih =>
    have hgiven := h.drain_given
    have hstep : StepOk System.step Unbroken s (s.clock s.drain) :=
      ⟨_, h.drain_unbroken, step_of_allowed h.drain_allowed⟩
    by_cases hlast : k = 0 ∨ s.given.words + 1 = k
    · rw [if_pos hlast] at hgiven
      exact ⟨_, Relation.ReflTransGen.single hstep, congrArg Passed.messages hgiven⟩
    · rw [if_neg hlast] at hgiven
      have hnext := inv_clock h h.drain_allowed h.drain_unbroken
      rw [System.pendingNext, h.drain_deq, decide_eq_false hlast, if_neg Bool.false_ne_true, List.cons_append] at hnext
      obtain ⟨s', hreach, hsent⟩ := ih hnext (by rw [hgiven]; dsimp only; omega)
      rw [hgiven] at hsent
      exact ⟨s', Relation.ReflTransGen.head hstep hreach, hsent⟩

end Runs

/-- **Boundaries survive the core**, in every run of unbroken cycles: what is sent is a prefix of what was
taken, each message begins with `som_out`, nothing is enqueued into a full FIFO, and a counted message can be
sent. -/
theorem boundaries_survive (h : Reach System.step Unbroken (System.start w) s) :
    s.given.messages <+: s.taken.messages ∧
      (∀ c, s.Allowed c → Unbroken s c → s.bounds.giveOut c = true →
        (s.bounds.somOut c = true ↔ s.given.words = 0)) ∧
      (∀ c, s.Allowed c → Unbroken s c → s.bounds.fifoEnq c = true → s.bounds.fifo.length < 2) ∧
      (s.bounds.fifo ≠ [] → ∃ s' k, Reach System.step Unbroken s s' ∧
        s'.given.messages = s.given.messages ++ [k] ∧ s.given.messages ++ [k] <+: s.taken.messages) := by
  obtain ⟨pending, hinv⟩ := inv_of_reach h
  refine ⟨⟨pending, hinv.kept.order.symm⟩, fun c ha _ => hinv.som_out ha, ?_, ?_⟩
  · intro c _ hu henq
    rw [hinv.fifo, List.length_map]
    exact (hinv.enq_room hu henq).1
  · intro hsome
    cases pending with
    | nil => exact absurd hinv.fifo hsome
    | cons k pending =>
      obtain ⟨s', hreach, hsent⟩ := hinv.sends
      exact ⟨s', k, hreach, hsent, pending, by rw [hinv.kept.order, List.append_assoc, List.singleton_append]⟩

instance (s : System w) (c : Cycle) : Decidable (Unbroken s c) :=
  decidable_of_iff ((s.bounds.fifo.length = 2 → c.beat ≠ ⟨true, false, true⟩) ∧
      (c.coreOut = true → s.bounds.fifo.head? = some s.bounds.outCount → c.readyOut = true) ∧
      (s.bounds.fifo = [] → c.beat.valid = false → c.beat.eom = true → s.bounds.inCount ≠ 0#w →
        c.coreOut.toNat < s.inCore) ∧
      (c.coreOut = true → s.bounds.fifo.head? ≠ some 0#w) ∧
      (s.bounds.fifo = [0#w] → c.readyOut = false → c.beat.eom = true → c.beat.valid = true))
    ⟨fun ⟨h₁, h₂, h₃, h₄, h₅⟩ => ⟨h₁, h₂, h₃, h₄, h₅⟩, fun ⟨h₁, h₂, h₃, h₄, h₅⟩ => ⟨h₁, h₂, h₃, h₄, h₅⟩⟩

/-- A cycle with both the core and the output port ready. -/
def readyCycle (som valid eom coreOut : Bool) : Cycle := ⟨false, ⟨som, valid, eom⟩, coreOut, true, true⟩

/-- Two words and an empty message, through a core that holds each word for two cycles. -/
theorem two_words_survive : ∃ s : System 2, s.taken.messages = [2, 0] ∧ s.given.messages <+: s.taken.messages ∧
    s.bounds.fifo.length = 2 ∧ ∃ s' k, Reach System.step Unbroken s s' ∧
      s'.given.messages = s.given.messages ++ [k] ∧ s.given.messages ++ [k] <+: s.taken.messages := by
  have hrun : Reach System.step Unbroken (System.start 2) _ := reach_of_exec_checked
    [readyCycle true true false false, readyCycle false true true false, readyCycle true false true true]
    (s := ⟨⟨0, 2, [2, 0]⟩, .idle, 1, ⟨0, [2, 0]⟩, ⟨1, []⟩⟩) (by decide)
  obtain ⟨hsent, -, -, hlive⟩ := boundaries_survive hrun
  exact ⟨_, rfl, hsent, rfl, hlive nofun⟩

/-- A word comes out when the end of its message is taken, and the counter passes the count of it. Three empty
messages come in while the output port is not ready. -/
theorem boundaries_lost :
    (¬∀ s : System 2, Reach System.step anyStep (System.start 2) s → s.given.messages <+: s.taken.messages) ∧
      ¬∀ (s : System 2) (c : Cycle), Reach System.step anyStep (System.start 2) s → s.Allowed c →
        s.bounds.fifoEnq c = true → s.bounds.fifo.length < 2 := by
  constructor
  · intro hall
    have hsent := hall _ (reach_of_exec
      [readyCycle true true false false, readyCycle false false true true, readyCycle true true false false,
        readyCycle false true true true, readyCycle true true false true, readyCycle false true false true,
        readyCycle false false false true]
      (s := ⟨⟨2, 1, [2]⟩, .idle, 0, ⟨2, [1, 2]⟩, ⟨0, [5]⟩⟩) (by decide))
    exact absurd hsent (by decide)
  · intro hall
    have hroom := hall _ ⟨false, ⟨true, false, true⟩, false, true, false⟩ (reach_of_exec
      [⟨false, ⟨true, false, true⟩, false, true, false⟩, ⟨false, ⟨true, false, true⟩, false, true, false⟩]
      (s := ⟨⟨0, 1, [0, 0]⟩, .idle, 0, ⟨0, [0, 0]⟩, ⟨0, []⟩⟩) (by decide)) (by decide) (by decide)
    exact absurd hroom (by decide)

end OpenCpi.Bounds
