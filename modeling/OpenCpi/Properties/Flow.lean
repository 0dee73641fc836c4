import OpenCpi.Transport.Flow

/-!
# Buffers arrive in order, as long as an end of stream stays in the ring

Sender and receivers go round the buffers each on their own. For a buffer marked `endOfStream` the
sender looks for the *first* free index instead of the next one, and the receivers, which only
look at the next one, then wait for a buffer that was sent elsewhere. In a run in which that search
finds the next index whenever it finds one, every port receives what was sent, in order.

Each buffer of an input port goes through a cycle of phases. The state of the run is the picture of
an assignment of phases, in which the buffers that were sent and not yet received form a window of
the ring; every step moves one buffer (or, for `produce`, one of each port) to its next phase.
-/

namespace OpenCpi.Transport

open Infra

variable {α : Type*} {c : Circuit} {s s' : State α}

/-! ## Phases -/

/-- Where a buffer of an input port is in its cycle. -/
inductive Phase (α : Type*) where
  | idle
  | flying (b : Buf α)
  | ready (b : Buf α)
  | held (b : Buf α)
  | returning

/-- What the state holds about one buffer: its shadow, itself and the messages about it. -/
structure Slot (α : Type*) where
  shadowFull : Bool
  buffer : InputBuffer α
  fulls : List (Buf α)
  empties : Nat

/-- The full flags on their way to one buffer. -/
def fullsAt (l : List (FullFlag α)) (n i : Nat) : List (Buf α) :=
  l.filterMap fun m => if m.port = n ∧ m.tid = i then some m.buf else none

def slotOf (s : State α) (n i : Nat) : Slot α :=
  ⟨s.shadowFull n i, s.buffer n i, fullsAt s.fullFlags n i, s.emptyFlags.count (n, i)⟩

def Phase.slot : Phase α → Slot α
  | .idle => ⟨false, ⟨none, false⟩, [], 0⟩
  | .flying b => ⟨true, ⟨none, false⟩, [b], 0⟩
  | .ready b => ⟨true, ⟨some b, false⟩, [], 0⟩
  | .held b => ⟨true, ⟨some b, true⟩, [], 0⟩
  | .returning => ⟨true, ⟨none, false⟩, [], 1⟩

theorem eq_idle {p : Phase α} (h : p.slot.shadowFull = false) : p = .idle := by
  cases p <;> simp_all [Phase.slot]

theorem eq_flying {p : Phase α} {b : Buf α} (h : b ∈ p.slot.fulls) : p = .flying b := by
  cases p <;> simp_all [Phase.slot]

theorem eq_ready {p : Phase α} {b : Buf α} (h : p.slot.buffer = ⟨some b, false⟩) :
    p = .ready b := by
  cases p <;> simp_all [Phase.slot]

theorem eq_held {p : Phase α} (h : p.slot.buffer.inUse) : ∃ b, p = .held b := by
  cases p <;> simp_all [Phase.slot]

theorem eq_returning {p : Phase α} (h : p.slot.empties ≠ 0) : p = .returning := by
  cases p <;> simp_all [Phase.slot]

/-- What the phase of the buffer `i` says about the stream: `produced` are the buffers sent so
far, `received` those the port has handed to its worker. A buffer on its way or waiting is one of
those in between, at its place in the ring; another place of the ring holds none of them. -/
def PhaseOk (N : Nat) (produced received : List (Buf α)) (i : Nat) : Phase α → Prop
  | .flying b | .ready b => ∃ j, received.length ≤ j ∧ produced[j]? = some b ∧ j % N = i
  | _ => ∀ j, received.length ≤ j → j < produced.length → j % N ≠ i

/-- **The invariant.** -/
structure Inv (c : Circuit) (s : State α) (phase : Nat → Nat → Phase α)
    (produced : List (Buf α)) : Prop where
  slots : ∀ n < c.inputs, ∀ i < c.buffers, slotOf s n i = (phase n i).slot
  phases : ∀ n < c.inputs, ∀ i < c.buffers,
    PhaseOk c.buffers produced (s.received n) i (phase n i)
  fullAt : ∀ m ∈ s.fullFlags, m.port < c.inputs ∧ m.tid < c.buffers
  emptyAt : ∀ m ∈ s.emptyFlags, m.1 < c.inputs ∧ m.2 < c.buffers
  sent : s.sent = produced ++ s.queue
  next : s.nextTid = produced.length % c.buffers
  prefixes : ∀ n < c.inputs, s.received n <+: produced
  last : ∀ n < c.inputs, nextOrd c s n = (s.received n).length % c.buffers
  window : ∀ n < c.inputs, produced.length ≤ (s.received n).length + c.buffers

variable {phase : Nat → Nat → Phase α} {produced : List (Buf α)}

theorem inv_init (c : Circuit) : Inv c (init α) (fun _ _ => .idle) [] where
  slots := fun _ _ _ _ => rfl
  phases := fun _ _ _ _ j _ hj => by simp at hj
  fullAt := by simp [init]
  emptyAt := by simp [init]
  sent := rfl
  next := by simp [init]
  prefixes := fun _ _ => List.prefix_rfl
  last := fun _ _ => by simp [init, nextOrd]
  window := fun _ _ => by simp

/-! ## The ring -/

/-- Two positions less than `N` apart are different places of the ring. -/
theorem mod_ne_of_lt {N j k : Nat} (hjk : j < k) (hN : k < j + N) : j % N ≠ k % N := by
  intro h
  have hz := Nat.sub_mod_eq_zero_of_mod_eq h.symm
  rw [Nat.mod_eq_of_lt (by omega)] at hz
  omega

/-- The phase of a place of the window. -/
theorem Inv.pending (h : Inv c s phase produced) {n j : Nat} (hn : n < c.inputs)
    (hj : (s.received n).length ≤ j) {b : Buf α} (hb : produced[j]? = some b) :
    phase n (j % c.buffers) = .flying b ∨ phase n (j % c.buffers) = .ready b := by
  have hlt : j < produced.length := (List.getElem?_eq_some_iff.mp hb).1
  have hwin := h.window n hn
  have hp := h.phases n hn (j % c.buffers) (Nat.mod_lt _ c.pos)
  -- the window is no longer than the ring, so only `j` is at this place
  have huniq : ∀ {k : Nat} {d : Buf α}, (s.received n).length ≤ k → produced[k]? = some d →
      k % c.buffers = j % c.buffers → d = b := by
    intro k d hk hd hmod
    have hklt : k < produced.length := (List.getElem?_eq_some_iff.mp hd).1
    rcases Nat.lt_trichotomy k j with hkj | rfl | hkj
    · exact absurd hmod (mod_ne_of_lt hkj (by omega))
    · rw [hb] at hd
      exact (Option.some.inj hd).symm
    · exact absurd hmod.symm (mod_ne_of_lt hkj (by omega))
  cases hph : phase n (j % c.buffers) with
  | idle | held _ | returning =>
    rw [hph] at hp
    exact absurd rfl (hp j hj hlt)
  | flying d =>
    rw [hph] at hp
    obtain ⟨k, hk, hd, hmod⟩ := hp
    rw [huniq hk hd hmod]
    exact Or.inl rfl
  | ready d =>
    rw [hph] at hp
    obtain ⟨k, hk, hd, hmod⟩ := hp
    rw [huniq hk hd hmod]
    exact Or.inr rfl

/-! ## Changing one slot -/

@[simp] theorem setAt_self {β : Type*} (f : Nat → Nat → β) (n i : Nat) (x : β) :
    setAt f n i x n i = x := by simp [setAt]

theorem setAt_of_ne {β : Type*} (f : Nat → Nat → β) {n i n' i' : Nat} (x : β)
    (h : ¬(n' = n ∧ i' = i)) : setAt f n i x n' i' = f n' i' := if_neg h

theorem slots_setAt {x : Phase α} {n i : Nat}
    (h : ∀ n < c.inputs, ∀ i < c.buffers, slotOf s n i = (phase n i).slot)
    (hself : slotOf s' n i = x.slot)
    (hother : ∀ n' i', ¬(n' = n ∧ i' = i) → slotOf s' n' i' = slotOf s n' i') :
    ∀ n' < c.inputs, ∀ i' < c.buffers, slotOf s' n' i' = (setAt phase n i x n' i').slot := by
  intro n' hn' i' hi'
  by_cases heq : n' = n ∧ i' = i
  · obtain ⟨rfl, rfl⟩ := heq
    rw [setAt_self, hself]
  · rw [setAt_of_ne _ _ heq, hother n' i' heq]
    exact h n' hn' i' hi'

theorem split_at {β : Type*} {l : List β} {k : Nat} {m : β} (h : l[k]? = some m) :
    ∃ pre post, l = pre ++ m :: post ∧ l.eraseIdx k = pre ++ post := by
  obtain ⟨hk, hm⟩ := List.getElem?_eq_some_iff.mp h
  refine ⟨l.take k, l.drop (k + 1), ?_, List.eraseIdx_eq_take_drop_succ l k⟩
  rw [← hm, ← List.drop_eq_getElem_cons hk, List.take_append_drop]

theorem fullsAt_append (l l' : List (FullFlag α)) (n i : Nat) :
    fullsAt (l ++ l') n i = fullsAt l n i ++ fullsAt l' n i := List.filterMap_append

theorem fullsAt_cons_self (m : FullFlag α) (l : List (FullFlag α)) :
    fullsAt (m :: l) m.port m.tid = m.buf :: fullsAt l m.port m.tid := by
  simp [fullsAt]

theorem fullsAt_cons_of_ne {m : FullFlag α} (l : List (FullFlag α)) {n i : Nat}
    (h : ¬(m.port = n ∧ m.tid = i)) : fullsAt (m :: l) n i = fullsAt l n i := by
  simp [fullsAt, h]

/-! ## The steps -/

theorem inputsEmpty_iff {tid : Nat} :
    inputsEmpty c s tid ↔ 0 < c.inputs ∧ ∀ n < c.inputs, s.shadowFull n tid = false := by
  simp [inputsEmpty]

theorem fullsAt_range (tid : Nat) (b : Buf α) (n i : Nat) : ∀ K : Nat,
    fullsAt ((List.range K).map fun n => ⟨n, tid, b⟩) n i =
      if n < K ∧ i = tid then [b] else []
  | 0 => by simp [fullsAt]
  | K + 1 => by
    rw [List.range_succ, List.map_append, fullsAt_append, fullsAt_range tid b n i K]
    by_cases hi : i = tid
    · subst hi
      rcases Nat.lt_trichotomy n K with hn | rfl | hn
      · simp [fullsAt, hn, Nat.lt_succ_of_lt hn, Nat.ne_of_gt hn]
      · simp [fullsAt]
      · have h₁ : ¬n < K := by omega
        have h₂ : ¬n < K + 1 := by omega
        simp [fullsAt, h₁, h₂, Nat.ne_of_lt hn]
    · simp [fullsAt, hi, Ne.symm hi]

/-- A transfer to the next index of the ring. -/
theorem inv_produce {b : Buf α} {sent' queue' : List (Buf α)} (h : Inv c s phase produced)
    (hempty : inputsEmpty c s s.nextTid) (hsent : sent' = produced ++ b :: queue') :
    ∃ phase', Inv c (produce c { s with sent := sent', queue := queue' } s.nextTid b) phase'
      (produced ++ [b]) := by
  obtain ⟨-, hempty⟩ := inputsEmpty_iff.mp hempty
  have hnext := h.next
  -- the place is idle at every port, so no window covers the whole ring
  have hidle : ∀ n < c.inputs, phase n s.nextTid = .idle := by
    intro n hn
    have hlt : s.nextTid < c.buffers := by
      rw [hnext]
      exact Nat.mod_lt _ c.pos
    apply eq_idle
    rw [← h.slots n hn _ hlt]
    exact hempty n hn
  have hroom : ∀ n < c.inputs, produced.length < (s.received n).length + c.buffers := by
    intro n hn
    have hwin := h.window n hn
    rcases Nat.lt_or_ge produced.length ((s.received n).length + c.buffers) with hlt | hge
    · exact hlt
    · have hpos := c.pos
      have hlt : (s.received n).length < produced.length := by omega
      have hmod : (s.received n).length % c.buffers = s.nextTid := by
        rw [hnext, show produced.length = (s.received n).length + c.buffers by omega,
          Nat.add_mod_right]
      have hp := h.pending hn (Nat.le_refl _) (List.getElem?_eq_getElem hlt)
      rw [hmod, hidle n hn] at hp
      simp at hp
  refine ⟨fun n i => if i = s.nextTid then .flying b else phase n i, ?_⟩
  refine ⟨?_, ?_, ?_, h.emptyAt, ?_, ?_, ?_, h.last, ?_⟩
  · intro n hn i hi
    have hslot := h.slots n hn i hi
    by_cases heq : i = s.nextTid
    · subst heq
      rw [hidle n hn] at hslot
      simp only [slotOf, Phase.slot, Slot.mk.injEq] at hslot
      obtain ⟨-, hb, hf, he⟩ := hslot
      simp [slotOf, produce, Phase.slot, hn, fullsAt_append, fullsAt_range, hb, hf, he]
    · rw [if_neg heq, ← hslot]
      simp [slotOf, produce, heq, fullsAt_append, fullsAt_range]
  · intro n hn i hi
    have hr := hroom n hn
    have hle : (s.received n).length ≤ produced.length := (h.prefixes n hn).length_le
    have hp := h.phases n hn i hi
    by_cases heq : i = s.nextTid
    · rw [if_pos heq]
      exact ⟨produced.length, hle, by simp, by rw [heq, hnext]⟩
    · rw [if_neg heq]
      have hold : ∀ j, (s.received n).length ≤ j → j < (produced ++ [b]).length → j % c.buffers = i →
          j < produced.length := by
        intro j _ hj hmod
        rw [List.length_append, List.length_singleton] at hj
        rcases Nat.lt_or_ge j produced.length with hlt | hge
        · exact hlt
        · have hjeq : j = produced.length := by omega
          exact absurd (by rw [← hmod, hjeq, hnext]) heq
      cases hph : phase n i with
      | idle | held _ | returning =>
        rw [hph] at hp
        intro j hj hlt hmod
        exact hp j hj (hold j hj hlt hmod) hmod
      | flying d | ready d =>
        rw [hph] at hp
        obtain ⟨j, hj, hd, hmod⟩ := hp
        refine ⟨j, hj, ?_, hmod⟩
        rw [List.getElem?_append_left (List.getElem?_eq_some_iff.mp hd).1]
        exact hd
  · intro m hm
    rcases List.mem_append.mp hm with hm | hm
    · exact h.fullAt m hm
    · obtain ⟨n, hn, rfl⟩ := List.mem_map.mp hm
      refine ⟨List.mem_range.mp hn, ?_⟩
      show s.nextTid < c.buffers
      rw [hnext]
      exact Nat.mod_lt _ c.pos
  · simpa [produce] using hsent
  · simp [produce, hnext]
  · exact fun n hn => (h.prefixes n hn).trans (List.prefix_append _ _)
  · intro n hn
    have := hroom n hn
    show (produced ++ [b]).length ≤ (s.received n).length + c.buffers
    rw [List.length_append, List.length_singleton]
    omega

theorem inv_queue {b : Buf α} (h : Inv c s phase produced) :
    Inv c { s with sent := s.sent ++ [b], queue := s.queue ++ [b] } phase produced where
  slots := h.slots
  phases := h.phases
  fullAt := h.fullAt
  emptyAt := h.emptyAt
  sent := by simp [h.sent]
  next := h.next
  prefixes := h.prefixes
  last := h.last
  window := h.window

/-- The condition for an `endOfStream` buffer that the sender tries to send: if there is an index
free at all ports, the first one is the next of the ring. -/
def InRing (c : Circuit) (s : State α) (b : Buf α) : Prop :=
  b.endOfStream → ∀ tid ∈ canBroadcast c s, tid = s.nextTid

theorem canProduce_eq_some {b : Buf α} {tid : Nat} (hring : InRing c s b)
    (h : canProduce c s b = some tid) : tid = s.nextTid ∧ inputsEmpty c s s.nextTid := by
  unfold canProduce at h
  split at h
  · next heos =>
    have htid := hring heos tid h
    exact ⟨htid, htid ▸ List.find?_some h⟩
  · split at h
    · next hempty => exact ⟨(Option.some.inj h).symm, hempty⟩
    · cases h

theorem inv_sendOutputBuffer {b : Buf α} (h : Inv c s phase produced)
    (hring : s.queue = [] → InRing c s b) :
    ∃ phase' produced', Inv c (sendOutputBuffer c s b) phase' produced' := by
  unfold sendOutputBuffer
  dsimp only
  split
  · next tid htid =>
    split at htid
    · next hnil =>
      have hnil := List.isEmpty_iff.mp hnil
      obtain ⟨rfl, hempty⟩ := canProduce_eq_some (hring hnil) htid
      have hsent : s.sent ++ [b] = produced ++ b :: s.queue := by
        rw [h.sent, hnil, List.append_nil]
      obtain ⟨phase', hinv⟩ := inv_produce h hempty hsent
      exact ⟨phase', _, hinv⟩
    · cases htid
  · exact ⟨phase, produced, inv_queue h⟩

theorem inv_checkQueuedTransfers (h : Inv c s phase produced)
    (hring : ∀ b ∈ s.queue.head?, InRing c s b) :
    ∃ phase' produced', Inv c (checkQueuedTransfers c s) phase' produced' := by
  unfold checkQueuedTransfers
  split
  · exact ⟨phase, produced, h⟩
  · next b rest hq =>
    split
    · next tid htid =>
      obtain ⟨rfl, hempty⟩ := canProduce_eq_some (hring b (by rw [hq]; rfl)) htid
      have hsent : s.sent = produced ++ b :: rest := by rw [h.sent, hq]
      obtain ⟨phase', hinv⟩ := inv_produce h hempty hsent
      exact ⟨phase', _, hinv⟩
    · exact ⟨phase, produced, h⟩

/-- What `getNextFullInputBuffer` hands out is the next buffer of the stream. -/
theorem inv_getNextFullInputBuffer {n : Nat} (h : Inv c s phase produced) (hn : n < c.inputs) :
    ∃ phase', Inv c (getNextFullInputBuffer c s n).2 phase' produced := by
  unfold getNextFullInputBuffer
  dsimp only
  split
  · next b hb =>
    split
    · exact ⟨phase, h⟩
    · next huse =>
      have hlast := h.last n hn
      have htlo : nextOrd c s n < c.buffers := Nat.mod_lt _ c.pos
      have hbuf : s.buffer n (nextOrd c s n) = ⟨some b, false⟩ := by
        cases hx : s.buffer n (nextOrd c s n)
        simp_all
      have hslot := h.slots n hn _ htlo
      have hready : phase n (nextOrd c s n) = .ready b := by
        apply eq_ready
        rw [← hslot]
        exact hbuf
      -- the window is not empty, and its first place holds `b`
      have hb : produced[(s.received n).length]? = some b := by
        have hp := h.phases n hn _ htlo
        rw [hready] at hp
        obtain ⟨j, hj, hd, hmod⟩ := hp
        have hjlt := (List.getElem?_eq_some_iff.mp hd).1
        have hwin := h.window n hn
        rcases Nat.lt_or_ge (s.received n).length j with hlt | hge
        · exact absurd (hlast.symm.trans hmod.symm) (mod_ne_of_lt hlt (by omega))
        · rwa [show (s.received n).length = j by omega]
      have hlen : (s.received n).length < produced.length := (List.getElem?_eq_some_iff.mp hb).1
      refine ⟨setAt phase n (nextOrd c s n) (.held b), ?_, ?_, h.fullAt, h.emptyAt, h.sent,
        h.next, ?_, ?_, ?_⟩
      · rw [hready] at hslot
        simp only [slotOf, Phase.slot, Slot.mk.injEq] at hslot
        refine slots_setAt h.slots ?_ ?_
        · simp [slotOf, Phase.slot, hslot]
        · intro n' i' hne
          simp only [slotOf]
          rw [setAt_of_ne _ _ hne]
      · intro n' hn' i' hi'
        by_cases heq : n' = n
        · subst heq
          simp only [Function.update_self]
          have hwin := h.window n' hn
          by_cases hi : i' = nextOrd c s n'
          · subst hi
            rw [setAt_self]
            intro j hj hjlt hmod
            rw [List.length_append, List.length_singleton] at hj
            exact absurd (hlast.symm.trans hmod.symm) (mod_ne_of_lt (by omega) (by omega))
          · rw [setAt_of_ne _ _ (fun hh => hi hh.2)]
            have hp := h.phases n' hn i' hi'
            cases hph : phase n' i' with
            | idle | held _ | returning =>
              rw [hph] at hp
              intro j hj hjlt
              rw [List.length_append, List.length_singleton] at hj
              exact hp j (by omega) hjlt
            | flying d | ready d =>
              rw [hph] at hp
              obtain ⟨j, hj, hd, hmod⟩ := hp
              refine ⟨j, ?_, hd, hmod⟩
              rw [List.length_append, List.length_singleton]
              have hne : j ≠ (s.received n').length := by
                intro hje
                exact hi (by rw [← hmod, hje, hlast])
              omega
        · rw [setAt_of_ne _ _ (fun hh => heq hh.1)]
          simp only [Function.update_of_ne heq]
          exact h.phases n' hn' i' hi'
      · intro n' hn'
        by_cases heq : n' = n
        · subst heq
          simp only [Function.update_self]
          obtain ⟨rest, hrest⟩ := h.prefixes n' hn
          rw [← hrest, List.getElem?_append_right (Nat.le_refl _), Nat.sub_self] at hb
          cases rest with
          | nil => simp at hb
          | cons d rest =>
            simp only [List.getElem?_cons_zero, Option.some.injEq] at hb
            exact ⟨rest, by rw [← hrest, hb, List.append_assoc, List.singleton_append]⟩
        · simp only [Function.update_of_ne heq]
          exact h.prefixes n' hn'
      · intro n' hn'
        by_cases heq : n' = n
        · subst heq
          have hbound := c.bounded
          have hord : nextOrd c s n' + 1 < 2 ^ 64 := by omega
          simp only [Function.update_self, List.length_append, List.length_singleton]
          show (Function.update s.lastBufferOrd n' (nextOrd c s n') n' + 1) % 2 ^ 64 % _ = _
          rw [Function.update_self, Nat.mod_eq_of_lt hord, hlast, Nat.mod_add_mod]
        · simp only [nextOrd, Function.update_of_ne heq]
          exact h.last n' hn'
      · intro n' hn'
        have hwin := h.window n' hn'
        by_cases heq : n' = n
        · subst heq
          simp only [Function.update_self, List.length_append, List.length_singleton]
          omega
        · simp only [Function.update_of_ne heq]
          exact hwin
  · exact ⟨phase, h⟩

/-- A step that moves one buffer on without touching the stream. -/
theorem Inv.move (n i : Nat) (x : Phase α) (h : Inv c s phase produced)
    (hself : slotOf s' n i = x.slot)
    (hother : ∀ n' i', ¬(n' = n ∧ i' = i) → slotOf s' n' i' = slotOf s n' i')
    (hx : ∀ received, PhaseOk c.buffers produced received i (phase n i) →
      PhaseOk c.buffers produced received i x)
    (hfull : ∀ m ∈ s'.fullFlags, m ∈ s.fullFlags)
    (hempty : ∀ m ∈ s'.emptyFlags, m ∈ s.emptyFlags ∨ m.1 < c.inputs ∧ m.2 < c.buffers)
    (hrest : s'.sent = s.sent ∧ s'.queue = s.queue ∧ s'.nextTid = s.nextTid ∧
      s'.received = s.received ∧ s'.lastBufferOrd = s.lastBufferOrd) :
    ∃ phase', Inv c s' phase' produced := by
  obtain ⟨hsent, hqueue, hnext, hreceived, hlast⟩ := hrest
  refine ⟨setAt phase n i x, slots_setAt h.slots hself hother, ?_, ?_, ?_, ?_, ?_, ?_, ?_, ?_⟩
  · intro n' hn' i' hi'
    rw [hreceived]
    by_cases heq : n' = n ∧ i' = i
    · obtain ⟨rfl, rfl⟩ := heq
      rw [setAt_self]
      exact hx _ (h.phases n' hn' i' hi')
    · rw [setAt_of_ne _ _ heq]
      exact h.phases n' hn' i' hi'
  · exact fun m hm => h.fullAt m (hfull m hm)
  · intro m hm
    rcases hempty m hm with hm | hm
    · exact h.emptyAt m hm
    · exact hm
  · rw [hsent, hqueue]
    exact h.sent
  · rw [hnext]
    exact h.next
  · rw [hreceived]
    exact h.prefixes
  · intro n' hn'
    unfold nextOrd
    rw [hreceived, hlast]
    exact h.last n' hn'
  · rw [hreceived]
    exact h.window

theorem inv_inputAvailable {n i : Nat} (h : Inv c s phase produced) (hn : n < c.inputs)
    (hi : i < c.buffers) (huse : (s.buffer n i).inUse) :
    ∃ phase', Inv c (inputAvailable s n i) phase' produced := by
  have hslot := h.slots n hn i hi
  obtain ⟨b, hheld⟩ : ∃ b, phase n i = .held b := by
    apply eq_held
    rw [← hslot]
    exact huse
  rw [hheld] at hslot
  simp only [slotOf, Phase.slot, Slot.mk.injEq] at hslot
  refine h.move n i .returning ?_ ?_ ?_ (fun _ hm => hm) ?_ ⟨rfl, rfl, rfl, rfl, rfl⟩
  · simp [slotOf, inputAvailable, Phase.slot, hslot]
  · intro n' i' hne
    have hpair : (n, i) ≠ (n', i') := by
      intro heq
      simp only [Prod.mk.injEq] at heq
      exact hne ⟨heq.1.symm, heq.2.symm⟩
    simp only [slotOf, inputAvailable]
    rw [setAt_of_ne _ _ hne, List.count_append, List.count_singleton, beq_eq_false_iff_ne.mpr hpair]
    rfl
  · intro received hp
    rw [hheld] at hp
    exact hp
  · intro m hm
    rcases List.mem_append.mp hm with hm | hm
    · exact Or.inl hm
    · rw [List.mem_singleton] at hm
      subst hm
      exact Or.inr ⟨hn, hi⟩

theorem inv_fullArrives {k : Nat} {m : FullFlag α} (h : Inv c s phase produced)
    (hk : s.fullFlags[k]? = some m) (hs : step c s (.fullArrives k) = some s') :
    ∃ phase', Inv c s' phase' produced := by
  simp only [step, hk, Option.some.injEq] at hs
  subst hs
  obtain ⟨pre, post, hl, herase⟩ := split_at hk
  obtain ⟨hn, hi⟩ := h.fullAt m (by simp [hl])
  have hslot := h.slots m.port hn m.tid hi
  have hflying : phase m.port m.tid = .flying m.buf := by
    apply eq_flying
    rw [← hslot]
    simp [slotOf, hl, fullsAt_append, fullsAt_cons_self]
  rw [hflying] at hslot
  simp only [slotOf, Phase.slot, Slot.mk.injEq, hl, fullsAt_append, fullsAt_cons_self] at hslot
  obtain ⟨h₁, h₂, h₃, h₄⟩ := hslot
  have hnil : fullsAt pre m.port m.tid ++ fullsAt post m.port m.tid = [] := by
    have hlen := congrArg List.length h₃
    rw [List.length_append, List.length_cons, List.length_singleton] at hlen
    apply List.eq_nil_of_length_eq_zero
    rw [List.length_append]
    omega
  refine h.move m.port m.tid (.ready m.buf) ?_ ?_ ?_ ?_ (fun _ hm => Or.inl hm)
    ⟨rfl, rfl, rfl, rfl, rfl⟩
  · simp [slotOf, Phase.slot, herase, fullsAt_append, hnil, h₁, h₂, h₄]
  · intro n' i' hne
    have hne' : ¬(m.port = n' ∧ m.tid = i') := fun hh => hne ⟨hh.1.symm, hh.2.symm⟩
    simp only [slotOf]
    rw [setAt_of_ne _ _ hne, herase, hl, fullsAt_append, fullsAt_append, fullsAt_cons_of_ne _ hne']
  · intro received hp
    rw [hflying] at hp
    exact hp
  · intro m' hm'
    exact List.mem_of_mem_eraseIdx hm'

theorem inv_emptyArrives {k n i : Nat} (h : Inv c s phase produced)
    (hk : s.emptyFlags[k]? = some (n, i)) (hs : step c s (.emptyArrives k) = some s') :
    ∃ phase', Inv c s' phase' produced := by
  simp only [step, hk, Option.some.injEq] at hs
  subst hs
  obtain ⟨pre, post, hl, herase⟩ := split_at hk
  obtain ⟨hn, hi⟩ := h.emptyAt (n, i) (by simp [hl])
  have hslot := h.slots n hn i hi
  have hreturning : phase n i = .returning := by
    apply eq_returning
    rw [← hslot]
    simp [slotOf, hl]
  rw [hreturning] at hslot
  simp only [slotOf, Phase.slot, Slot.mk.injEq, hl, List.count_append,
    List.count_cons_self] at hslot
  obtain ⟨h₁, h₂, h₃, h₄⟩ := hslot
  refine h.move n i .idle ?_ ?_ ?_ (fun _ hm => hm) ?_ ⟨rfl, rfl, rfl, rfl, rfl⟩
  · have hzero : (pre ++ post).count (n, i) = 0 := by
      rw [List.count_append]
      omega
    simp only [slotOf, Phase.slot, setAt_self, herase, h₂, h₃, hzero]
  · intro n' i' hne
    have hpair : (n, i) ≠ (n', i') := by
      intro heq
      simp only [Prod.mk.injEq] at heq
      exact hne ⟨heq.1.symm, heq.2.symm⟩
    simp only [slotOf]
    rw [setAt_of_ne _ _ hne, herase, hl, List.count_append, List.count_append,
      List.count_cons_of_ne hpair]
  · intro received hp
    rw [hreturning] at hp
    exact hp
  · intro m' hm'
    exact Or.inl (List.mem_of_mem_eraseIdx hm')

/-! ## Runs -/

/-- The condition on a step: a buffer marked `endOfStream` is sent to the next index of the
ring or not at all. -/
def RingOrder (c : Circuit) (s : State α) : Op α → Prop
  | .sendOutputBuffer b => s.queue = [] → InRing c s b
  | .checkQueuedTransfers => ∀ b ∈ s.queue.head?, InRing c s b
  | _ => True

/-- One step keeps the invariant. -/
theorem inv_step {op : Op α} (h : Inv c s phase produced) (hok : RingOrder c s op)
    (hs : step c s op = some s') : ∃ phase' produced', Inv c s' phase' produced' := by
  cases op with
  | sendOutputBuffer b =>
    simp only [step, Option.some.injEq] at hs
    exact hs ▸ inv_sendOutputBuffer h hok
  | checkQueuedTransfers =>
    simp only [step, Option.some.injEq] at hs
    exact hs ▸ inv_checkQueuedTransfers h hok
  | getNextFullInputBuffer n =>
    simp only [step, Option.ite_none_right_eq_some, Option.some.injEq] at hs
    obtain ⟨hn, rfl⟩ := hs
    obtain ⟨phase', hinv⟩ := inv_getNextFullInputBuffer h hn
    exact ⟨phase', produced, hinv⟩
  | inputAvailable n i =>
    simp only [step, Option.ite_none_right_eq_some, Option.some.injEq] at hs
    obtain ⟨⟨hn, hi, huse⟩, rfl⟩ := hs
    obtain ⟨phase', hinv⟩ := inv_inputAvailable h hn hi huse
    exact ⟨phase', produced, hinv⟩
  | fullArrives k =>
    cases hk : s.fullFlags[k]? with
    | none => simp [step, hk] at hs
    | some m =>
      obtain ⟨phase', hinv⟩ := inv_fullArrives h hk hs
      exact ⟨phase', produced, hinv⟩
  | emptyArrives k =>
    cases hk : s.emptyFlags[k]? with
    | none => simp [step, hk] at hs
    | some m =>
      obtain ⟨phase', hinv⟩ := inv_emptyArrives h hk hs
      exact ⟨phase', produced, hinv⟩

/-- Nothing is under way and no call would change anything: no message is in flight, no worker
has a buffer or could get one, and no queued transfer could be started. -/
structure Quiescent (c : Circuit) (s : State α) : Prop where
  noFull : s.fullFlags = []
  noEmpty : s.emptyFlags = []
  noneHeld : ∀ n < c.inputs, ∀ i < c.buffers, (s.buffer n i).inUse = false
  noneReady : ∀ n < c.inputs, (getNextFullInputBuffer c s n).1 = none
  noneStarts : ∀ b ∈ s.queue.head?, canProduce c s b = none

/-- What the circuit promises: a port has received the first buffers that were sent, in order;
once nothing is under way it has received all of them; and a message on its way never meets a
buffer that is full or in use, or another message. -/
structure FlowOk (c : Circuit) (s : State α) : Prop where
  fifo : ∀ n < c.inputs, s.received n <+: s.sent
  lossless : Quiescent c s → ∀ n < c.inputs, s.received n = s.sent
  noOverwrite : ∀ m ∈ s.fullFlags, s.buffer m.port m.tid = ⟨none, false⟩ ∧
    fullsAt s.fullFlags m.port m.tid = [m.buf]

theorem Inv.received_all (h : Inv c s phase produced) (hq : Quiescent c s) {n : Nat}
    (hn : n < c.inputs) : s.received n = produced := by
  have hle := (h.prefixes n hn).length_le
  refine (h.prefixes n hn).eq_of_length_le ?_
  by_contra hlt
  have hb := List.getElem?_eq_getElem (show (s.received n).length < produced.length by omega)
  have htlo : nextOrd c s n < c.buffers := Nat.mod_lt _ c.pos
  have hslot := h.slots n hn _ htlo
  have hpend := h.pending hn (Nat.le_refl _) hb
  rw [← h.last n hn] at hpend
  rcases hpend with hp | hp
  · rw [hp] at hslot
    simp [slotOf, Phase.slot, hq.noFull, fullsAt] at hslot
  · rw [hp] at hslot
    simp only [slotOf, Phase.slot, Slot.mk.injEq] at hslot
    have hnone := hq.noneReady n hn
    simp [getNextFullInputBuffer, hslot.2.1] at hnone

/-- Every buffer is free once nothing is under way, so a queued transfer could be started. -/
theorem Inv.queue_nil (h : Inv c s phase produced) (hq : Quiescent c s) (hin : 0 < c.inputs) :
    s.queue = [] := by
  have hempty : ∀ i < c.buffers, inputsEmpty c s i := by
    intro i hi
    rw [inputsEmpty_iff]
    refine ⟨hin, ?_⟩
    intro n hn
    have hslot := h.slots n hn i hi
    have hph := h.phases n hn i hi
    have hall := h.received_all hq hn
    simp only [slotOf] at hslot
    cases hp : phase n i with
    | idle =>
      rw [hp] at hslot
      exact (Slot.mk.injEq .. ▸ hslot).1
    | flying b | ready b =>
      rw [hp] at hph
      obtain ⟨j, hj, hb, -⟩ := hph
      have := (List.getElem?_eq_some_iff.mp hb).1
      rw [hall] at hj
      omega
    | held b =>
      have huse := hq.noneHeld n hn i hi
      rw [hp] at hslot
      simp only [Phase.slot, Slot.mk.injEq] at hslot
      rw [hslot.2.1] at huse
      simp at huse
    | returning =>
      rw [hp, hq.noEmpty] at hslot
      simp [Phase.slot] at hslot
  cases hqueue : s.queue with
  | nil => rfl
  | cons b rest =>
    have hnone := hq.noneStarts b (by rw [hqueue]; rfl)
    have hnext : s.nextTid < c.buffers := by
      rw [h.next]
      exact Nat.mod_lt _ c.pos
    unfold canProduce at hnone
    split at hnone
    · have := List.find?_eq_none.mp hnone s.nextTid (List.mem_range.mpr hnext)
      exact absurd (hempty _ hnext) this
    · rw [if_pos (hempty _ hnext)] at hnone
      cases hnone

theorem Inv.flowOk (h : Inv c s phase produced) : FlowOk c s where
  fifo := by
    intro n hn
    rw [h.sent]
    exact (h.prefixes n hn).trans (List.prefix_append _ _)
  lossless := by
    intro hq n hn
    rw [h.sent, h.queue_nil hq (by omega), List.append_nil]
    exact h.received_all hq hn
  noOverwrite := by
    intro m hm
    obtain ⟨hn, hi⟩ := h.fullAt m hm
    have hslot := h.slots m.port hn m.tid hi
    have hflying : phase m.port m.tid = .flying m.buf := by
      apply eq_flying
      rw [← hslot]
      exact List.mem_filterMap.mpr ⟨m, hm, by simp⟩
    rw [hflying] at hslot
    simp only [slotOf, Phase.slot, Slot.mk.injEq] at hslot
    exact ⟨hslot.2.1, hslot.2.2.1⟩

/-- **The flow is FIFO and lossless** in a run in which every end of stream stays in the ring. -/
theorem flowOk_of_ringOrder (c : Circuit) (h : Reach (step c) (RingOrder c) (init α) s) :
    FlowOk c s := by
  obtain ⟨phase, produced, hinv⟩ := h.invariant
    (P := fun s => ∃ phase produced, Inv c s phase produced) ⟨_, _, inv_init c⟩
    fun _ _ _ ⟨_, _, hi⟩ hok hs => inv_step hi hok hs
  exact hinv.flowOk

instance (b : Buf α) : Decidable (InRing c s b) :=
  inferInstanceAs (Decidable (_ → ∀ tid ∈ canBroadcast c s, tid = s.nextTid))

instance : (op : Op α) → Decidable (RingOrder c s op)
  | .sendOutputBuffer b => inferInstanceAs (Decidable (s.queue = [] → InRing c s b))
  | .checkQueuedTransfers =>
    inferInstanceAs (Decidable (∀ b ∈ s.queue.head?, InRing c s b))
  | .getNextFullInputBuffer _ | .inputAvailable _ _ | .fullArrives _ | .emptyArrives _ =>
    .isTrue trivial

/-- Two ports with two buffers each. -/
def twoByTwo : Circuit := ⟨2, 2, by decide, by decide⟩

/-- Four buffers, two of them marked `endOfStream`, go round a ring of two; the third has to wait
and the last one is still queued. -/
theorem flowOk_two_rounds : ∃ s ∈ exec (checked (step twoByTwo) (RingOrder twoByTwo)) (init Nat)
      [.sendOutputBuffer ⟨10, false⟩, .sendOutputBuffer ⟨11, true⟩, .sendOutputBuffer ⟨12, true⟩,
       .fullArrives 3, .fullArrives 1, .fullArrives 0, .fullArrives 0,
       .getNextFullInputBuffer 0, .getNextFullInputBuffer 1, .inputAvailable 0 0,
       .inputAvailable 1 0, .emptyArrives 1, .emptyArrives 0, .checkQueuedTransfers,
       .sendOutputBuffer ⟨13, false⟩, .fullArrives 0, .getNextFullInputBuffer 0,
       .getNextFullInputBuffer 0],
    (s.received 0).map (·.data) = [10, 11, 12] ∧ s.queue = [⟨13, false⟩] ∧ FlowOk twoByTwo s := by
  have hrun : ∃ s ∈ exec (checked (step twoByTwo) (RingOrder twoByTwo)) (init Nat)
      [.sendOutputBuffer ⟨10, false⟩, .sendOutputBuffer ⟨11, true⟩, .sendOutputBuffer ⟨12, true⟩,
       .fullArrives 3, .fullArrives 1, .fullArrives 0, .fullArrives 0,
       .getNextFullInputBuffer 0, .getNextFullInputBuffer 1, .inputAvailable 0 0,
       .inputAvailable 1 0, .emptyArrives 1, .emptyArrives 0, .checkQueuedTransfers,
       .sendOutputBuffer ⟨13, false⟩, .fullArrives 0, .getNextFullInputBuffer 0,
       .getNextFullInputBuffer 0],
      (s.received 0).map (·.data) = [10, 11, 12] ∧ s.queue = [⟨13, false⟩] := by decide
  obtain ⟨s, hs, hdata, hqueue⟩ := hrun
  exact ⟨s, hs, hdata, hqueue, flowOk_of_ringOrder twoByTwo (reach_of_exec_checked _ hs)⟩

/-- The first buffer went through index 0, which is free again when the end of stream is sent, so
the search takes it. The receiver looks at index 1 and gets the buffer sent after it instead. -/
theorem endOfStream_overtaken : ¬ ∀ (c : Circuit) (s : State Nat),
    Reach (step c) anyStep (init Nat) s → FlowOk c s := by
  intro h
  have hrun : ∃ s ∈ exec (step ⟨1, 2, by decide, by decide⟩) (init Nat)
      [.sendOutputBuffer ⟨10, false⟩, .fullArrives 0, .getNextFullInputBuffer 0,
       .inputAvailable 0 0, .emptyArrives 0, .sendOutputBuffer ⟨11, true⟩,
       .sendOutputBuffer ⟨12, false⟩, .fullArrives 1, .getNextFullInputBuffer 0],
      ¬ s.received 0 <+: s.sent := by decide
  obtain ⟨s, hs, hbad⟩ := hrun
  exact hbad ((h _ s (reach_of_exec _ hs)).fifo 0 (by decide))

end OpenCpi.Transport
