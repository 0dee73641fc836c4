import OpenCpi.Time.EventQ

/-!
# The event queue stays in its memory

The space for an entry is checked before its size is known, and only for a value of eight bytes without the
entry's header.
-/

namespace OpenCpi.Time

open Infra

/-- `current` points inside the queue or is null. -/
def CurrentInside (q : EventQ) : Prop := ∀ c, q.current = some c → c < q.size

/-- **An emit stays in the queue**: every byte is written between the base and the end, and `current` is left
inside. -/
def StaysInside (q : EventQ) (e : Emission) : Prop := (∀ a ∈ q.writes e, a < q.size) ∧ CurrentInside (q.emitT e)

/-- **When an emit fits**: the queue is done, or the entry and its value end within the queue, and before its
end when the queue stops there. -/
def Fits (q : EventQ) (e : Emission) : Prop :=
  (q.processTrigger e.role).done = true ∨
    (q.ready e.role).position + entrySize + e.payload.bytes.length ≤ q.size ∧
      (q.stopWhenFull = true → (q.ready e.role).position + entrySize + e.payload.size.toNat < q.size)

variable {q : EventQ} {e : Emission} {size : Nat} {stopWhenFull : Bool}

theorem currentInside_processTrigger (h : CurrentInside q) (role : EventTriggerRole) :
    CurrentInside (q.processTrigger role) := by
  rcases processTrigger_eq q role with heq | ⟨r, heq⟩
  · rwa [heq]
  · rw [heq]
    exact fun c hc => nomatch hc

/-- The entry and its value are written from the position on. -/
theorem writes_inside (hdone : (q.processTrigger e.role).done ≠ true) : (∀ a ∈ q.writes e, a < q.size) ↔
    (q.ready e.role).position + entrySize + e.payload.bytes.length ≤ q.size := by
  have hlen := e.bytes_length
  rw [EventQ.writes, if_neg hdone, List.forall_mem_map]
  constructor
  · intro h
    have hlast := h (e.bytes.length - 1) (List.mem_range.mpr (by rw [hlen, entrySize]; omega))
    rw [hlen, entrySize] at hlast
    rw [entrySize]
    omega
  · intro h n hn
    have hn := List.mem_range.mp hn
    rw [hlen] at hn
    omega

/-- The next entry begins inside, unless the queue stops at its end. -/
theorem finiEvent_inside (hpos : 0 < q.size) (n : Nat) :
    CurrentInside (q.finiEvent n) ↔ (q.stopWhenFull = true → q.position + entrySize + n < q.size) := by
  unfold EventQ.finiEvent CurrentInside
  dsimp only
  rw [Nat.add_right_comm]
  by_cases hend : q.position + entrySize + n ≥ q.size
  · rw [if_pos hend]
    by_cases hstop : q.stopWhenFull = true
    · rw [if_pos hstop]
      exact ⟨fun h _ => h _ rfl, fun h => absurd (h hstop) (Nat.not_lt_of_le hend)⟩
    · rw [if_neg hstop]
      exact ⟨fun _ h => absurd h hstop, fun _ c hc => Option.some.inj hc ▸ hpos⟩
  · rw [if_neg hend]
    exact ⟨fun _ _ => Nat.lt_of_not_le hend, fun _ c hc => Option.some.inj hc ▸ Nat.lt_of_not_le hend⟩

theorem staysInside_iff (hpos : 0 < q.size) (h : CurrentInside q) : StaysInside q e ↔ Fits q e := by
  unfold StaysInside Fits
  by_cases hdone : (q.processTrigger e.role).done = true
  · have hwrites : q.writes e = [] := if_pos hdone
    rw [emitT_done hdone, hwrites]
    exact ⟨fun _ => .inl hdone, fun _ => ⟨(fun _ ha => nomatch ha), currentInside_processTrigger h e.role⟩⟩
  · rw [writes_inside hdone, or_iff_right hdone, emitT_not_done hdone,
      finiEvent_inside (q := (q.ready e.role).store e) (ready_size q e.role ▸ hpos)]
    show _ ∧ ((q.ready e.role).stopWhenFull = true → (q.ready e.role).position + _ + _ < (q.ready e.role).size) ↔ _
    rw [ready_stopWhenFull, ready_size]

theorem emitT_size : (q.emitT e).size = q.size := by
  by_cases hdone : (q.processTrigger e.role).done = true
  · rw [emitT_done hdone, processTrigger_size]
  · obtain ⟨current, full, done, heq⟩ := finiEvent_eq ((q.ready e.role).store e) e.payload.size.toNat
    rw [emitT_not_done hdone, heq]
    exact ready_size q e.role

/-- **Which emits stay in the queue**: in every state that a run of such emits reaches, `current` is inside, and
the next emit stays inside if and only if it fits. -/
theorem emits_stay_inside (hsize : 0 < size)
    (hrun : Reach EventQ.step Fits (.allocate size stopWhenFull) q) :
    CurrentInside q ∧ ∀ e, StaysInside q e ↔ Fits q e := by
  have hinv : CurrentInside q ∧ q.size = size := by
    refine hrun.invariant (P := fun q => CurrentInside q ∧ q.size = size) ⟨(fun _ hc => nomatch hc), rfl⟩ ?_
    rintro q e q' ⟨hinside, hq⟩ hfits hstep
    obtain rfl := Option.some.inj hstep
    exact ⟨((staysInside_iff (hq ▸ hsize) hinside).mpr hfits).2, emitT_size.trans hq⟩
  exact ⟨hinv.1, fun e => staysInside_iff (hinv.2 ▸ hsize) hinv.1⟩

/-- A value and then an event without one, in a queue with space for a little more. -/
theorem two_entries_inside : ∃ q, Reach EventQ.step Fits (.allocate 64 true) q ∧ q.current = some 48 ∧
    CurrentInside q ∧ ∀ e, StaysInside q e ↔ Fits q e := by
  have hvalue : Fits (.allocate 64 true) ⟨1, 0, 5, .scalar 7, .localQMasterTrigger⟩ :=
    .inr ⟨by decide, fun _ => by decide⟩
  have hevent : Fits ((EventQ.allocate 64 true).emitT ⟨1, 0, 5, .scalar 7, .localQMasterTrigger⟩)
      ⟨2, 0, 6, .empty, .noTrigger⟩ :=
    .inr ⟨by decide, fun _ => by decide⟩
  have hrun : Reach EventQ.step Fits (.allocate 64 true) _ :=
    .tail (.tail .refl ⟨_, hvalue, rfl⟩) ⟨_, hevent, rfl⟩
  exact ⟨_, hrun, rfl, emits_stay_inside (by decide) hrun⟩

/-- The second value in a queue of forty bytes is written behind its end, and a queue that stops when it is full
is left with `current` at its end. -/
theorem value_behind_end :
    (¬∀ size stopWhenFull q, 24 ≤ size → Reach EventQ.step anyStep (.allocate size stopWhenFull) q →
        ∀ e, ∀ a ∈ q.writes e, a < q.size) ∧
      ¬∀ size stopWhenFull q, 24 ≤ size → Reach EventQ.step anyStep (.allocate size stopWhenFull) q →
        CurrentInside q := by
  constructor
  · intro hall
    have hrun : Reach EventQ.step anyStep (.allocate 40 false) _ :=
      reach_of_exec [⟨1, 0, 5, .scalar 7, .noTrigger⟩] rfl
    exact absurd (hall 40 false _ (by decide) hrun ⟨1, 0, 6, .scalar 8, .noTrigger⟩ 47 (by decide)) (by decide)
  · intro hall
    have hrun : Reach EventQ.step anyStep (.allocate 24 true) _ :=
      reach_of_exec [⟨1, 0, 5, .scalar 7, .noTrigger⟩] rfl
    exact absurd (hall 24 true _ (by decide) hrun 24 rfl) (by decide)

end OpenCpi.Time
