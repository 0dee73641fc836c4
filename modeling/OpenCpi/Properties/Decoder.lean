import OpenCpi.Wci.Decoder

/-!
# The control protocol of the WCI decoder

Commands are answered as they should be. But the state also moves when a control operation is
answered with an error, if the worker asserts `done` with it; `finished` is looked at only in a cycle
without `done` and `error`, with or without a command, so that it is never seen from a worker whose
`done` is always true; and the control operation stays at the output after its command has ended,
where also other commands put the bits of their address.

So the protocol is kept in a cycle exactly if none of this happens in it.
-/

namespace OpenCpi.Wci

open Infra

variable {k : Worker} {b b' : Bus} {c : Cycle} {op₀ : ControlOp} {offset₀ : Nat}

/-! ## The protocol -/

/-- What is asked for in a cycle. -/
structure CycleOk (k : Worker) (b : Bus) (c : Cycle) : Prop where
  /-- only a pending command is answered, and it is then not pending any more -/
  once : resp k b.decoder c ≠ .null → b.pending = true
  answered : b.pending = true → c.done = true ∨ c.error = true → resp k b.decoder c ≠ .null
  changes : (b.decoder.clock k c).state ≠ b.decoder.state → c.reset = true ∨
    (b.decoder.access = .control_e ∧ resp k b.decoder c = .dva ∧
      (b.decoder.clock k c).state = leadsTo b.decoder.controlOp b.decoder.state) ∨
    (c.finished = true ∧ b.pending = false ∧ (b.decoder.clock k c).state = .finished_e)
  recorded : c.reset = false → c.finished = true → b.pending = false → decodeAccess c = .none_e →
    b.decoder.state ≠ .unusable_e → (b.decoder.clock k c).state = .finished_e
  operation : b.decoder.controlOp ≠ .no_op_e → b.decoder.access = .control_e

/-- When it is so. `op₀` is what the register of the control operation holds at first. -/
structure CycleCond (k : Worker) (op₀ : ControlOp) (b : Bus) (c : Cycle) : Prop where
  /-- an operation that moves the state does not end with an error of the worker and `done` -/
  noErrorWithDone : c.reset = false → b.decoder.access = .control_e →
    accepts k b.decoder.controlOp b.decoder.state = true →
    leadsTo b.decoder.controlOp b.decoder.state ≠ b.decoder.state → c.done = true → c.error = false
  /-- the worker does not finish while a command waits for it -/
  notWhilePending : c.reset = false → b.pending = true → c.done = false → c.error = false →
    myError k b.decoder c = false → b.decoder.state ≠ .unusable_e → b.decoder.state ≠ .finished_e →
    c.finished = false
  /-- the worker finishes without `done` and `error` -/
  finishedAlone : c.reset = false → b.pending = false → decodeAccess c = .none_e →
    b.decoder.state ≠ .unusable_e → b.decoder.state ≠ .finished_e → c.finished = true →
    c.done = false ∧ c.error = false
  /-- the last command is a control command in progress, or its address says no operation -/
  noOperation : match b.last with
    | none => op₀ = .no_op_e
    | some (a, op) => op = .no_op_e ∨ (a = .control_e ∧ b.pending = true)

/-! ## The registers -/

/-- The registers follow the commands. -/
structure BusInv (op₀ : ControlOp) (b : Bus) : Prop where
  pending : b.pending = true ↔ b.decoder.access ≠ .none_e
  first : b.last = none → b.decoder.controlOp = op₀ ∧ b.pending = false
  last : ∀ a op, b.last = some (a, op) → b.decoder.controlOp = op ∧
    (b.pending = true → b.decoder.access = a)

theorem Bus.step_ok (h : b.step k c = some b') :
    (decodeAccess c ≠ .none_e → b.pending = false) ∧ b' = b.clock k c := by
  unfold Bus.step at h
  split at h
  · next hc =>
    cases h
    exact ⟨hc, rfl⟩
  · cases h

theorem decodeAccess_reset (h : c.reset = true) : decodeAccess c = .none_e := if_pos h

/-- A clock edge by the branch that is taken. -/
theorem clock_reset {d : Decoder} (h : c.reset = true) :
    d.clock k c = { d with access := .none_e, state := initialState k } := if_pos h

theorem clock_command {d : Decoder} (hr : c.reset = false) (h : decodeAccess c ≠ .none_e) :
    d.clock k c =
      { d with access := decodeAccess c, controlOp := controlOpIn c, offset := offsetIn k c } := by
  unfold Decoder.clock
  rw [if_neg (by simp [hr]), if_pos h]

theorem clock_end {d : Decoder} (hr : c.reset = false) (h : decodeAccess c = .none_e)
    (he : (c.done || c.error || myError k d c) = true) :
    d.clock k c =
      { d with
        access := .none_e
        state := if d.access = .control_e ∧ c.done ∧ !myError k d c then leadsTo d.controlOp d.state
          else d.state } := by
  unfold Decoder.clock
  rw [if_neg (by simp [hr]), if_neg (by simp [h]), if_pos he]

theorem clock_wait {d : Decoder} (hr : c.reset = false) (h : decodeAccess c = .none_e)
    (he : (c.done || c.error || myError k d c) = false) :
    d.clock k c =
      { d with state := if d.state ≠ .unusable_e ∧ c.finished then .finished_e else d.state } := by
  unfold Decoder.clock
  rw [if_neg (by simp [hr]), if_neg (by simp [h]), if_neg (by simp [he])]
  split <;> rfl

/-- Without a command the operation stays, and so does the access until it ends. -/
theorem clock_idle {d : Decoder} (hr : c.reset = false) (h : decodeAccess c = .none_e) :
    (d.clock k c).controlOp = d.controlOp ∧ (d.clock k c).access =
      if c.done || c.error || myError k d c then .none_e else d.access := by
  cases he : (c.done || c.error || myError k d c) with
  | true => rw [clock_end hr h he]; exact ⟨rfl, rfl⟩
  | false => rw [clock_wait hr h he]; exact ⟨rfl, rfl⟩

/-- A command is answered when it ends, and only then. -/
theorem resp_eq_null {d : Decoder} : resp k d c = .null ↔
    d.access = .none_e ∨ (c.done || c.error || myError k d c) = false := by
  unfold resp
  by_cases h : d.access = .none_e
  · simp [h]
  · cases c.done <;> cases c.error <;> cases myError k d c <;> simp [h]

theorem resp_eq_dva {d : Decoder} : resp k d c = .dva ↔
    d.access ≠ .none_e ∧ c.done = true ∧ c.error = false ∧ myError k d c = false := by
  unfold resp
  by_cases h : d.access = .none_e
  · simp [h]
  · cases c.done <;> cases c.error <;> cases myError k d c <;> simp [h]

theorem busInv_start : BusInv op₀ (Bus.start k op₀ offset₀) :=
  ⟨by simp [Bus.start], fun _ => ⟨rfl, rfl⟩, nofun⟩

theorem busInv_step (h : BusInv op₀ b) (hs : b.step k c = some b') : BusInv op₀ b' := by
  obtain ⟨hidle, rfl⟩ := Bus.step_ok hs
  cases hr : c.reset with
  | true =>
    have hnone := decodeAccess_reset hr
    refine ⟨?_, fun hl => ?_, fun a op hl => ?_⟩
    · simp [Bus.clock, hr, clock_reset hr]
    · have hl : b.last = none := by simpa [Bus.clock, hnone] using hl
      exact ⟨by simpa [Bus.clock, clock_reset hr] using (h.first hl).1, by simp [Bus.clock, hr]⟩
    · have hl : b.last = some (a, op) := by simpa [Bus.clock, hnone] using hl
      exact ⟨by simpa [Bus.clock, clock_reset hr] using (h.last a op hl).1, by simp [Bus.clock, hr]⟩
  | false =>
    by_cases hcmd : decodeAccess c = .none_e
    · obtain ⟨hop, haccess⟩ := clock_idle (k := k) (d := b.decoder) hr hcmd
      have hpending : (b.clock k c).pending = true ↔
          b.pending = true ∧ resp k b.decoder c = .null := by
        simp [Bus.clock, hr, hcmd]
      have hlast : (b.clock k c).last = b.last := by simp [Bus.clock, hcmd]
      refine ⟨?_, fun hl => ?_, fun a op hl => ?_⟩
      · rw [hpending, h.pending]
        show _ ↔ (b.decoder.clock k c).access ≠ .none_e
        rw [haccess, resp_eq_null]
        cases (c.done || c.error || myError k b.decoder c) <;> simp
      · rw [hlast] at hl
        obtain ⟨h₁, h₂⟩ := h.first hl
        refine ⟨hop.trans h₁, Bool.eq_false_iff.mpr fun hp => ?_⟩
        rw [(hpending.mp hp).1] at h₂
        cases h₂
      · rw [hlast] at hl
        obtain ⟨h₁, h₂⟩ := h.last a op hl
        refine ⟨hop.trans h₁, fun hp => ?_⟩
        obtain ⟨hp, hnull⟩ := hpending.mp hp
        have hend := (resp_eq_null.mp hnull).resolve_left (h.pending.mp hp)
        show (b.decoder.clock k c).access = a
        rw [haccess, hend]
        exact h₂ hp
    · refine ⟨?_, fun hl => ?_, fun a op hl => ?_⟩
      · simp [Bus.clock, hr, clock_command hr hcmd, hcmd]
      · simp [Bus.clock, hcmd] at hl
      · have hl : decodeAccess c = a ∧ controlOpIn c = op := by simpa [Bus.clock, hcmd] using hl
        simp [Bus.clock, clock_command hr hcmd, hl]

/-! ## Each cycle -/

theorem myError_control {d : Decoder} (h : d.access = .control_e) :
    myError k d c = !accepts k d.controlOp d.state := by
  unfold myError myConfigError
  rw [h]
  exact Bool.or_false _

/-- How the state changes, if it does. -/
theorem clock_state (hr : c.reset = false) :
    (b.decoder.clock k c).state =
      if decodeAccess c ≠ .none_e then b.decoder.state
      else if c.done || c.error || myError k b.decoder c then
        if b.decoder.access = .control_e ∧ c.done ∧ !myError k b.decoder c then
          leadsTo b.decoder.controlOp b.decoder.state
        else b.decoder.state
      else if b.decoder.state ≠ .unusable_e ∧ c.finished then .finished_e else b.decoder.state := by
  by_cases hcmd : decodeAccess c = .none_e
  · rw [if_neg (by simp [hcmd])]
    cases he : (c.done || c.error || myError k b.decoder c) with
    | true => rw [clock_end hr hcmd he]; rfl
    | false => rw [clock_wait hr hcmd he]; rfl
  · rw [clock_command hr hcmd, if_pos hcmd]

section Cycle

variable (h : BusInv op₀ b) (hidle : decodeAccess c ≠ .none_e → b.pending = false)

include h

theorem pending_of_control (hc : b.decoder.access = .control_e) : b.pending = true :=
  h.pending.mpr (by rw [hc]; exact nofun)

theorem operation_iff : (b.decoder.controlOp ≠ .no_op_e → b.decoder.access = .control_e) ↔
    match b.last with
    | none => op₀ = .no_op_e
    | some (a, op) => op = .no_op_e ∨ (a = .control_e ∧ b.pending = true) := by
  cases hl : b.last with
  | none =>
    obtain ⟨hop, hpending⟩ := h.first hl
    have hnone : b.decoder.access = .none_e := by
      by_contra hne
      rw [h.pending.mpr hne] at hpending
      cases hpending
    dsimp only
    rw [hop, hnone]
    exact ⟨fun hall => by_contra fun hne => (nomatch hall hne), fun hop hne => absurd hop hne⟩
  | some last =>
    obtain ⟨a, op⟩ := last
    obtain ⟨hop, haccess⟩ := h.last a op hl
    dsimp only
    rw [hop]
    constructor
    · intro hall
      by_cases hno : op = .no_op_e
      · exact Or.inl hno
      · have hcontrol := hall hno
        have hpending := pending_of_control h hcontrol
        exact Or.inr ⟨(haccess hpending).symm.trans hcontrol, hpending⟩
    · rintro (hno | ⟨ha, hpending⟩) hne
      · exact absurd hno hne
      · exact (haccess hpending).trans ha

include hidle

theorem changes_iff (hr : c.reset = false) :
    ((b.decoder.clock k c).state ≠ b.decoder.state → c.reset = true ∨
      (b.decoder.access = .control_e ∧ resp k b.decoder c = .dva ∧
        (b.decoder.clock k c).state = leadsTo b.decoder.controlOp b.decoder.state) ∨
      (c.finished = true ∧ b.pending = false ∧ (b.decoder.clock k c).state = .finished_e)) ↔
    (b.decoder.access = .control_e → accepts k b.decoder.controlOp b.decoder.state = true →
      leadsTo b.decoder.controlOp b.decoder.state ≠ b.decoder.state → c.done = true →
      c.error = false) ∧
    (b.pending = true → c.done = false → c.error = false → myError k b.decoder c = false →
      b.decoder.state ≠ .unusable_e → b.decoder.state ≠ .finished_e → c.finished = false) := by
  rw [clock_state hr]
  by_cases hcmd : decodeAccess c = .none_e
  · rw [if_neg (by simp [hcmd])]
    cases he : (c.done || c.error || myError k b.decoder c) with
    | true =>
      rw [if_pos rfl]
      have hwait : ¬(c.done = false ∧ c.error = false ∧ myError k b.decoder c = false) := by
        rintro ⟨h₁, h₂, h₃⟩
        rw [h₁, h₂, h₃] at he
        cases he
      constructor
      · refine fun hall => ⟨fun hcontrol hacc hmove hdone => ?_,
          fun _ h₁ h₂ h₃ => absurd ⟨h₁, h₂, h₃⟩ hwait⟩
        have hmy : myError k b.decoder c = false := by rw [myError_control hcontrol, hacc]; rfl
        rw [if_pos ⟨hcontrol, hdone, by rw [hmy]; rfl⟩] at hall
        rcases hall hmove with hreset | ⟨-, hdva, -⟩ | ⟨-, hno, -⟩
        · rw [hr] at hreset
          cases hreset
        · exact (resp_eq_dva.mp hdva).2.2.1
        · rw [pending_of_control h hcontrol] at hno
          cases hno
      · rintro ⟨herror, -⟩ hmove
        by_cases hend : b.decoder.access = .control_e ∧ c.done = true ∧
            (!myError k b.decoder c) = true
        · rw [if_pos hend] at hmove ⊢
          obtain ⟨hcontrol, hdone, hmy⟩ := hend
          have hmy : myError k b.decoder c = false := by simpa using hmy
          have hacc : accepts k b.decoder.controlOp b.decoder.state = true := by
            simpa [myError_control hcontrol] using hmy
          refine Or.inr (Or.inl ⟨hcontrol, ?_, rfl⟩)
          exact resp_eq_dva.mpr ⟨by rw [hcontrol]; exact nofun, hdone,
            herror hcontrol hacc hmove hdone, hmy⟩
        · rw [if_neg hend] at hmove
          exact absurd rfl hmove
    | false =>
      rw [if_neg (by decide)]
      simp only [Bool.or_eq_false_iff] at he
      obtain ⟨⟨hdone, herror⟩, hmy⟩ := he
      constructor
      · refine fun hall => ⟨fun _ _ _ hd => ?_, fun hpending _ _ _ hun hfin => ?_⟩
        · rw [hdone] at hd
          cases hd
        · refine Bool.eq_false_iff.mpr fun hfinished => ?_
          rw [if_pos ⟨hun, hfinished⟩] at hall
          rcases hall (Ne.symm hfin) with hreset | ⟨-, hdva, -⟩ | ⟨-, hno, -⟩
          · rw [hr] at hreset
            cases hreset
          · rw [(resp_eq_dva.mp hdva).2.1] at hdone
            cases hdone
          · rw [hpending] at hno
            cases hno
      · rintro ⟨-, hfinish⟩ hmove
        by_cases hend : b.decoder.state ≠ .unusable_e ∧ c.finished = true
        · rw [if_pos hend] at hmove ⊢
          refine Or.inr (Or.inr ⟨hend.2, Bool.eq_false_iff.mpr fun hpending => ?_, rfl⟩)
          have hno := hfinish hpending hdone herror hmy hend.1 (Ne.symm hmove)
          rw [hend.2] at hno
          cases hno
        · rw [if_neg hend] at hmove
          exact absurd rfl hmove
  · have hno := hidle hcmd
    rw [if_pos hcmd]
    refine ⟨fun _ => ⟨fun hcontrol => ?_, fun hpending => ?_⟩, fun _ hmove => absurd rfl hmove⟩
    · rw [pending_of_control h hcontrol] at hno
      cases hno
    · rw [hpending] at hno
      cases hno

omit hidle in
theorem recorded_iff (hr : c.reset = false) (hno : b.pending = false)
    (hcmd : decodeAccess c = .none_e) (hun : b.decoder.state ≠ .unusable_e)
    (hfinished : c.finished = true) : (b.decoder.clock k c).state = .finished_e ↔
      (b.decoder.state ≠ .finished_e → c.done = false ∧ c.error = false) := by
  have hnone : b.decoder.access = .none_e := by
    by_contra hne
    rw [h.pending.mpr hne] at hno
    cases hno
  have hmy : myError k b.decoder c = false := by
    unfold myError myConfigError
    rw [hnone]
    rfl
  rw [clock_state hr, if_neg (by simp [hcmd]), hmy, Bool.or_false]
  cases he : (c.done || c.error) with
  | true =>
    rw [if_pos rfl, if_neg (by simp [hnone])]
    refine ⟨fun hfin hne => absurd hfin hne, fun hall => by_contra fun hne => ?_⟩
    obtain ⟨h₁, h₂⟩ := hall hne
    rw [h₁, h₂] at he
    cases he
  | false =>
    rw [if_neg (by decide), if_pos ⟨hun, hfinished⟩]
    exact ⟨fun _ _ => by simpa using he, fun _ => rfl⟩

/-- A cycle keeps to the protocol exactly under the condition. -/
theorem cycleOk_iff : CycleOk k b c ↔ CycleCond k op₀ b c := by
  constructor
  · intro hok
    refine ⟨fun hr => ((changes_iff h hidle hr).mp hok.changes).1,
      fun hr => ((changes_iff h hidle hr).mp hok.changes).2, ?_, (operation_iff h).mp hok.operation⟩
    intro hr hno hcmd hun hfin hfinished
    exact (recorded_iff h hr hno hcmd hun hfinished).mp (hok.recorded hr hfinished hno hcmd hun) hfin
  · intro hcond
    refine ⟨fun hresp => ?_, fun hpending hend hnull => ?_, ?_, ?_,
      (operation_iff h).mpr hcond.noOperation⟩
    · exact h.pending.mpr fun hnone => hresp (resp_eq_null.mpr (Or.inl hnone))
    · have hwait := (resp_eq_null.mp hnull).resolve_left (h.pending.mp hpending)
      simp only [Bool.or_eq_false_iff] at hwait
      rcases hend with hend | hend
      · rw [hwait.1.1] at hend
        cases hend
      · rw [hwait.1.2] at hend
        cases hend
    · cases hr : c.reset with
      | true => exact fun _ => Or.inl rfl
      | false =>
        have hchanges := (changes_iff h hidle hr).mpr
          ⟨hcond.noErrorWithDone hr, hcond.notWhilePending hr⟩
        rw [hr] at hchanges
        exact hchanges
    · intro hr hfinished hno hcmd hun
      exact (recorded_iff h hr hno hcmd hun hfinished).mpr
        fun hfin => hcond.finishedAlone hr hno hcmd hun hfin hfinished

end Cycle

theorem busInv_of_reach {ok : Bus → Cycle → Prop}
    (h : Reach (Bus.step k) ok (Bus.start k op₀ offset₀) b) : BusInv op₀ b :=
  h.invariant busInv_start fun _ _ _ hinv _ hs => busInv_step hinv hs

/-- **The protocol is kept** in a cycle of a run exactly under the condition. -/
theorem protocol_iff (h : Reach (Bus.step k) anyStep (Bus.start k op₀ offset₀) b)
    (hidle : decodeAccess c ≠ .none_e → b.pending = false) :
    CycleOk k b c ↔ CycleCond k op₀ b c :=
  cycleOk_iff (busInv_of_reach h) hidle

/-! ## Samples -/

/-- A worker with the operations start and stop. -/
def sampleWorker : Worker := ⟨5, 0b110, []⟩

def sampleCycle (cmd : Cmd) (addr : Nat) (done error finished : Bool) : Cycle :=
  ⟨false, cmd, false, addr, 0, done, error, finished⟩

/-- The worker is started, and the cycle in which this is answered keeps to the protocol. -/
theorem protocol_start : ∃ b : Bus, b.decoder.controlOp = .start_e ∧
    CycleOk sampleWorker b (sampleCycle .idle 0 true false false) := by
  have hrun : ∃ b ∈ exec (Bus.step sampleWorker) (Bus.start sampleWorker .no_op_e 0)
      [sampleCycle .read 4 false false false, sampleCycle .idle 0 false false false],
      b = ⟨⟨.control_e, .start_e, .initialized_e, 4⟩, true, some (.control_e, .start_e)⟩ := by decide
  obtain ⟨b, hb, rfl⟩ := hrun
  refine ⟨_, rfl, (protocol_iff (reach_of_exec _ hb) (by decide)).mpr ⟨?_, ?_, ?_, ?_⟩⟩
  · exact fun _ _ _ _ _ => rfl
  · exact fun _ _ hdone => nomatch hdone
  · exact fun _ hno => nomatch hno
  · exact Or.inr ⟨rfl, rfl⟩

/-- The state moves although start is answered with an error; the operation then stays at the
output; `finished` is not seen; and it is seen while stop is in progress. -/
theorem protocol_broken :
    (∃ b : Bus, Reach (Bus.step sampleWorker) anyStep (Bus.start sampleWorker .no_op_e 0) b ∧
      ∃ c, resp sampleWorker b.decoder c = .err ∧ b.decoder.state = .initialized_e ∧
        (b.clock sampleWorker c).decoder.state = .operating_e ∧
        (b.clock sampleWorker c).decoder.controlOp = .start_e ∧
        (b.clock sampleWorker c).decoder.access = .none_e ∧ ¬CycleOk sampleWorker b c) ∧
    (∃ c, c.finished = true ∧ c.done = true ∧
      ¬CycleOk sampleWorker (Bus.start sampleWorker .no_op_e 0) c) ∧
    ∃ b : Bus, Reach (Bus.step sampleWorker) anyStep (Bus.start sampleWorker .no_op_e 0) b ∧
      ∃ c, c.finished = true ∧ b.pending = true ∧
        (b.clock sampleWorker c).decoder.state = .finished_e ∧ ¬CycleOk sampleWorker b c := by
  have hfirst : ∃ b ∈ exec (Bus.step sampleWorker) (Bus.start sampleWorker .no_op_e 0)
      [sampleCycle .read 4 false false false],
      b = ⟨⟨.control_e, .start_e, .initialized_e, 4⟩, true, some (.control_e, .start_e)⟩ := by decide
  obtain ⟨b, hb, rfl⟩ := hfirst
  refine ⟨⟨_, reach_of_exec _ hb, sampleCycle .idle 0 true true false, rfl, rfl, rfl, rfl, rfl,
      fun hok => ?_⟩, ⟨sampleCycle .idle 0 true false true, rfl, rfl, fun hok => ?_⟩,
    ⟨_, reach_of_exec _ hb, sampleCycle .idle 0 false false true, rfl, rfl, rfl, fun hok => ?_⟩⟩
  · exact absurd (hok.changes (by decide)) (by decide)
  · exact absurd (hok.recorded rfl rfl rfl rfl (by decide)) (by decide)
  · exact absurd (hok.changes (by decide)) (by decide)

end OpenCpi.Wci
