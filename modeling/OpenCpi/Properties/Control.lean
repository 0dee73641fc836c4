import OpenCpi.Properties.Decoder
import OpenCpi.Wci.Control

/-!
# The control states of the software and of the decoder

The software and the decoder follow each other through start and stop. But after release the
software is where it was before initialization, and the decoder is unusable; the registers of the
last three operations are in another order than the decoder has the operations; and the decoder takes
fewer operations in the initialized state than the software lets through.
-/

namespace OpenCpi.Wci

open Infra Rcc

variable {k : Worker} {d : Decoder} {p p' : Pair} {c : Call} {op₀ : ControlOp} {offset₀ : Nat}

/-! ## One operation of the device -/

theorem clock_idle_quiet {done : Bool} (h : d.access = .none_e) : d.clock k (idle done) = d := by
  have hmy : myError k d (idle done) = false := by
    unfold myError myConfigError
    rw [h]
    rfl
  obtain ⟨access, op, state, offset⟩ := d
  cases done with
  | true =>
    rw [clock_end rfl rfl rfl, if_neg (by rintro ⟨hc, -⟩; rw [h] at hc; cases hc)]
    cases h
    rfl
  | false =>
    rw [clock_wait rfl rfl (by rw [hmy]; rfl), if_neg (by rintro ⟨-, hc⟩; cases hc)]

theorem gap_quiet (gap : List Bool) (h : d.access = .none_e) :
    gap.foldl (fun d done => d.clock k (idle done)) d = d := by
  induction gap with
  | nil => rfl
  | cons done gap ih =>
    rw [List.foldl_cons, clock_idle_quiet h]
    exact ih

/-- A control command that the decoder accepts waits for the worker. -/
theorem awaitResp_accepted (h : d.access = .control_e)
    (ha : accepts k d.controlOp d.state = true) (delay : Nat) :
    awaitResp k d delay =
      (.dva, { d with access := .none_e, state := leadsTo d.controlOp d.state }) := by
  have hmy : ∀ done, myError k d (idle done) = false := by
    intro done
    rw [myError_control h, ha]
    rfl
  induction delay with
  | zero =>
    have hdva : resp k d (idle true) = .dva :=
      resp_eq_dva.mpr ⟨by rw [h]; exact nofun, rfl, rfl, hmy true⟩
    rw [awaitResp, hdva, clock_end rfl rfl rfl, if_pos ⟨h, rfl, by rw [hmy]; rfl⟩]
  | succ delay ih =>
    have hnull : resp k d (idle false) = .null :=
      resp_eq_null.mpr (Or.inr (by rw [hmy]; rfl))
    have hclock : d.clock k (idle false) = d := by
      rw [clock_wait rfl rfl (by rw [hmy]; rfl), if_neg (by rintro ⟨-, hc⟩; cases hc)]
    rw [awaitResp, hnull]
    dsimp only
    rw [hclock]
    exact ih

/-- One that it does not accept is answered at once. -/
theorem awaitResp_rejected (h : d.access = .control_e)
    (ha : accepts k d.controlOp d.state = false) (delay : Nat) :
    awaitResp k d delay = (.err, { d with access := .none_e }) := by
  have hmy : ∀ done, myError k d (idle done) = true := by
    intro done
    rw [myError_control h, ha]
    rfl
  have herr : ∀ done, resp k d (idle done) = .err := by
    intro done
    unfold resp
    rw [if_pos ⟨by rw [h]; exact nofun, by rw [hmy]; simp⟩]
  have hclock : ∀ done, d.clock k (idle done) = { d with access := .none_e } := by
    intro done
    rw [clock_end rfl rfl (by rw [hmy]; simp), if_neg (by rw [hmy]; simp)]
  cases delay with
  | zero => rw [awaitResp, herr, hclock]
  | succ delay =>
    rw [awaitResp, herr]
    dsimp only
    rw [hclock]

/-- **A control operation of the device**, between quiet states. -/
theorem operate_eq (h : d.access = .none_e) {index : Nat} (hi : index < 8) (gap : List Bool)
    (delay : Nat) : ∃ offset, operate k d index gap delay =
      if accepts k (toControlOp index) d.state then
        (.dva, ⟨.none_e, toControlOp index, leadsTo (toControlOp index) d.state, offset⟩)
      else (.err, ⟨.none_e, toControlOp index, d.state, offset⟩) := by
  have hin : controlOpIn (command index) = toControlOp index := by
    unfold controlOpIn command
    dsimp only
    rw [Nat.mul_div_cancel_left _ (by decide), Nat.mod_eq_of_lt hi]
  refine ⟨offsetIn k (command index), ?_⟩
  unfold operate
  rw [gap_quiet gap h, clock_command rfl (by exact nofun), hin]
  let busy : Decoder := ⟨.control_e, toControlOp index, d.state, offsetIn k (command index)⟩
  cases ha : accepts k (toControlOp index) d.state with
  | true => exact awaitResp_accepted (d := busy) rfl ha delay
  | false => exact awaitResp_rejected (d := busy) rfl ha delay

/-! ## Both states -/

/-- The state of the decoder that corresponds to one of the software. -/
def registerState : ControlState → State
  | .existing => .exists_e
  | .initialized => .initialized_e
  | .operating => .operating_e
  | .suspended => .suspended_e
  | .finished => .finished_e
  | .unusable => .unusable_e

/-- The states correspond. -/
def Corresponds (p : Pair) : Prop := p.decoder.state = registerState p.state

/-- **What is asked for**: the decoder accepts what it gets, and the states correspond after it. -/
structure CallOk (k : Worker) (p : Pair) (c : Call) : Prop where
  accepted : (controlOp k p c).1 ≠ .rejected
  corresponds : Corresponds (controlOp k p c).2

/-- The software lets the operation through. -/
def LetThrough (s : ControlState) (op : ControlOperation) : Prop :=
  s ∈ (controlTransitions op).1 ∧ (controlTransitions op).2 ≠ some s

instance (s : ControlState) (op : ControlOperation) : Decidable (LetThrough s op) :=
  inferInstanceAs (Decidable (_ ∧ _))

/-- When it is so: there is no release and no test; a query is prepared only after the start, by a
worker that is told about configuration; a worker is told about configuration only before the
start, if it has tests; and start is one of its operations. -/
def permitted (k : Worker) (s : ControlState) : ControlOperation → Bool
  | .init | .stop => true
  | .start => k.allowedOps.testBit (maskBit .start)
  | .release | .test => false
  | .beforeQuery => s != .initialized && k.allowedOps.testBit (maskBit .afterConfigure)
  | .afterConfigure => s == .initialized && k.allowedOps.testBit (maskBit .test)

def CallCond (k : Worker) (p : Pair) (c : Call) : Prop :=
  LetThrough p.state c.op → permitted k p.state c.op = true

instance : Decidable (CallCond k p c) := inferInstanceAs (Decidable (_ → _))

/-- A worker that has been created, and was not released. -/
structure PairInv (p : Pair) : Prop where
  quiet : p.decoder.access = .none_e
  state : p.state = .initialized ∨ p.state = .operating ∨ p.state = .suspended
  corresponds : Corresponds p

theorem registerIndex_lt (op : ControlOperation) : registerIndex op < 8 := by cases op <;> decide

/-- The software ignores or refuses the operation. -/
theorem controlOp_stays (h : ¬LetThrough p.state c.op) :
    (controlOp k p c).2 = p ∧ (controlOp k p c).1 ≠ .rejected := by
  unfold controlOp
  unfold LetThrough at h
  dsimp only
  split
  · exact ⟨rfl, nofun⟩
  · split
    · next hnext =>
      rw [if_neg]
      · exact ⟨rfl, nofun⟩
      · intro hmem
        refine h ⟨hmem, ?_⟩
        rcases hnext with hnext | hnext
        · rw [hnext]
          exact nofun
        · exact hnext
    · exact ⟨rfl, nofun⟩

/-- An operation that goes to the device. -/
theorem controlOp_issued (h : p.decoder.access = .none_e) (hl : LetThrough p.state c.op)
    (hfin : p.state ≠ .finished) (hm : inMask k c.op = true) :
    ∃ offset, controlOp k p c =
      let op := toControlOp (registerIndex c.op)
      if accepts k op p.decoder.state then
        (.accepted, ⟨moveTo p.state (controlTransitions c.op).2,
          ⟨.none_e, op, leadsTo op p.decoder.state, offset⟩⟩)
      else (.rejected, ⟨p.state, ⟨.none_e, op, p.decoder.state, offset⟩⟩) := by
  obtain ⟨offset, ho⟩ := operate_eq (k := k) h (registerIndex_lt c.op) c.gap c.delay
  refine ⟨offset, ?_⟩
  unfold controlOp
  dsimp only
  rw [if_neg (fun hf => hfin hf.1), if_pos (Or.inr hl.2), if_pos hl.1]
  unfold controlOperation
  rw [if_pos hm, ho]
  cases accepts k (toControlOp (registerIndex c.op)) p.decoder.state <;> rfl

/-- Where the decoder accepts an operation and both go the same way. -/
theorem permitted_iff {s : ControlState} {op : ControlOperation}
    (hs : s = .initialized ∨ s = .operating ∨ s = .suspended) (hl : LetThrough s op)
    (hm : inMask k op = true) :
    permitted k s op = true ↔
      accepts k (toControlOp (registerIndex op)) (registerState s) = true ∧
        leadsTo (toControlOp (registerIndex op)) (registerState s) =
          registerState (moveTo s (controlTransitions op).2) := by
  unfold inMask at hm
  unfold permitted accepts
  rcases hs with rfl | rfl | rfl <;> cases op <;>
    first
    | exact absurd hl (by decide)
    | (simp [registerIndex, toControlOp, registerState, moveTo, controlTransitions, leadsTo, opPos,
        nextOps, maskBit, Nat.testBit] at hm ⊢ <;> try assumption)

/-- A call does what is asked for exactly under the condition. -/
theorem callOk_iff (h : PairInv p) (hm : inMask k c.op = true) :
    CallOk k p c ↔ CallCond k p c := by
  have hfin : p.state ≠ .finished := by
    rcases h.state with hs | hs | hs <;> rw [hs] <;> exact nofun
  by_cases hl : LetThrough p.state c.op
  · obtain ⟨offset, hop⟩ := controlOp_issued h.quiet hl hfin hm
    have hiff := permitted_iff h.state hl hm
    have hcond : CallCond k p c ↔ permitted k p.state c.op = true := ⟨fun hc => hc hl, fun hp _ => hp⟩
    rw [h.corresponds] at hop
    rw [hcond, hiff]
    dsimp only at hop
    constructor
    · rintro ⟨hacc, hcorr⟩
      rw [hop] at hacc hcorr
      split at hacc
      · next ha =>
        rw [if_pos ha] at hcorr
        exact ⟨ha, hcorr⟩
      · exact absurd rfl hacc
    · rintro ⟨ha, hcorr⟩
      rw [if_pos ha] at hop
      exact ⟨by rw [hop]; exact nofun, by rw [hop]; exact hcorr⟩
  · obtain ⟨hstay, hacc⟩ := controlOp_stays (k := k) hl
    exact ⟨fun _ hlet => absurd hlet hl, fun _ => ⟨hacc, by rw [hstay]; exact h.corresponds⟩⟩

/-! ## Runs -/

theorem pairInv_created (gap : List Bool) (delay : Nat) :
    PairInv (created k op₀ offset₀ gap delay) := by
  unfold created initialState
  by_cases hm : k.allowedOps.testBit (opPos .initialize_e) = true
  · rw [if_pos hm]
    have hmask : inMask k .init = true := by
      unfold inMask
      rw [show maskBit .init = opPos .initialize_e from rfl, hm]
      rfl
    have hlet : LetThrough .existing .init := by decide
    obtain ⟨offset, hop⟩ := controlOp_issued (k := k) (c := ⟨.init, gap, delay⟩)
      (p := ⟨.existing, ⟨.none_e, op₀, .exists_e, offset₀⟩⟩) rfl hlet nofun hmask
    have hacc : accepts k .initialize_e .exists_e = true := by
      unfold accepts
      rw [hm]
      rfl
    rw [hop]
    dsimp only
    rw [show toControlOp (registerIndex .init) = .initialize_e from rfl, if_pos hacc]
    exact ⟨rfl, Or.inl rfl, rfl⟩
  · have hmask : ¬inMask k .init = true := by
      unfold inMask
      rw [show maskBit .init = opPos .initialize_e from rfl]
      simpa using hm
    rw [if_neg hm]
    unfold controlOp controlOperation
    rw [if_neg hmask]
    exact ⟨rfl, Or.inl rfl, rfl⟩

theorem step_ok (h : step k p c = some p') : inMask k c.op = true ∧ p' = (controlOp k p c).2 := by
  unfold step at h
  split at h
  · next hm =>
    cases h
    exact ⟨hm, rfl⟩
  · cases h

theorem pairInv_step (h : PairInv p) (hm : inMask k c.op = true) (hc : CallCond k p c) :
    PairInv (controlOp k p c).2 := by
  have hcorr := ((callOk_iff h hm).mpr hc).corresponds
  by_cases hl : LetThrough p.state c.op
  · have hfin : p.state ≠ .finished := by
      rcases h.state with hs | hs | hs <;> rw [hs] <;> exact nofun
    obtain ⟨offset, hop⟩ := controlOp_issued h.quiet hl hfin hm
    have hp := hc hl
    have ha := ((permitted_iff h.state hl hm).mp hp).1
    dsimp only at hop
    rw [h.corresponds, if_pos ha] at hop
    refine ⟨by rw [hop], ?_, hcorr⟩
    rw [hop]
    -- every other operation that is permitted stays in one of the three states
    show moveTo p.state (controlTransitions c.op).2 = _ ∨ _
    cases hop' : c.op with
    | release =>
      rw [hop'] at hp
      cases hp
    | init => exact Or.inl rfl
    | start => exact Or.inr (Or.inl rfl)
    | stop => exact Or.inr (Or.inr rfl)
    | beforeQuery => exact h.state
    | afterConfigure => exact h.state
    | test => exact h.state
  · rw [(controlOp_stays (k := k) hl).1]
    exact h

/-- **The states correspond** as long as the calls meet the condition, and the next call keeps it
so exactly if it does. -/
theorem corresponds_of_callCond {gap : List Bool} {delay : Nat}
    (h : Reach (step k) (CallCond k) (created k op₀ offset₀ gap delay) p) :
    Corresponds p ∧ ∀ c, inMask k c.op = true → (CallOk k p c ↔ CallCond k p c) := by
  have hinv : PairInv p := by
    refine h.invariant (pairInv_created gap delay) fun p c p' hinv hok hs => ?_
    obtain ⟨hm, rfl⟩ := step_ok hs
    exact pairInv_step hinv hm hok
  exact ⟨hinv.corresponds, fun c hm => callOk_iff hinv hm⟩

/-- A worker with all operations. -/
def fullWorker : Worker := ⟨5, 0b1111111, []⟩

/-- Start, a query, stop and start again. -/
theorem corresponds_restarted : ∃ p : Pair, p.state = .operating ∧ Corresponds p := by
  have hrun : ∃ p ∈ exec (checked (step fullWorker) (CallCond fullWorker))
      (created fullWorker .no_op_e 0 [true] 2)
      [⟨.afterConfigure, [], 0⟩, ⟨.start, [true, false], 3⟩, ⟨.beforeQuery, [], 1⟩, ⟨.stop, [], 0⟩,
        ⟨.start, [], 1⟩], p.state = .operating := by decide
  obtain ⟨p, hp, hstate⟩ := hrun
  exact ⟨p, hstate, (corresponds_of_callCond (reach_of_exec_checked _ hp)).1⟩

/-- A query before the start and a test are rejected; release ends in different states, and then the
worker cannot be initialized again. -/
theorem states_diverge :
    ((created fullWorker .no_op_e 0 [] 0).state = .initialized ∧
      (controlOp fullWorker (created fullWorker .no_op_e 0 [] 0) ⟨.beforeQuery, [], 0⟩).1 = .rejected ∧
      (controlOp fullWorker (created fullWorker .no_op_e 0 [] 0) ⟨.test, [], 0⟩).1 = .rejected) ∧
    ∃ p : Pair, Reach (step fullWorker) anyStep (created fullWorker .no_op_e 0 [] 0) p ∧
      p.state = .existing ∧ p.decoder.state = .unusable_e ∧ ¬Corresponds p ∧
      (controlOp fullWorker p ⟨.init, [], 0⟩).1 = .rejected := by
  have hrun : ∃ p ∈ exec (step fullWorker) (created fullWorker .no_op_e 0 [] 0) [⟨.release, [], 0⟩],
      p.state = .existing ∧ p.decoder.state = .unusable_e ∧
        (controlOp fullWorker p ⟨.init, [], 0⟩).1 = .rejected := by decide
  obtain ⟨p, hp, hs, hd, hrej⟩ := hrun
  refine ⟨by decide, p, reach_of_exec _ hp, hs, hd, fun hcorr => ?_, hrej⟩
  unfold Corresponds at hcorr
  rw [hs, hd] at hcorr
  cases hcorr

end OpenCpi.Wci
