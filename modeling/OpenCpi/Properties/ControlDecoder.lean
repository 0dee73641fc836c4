import OpenCpi.Wci.ControlDecoder

/-!
# The two WCI decoders

The registers of the two decoders stay the same whatever comes in. The responses are the same but for an
access to the configuration space: a worker without properties has nothing there, and `decoder.vhd` answers
with an error what `control_decoder.vhd` accepts.
-/

namespace OpenCpi.Wci

variable {k : Worker} {d : Decoder} {c : Cycle}

/-- An access to the configuration space is completed without an error of the worker. -/
def ConfigDone (d : Decoder) (c : Cycle) : Prop :=
  (d.access = .read_e ∨ d.access = .write_e) ∧ c.done = true ∧ c.error = false

/-- No access to the configuration space is completed in a sequence of inputs. -/
def NoConfigDone (k : Worker) : Decoder → List Cycle → Prop
  | _, [] => True
  | d, c :: cs => ¬ConfigDone d c ∧ NoConfigDone k (d.clock k c) cs

theorem myConfigError_eq (hk : k.properties = []) :
    myConfigError k d c = ((d.access == .read_e || d.access == .write_e) && c.done) := by
  unfold myConfigError anyReadEnable anyWriteEnable
  rw [hk, List.any_nil, List.any_nil, Bool.not_false, Bool.and_true, Bool.and_true, ← Bool.and_or_distrib_right]

theorem myError_eq (hk : k.properties = []) :
    myError k d c = (d.control.myError k || (d.access == .read_e || d.access == .write_e) && c.done) := by
  rw [myError, myConfigError_eq hk, ControlDecoder.myError, ControlDecoder.myConfigError, Bool.or_false]
  rfl

/-- **The registers stay in lock step.** -/
theorem control_clock (hk : k.properties = []) : (d.clock k c).control = d.control.clock k c := by
  have herror := myError_eq (d := d) (c := c) hk
  unfold Decoder.clock ControlDecoder.clock
  split
  · rfl
  · split
    · rfl
    · have hend : (c.done || c.error || myError k d c) = (c.done || c.error || d.control.myError k) := by
        rw [herror]
        cases c.done with
        | true => rfl
        | false => rw [Bool.and_false, Bool.or_false]
      rw [hend]
      split
      · have hmoves : (d.access = .control_e ∧ c.done ∧ !myError k d c) ↔
            (d.control.access = .control_e ∧ c.done ∧ !d.control.myError k) := by
          refine and_congr_right fun haccess => ?_
          have hnone : (d.access == .read_e || d.access == .write_e) = false := by
            rw [show d.access = .control_e from haccess]
            rfl
          rw [herror, hnone, Bool.false_and, Bool.or_false]
        simp only [hmoves]
        rfl
      · by_cases hfinished : d.state ≠ .unusable_e ∧ c.finished = true
        · rw [if_pos hfinished]
          exact (if_pos hfinished).symm
        · rw [if_neg hfinished]
          exact (if_neg hfinished).symm

/-- **The outputs are the same** if and only if no access to the configuration space is completed. -/
theorem outputs_eq_iff (hk : k.properties = []) :
    d.outputs k c = d.control.outputs k c ↔ ¬ConfigDone d c := by
  have herror := myError_eq (d := d) (c := c) hk
  have hresp : d.outputs k c = d.control.outputs k c ↔ resp k d c = d.control.resp k c :=
    ⟨fun h => congrArg Outputs.resp h, fun h => by
      unfold Decoder.outputs ControlDecoder.outputs
      rw [h]
      rfl⟩
  rw [hresp]
  by_cases hconfig : d.access = .read_e ∨ d.access = .write_e
  · have hbusy : d.access ≠ .none_e := by
      rcases hconfig with h | h <;> rw [h] <;> exact nofun
    have hmine : d.control.myError k = false := by
      unfold ControlDecoder.myError Decoder.control
      rcases hconfig with h | h <;> rw [h] <;> rfl
    have htrue : (d.access == .read_e || d.access == .write_e) = true := by
      rcases hconfig with h | h <;> rw [h] <;> rfl
    rw [htrue, Bool.true_and, hmine, Bool.false_or] at herror
    unfold resp ControlDecoder.resp ConfigDone
    rw [herror, hmine, and_iff_right hconfig]
    simp only [Decoder.control]
    cases c.done <;> cases c.error <;> simp [hbusy]
  · have hnone : (d.access == .read_e || d.access == .write_e) = false := by
      rw [Bool.or_eq_false_iff, beq_eq_false_iff_ne, beq_eq_false_iff_ne]
      exact not_or.mp hconfig
    rw [hnone, Bool.false_and, Bool.or_false] at herror
    refine iff_of_true ?_ fun h => hconfig h.1
    unfold resp ControlDecoder.resp
    rw [herror]
    rfl

/-- **The two decoders agree** for a worker without properties in every cycle of a sequence of inputs, from
the same registers, if and only if no access to the configuration space is completed in it. -/
theorem decoders_agree_iff (hk : k.properties = []) (d : Decoder) (cs : List Cycle) :
    d.run k cs = d.control.run k cs ↔ NoConfigDone k d cs := by
  induction cs generalizing d with
  | nil => exact iff_of_true rfl trivial
  | cons c cs ih =>
    rw [Decoder.run, ControlDecoder.run, List.cons.injEq, ← control_clock hk, ih, outputs_eq_iff hk]
    rfl

/-- A worker with all operations and no properties. -/
def plainWorker : Worker := ⟨5, 0b1111111, []⟩

/-- A command of the master, and a cycle in which the worker is done. -/
def commandCycle (cmd : Cmd) (addrSpace : Bool) (addr : Nat) : Cycle :=
  ⟨false, cmd, addrSpace, addr, 0b1111, false, false, false⟩

def doneCycle : Cycle := ⟨false, .idle, false, 0, 0, true, false, false⟩

/-- Both decoders are initialized and started. -/
theorem decoders_agree_started :
    Decoder.run plainWorker ⟨.none_e, .no_op_e, .exists_e, 0⟩
        [commandCycle .read false 0, doneCycle, commandCycle .read false 4, doneCycle] =
      ControlDecoder.run plainWorker ⟨.none_e, .no_op_e, .exists_e⟩
        [commandCycle .read false 0, doneCycle, commandCycle .read false 4, doneCycle] :=
  (decoders_agree_iff rfl ⟨.none_e, .no_op_e, .exists_e, 0⟩ _).mpr
    ⟨(fun h => by cases h.2.1), (fun h => by cases h.1 with | inl h => cases h | inr h => cases h),
      (fun h => by cases h.2.1), (fun h => by cases h.1 with | inl h => cases h | inr h => cases h), trivial⟩

/-- A read of the configuration space is an error to one decoder and not to the other. -/
theorem decoders_differ :
    Decoder.run plainWorker ⟨.none_e, .no_op_e, .exists_e, 0⟩ [commandCycle .read true 0, doneCycle] ≠
      ControlDecoder.run plainWorker ⟨.none_e, .no_op_e, .exists_e⟩
        [commandCycle .read true 0, doneCycle] := by decide

end OpenCpi.Wci
