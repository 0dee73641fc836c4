import OpenCpi.Rcc.Worker
import OpenCpi.Wci.Decoder

/-!
# Control operations of an HDL worker

`Worker::controlOp` of `OcpiWorker.cxx` and `WciControl::controlOperation` of `HdlWciControl.cxx`,
over the decoder. The software reads the register of the operation; the control plane of the device
(`mkOCCP.v`) makes a control command of this whose address has the index of the register in the bits
4 to 2, and returns whether the answer was DVA.

The worker does not finish and indicates no errors, but may take any time.
-/

namespace OpenCpi.Wci

open Infra Rcc

/-- `OU::Op…`: the position of an operation in the control mask. -/
def maskBit : ControlOperation → Nat
  | .init => 0
  | .start => 1
  | .stop => 2
  | .release => 3
  | .beforeQuery => 4
  | .afterConfigure => 5
  | .test => 6

/-- `controlOffsets`, in words: the place of the operation in `OccpWorkerRegisters`. -/
def registerIndex : ControlOperation → Nat
  | .init => 0
  | .start => 1
  | .stop => 2
  | .release => 3
  | .test => 4
  | .beforeQuery => 5
  | .afterConfigure => 6

variable (k : Worker)

/-- The mask after `WciControl::init`: the operations of the worker, and start. -/
def inMask (op : ControlOperation) : Bool := k.allowedOps.testBit (maskBit op) || op == .start

/-! ## The hardware -/

def idle (done : Bool) : Cycle := ⟨false, .idle, false, 0, 0, done, false, false⟩

/-- The command for the register with that index. -/
def command (index : Nat) : Cycle := ⟨false, .read, false, 4 * index, 0, false, false, false⟩

/-- The cycles until an answer: the worker is not done in the first ones. -/
def awaitResp (d : Decoder) : Nat → Resp × Decoder
  | 0 => (resp k d (idle true), d.clock k (idle true))
  | delay + 1 =>
    match resp k d (idle false) with
    | .null => awaitResp (d.clock k (idle false)) delay
    | r => (r, d.clock k (idle false))

/-- A control operation of the device: idle cycles before it, the command, and the answer. -/
def operate (d : Decoder) (index : Nat) (gap : List Bool) (delay : Nat) : Resp × Decoder :=
  awaitResp k ((gap.foldl (fun d done => d.clock k (idle done)) d).clock k (command index)) delay

/-! ## The software -/

/-- What becomes of a call of `controlOp`: it is ignored, the worker does not have the operation, the
device answers DVA or not (and then it throws), or it throws because of the state. -/
inductive Outcome where
  | ignored
  | avoided
  | accepted
  | rejected
  | refused
deriving DecidableEq, Repr

structure Pair where
  state : ControlState
  decoder : Decoder
deriving DecidableEq, Repr

/-- A call of `controlOp`, with the time that it takes. -/
structure Call where
  op : ControlOperation
  gap : List Bool
  delay : Nat
deriving DecidableEq, Repr

/-- `setControlState`, if there is a next state. -/
def moveTo (s : ControlState) : Option ControlState → ControlState
  | some next => next
  | none => s

/-- `WciControl::controlOperation`, and the state after it. -/
def controlOperation (p : Pair) (c : Call) : Outcome × Pair :=
  let next := (controlTransitions c.op).2
  if inMask k c.op then
    match operate k p.decoder (registerIndex c.op) c.gap c.delay with
    | (.dva, d) => (.accepted, ⟨moveTo p.state next, d⟩)
    | (_, d) => (.rejected, ⟨p.state, d⟩)
  else (.avoided, ⟨moveTo p.state next, p.decoder⟩)

/-- `Worker::controlOp` -/
def controlOp (p : Pair) (c : Call) : Outcome × Pair :=
  let (valid, next) := controlTransitions c.op
  if p.state = .finished ∧ (c.op = .stop ∨ c.op = .start) then (.ignored, p)
  else if next = none ∨ next ≠ some p.state then
    if p.state ∈ valid then controlOperation k p c else (.refused, p)
  else (.ignored, p)

/-- A new worker: `WciControl::init` resets it, and `createWorker` initializes it. -/
def created (op : ControlOp) (offset : Nat) (gap : List Bool) (delay : Nat) : Pair :=
  (controlOp k ⟨.existing, ⟨.none_e, op, initialState k, offset⟩⟩ ⟨.init, gap, delay⟩).2

/-- The operations that are called are in the mask. -/
def step (p : Pair) (c : Call) : Option Pair := if inMask k c.op then some (controlOp k p c).2 else none

end OpenCpi.Wci
