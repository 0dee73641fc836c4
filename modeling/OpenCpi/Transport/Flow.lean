import Mathlib.Algebra.Group.Nat.Defs
import Mathlib.Data.List.Basic
import OpenCpi.Infra.Run

/-!
# The buffer flow of a circuit

`OcpiTransferController.cxx` (`TransferController1`) and `OcpiCircuit.cxx`. One output port sends
buffers to the input ports of a port set. Every input port has the same number of buffers and the
output port keeps a *shadow* of each of them, which says whether the input buffer is free. Sending
marks the shadows full and writes data, metadata and a full flag into an input buffer of every
port; consuming marks the input buffer empty and writes an empty flag back into the shadow. The
flags travel as messages, each on its own, in any order.

The output port is of rank 0 (or the distribution is not whole), so it always produces itself.
`sendOutputBuffer` only sees buffers from `getNextEmptyOutputBuffer`, which clears `broadCast`, so
a transfer is never started through `broadcastBuffer`; no template gates a sequence, so `produce`
returns 0. Zero copy, pull drivers and the reuse of output buffers are left out: a buffer is the
data and the metadata flag it is sent with.
-/

namespace OpenCpi.Transport

open Infra

/-- The circuit: how many input ports there are and how many buffers each has. `m_nextTid` is a
32-bit signed integer. -/
structure Circuit where
  inputs : Nat
  buffers : Nat
  pos : 0 < buffers
  bounded : buffers < 2 ^ 31

/-- A buffer that is sent, with the flag of its metadata that the controller looks at. -/
structure Buf (α : Type*) where
  data : α
  endOfStream : Bool
deriving DecidableEq, Repr

/-- An input buffer: what was written into it, if it is full, and whether a worker has it. -/
structure InputBuffer (α : Type*) where
  content : Option (Buf α)
  inUse : Bool
deriving DecidableEq, Repr

/-- A full flag on its way to a buffer of an input port, together with the data. -/
structure FullFlag (α : Type*) where
  port : Nat
  tid : Nat
  buf : Buf α
deriving DecidableEq, Repr

/-- `nextTid` and `queue` (`m_queuedTransfers`) belong to the sender, and so do the shadows;
`buffer` and `lastBufferOrd` belong to the input ports. `sent` and `received` record the calls. -/
structure State (α : Type*) where
  nextTid : Nat
  queue : List (Buf α)
  shadowFull : Nat → Nat → Bool
  buffer : Nat → Nat → InputBuffer α
  lastBufferOrd : Nat → Nat
  fullFlags : List (FullFlag α)
  emptyFlags : List (Nat × Nat)
  sent : List (Buf α)
  received : Nat → List (Buf α)

/-- Everything is empty; `m_lastBufferOrd` starts as `MAXBUFORD`, the largest `size_t`. -/
def init (α : Type*) : State α :=
  { nextTid := 0, queue := [], shadowFull := fun _ _ => false,
    buffer := fun _ _ => ⟨none, false⟩, lastBufferOrd := fun _ => 2 ^ 64 - 1, fullFlags := [],
    emptyFlags := [], sent := [], received := fun _ => [] }

/-- Change the entry of one buffer. -/
def setAt {β : Type*} (f : Nat → Nat → β) (n i : Nat) (x : β) : Nat → Nat → β :=
  fun n' i' => if n' = n ∧ i' = i then x else f n' i'

variable {α : Type*}

/-! ## The sender -/

/-- The inner loop of `canProduce` and `canBroadcast`: the shadows of one buffer index are empty
at all input ports. Without ports `produce` stays false. -/
def inputsEmpty (c : Circuit) (s : State α) (tid : Nat) : Bool :=
  decide (0 < c.inputs) && (List.range c.inputs).all fun n => !s.shadowFull n tid

/-- `canBroadcast`: the first index that is free at all ports becomes `m_nextTid`. -/
def canBroadcast (c : Circuit) (s : State α) : Option Nat :=
  (List.range c.buffers).find? (inputsEmpty c s)

/-- `TransferController1::canProduce`, with the value of `m_nextTid` it leaves behind. -/
def canProduce (c : Circuit) (s : State α) (b : Buf α) : Option Nat :=
  if b.endOfStream then canBroadcast c s
  else if inputsEmpty c s s.nextTid then some s.nextTid else none

/-- `startBufferTransfer` and `TransferController1::produce`. -/
def produce (c : Circuit) (s : State α) (tid : Nat) (b : Buf α) : State α :=
  { s with
    shadowFull := fun n i => if n < c.inputs ∧ i = tid then true else s.shadowFull n i
    fullFlags := s.fullFlags ++ (List.range c.inputs).map fun n => ⟨n, tid, b⟩
    nextTid := (tid + 1) % c.buffers }

/-- `Port::sendOutputBuffer`. A transfer is not started while others are queued. -/
def sendOutputBuffer (c : Circuit) (s : State α) (b : Buf α) : State α :=
  let s' := { s with sent := s.sent ++ [b] }
  match if s.queue.isEmpty then canProduce c s b else none with
  | some tid => produce c s' tid b
  | none => { s' with queue := s.queue ++ [b] }

/-- `checkQueuedTransfers` -/
def checkQueuedTransfers (c : Circuit) (s : State α) : State α :=
  match s.queue with
  | [] => s
  | b :: rest =>
    match canProduce c s b with
    | some tid => produce c { s with queue := rest } tid b
    | none => s

/-! ## The input ports -/

/-- The index `getNextFullInputBuffer` looks at. -/
def nextOrd (c : Circuit) (s : State α) (n : Nat) : Nat :=
  (s.lastBufferOrd n + 1) % 2 ^ 64 % c.buffers

/-- `getNextFullInputBuffer`, which gives nothing when the next buffer is empty or in use. -/
def getNextFullInputBuffer (c : Circuit) (s : State α) (n : Nat) : Option (Buf α) × State α :=
  let tlo := nextOrd c s n
  let buffer := s.buffer n tlo
  match buffer.content with
  | some b =>
    if buffer.inUse then (none, s)
    else (some b,
      { s with
        lastBufferOrd := Function.update s.lastBufferOrd n tlo
        buffer := setAt s.buffer n tlo ⟨some b, true⟩
        received := Function.update s.received n (s.received n ++ [b]) })
  | none => (none, s)

/-- `inputAvailable`: the buffer is marked empty and the sender is told. -/
def inputAvailable (s : State α) (n i : Nat) : State α :=
  { s with
    buffer := setAt s.buffer n i ⟨none, false⟩
    emptyFlags := s.emptyFlags ++ [(n, i)] }

/-! ## Runs -/

/-- The calls, and the arrival of the message at a position of a list of messages. -/
inductive Op (α : Type*) where
  | sendOutputBuffer (b : Buf α)
  | checkQueuedTransfers
  | getNextFullInputBuffer (n : Nat)
  | inputAvailable (n i : Nat)
  | fullArrives (k : Nat)
  | emptyArrives (k : Nat)
deriving DecidableEq, Repr

/-- A worker gives back only a buffer it has. -/
def step (c : Circuit) (s : State α) : Op α → Option (State α)
  | .sendOutputBuffer b => some (sendOutputBuffer c s b)
  | .checkQueuedTransfers => some (checkQueuedTransfers c s)
  | .getNextFullInputBuffer n =>
    if n < c.inputs then some (getNextFullInputBuffer c s n).2 else none
  | .inputAvailable n i =>
    if n < c.inputs ∧ i < c.buffers ∧ (s.buffer n i).inUse then some (inputAvailable s n i)
    else none
  | .fullArrives k =>
    match s.fullFlags[k]? with
    | some m => some
      { s with
        fullFlags := s.fullFlags.eraseIdx k
        buffer := setAt s.buffer m.port m.tid
          { s.buffer m.port m.tid with content := some m.buf } }
    | none => none
  | .emptyArrives k =>
    match s.emptyFlags[k]? with
    | some m => some
      { s with
        emptyFlags := s.emptyFlags.eraseIdx k
        shadowFull := setAt s.shadowFull m.1 m.2 false }
    | none => none

end OpenCpi.Transport
