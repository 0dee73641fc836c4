import Mathlib.Algebra.Group.Nat.Defs
import OpenCpi.Infra.Run

/-!
# Message boundaries around a core

`message_bounds.vhd`: the words of the messages that come in are counted, and the counts go through `myfifo`
to the output side, which counts what the core puts out. `myfifo` is a FIFO of depth two that keeps its order;
what is enqueued while it is full is lost. Around the circuit are the ports and a core, which puts out as many
words as it was enabled for, each in a later cycle.
-/

namespace OpenCpi.Bounds

/-! ## The circuit -/

/-- What the input port shows. -/
structure Beat where
  som : Bool
  valid : Bool
  eom : Bool
deriving DecidableEq, Repr

/-- The port is not ready. -/
def Beat.idle : Beat := ⟨false, false, false⟩

/-- The inputs in a cycle. -/
structure Cycle where
  rst : Bool
  beat : Beat
  coreOut : Bool
  coreReady : Bool
  readyOut : Bool
deriving DecidableEq, Repr

/-- `in_count_r`, `out_count_r` and what `myfifo` holds. -/
structure MessageBounds (w : Nat) where
  inCount : BitVec w
  outCount : BitVec w
  fifo : List (BitVec w)
deriving DecidableEq, Repr

namespace MessageBounds

variable {w : Nat} (m : MessageBounds w) (c : Cycle)

/-- After `RST`. -/
def reset (w : Nat) : MessageBounds w := ⟨0#w, 1#w, []⟩

/-- `FULL_N` -/
def fifoReady : Bool := decide (m.fifo.length < 2)

/-- `EMPTY_N` -/
def fifoEom : Bool := !m.fifo.isEmpty

/-- `D_OUT`; nothing depends on it while the FIFO is empty. -/
def fifoCount : BitVec w := m.fifo.headD 0#w

def zeroCount : Bool := m.fifoReady && m.fifoCount == 0#w

def fifoDeq : Bool :=
  m.fifoEom && c.readyOut && ((c.coreOut && m.outCount == m.fifoCount) || m.zeroCount)

/-- `my_core_enable` -/
def coreEnable : Bool :=
  c.readyOut && c.beat.valid && c.coreReady && (!c.beat.eom || m.fifoReady)

/-- `my_take` -/
def takeIn : Bool :=
  m.coreEnable c || (!c.beat.valid && (c.beat.som || (m.fifoReady && c.beat.eom)))

def fifoEnq : Bool := c.beat.eom && m.takeIn c

def fifoIn : BitVec w := if c.beat.valid && m.takeIn c then m.inCount + 1#w else m.inCount

def somOut : Bool := m.outCount == 1#w && (c.coreOut || (m.fifoEom && m.zeroCount))

def eomOut : Bool := m.fifoDeq c

def validOut (_ : MessageBounds w) (c : Cycle) : Bool := c.coreOut

def giveOut : Bool := c.coreOut || m.fifoDeq c

/-- A clock edge. -/
def clock : MessageBounds w :=
  if c.rst then reset w
  else
    { inCount :=
        if m.takeIn c then
          if c.beat.eom then 0#w else if c.beat.valid then m.inCount + 1#w else m.inCount
        else m.inCount
      outCount := if m.fifoDeq c then 1#w else if c.coreOut then m.outCount + 1#w else m.outCount
      fifo := (if m.fifoDeq c then m.fifo.tail else m.fifo) ++
        if m.fifoEnq c && m.fifoReady then [m.fifoIn c] else [] }

end MessageBounds

/-! ## With a core, between two ports -/

/-- What has passed the ports: how many words of the current message, and how many each message had. -/
structure Passed where
  words : Nat
  messages : List Nat
deriving DecidableEq, Repr

def Passed.none : Passed := ⟨0, []⟩

/-- A beat passes, with a word or without, that ends the message or not. -/
def Passed.beat (p : Passed) (valid eom : Bool) : Passed :=
  if eom then ⟨0, p.messages ++ [p.words + valid.toNat]⟩ else ⟨p.words + valid.toNat, p.messages⟩

/-- `held` is the beat that the input port goes on to show, as it was not taken. -/
structure System (w : Nat) where
  bounds : MessageBounds w
  held : Beat
  inCore : Nat
  taken : Passed
  given : Passed
deriving DecidableEq, Repr

namespace System

variable {w : Nat} (s : System w) (c : Cycle)

def start (w : Nat) : System w := ⟨.reset w, .idle, 0, .none, .none⟩

/-- What the surroundings do: there is no reset, the core puts out a word that it holds, the port shows the
beat that was not taken, and each message has fewer than `2 ^ w - 1` words. -/
structure Allowed : Prop where
  rst : c.rst = false
  coreOut : c.coreOut = true → 0 < s.inCore
  held : s.held ≠ .idle → c.beat = s.held
  short : c.beat ≠ .idle → s.taken.words + c.beat.valid.toNat < 2 ^ w - 1

instance : Decidable (s.Allowed c) :=
  decidable_of_iff (c.rst = false ∧ (c.coreOut = true → 0 < s.inCore) ∧ (s.held ≠ .idle → c.beat = s.held) ∧
      (c.beat ≠ .idle → s.taken.words + c.beat.valid.toNat < 2 ^ w - 1))
    ⟨fun ⟨h₁, h₂, h₃, h₄⟩ => ⟨h₁, h₂, h₃, h₄⟩, fun ⟨h₁, h₂, h₃, h₄⟩ => ⟨h₁, h₂, h₃, h₄⟩⟩

def clock : System w where
  bounds := s.bounds.clock c
  held := if s.bounds.takeIn c then .idle else c.beat
  inCore := s.inCore - c.coreOut.toNat + (s.bounds.coreEnable c).toNat
  taken := if s.bounds.takeIn c then s.taken.beat c.beat.valid c.beat.eom else s.taken
  given := if s.bounds.giveOut c then s.given.beat (s.bounds.validOut c) (s.bounds.eomOut c) else s.given

def step : Option (System w) := if s.Allowed c then some (s.clock c) else none

end System

end OpenCpi.Bounds
