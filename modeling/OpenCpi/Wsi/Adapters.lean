import OpenCpi.Infra.Elastic

/-!
# Width adapters

`wsi_32_to_16.vhd` and `wsi_16_to_32.vhd`. A worker sees the records of its input port and of its output port and sets
what it takes and gives in the same cycle; its registers change at the end of the cycle. Both workers only do something
when both ports are ready.
-/

namespace OpenCpi.Wsi

open Infra

/-- What is in front of an input port, or given to an output port: the part of the port's record that is data. `valid`
means that data and byte enables are present. -/
@[ext] structure Beat (n : Nat) where
  data : BitVec (8 * n)
  byteEnable : BitVec n
  som : Bool
  eom : Bool
  valid : Bool
deriving DecidableEq

/-- `worker_in_in_t` -/
structure InPort (n : Nat) where
  reset : Bool
  ready : Bool
  beat : Beat n

/-- `worker_out_in_t` -/
structure OutPort where
  reset : Bool
  ready : Bool

/-- A worker between two ports. -/
structure Worker (σ : Type) (m n : Nat) where
  /-- `in_out.take` -/
  take : σ → InPort m → OutPort → Bool
  /-- `out_out.give` -/
  give : σ → InPort m → OutPort → Bool
  /-- the rest of `out_out` -/
  out : σ → InPort m → Beat n
  /-- the registers behind a rising edge of `wci_clk` -/
  next : σ → InPort m → OutPort → σ

/-! ## From 32 to 16 bits -/

/-- `hi_absent` -/
def hiAbsent (b : Beat 4) : Bool := !b.byteEnable[3] && !b.byteEnable[2]

/-- `wsi_32_to_16_worker`. The register is `hi16_r`. -/
def wsi32To16 : Worker Bool 4 2 where
  take hi16 inIn outIn := inIn.ready && outIn.ready && (hi16 || !inIn.beat.valid || hiAbsent inIn.beat)
  give _ inIn outIn := inIn.ready && outIn.ready
  out hi16 inIn :=
    { data := if hi16 then inIn.beat.data.extractLsb' 16 16 else inIn.beat.data.extractLsb' 0 16
      byteEnable := if hi16 then inIn.beat.byteEnable.extractLsb' 2 2 else inIn.beat.byteEnable.extractLsb' 0 2
      som := if hi16 then false else inIn.beat.som
      eom := inIn.beat.eom && (!inIn.beat.valid || hi16 || hiAbsent inIn.beat)
      valid := inIn.beat.valid }
  next hi16 inIn outIn :=
    if inIn.reset || outIn.reset then false
    else if inIn.ready && outIn.ready then
      if hi16 then false else if inIn.beat.valid && !hiAbsent inIn.beat then true else hi16
    else hi16

/-! ## From 16 to 32 bits -/

/-- The registers of `wsi_16_to_32_worker`, with the values they have at first: `data_r` to `valid_r`, `word_ready`. -/
structure Half where
  beat : Beat 2 := { data := 0, byteEnable := 0, som := false, eom := false, valid := false }
  wordReady : Bool := false
deriving DecidableEq

/-- Two halves of a word, the low one first. -/
def join (low high : Beat 2) : Beat 4 where
  data := high.data ++ low.data
  byteEnable := high.byteEnable ++ low.byteEnable
  som := high.som || low.som
  eom := high.eom || low.eom
  valid := high.valid || low.valid

/-- `wsi_16_to_32_worker`. A reset leaves the registers as they are. -/
def wsi16To32 : Worker Half 2 4 where
  take _ inIn outIn := inIn.ready && outIn.ready
  give h inIn outIn := inIn.ready && outIn.ready && h.wordReady
  out h inIn := join h.beat inIn.beat
  next h inIn outIn :=
    if inIn.reset || outIn.reset then h
    else if inIn.ready && outIn.ready then { beat := inIn.beat, wordReady := !h.wordReady }
    else h

/-! ## Workers in a system -/

/-- The port of a queue: what is in front is seen as soon as the port says so. -/
def InPort.of {n : Nat} (shown : Bool) (idle : Beat n) (pending : List (Beat n)) : InPort n where
  reset := false
  ready := shown && !pending.isEmpty
  beat := pending.headD idle

/-- What a worker takes from a queue in a cycle. -/
def Worker.left {σ : Type} {m n : Nat} (W : Worker σ m n) (s : σ) (inIn : InPort m) (outIn : OutPort)
    (pending : List (Beat m)) : List (Beat m) :=
  if W.take s inIn outIn then pending.tail else pending

/-- What a worker gives in a cycle. -/
def Worker.given {σ : Type} {m n : Nat} (W : Worker σ m n) (s : σ) (inIn : InPort m) (outIn : OutPort) : List (Beat n) :=
  if W.give s inIn outIn then [W.out s inIn] else []

/-- What the surroundings of a worker do in a cycle: whether the next beat is there, what the data lines hold
otherwise, and whether there is room for one. -/
structure Offered (n : Nat) where
  shown : Bool
  idle : Beat n
  room : Bool

/-- One worker behind a queue. -/
structure Line (σ : Type) (m n : Nat) where
  state : σ
  pending : List (Beat m)
  given : List (Beat n) := []

def Line.clock {σ : Type} {m n : Nat} (W : Worker σ m n) (l : Line σ m n) (o : Offered m) : Line σ m n :=
  let inIn := InPort.of o.shown o.idle l.pending
  let outIn : OutPort := { reset := false, ready := o.room }
  { state := W.next l.state inIn outIn
    pending := W.left l.state inIn outIn l.pending
    given := l.given ++ W.given l.state inIn outIn }

/-- Both adapters with a queue between them. -/
structure Adapters where
  hi16 : Bool := false
  half : Half := {}
  pending : List (Beat 4)
  between : List (Beat 2) := []
  given : List (Beat 4) := []

/-- A cycle, in which each worker has its own surroundings. -/
def Adapters.clock (a : Adapters) (o : Offered 4 × Offered 2) : Adapters :=
  let inIn := InPort.of o.1.shown o.1.idle a.pending
  let midOut : OutPort := { reset := false, ready := o.1.room }
  let midIn := InPort.of o.2.shown o.2.idle a.between
  let outIn : OutPort := { reset := false, ready := o.2.room }
  { hi16 := wsi32To16.next a.hi16 inIn midOut
    half := wsi16To32.next a.half midIn outIn
    pending := wsi32To16.left a.hi16 inIn midOut a.pending
    between := wsi16To32.left a.half midIn outIn a.between ++ wsi32To16.given a.hi16 inIn midOut
    given := a.given ++ wsi16To32.given a.half midIn outIn }

end OpenCpi.Wsi
