import OpenCpi.Infra.Run
import OpenCpi.Wsi.Fifo2x

/-!
# A WSI master and a WSI slave

`master.vhd`, `slave.vhd`. The two share a clock, and the generics. A cycle is what the workers and
the control interfaces do between two clock edges; all other signals follow from it and from the
registers. The model starts after a reset and has none later.

`data` is a vector of bits. If bytes are wider than eight bits (`data_info_width > 1`), the master
splits them over `MData` and `MDataInfo` and the slave joins them again; the bit of `MDataInfo` for
aborts is a bit of its own. The branch for such bytes in `slave.vhd` is read as it is meant: as it
stands it does not elaborate, so for them the model says what the two would do together.
-/

namespace OpenCpi.Wsi

open Infra

abbrev Bits := Nat → Bool

/-- The generics that matter. -/
structure Generics where
  precise : Bool
  byteWidth : Nat
  /-- `data_info_width > 1`: there are bytes to split -/
  wide : Bool
  earlyRequest : Bool
  /-- then a byte has at least eight bits -/
  wide_byte : wide = true → 8 ≤ byteWidth

/-- What the producer sets, in every cycle. -/
structure Offer where
  som : Bool
  eom : Bool
  valid : Bool
  abort : Bool
  data : Bits
  byteEnable : Nat
  opcode : Nat
  burstLength : Nat

/-- The signals from the master to the slave. `cmd` is whether `MCmd` is `MCmd_WRITE`; it is
`MCmd_IDLE` otherwise. -/
structure Request where
  cmd : Bool
  mData : Bits
  mDataInfo : Bits
  abort : Bool
  dataLast : Bool
  dataValid : Bool
  byteEn : Nat
  reqInfo : Nat
  reqLast : Bool
  burstLength : Nat

/-- What goes through the FIFO of the slave. -/
structure Word where
  data : Bits
  valid : Bool
  som : Bool
  eom : Bool
  abort : Bool
  byteEnable : Nat
  burst : Nat
  opcode : Nat

/-! ## The master -/

/-- The registers of the master. -/
structure Master where
  ready : Bool
  /-- som has been given without eom or valid -/
  earlySom : Bool
  /-- previous give was eom -/
  lastEom : Bool
  opcode : Nat
  burstLength : Nat

variable (g : Generics)

/-- `MData` -/
def splitData (data : Bits) : Bits :=
  if g.wide then fun n => data (n / 8 * g.byteWidth + n % 8) else data

/-- `MDataInfo`, up to the bit for aborts. -/
def splitInfo (data : Bits) : Bits := fun n =>
  data (n / (g.byteWidth - 8) * g.byteWidth + 8 + n % (g.byteWidth - 8))

def Master.request (m : Master) (give : Bool) (o : Offer) : Request where
  cmd := give && m.ready && !m.earlySom
  mData := splitData g o.data
  mDataInfo := splitInfo g o.data
  abort := o.abort
  dataLast := give && o.eom
  dataValid := give && (o.eom || o.valid || o.abort)
  byteEn := if o.valid then o.byteEnable else 0
  reqInfo := if m.lastEom || o.som then o.opcode else m.opcode
  reqLast := give && o.eom
  burstLength :=
    if g.precise then if o.som then o.burstLength else m.burstLength else if o.eom then 1 else 2

/-- A clock edge. -/
def Master.step (m : Master) (give : Bool) (o : Offer) (isOperating threadBusy : Bool) : Master where
  ready := isOperating && !threadBusy
  earlySom :=
    if give && m.ready && (o.som || m.lastEom) then !o.valid && !o.eom else m.earlySom
  lastEom := if give && m.ready then o.eom else m.lastEom
  opcode := if give && m.ready && (o.som || m.lastEom) then o.opcode else m.opcode
  burstLength := if give && o.som then o.burstLength else m.burstLength

/-! ## The slave -/

/-- The registers of the slave. -/
structure Slave where
  fifo : Fifo2x Word
  inMessage : Bool
  lastWasEom : Bool

variable (s : Slave) (r : Request)

/-- `my_data` -/
def joinData : Bits :=
  if g.wide then fun n =>
    let i := n / g.byteWidth
    let k := n % g.byteWidth
    if k < 8 then r.mData (i * 8 + k) else r.mDataInfo (i * (g.byteWidth - 8) + (k - 8))
  else r.mData

def fifoValid : Bool :=
  ((g.earlyRequest && r.dataValid) || (!g.earlyRequest && r.cmd)) && r.byteEn != 0

def fifoSom : Bool := r.cmd && (!s.inMessage || s.lastWasEom)

def fifoEom : Bool := (g.earlyRequest && r.dataLast) || (!g.earlyRequest && r.reqLast)

def fifoEnq : Bool := fifoValid g r || fifoSom s r || fifoEom g r

def fifoIn : Word where
  data := joinData g r
  valid := fifoValid g r
  som := fifoSom s r
  eom := fifoEom g r
  abort := r.abort
  byteEnable := r.byteEn
  burst := r.burstLength
  opcode := r.reqInfo

/-- `SThreadBusy` -/
def threadBusy (take isOperating : Bool) : Bool :=
  !isOperating || !s.fifo.fullN (fifoEnq g s r) take

/-- A clock edge. -/
def Slave.step (take : Bool) : Slave where
  fifo := s.fifo.step (fifoEnq g s r) take (fifoIn g s r)
  inMessage := if r.cmd then true else if s.lastWasEom then false else s.inMessage
  lastWasEom := fifoEom g r

/-! ## The link -/

/-- What is done from outside in a cycle. -/
structure Cycle where
  give : Bool
  offer : Offer
  take : Bool
  masterOperating : Bool
  slaveOperating : Bool

/-- Both ends, and what was given, enqueued and taken so far. -/
structure Link where
  master : Master
  slave : Slave
  given : List Offer
  enqueued : List Word
  taken : List Word

def Link.request (l : Link) (c : Cycle) : Request := l.master.request g c.give c.offer

/-- Whether the FIFO is enqueued. -/
def Link.enq (l : Link) (c : Cycle) : Bool := fifoEnq g l.slave (l.request g c)

def Link.clock (l : Link) (c : Cycle) : Link where
  master := l.master.step c.give c.offer c.masterOperating
    (threadBusy g l.slave (l.request g c) c.take c.slaveOperating)
  slave := l.slave.step g (l.request g c) c.take
  given := l.given ++ if c.give then [c.offer] else []
  enqueued := l.enqueued ++ if l.enq g c then [fifoIn g l.slave (l.request g c)] else []
  taken := l.taken ++ if c.take then [l.slave.fifo.dOut] else []

/-- The producer gives and the consumer takes only while ready. -/
def Link.step (l : Link) (c : Cycle) : Option Link :=
  if (c.give → l.master.ready) ∧ (c.take → l.slave.fifo.emptyN) then some (l.clock g c) else none

/-- After a reset. The registers without a reset hold anything. -/
def Link.start (burstLength : Nat) (fifo : Fifo2x Word) : Link where
  master := ⟨false, false, false, 0, burstLength⟩
  slave := ⟨fifo.reset, false, false⟩
  given := []
  enqueued := []
  taken := []

end OpenCpi.Wsi
