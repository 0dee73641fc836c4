import OpenCpi.Time.EventQ

/-!
# The dump of an event queue

The walk over a queue in `EmitFormatter::formatDumpToStreamRAW` of `OcpiTimeEmit.cxx`. It reads the entries from
the memory of the queue. A line is what is printed for an entry before it is formatted: the time is in ticks, and
a value is the eight bytes of its `SValue`.
-/

namespace OpenCpi.Time

open Infra

inductive EventType where
  | transient
  | state
  | value
  deriving DecidableEq, Repr

inductive DataType where
  | u
  | i
  | d
  | c
  deriving DecidableEq, Repr

/-- `Emit::EventMap`: a registered event. -/
structure EventMap where
  id : UInt16
  type : EventType
  dtype : DataType
  deriving DecidableEq, Repr

/-- The entry at an index. -/
def entryAt (memory : Memory) (pos : Nat) : EventQEntry where
  time_ticks := UInt64.ofNat (wordOf (readBytes memory pos 8))
  eid := UInt16.ofNat (wordOf (readBytes memory (pos + 8) 2))
  owner := UInt16.ofNat (wordOf (readBytes memory (pos + 10) 2))
  size := UInt32.ofNat (wordOf (readBytes memory (pos + 12) 4))

structure Line where
  eid : UInt16
  owner : UInt16
  dtype : DataType
  ticks : UInt64
  value : Option Bytes
  deriving DecidableEq, Repr

/-- `getEventMap` -/
def getEventMap (maps : List EventMap) (eid : UInt16) : Option EventMap := maps.find? (·.id = eid)

/-- What is printed of the eight bytes behind an entry. -/
def printedValue (maps : List EventMap) (eid : UInt16) (bytes : Bytes) : Option Bytes :=
  if maps[eid.toNat]?.map (·.type) = some .transient then none else some bytes

/-- What is printed for an entry. -/
def lineAt (maps : List EventMap) (memory : Memory) (pos : Nat) : Option Line :=
  let e := entryAt memory pos
  (getEventMap maps e.eid).bind fun emap =>
    if e.time_ticks = 0 then none
    else some ⟨e.eid, e.owner, emap.dtype, e.time_ticks, printedValue maps e.eid (readBytes memory (pos + entrySize) 8)⟩

/-- `getNextEntry` -/
def getNextEntry (q : EventQ) (ce : Nat) : Nat :=
  let ne := ce + entrySize + (entryAt q.memory ce).size.toNat
  if ne + entrySize ≥ q.size ∨ ne + (entryAt q.memory ne).size.toNat ≥ q.size then 0 else ne

/-- The `do ... while`; `none` when there was not enough fuel. -/
def dumpLoop (maps : List EventMap) (q : EventQ) (first : Nat) : Nat → Nat → Option (List Line)
  | 0, _ => none
  | fuel + 1, qe =>
    let out := (lineAt maps q.memory qe).toList
    let next := getNextEntry q qe
    if next ≠ first ∧ (entryAt q.memory next).size ≠ 0 then (dumpLoop maps q first fuel next).map (out ++ ·)
    else some out

/-- Where the dump begins. -/
def EventQ.begin (q : EventQ) : Nat := if q.full then q.position else 0

/-- `formatDumpToStreamRAW` for one queue. -/
def EventQ.dump (q : EventQ) (maps : List EventMap) (fuel : Nat) : Option (List Line) :=
  dumpLoop maps q q.begin fuel q.begin

/-! ## What was emitted -/

/-- An event that was put into a queue. -/
structure Stored where
  pos : Nat
  emission : Emission

/-- A queue, and everything that was put into it. -/
structure History where
  queue : EventQ
  stored : List Stored

def History.start (size : Nat) (stopWhenFull : Bool) : History := ⟨.allocate size stopWhenFull, []⟩

def History.step (h : History) (e : Emission) : Option History :=
  some { queue := h.queue.emitT e,
         stored := if (h.queue.processTrigger e.role).done then h.stored
           else h.stored ++ [⟨(h.queue.ready e.role).position, e⟩] }

end OpenCpi.Time
