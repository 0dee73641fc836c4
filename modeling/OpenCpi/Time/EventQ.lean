import OpenCpi.Infra.Run
import OpenCpi.Infra.Stream

/-!
# The event queue

`Emit::EventQ` and `Emit::emitT` of `OcpiTimeEmit_inlines.h`. The memory of a queue is indexed from its base;
it holds entries of different sizes one after the other, and the writer goes on at the base when it gets near
the end.
-/

namespace OpenCpi.Time

open Infra

inductive EventTriggerRole where
  | localQGroupTrigger
  | localQMasterTrigger
  | globalQGroupTrigger
  | globalQMasterTrigger
  | noTrigger
  deriving DecidableEq, Repr

/-- `EventQEntry`; the bits of `owner`, which is signed. -/
structure EventQEntry where
  time_ticks : UInt64
  eid : UInt16
  owner : UInt16
  size : UInt32
  deriving DecidableEq, Repr

/-- `sizeof(EventQEntry)` -/
def entrySize : Nat := 16

/-- The bytes of an entry in memory. -/
def EventQEntry.bytes (e : EventQEntry) : Bytes :=
  leBytes 8 e.time_ticks.toNat ++ leBytes 2 e.eid.toNat ++ leBytes 2 e.owner.toNat ++ leBytes 4 e.size.toNat

/-- What is emitted with an event: nothing, the eight bytes of an `SValue`, or a string, for which as many bytes
as it has are copied from the address of `p.vString` on. -/
inductive Payload where
  | empty
  | scalar (v : UInt64)
  | string (strlen : Nat) (source : Nat → UInt8)

/-- `current->size` -/
def Payload.size : Payload → UInt32
  | .empty | .scalar _ => 8
  | .string strlen _ => UInt32.ofNat (strlen + 1)

/-- What is written behind the entry. -/
def Payload.bytes : Payload → Bytes
  | .empty => []
  | .scalar v => leBytes 8 v.toNat
  | p@(.string _ source) => (List.range p.size.toNat).map source

/-- A call of `emitT`. -/
structure Emission where
  id : UInt16
  owner : UInt16
  time : UInt64
  payload : Payload
  role : EventTriggerRole

def Emission.entry (e : Emission) : EventQEntry := ⟨e.time, e.id, e.owner, e.payload.size⟩

/-- Everything that is written for an event. -/
def Emission.bytes (e : Emission) : Bytes := e.entry.bytes ++ e.payload.bytes

/-- `EventQ`; `current` is a null pointer or an index. -/
structure EventQ where
  size : Nat
  stopWhenFull : Bool
  memory : Memory
  current : Option Nat
  full : Bool
  done : Bool
  role : EventTriggerRole

/-- `EventQ::allocate` -/
def EventQ.allocate (size : Nat) (stopWhenFull : Bool) : EventQ :=
  ⟨size, stopWhenFull, fun _ => 0, none, false, false, .noTrigger⟩

/-- `Emit::processTrigger`, which is only called for a trigger. -/
def EventQ.processTrigger (q : EventQ) : EventTriggerRole → EventQ
  | .localQGroupTrigger =>
    if q.role = .localQGroupTrigger ∨ q.role = .globalQGroupTrigger then q
    else { q with role := .localQGroupTrigger, current := none, full := false }
  | .localQMasterTrigger => { q with role := .localQMasterTrigger, current := none, full := false }
  | .globalQGroupTrigger | .globalQMasterTrigger | .noTrigger => q

/-- `ADJUST_CURRENT`: the size is that of the value alone. -/
def EventQ.adjustCurrent (q : EventQ) (size : Nat) : EventQ :=
  match q.current with
  | none => { q with current := some 0 }
  | some current => if current + size ≥ q.size then { q with current := some 0, full := true } else q

/-- Where the entry goes; the base when the queue is not yet adjusted. -/
def EventQ.position (q : EventQ) : Nat := q.current.getD 0

/-- `FINI_EVENT` for an entry with a payload of this size. -/
def EventQ.finiEvent (q : EventQ) (size : Nat) : EventQ :=
  let current := q.position + size + entrySize
  if current ≥ q.size then
    if q.stopWhenFull then { q with full := true, done := true, current := some current }
    else { q with full := true, current := some 0 }
  else { q with current := some current }

/-- The queue that an event is put into. -/
def EventQ.ready (q : EventQ) (role : EventTriggerRole) : EventQ := (q.processTrigger role).adjustCurrent 8

/-- The entry and its payload are written at the current position. -/
def EventQ.store (q : EventQ) (e : Emission) : EventQ :=
  { q with memory := writeBytes q.memory q.position e.bytes }

/-- `Emit::emitT` -/
def EventQ.emitT (q : EventQ) (e : Emission) : EventQ :=
  if (q.processTrigger e.role).done then q.processTrigger e.role
  else ((q.ready e.role).store e).finiEvent e.payload.size.toNat

/-- The indices that an emit writes to. -/
def EventQ.writes (q : EventQ) (e : Emission) : List Nat :=
  if (q.processTrigger e.role).done then []
  else (List.range e.bytes.length).map ((q.ready e.role).position + ·)

def EventQ.step (q : EventQ) (e : Emission) : Option EventQ := some (q.emitT e)

/-! ## The parts of an emit -/

variable {q : EventQ} {e : Emission}

@[simp] theorem EventQEntry.bytes_length (e : EventQEntry) : e.bytes.length = entrySize := by
  simp [EventQEntry.bytes, entrySize]

theorem Emission.bytes_length (e : Emission) : e.bytes.length = entrySize + e.payload.bytes.length := by
  rw [Emission.bytes, List.length_append, EventQEntry.bytes_length]

theorem processTrigger_eq (q : EventQ) (role : EventTriggerRole) : q.processTrigger role = q ∨
    ∃ r, q.processTrigger role = { q with role := r, current := none, full := false } := by
  cases role with
  | localQGroupTrigger =>
    rw [EventQ.processTrigger]
    split
    · exact .inl rfl
    · exact .inr ⟨_, rfl⟩
  | localQMasterTrigger => exact .inr ⟨_, rfl⟩
  | globalQGroupTrigger => exact .inl rfl
  | globalQMasterTrigger => exact .inl rfl
  | noTrigger => exact .inl rfl

theorem adjustCurrent_eq (q : EventQ) (size : Nat) : ∃ current full,
    q.adjustCurrent size = { q with current := some current, full := full } := by
  unfold EventQ.adjustCurrent
  cases hcurrent : q.current with
  | none => exact ⟨_, _, rfl⟩
  | some current =>
    dsimp only
    split
    · exact ⟨_, _, rfl⟩
    · exact ⟨current, q.full, by rw [← hcurrent]⟩

@[simp] theorem processTrigger_size (q : EventQ) (role : EventTriggerRole) : (q.processTrigger role).size = q.size := by
  rcases processTrigger_eq q role with h | ⟨r, h⟩ <;> rw [h]

@[simp] theorem processTrigger_stopWhenFull (q : EventQ) (role : EventTriggerRole) :
    (q.processTrigger role).stopWhenFull = q.stopWhenFull := by
  rcases processTrigger_eq q role with h | ⟨r, h⟩ <;> rw [h]

@[simp] theorem ready_size (q : EventQ) (role : EventTriggerRole) : (q.ready role).size = q.size := by
  obtain ⟨current, full, h⟩ := adjustCurrent_eq (q.processTrigger role) 8
  rw [EventQ.ready, h]
  exact processTrigger_size q role

@[simp] theorem ready_stopWhenFull (q : EventQ) (role : EventTriggerRole) :
    (q.ready role).stopWhenFull = q.stopWhenFull := by
  obtain ⟨current, full, h⟩ := adjustCurrent_eq (q.processTrigger role) 8
  rw [EventQ.ready, h]
  exact processTrigger_stopWhenFull q role

/-- What `FINI_EVENT` may change. -/
theorem finiEvent_eq (q : EventQ) (size : Nat) : ∃ current full done,
    q.finiEvent size = { q with current := some current, full := full, done := done } := by
  unfold EventQ.finiEvent
  dsimp only
  split
  · split
    · exact ⟨_, _, _, rfl⟩
    · exact ⟨_, _, q.done, rfl⟩
  · exact ⟨_, q.full, q.done, rfl⟩

theorem emitT_done (h : (q.processTrigger e.role).done = true) : q.emitT e = q.processTrigger e.role := if_pos h

theorem emitT_not_done (h : (q.processTrigger e.role).done ≠ true) :
    q.emitT e = ((q.ready e.role).store e).finiEvent e.payload.size.toNat := if_neg h

end OpenCpi.Time
