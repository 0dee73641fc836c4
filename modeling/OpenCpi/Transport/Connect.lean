import Mathlib.Algebra.Group.Nat.Defs
import OpenCpi.Infra.Exc

/-!
# The request for a new connection

`OcpiTransport.cxx`: `createCircuit` with `NewConnectionFlag`, `requestNewConnection`, and `dispatch` with the
requests of others that it handles while the call waits (`checkMailBoxes`).

From outside come the requests that stand in the mailboxes, whether the timer has expired, whether the own
mailbox is available, whether an endpoint is known or supported, where the allocator finds memory, and the error
code of the server. The ports of a circuit, the endpoints and the transfers are left out. A listener returns or
throws. A transport that does not use mailboxes has turns without requests.
-/

namespace OpenCpi.NewConnection

open Infra

/-! ## The transport -/

/-- How a call is left other than by its return. -/
inductive Failure where
  /-- An exception, which `catch (...)` sees. -/
  | thrown
  /-- A failed assertion, or a circuit that is not there any more. -/
  | crashed
  /-- `lock` of a mutex that is held. -/
  | blocked
deriving DecidableEq, Repr

/-- Shared memory that the allocator of an endpoint gave out, with the number of the allocation. -/
structure Memory where
  endpoint : Nat
  offset : Nat
  serial : Nat
deriving DecidableEq, Repr

/-- Whether the memory stands at the offset of the endpoint. -/
def Memory.isAt (m : Memory) (endpoint offset : Nat) : Bool := m.endpoint == endpoint && m.offset == offset

/-- A circuit, with the memory for the protocol text. The address tells circuits apart: those made later have
greater addresses. -/
structure Circuit where
  address : Nat
  id : Nat
  protocolSize : Nat := 0
  protocolOffset : Nat := 0
deriving DecidableEq, Repr

/-- `locks` are the mutexes of `getMailBoxLock` by the hash code, `control` is `m_CSendpoint`, and `memory` is
what is allocated, with `nextSerial` for the next allocation. -/
structure Transport where
  circuits : List Circuit
  nextAddress : Nat
  nextCircuitId : Nat
  locks : Nat → Bool
  control : Nat
  memory : List Memory
  nextSerial : Nat
  hasListener : Bool
  circuits_lt : ∀ c ∈ circuits, c.address < nextAddress
  memory_lt : ∀ m ∈ memory, m.serial < nextSerial

namespace Transport

/-- `getCircuit` -/
def getCircuit (t : Transport) (id : Nat) : Option Circuit := t.circuits.find? (·.id == id)

def setLock (t : Transport) (server : Nat) (held : Bool) : Transport :=
  { t with locks := fun n => if n = server then held else t.locks n }

/-- `push_back` of a new circuit. -/
def push (t : Transport) (id : Nat) : Transport :=
  { t with
    circuits := t.circuits ++ [{ address := t.nextAddress, id }]
    nextAddress := t.nextAddress + 1
    circuits_lt := by
      intro c hc
      rcases List.mem_append.mp hc with h | h
      · exact Nat.lt_succ_of_lt (t.circuits_lt c h)
      · rw [List.mem_singleton.mp h]
        exact Nat.lt_succ_self _ }

/-- `m_circuits.erase` -/
def erase (t : Transport) (address : Nat) : Transport :=
  { t with
    circuits := t.circuits.filter (·.address != address)
    circuits_lt := fun c hc => t.circuits_lt c (List.mem_filter.mp hc).1 }

/-- `setProtocolInfo` of a circuit. -/
def setProtocolInfo (t : Transport) (address size offset : Nat) : Transport :=
  { t with
    circuits := t.circuits.map fun c =>
      if c.address = address then { c with protocolSize := size, protocolOffset := offset } else c
    circuits_lt := by
      intro c hc
      obtain ⟨d, hd, rfl⟩ := List.mem_map.mp hc
      have h : d.address < t.nextAddress := t.circuits_lt d hd
      split
      · exact h
      · exact h }

/-- `m_nextCircuitId++` -/
def takeId (t : Transport) : Transport := { t with nextCircuitId := (t.nextCircuitId + 1) % 2 ^ 32 }

def addMemory (t : Transport) (endpoint offset : Nat) : Transport :=
  { t with
    memory := t.memory ++ [⟨endpoint, offset, t.nextSerial⟩]
    nextSerial := t.nextSerial + 1
    memory_lt := by
      intro m hm
      rcases List.mem_append.mp hm with h | h
      · exact Nat.lt_succ_of_lt (t.memory_lt m h)
      · rw [List.mem_singleton.mp h]
        exact Nat.lt_succ_self _ }

def freeMemory (t : Transport) (endpoint offset : Nat) : Transport :=
  { t with
    memory := t.memory.filter fun m => !m.isAt endpoint offset
    memory_lt := fun m hm => t.memory_lt m (List.mem_filter.mp hm).1 }

end Transport

/-- A method of the transport. -/
abbrev Method (α : Type) := Exc Transport Failure α

/-! ## Memory and circuits -/

/-- `sMemResourceMgr->alloc`, with its answer and the exception that follows when there is no memory. -/
def alloc (endpoint : Nat) : Option Nat → Method Nat
  | none => Exc.raise .thrown
  | some offset => do
    Exc.change (·.addMemory endpoint offset)
    pure offset

/-- `sMemResourceMgr->free`, which asserts that the memory is in use. -/
def free (endpoint offset : Nat) : Method Unit := do
  let t ← Exc.read
  if t.memory.any (·.isAt endpoint offset) then Exc.change (·.freeMemory endpoint offset)
  else Exc.raise .crashed

/-- `deleteCircuit`. A circuit that is not in the list makes `erase` go wrong. -/
def deleteCircuit (address : Nat) : Method Unit := do
  let t ← Exc.read
  if t.circuits.any (·.address == address) then Exc.change (·.erase address) else Exc.raise .crashed

/-- The number of the new circuit: an existing circuit with the number is deleted. -/
def chooseId (cid : Nat) : Method Nat := do
  let t ← Exc.read
  if cid = 0 then
    Exc.change (·.takeId)
    pure t.nextCircuitId
  else
    match t.getCircuit cid with
    | some circuit =>
      deleteCircuit circuit.address
      pure cid
    | none => pure cid

/-- `createCircuit` up to the flags. The result is the address of the new circuit. -/
def addCircuit (cid : Nat) : Method Nat := do
  let id ← chooseId cid
  let t ← Exc.read
  Exc.change (·.push id)
  pure t.nextAddress

/-! ## Requests of others -/

/-- A request in a mailbox. `known` says that the endpoint it names is known or supported. Of a new connection
the answer of the allocator and what the listener does belong to it. -/
inductive Request where
  | newConnection (circuitId protocolSize : Nat) (known : Bool) (room : Option Nat) (throws : Bool)
  | outputControlOffset (circuitId protocolOffset : Nat) (known : Bool)
  | other (circuitId : Nat)
deriving DecidableEq, Repr

/-- The circuit that a request names, which must be known. -/
def circuitOf (id : Nat) : Method Circuit := do
  let t ← Exc.read
  match t.getCircuit id with
  | some circuit => pure circuit
  | none => Exc.raise .crashed

/-- The memory for the text that a client is going to send. -/
def allocProtocol (protocolSize : Nat) (room : Option Nat) : Method Nat := do
  let t ← Exc.read
  if protocolSize = 0 then pure 0 else alloc t.control room

/-- `ReqNewConnection` with a listener. -/
def accept (circuitId protocolSize : Nat) (room : Option Nat) (throws : Bool) : Method Unit := do
  let offset ← allocProtocol protocolSize room
  let address ← addCircuit circuitId
  Exc.change (·.setProtocolInfo address protocolSize offset)
  if throws then Exc.raise .thrown else pure ()

/-- `ReqOutputControlOffset`: the text has been sent, and its memory is freed. -/
def sendProtocol (circuit : Circuit) (protocolOffset : Nat) : Method Unit := do
  let t ← Exc.read
  if protocolOffset = 0 then pure ()
  else if circuit.protocolSize = 0 then Exc.raise .crashed
  else free t.control circuit.protocolOffset

/-- The body of the loop of `checkMailBoxes`. -/
def checkMailBox : Request → Method Unit
  | .newConnection circuitId protocolSize known room throws => do
    let t ← Exc.read
    if t.hasListener then
      if known then accept circuitId protocolSize room throws else Exc.raise .thrown
    else pure ()
  | .outputControlOffset circuitId protocolOffset known => do
    let circuit ← circuitOf circuitId
    if known then sendProtocol circuit protocolOffset else Exc.raise .thrown
  | .other circuitId => do
    let _ ← circuitOf circuitId
    pure ()

/-- `dispatch` -/
def dispatch : List Request → Method Unit
  | [] => pure ()
  | r :: rs => do
    checkMailBox r
    dispatch rs

/-! ## The request -/

/-- A turn of a waiting loop, in which the own mailbox is not available: the requests that `dispatch` meets, and
what the timer says. -/
structure Turn where
  requests : List Request
  expired : Bool
deriving DecidableEq, Repr

/-- A call. `supported` says that there is a factory for the own location and that the server's is known,
`server` is the hash code of the server's location and `client` the endpoint of the own location. `busy` and
`waiting` are the turns of the two loops, `room` is where the allocator finds memory. -/
structure Call where
  cid : Nat
  supported : Bool
  server : Nat
  client : Nat
  timer : Bool
  busy : List Turn
  protocol : Option (List UInt8)
  room : Option Nat
  waiting : List Turn
  errorCode : Nat
deriving DecidableEq, Repr

namespace Call

/-- `timer && timer->expired()` -/
def late (call : Call) (turn : Turn) : Bool := call.timer && turn.expired

/-- `mutex->unlock()` and the exception. -/
def giveUp {α : Type} (call : Call) : Method α := do
  Exc.change (·.setLock call.server false)
  Exc.raise .thrown

/-- The loop that waits for the own mailbox. -/
def waitUntilFree (call : Call) : List Turn → Method Unit
  | [] => pure ()
  | turn :: turns => do
    dispatch turn.requests
    if call.late turn then call.giveUp else call.waitUntilFree turns

/-- The loop that waits for the answer. -/
def waitForAnswer (call : Call) : List Turn → Method Unit
  | [] => pure ()
  | turn :: turns =>
    if call.late turn then call.giveUp
    else do
      dispatch turn.requests
      call.waitForAnswer turns

/-- The part on `protocol`. -/
def placeProtocol (call : Call) (address : Nat) : Method Unit :=
  match call.protocol with
  | some protocol => do
    let offset ← alloc call.client call.room
    Exc.change (·.setProtocolInfo address (protocol.length + 1) offset)
  | none => pure ()

/-- `mutex->lock()` -/
def lockMailBox (call : Call) : Method Unit := do
  let t ← Exc.read
  if t.locks call.server then Exc.raise .blocked else Exc.change (·.setLock call.server true)

/-- What follows the second loop. -/
def finish (call : Call) : Method Unit :=
  if call.errorCode ≠ 0 then call.giveUp else Exc.change (·.setLock call.server false)

/-- `requestNewConnection` -/
def requestNewConnection (call : Call) (address : Nat) : Method Unit :=
  if call.supported then do
    call.lockMailBox
    call.waitUntilFree call.busy
    call.placeProtocol address
    call.waitForAnswer call.waiting
    call.finish
  else Exc.raise .thrown

/-- `createCircuit` with `NewConnectionFlag`. -/
def createCircuit (call : Call) : Method Nat := do
  let address ← addCircuit call.cid
  Exc.cleaned (· == Failure.thrown) (call.requestNewConnection address) (deleteCircuit address)
  pure address

end Call

end OpenCpi.NewConnection
