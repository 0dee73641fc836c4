import Mathlib.Data.List.Basic
import Mathlib.Logic.Function.Basic
import OpenCpi.Infra.Run

/-!
# The ports of RCC workers and their buffers

`OcpiRccPort.h`, `OcpiRccPort.cxx` and the container functions of `OcpiRccWorker.cxx`. A port asks its
transport port for a buffer (`request`), and while it holds one the worker sees its data in `current`. Buffers
are known by numbers, and `ud` is `m_ud`: the port that last got the buffer. The state has the ports of all
workers.

What the transport answers is a parameter of the operation: whether the port is finalized, the next buffer if
there is one, and whether a buffer could be sent or released. When that fails, `error` calls methods of the
worker, which use the ports; the operation is cut there, and what comes after it in the source is an operation
of its own. A buffer has data that is not null, and resetting a transport port does not fail. `none` is an
assertion that fails or a null pointer that is followed.
-/

namespace OpenCpi.Rcc.Ports

/-- `Port`; `mode` says that `m_mode` is set, `data` that `m_rccPort.current.data` is not null. -/
structure Port where
  isProvider : Bool
  mode : Bool
  dtPort : Option Nat
  localOther : Option Nat
  buffer : Option Nat
  wantsBuffer : Bool
  data : Bool
  containerBuffer : Option Nat
deriving DecidableEq, Repr

structure State where
  ports : List Port
  ud : Nat → Option Nat

/-- A port after its constructor. -/
def Port.create (isProvider : Bool) : Port :=
  ⟨isProvider, false, none, none, none, true, false, none⟩

def boot (roles : List Bool) : State := ⟨roles.map Port.create, fun _ => none⟩

def State.setPort (i : Nat) (p : Port) (s : State) : State := { s with ports := s.ports.set i p }

/-! ## The methods of a port -/

/-- The current buffer is gone. -/
def Port.drop (p : Port) : Port := { p with buffer := none, data := false }

/-- `request`; `next` is what `getNextEmptyOutputBuffer` or `getNextFullInputBuffer` returns. -/
def State.request (i : Nat) (finalized : Bool) (next : Option Nat) (s : State) : Option State :=
  s.ports[i]?.map fun p =>
    if p.buffer.isSome then s
    else
      let p := { p with wantsBuffer := true }
      if p.dtPort.isNone ∨ !finalized then s.setPort i p
      else
        match next with
        | none => s.setPort i p
        | some b =>
          { s.setPort i { p with
              buffer := some b, data := true, containerBuffer := some b, wantsBuffer := false } with
            ud := Function.update s.ud b (some i) }

/-- The end of `request` after an error in it. -/
def State.requestTail (i : Nat) (s : State) : Option State :=
  s.ports[i]?.map fun p =>
    match p.buffer with
    | none => s
    | some b =>
      { s.setPort i { p with containerBuffer := some b, wantsBuffer := false } with
        ud := Function.update s.ud b (some i) }

/-- `checkReady` -/
def State.checkReady (i : Nat) (finalized : Bool) (next : Option Nat) (s : State) : Option State :=
  s.ports[i]?.bind fun p =>
    if p.buffer.isNone ∧ p.wantsBuffer then s.request i finalized next else some s

/-- `advance`; `sent`: the buffer could be sent or released. -/
def State.advance (i : Nat) (sent finalized : Bool) (next : Option Nat) (s : State) : Option State :=
  s.ports[i]?.bind fun p =>
    if p.buffer.isSome then
      if p.dtPort.isNone then none
      else if sent then (s.setPort i p.drop).request i finalized next
      else some s
    else s.request i finalized next

/-- `release`; an error comes after what it does to the port. -/
def State.release (i b : Nat) (s : State) : Option State :=
  s.ports[i]?.bind fun p =>
    if !p.isProvider then none
    else
      let p := if p.buffer = some b then p.drop else p
      if p.dtPort.isNone then none else some (s.setPort i p)

/-- `take`; `released`: there was no error in the release of the old buffer. -/
def State.take (i : Nat) (oldBuffer : Option Nat) (released finalized : Bool) (next : Option Nat)
    (s : State) : Option State :=
  s.ports[i]?.bind fun p =>
    let s := s.setPort i p.drop
    match oldBuffer with
    | none => s.request i finalized next
    | some old =>
      (s.ud old).bind fun bp => (s.release bp old).bind fun s =>
        if released then s.request i finalized next else some s

/-- A current buffer was sent, which is an implicit advance. -/
def Port.sent (b : Nat) (p : Port) : Port :=
  if p.buffer = some b then { p.drop with wantsBuffer := true } else p

/-- `send`; a buffer of another port is sent by `sendZcopyInputBuffer`. -/
def State.send (i b : Nat) (sent : Bool) (s : State) : Option State :=
  s.ports[i]?.bind fun p => (s.ud b).bind fun j => s.ports[j]?.bind fun bufferPort =>
    if p.dtPort.isNone then none
    else if sent then some (s.setPort j (bufferPort.sent b)) else some s

/-! ## Connections -/

/-- `startConnect`; `dtPort` is the transport port it creates, if it does. -/
def State.startConnect (i : Nat) (dtPort : Option Nat) (s : State) : Option State :=
  s.ports[i]?.bind fun p =>
    if p.mode ∨ p.dtPort.isSome then none else some (s.setPort i { p with mode := true, dtPort })

/-- `connectInside` of the output port `i` with the input port `j`; `finished`: `finishConnect` did not
fail. -/
def State.connectInside (i j dtOutput dtInput : Nat) (finished : Bool) (s : State) : Option State := do
  let p ← s.ports[i]?
  let q ← s.ports[j]?
  if p.isProvider ∨ !q.isProvider ∨ p.dtPort.isSome then none
  else
    let s ← s.startConnect j (some dtInput)
    let s ← s.startConnect i none
    let p ← s.ports[i]?
    let q ← s.ports[j]?
    let p := { p with dtPort := some dtOutput }
    if finished then
      some ((s.setPort i { p with localOther := some j }).setPort j { q with localOther := some i })
    else some (s.setPort i p)

/-- `connectURL`; `found`: there is a factory for the URL. -/
def State.connectURL (i : Nat) (found : Bool) (s : State) : Option State :=
  s.ports[i]?.map fun p =>
    let p := { p with mode := true }
    s.setPort i (if found then { p with dtPort := none } else p)

/-- The transport port and the peer are gone. -/
def Port.detach (p : Port) : Port := { p with dtPort := none, localOther := none }

/-- `disconnectInternal` -/
def State.disconnectInternal (i : Nat) (s : State) : Option State :=
  s.ports[i]?.bind fun p => if p.localOther.isNone then none else some (s.setPort i p.detach)

/-- `disconnect` -/
def State.disconnect (i : Nat) (s : State) : Option State :=
  s.ports[i]?.bind fun p =>
    ((p.localOther.map fun other => s.disconnectInternal other).getD (some s)).map fun s =>
      { s with ports := s.ports.modify i Port.detach }

/-! ## Runs -/

inductive Op where
  | checkReady (i : Nat) (finalized : Bool) (next : Option Nat)
  | rccRequest (i : Nat) (finalized : Bool) (next : Option Nat)
  | rccAdvance (i : Nat) (sent finalized : Bool) (next : Option Nat)
  /-- a turn of the loop of `advanceAll` -/
  | advanceAll (i : Nat) (sent finalized : Bool) (next : Option Nat)
  | rccRelease (b : Nat)
  | rccTake (i : Nat) (oldBuffer : Option Nat) (released finalized : Bool) (next : Option Nat)
  | rccSend (i b : Nat) (sent : Bool)
  /-- the rest of `request` and of `take` after an error -/
  | requestTail (i : Nat)
  | takeTail (i : Nat) (finalized : Bool) (next : Option Nat)
  | startConnect (i : Nat) (dtPort : Option Nat)
  | connectInside (i j dtOutput dtInput : Nat) (finished : Bool)
  | connectURL (i : Nat) (found : Bool)
  | disconnect (i : Nat)
deriving DecidableEq, Repr

/-- One operation. The container functions throw without doing anything when they are not for the port. -/
def step (s : State) : Op → Option State
  | .checkReady i finalized next => s.checkReady i finalized next
  | .rccRequest i finalized next =>
    s.ports[i]?.bind fun p => if p.data then some s else s.request i finalized next
  | .rccAdvance i sent finalized next => s.advance i sent finalized next
  | .advanceAll i sent finalized next =>
    s.ports[i]?.bind fun p => if p.data then s.advance i sent finalized next else some s
  | .rccRelease b =>
    (s.ud b).bind fun i => s.ports[i]?.bind fun p => if p.isProvider then s.release i b else some s
  | .rccTake i oldBuffer released finalized next =>
    s.ports[i]?.bind fun p =>
      if !p.isProvider ∨ !p.data then some s else s.take i oldBuffer released finalized next
  | .rccSend i b sent =>
    s.ports[i]?.bind fun p => (s.ud b).bind fun j => s.ports[j]?.bind fun bufferPort =>
      if p.isProvider ∨ j ≠ i ∧ !bufferPort.isProvider then some s else s.send i b sent
  | .requestTail i => s.requestTail i
  | .takeTail i finalized next => s.request i finalized next
  | .startConnect i dtPort => s.startConnect i dtPort
  | .connectInside i j dtOutput dtInput finished => s.connectInside i j dtOutput dtInput finished
  | .connectURL i found => s.connectURL i found
  | .disconnect i => s.disconnect i

end OpenCpi.Rcc.Ports
