import Mathlib.Data.List.Basic
import OpenCpi.Infra.Exc
import OpenCpi.Infra.Run

/-!
# The control states of an RCC worker

`OcpiWorker.cxx` and `OcpiRccWorker.cxx`. A worker is a table of methods (`RCCDispatch`) that the
container calls: `initialize`, `start`, `stop` and so on for control operations, and `run` from the
dispatch loop. The state is kept twice, in `m_state` and in `enabled`.

All operations of one worker hold its mutex, so each is one step here. What a method does is a
parameter of the step: it may use the worker's ports, and a port that fails calls `portError`, which
calls the methods `stop` and `release` from inside. Timers and the run condition itself are left
out: whether the condition is met is a parameter.
-/

namespace OpenCpi.Rcc

open Infra

/-! ## Operations and states -/

/-- `ControlState`; `existing` is `EXISTS`. -/
inductive ControlState where
  | existing
  | initialized
  | operating
  | suspended
  | finished
  | unusable
deriving DecidableEq, Repr

/-- `controlStateNames` -/
def ControlState.name : ControlState → String
  | .existing => "EXISTS"
  | .initialized => "INITIALIZED"
  | .operating => "OPERATING"
  | .suspended => "SUSPENDED"
  | .finished => "FINISHED"
  | .unusable => "UNUSABLE"

/-- `ControlOperation`; `init` is `OpInitialize`. -/
inductive ControlOperation where
  | init
  | start
  | stop
  | release
  | beforeQuery
  | afterConfigure
  | test
deriving DecidableEq, Repr

/-- `controlOpNames` -/
def ControlOperation.name : ControlOperation → String
  | .init => "initialize"
  | .start => "start"
  | .stop => "stop"
  | .release => "release"
  | .beforeQuery => "beforeQuery"
  | .afterConfigure => "afterConfigure"
  | .test => "test"

/-- `controlTransitions`: the states in which the operation is valid and the next state; `none` is
`NONE`. -/
def controlTransitions : ControlOperation → List ControlState × Option ControlState
  | .init => ([.existing], some .initialized)
  | .start => ([.suspended, .initialized], some .operating)
  | .stop => ([.operating, .finished], some .suspended)
  | .release => ([.initialized, .operating, .suspended, .finished], some .existing)
  | .beforeQuery => ([.initialized, .operating, .suspended, .finished], none)
  | .afterConfigure => ([.initialized, .operating, .suspended], none)
  | .test => ([.initialized], none)

/-- `RCCResult` -/
inductive RCCResult where
  | ok
  | error
  | fatal
  | done
  | advance
  | advanceDone
deriving DecidableEq, Repr

/-- A method of the dispatch table. -/
inductive Method where
  | op (o : ControlOperation)
  | run
deriving DecidableEq, Repr

/-- Which methods the worker has, and its names for error texts. -/
structure Dispatch where
  has : Method → Bool
  name : String
  implTag : String
  instTag : String

/-- What is recorded of the calls to methods. A method that the worker does not have is recorded as
one that does nothing. -/
inductive Event where
  | call (m : Method) (state : ControlState) (enabled : Bool)
  | ret (m : Method) (rc : RCCResult) (failed : Bool)
deriving DecidableEq, Repr

inductive Status where
  | alive
  | destroyed
  | aborted
deriving DecidableEq, Repr

/-- The worker. `calls` is a record, the latest first. -/
structure Worker where
  state : ControlState
  enabled : Bool
  errorString : Option String
  calls : List Event
  status : Status
deriving DecidableEq, Repr

/-- What is thrown: `OU::Error`, `OU::EmbeddedException`, or a failed assertion, which stops the
process. -/
inductive Throw where
  | error (text : String)
  | workerError (text : Option String)
  | workerFatal (text : Option String)
  | workerApiError
  | testNotImplemented
  | assertion
deriving DecidableEq, Repr

abbrev M (α : Type) := Exc Worker Throw α

open Exc

def setControlState (s : ControlState) : M Unit := change ({ · with state := s })

def setEnabled (e : Bool) : M Unit := change ({ · with enabled := e })

def record (e : Worker → Event) : M Unit := change fun w => { w with calls := e w :: w.calls }

/-! ## Control operations -/

/-- Call a method; `body` is what it does. -/
def call (d : Dispatch) (m : Method) (body : M RCCResult) : M RCCResult := do
  record fun w => .call m w.state w.enabled
  let rc ← if d.has m then body else pure .ok
  record fun w => .ret m rc w.errorString.isSome
  return rc

/-- Take the error text that a method left. -/
def takeError : M (Option String) := do
  let w ← Exc.read
  change ({ · with errorString := none })
  return w.errorString

/-- The end of `controlOperation`. -/
def checkResult (rc : RCCResult) : M Unit := do
  let err ← takeError
  match rc with
  | .ok => pure ()
  | .error => raise (.workerError err)
  | .fatal => do
    setEnabled false
    setControlState .unusable
    raise (.workerFatal err)
  | _ => do
    setEnabled false
    raise .workerApiError

/-- `" instance '…'"` or nothing. -/
def Dispatch.inst (d : Dispatch) : String := if d.instTag = "" then "" else s!" instance '{d.instTag}'"

/-- `Worker::controlOperation`. `connected` says whether all mandatory ports are connected. -/
def controlOperation (d : Dispatch) (op : ControlOperation) (connected : Bool)
    (body : M RCCResult) : M Unit :=
  match op with
  | .start =>
    if connected then do
      let rc ← call d (.op .start) body
      if rc = .ok then do
        setEnabled true
        checkResult rc
      else checkResult rc
    else raise (.error s!"A port of{d.inst} worker '{d.implTag}' is not connected")
  | .stop => do
    let rc ← call d (.op .stop) body
    if rc = .ok then do
      setEnabled false
      setControlState .suspended
      checkResult rc
    else checkResult rc
  | .release => do
    setEnabled false
    let rc ← call d (.op .release) body
    setControlState .unusable
    checkResult rc
  | .test =>
    if d.has (.op .test) then do
      let rc ← call d (.op .test) body
      checkResult rc
    else raise .testNotImplemented
  | .init | .beforeQuery | .afterConfigure => do
    let rc ← call d (.op op) body
    checkResult rc

/-- `Worker::portError`, given what the methods `stop` and `release` do. -/
def portError (d : Dispatch) (stop release : M RCCResult) : M Unit := do
  setEnabled false
  controlOperation d .stop true stop
  controlOperation d .release true release
  setControlState .unusable

/-- What a method does: it returns, maybe after leaving an error text, or uses a port that fails.
The methods that `portError` calls behave in some way themselves. -/
inductive Behaviour where
  | returns (rc : RCCResult) (err : Option String)
  | portError (stop release rest : Behaviour)
deriving DecidableEq, Repr

def Behaviour.exec (d : Dispatch) : Behaviour → M RCCResult
  | .returns rc err => do
    change fun w => { w with errorString := err <|> w.errorString }
    return rc
  | .portError stop release rest => do
    Rcc.portError d (stop.exec d) (release.exec d)
    rest.exec d

/-- `Worker::controlOp` -/
def controlOp (d : Dispatch) (op : ControlOperation) (connected : Bool) (body : M RCCResult) :
    M Unit := do
  let w ← Exc.read
  let (valid, next) := controlTransitions op
  if w.state = .finished ∧ (op = .stop ∨ op = .start) then pure ()
  else if next = some w.state then pure ()
  else if w.state ∈ valid then do
    controlOperation d op connected body
    match next with
    | some s => setControlState s
    | none => pure ()
  else
    let slash := if d.instTag = "" then "" else "/"
    let impl := d.implTag
    let inst := d.instTag
    let opName := op.name
    let stateName := w.state.name
    raise (.error
      s!"Control operation '{opName}' failed on worker '{impl}{slash}{inst}' in state: '{stateName}'")

/-! ## Running -/

/-- What happens in `Worker::run`: the ports that are asked whether they are ready may fail, the run
condition is met or not, and the port callbacks, the `run` method and `advanceAll` do something. -/
structure Turn where
  ready : Behaviour
  met : Bool
  callbacks : List Behaviour
  body : Behaviour
  advance : Behaviour
deriving DecidableEq, Repr

def assertEnabled : M Unit := do
  let w ← Exc.read
  if w.enabled then pure () else raise .assertion

/-- The loop over the ports that have a callback. -/
def callBacks (d : Dispatch) : List Behaviour → M Unit
  | [] => pure ()
  | b :: rest => do
    let rc ← b.exec d
    if rc = .ok then callBacks d rest
    else do
      setEnabled false
      setControlState .unusable
      callBacks d rest

/-- What `Worker::run` does with the result of the `run` method. -/
def afterRun (d : Dispatch) (rc : RCCResult) (advanceAll : Behaviour) : M Unit := do
  match rc with
  | .ok => pure ()
  | .advance => do
    let _ ← advanceAll.exec d
    pure ()
  | .advanceDone => do
    let _ ← advanceAll.exec d
    setEnabled false
    setControlState .finished
  | .done => do
    setEnabled false
    setControlState .finished
  | .error | .fatal => do
    setEnabled false
    setControlState .unusable

/-- The part of `Worker::run` that calls the `run` method. -/
def callRun (d : Dispatch) (t : Turn) : M Unit := do
  let rc ← call d .run (t.body.exec d)
  let err ← takeError
  match err with
  | some e =>
    let name := d.name
    raise (.error s!"Worker {name} produced error during execution: {e}")
  | none => do
    let w ← Exc.read
    if w.state = .unusable then pure () else afterRun d rc t.advance

def run (d : Dispatch) (t : Turn) : M Unit := do
  let w ← Exc.read
  if w.enabled then do
    let _ ← t.ready.exec d
    assertEnabled
    if t.met then do
      callBacks d t.callbacks
      assertEnabled
      if d.has .run && t.callbacks.isEmpty then callRun d t else pure ()
    else pure ()
  else pure ()

/-- `~Worker` -/
def destroy (d : Dispatch) (stop release : Behaviour) : M Unit := do
  let w ← Exc.read
  if w.enabled then do
    setEnabled false
    controlOperation d .stop true (stop.exec d)
  else pure ()
  controlOperation d .release true (release.exec d)

/-! ## Runs -/

inductive Op where
  | control (op : ControlOperation) (connected : Bool) (b : Behaviour)
  | run (t : Turn)
  | portError (stop release : Behaviour)
  | destroy (stop release : Behaviour)
deriving DecidableEq, Repr

/-- The worker after an operation. Exceptions go to the caller. -/
def after (m : M Unit) (status : Status) (w : Worker) : Worker :=
  match m w with
  | (.error .assertion, w) => { w with status := .aborted }
  | (_, w) => { w with status }

def step (d : Dispatch) (w : Worker) (op : Op) : Option Worker :=
  if w.status = .alive then
    some <| match op with
      | .control op connected b => after (controlOp d op connected (b.exec d)) .alive w
      | .run t => after (run d t) .alive w
      | .portError stop release =>
        after (Rcc.portError d (stop.exec d) (release.exec d)) .alive w
      | .destroy stop release => after (destroy d stop release) .destroyed w
  else none

/-- The worker after its constructor. -/
def created : Worker :=
  { state := .existing, enabled := false, errorString := none, calls := [], status := .alive }

end OpenCpi.Rcc
