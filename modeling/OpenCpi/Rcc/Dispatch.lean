import OpenCpi.Rcc.Worker

/-!
# What a turn of an RCC worker executes

The run condition of `OcpiRccWorker.cxx`: the masks that `initializeContext` sets up, `getReadyPorts`, and
`run` up to the call of the run method. What the run method returns is in `Rcc.Worker`. A port mask has bit
`n` for port `n`.

The answers of `checkReady` and of the callbacks, and whether the timer stands at more than the timeout, are
parts of the state; a callback does not change which ports have one. A shift by 32 is that of the processors,
which take the distance modulo 32.
-/

namespace OpenCpi.Rcc.Running

/-- `RCCPortMask` -/
abbrev PortMask := BitVec 32

/-- `RCCRunCondition`. `none` is a null pointer; the masks are those before the 0 at the end. -/
structure RunCondition where
  portMasks : Option (List {mask : PortMask // mask ≠ 0})
  timeout : Bool
deriving DecidableEq, Repr

/-- The ports that are in a mask. -/
def RunCondition.union (c : RunCondition) : PortMask :=
  (c.portMasks.getD []).foldl (fun ss mask => ss ||| mask.1) 0

/-! ## Setting up -/

/-- `~(-1 << m_nPorts)` -/
def ourMask (nPorts : Nat) : PortMask := ~~~((-1 : PortMask) <<< (nPorts % 32))

/-- `m_defaultRunCondition` -/
def defaultRunCondition (nPorts : Nat) : RunCondition :=
  { portMasks :=
      if nPorts = 0 then none
      else if h : ourMask nPorts = 0 then some []
      else some [⟨ourMask nPorts, h⟩]
    timeout := false }

/-- The masks of `initializeContext`: `m_runCondition` and `runConditionSS`. -/
def initMasks (nPorts : Nat) (optionallyConnectedPorts : PortMask) (runCondition : Option RunCondition) :
    Except String (RunCondition × PortMask) :=
  if ~~~ourMask nPorts &&& optionallyConnectedPorts ≠ 0 then .error "optional port mask is invalid"
  else
    match runCondition with
    | some c =>
      if (c.portMasks.getD []).any (fun mask => ~~~ourMask nPorts &&& mask.1 ≠ 0) then
        .error "run condition mask is invalid"
      else .ok (c, c.union)
    | none => .ok (defaultRunCondition nPorts, ourMask nPorts)

/-! ## The worker -/

/-- A port of a worker. `ready` is what `checkReady` returns, `callBack` what the callback returns. -/
structure Port where
  containerPort : Bool
  ready : Bool
  callBack : Option RCCResult
deriving DecidableEq, Repr

/-- What `run` depends on. `expired`: the timer stands at more than the timeout. -/
structure Worker where
  ports : List Port
  connectedPorts : PortMask
  optionallyConnectedPorts : PortMask
  runCondition : RunCondition
  expired : Bool
  hasRun : Bool
  enabled : Bool
  ports_le : ports.length ≤ 32
  optional_lt : ∀ n, optionallyConnectedPorts.getLsbD n = true → n < ports.length

/-- The loop of `getReadyPorts`. -/
def readyLoop (candidates : PortMask) : List Port → PortMask → PortMask → PortMask
  | [], _, readyMask => readyMask
  | port :: ports, portMask, readyMask =>
    readyLoop candidates ports (portMask <<< 1)
      (if candidates &&& portMask ≠ 0 ∧ port.containerPort ∧ port.ready then readyMask ||| portMask
        else readyMask)

/-- `getReadyPorts`; `runConditionSS` is the union of the masks. -/
def Worker.getReadyPorts (w : Worker) : PortMask :=
  readyLoop (w.connectedPorts &&& w.runCondition.union) w.ports 1 0

/-- The ready ports and the optional ones that are not connected. -/
def Worker.readyMask (w : Worker) : PortMask :=
  w.getReadyPorts ||| w.optionallyConnectedPorts &&& ~~~w.connectedPorts

/-- The run condition: when it is met, the ready mask then and whether there was a timeout. -/
def Worker.evaluate (w : Worker) : Option (PortMask × Bool) :=
  match w.runCondition.portMasks with
  | none => some (0, false)
  | some masks =>
    if w.runCondition.timeout ∧ w.expired then some (0, true)
    else if masks = [] ∨ w.readyMask = 0 then none
    else if masks.any fun mask => mask.1 &&& w.readyMask = mask.1 then some (w.readyMask, false)
    else none

/-! ## Execution -/

inductive Call where
  | callBack (port : Nat)
  | run (timeout : Bool)
deriving DecidableEq, Repr

/-- What was executed, and the indices at which `m_context->ports` was read. -/
structure Turn where
  calls : List Call
  indexed : List Nat
  executeRun : Bool
  enabled : Bool
deriving DecidableEq, Repr

/-- One port of the loop. After a callback that fails the worker is not enabled. -/
def Turn.visit (ports : List Port) (pord : Nat) (t : Turn) : Turn :=
  let t := { t with indexed := t.indexed ++ [pord] }
  match ports[pord]?.bind (·.callBack) with
  | none => t
  | some rc =>
    { t with
      calls := t.calls ++ [.callBack pord]
      executeRun := false
      enabled := t.enabled && decide (rc = .ok) }

/-- The loop over the ports, for so many turns; `none`: it has not come to its end. -/
def dispatchLoop (ports : List Port) (readyMask : PortMask) : Nat → PortMask → Nat → Turn → Option Turn
  | 0, _, _, _ => none
  | fuel + 1, mtest, pord, t =>
    if mtest < readyMask then
      dispatchLoop ports readyMask fuel (mtest <<< 1) (pord + 1)
        (if mtest &&& readyMask ≠ 0 then t.visit ports pord else t)
    else some t

/-- `run`. Where a callback failed, the assertion after the loop does too; the run method is not called then
in either case. -/
def Worker.run (fuel : Nat) (w : Worker) : Option Turn :=
  if !w.enabled then some ⟨[], [], false, false⟩
  else
    match w.evaluate with
    | none => some ⟨[], [], false, true⟩
    | some (readyMask, timeout) =>
      (dispatchLoop w.ports readyMask fuel 1 0 ⟨[], [], true, true⟩).map fun t =>
        if w.hasRun ∧ t.executeRun then { t with calls := t.calls ++ [.run timeout] } else t

end OpenCpi.Rcc.Running
