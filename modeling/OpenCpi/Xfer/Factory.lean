import Mathlib.Algebra.Group.Nat.Defs
import Mathlib.Data.List.Basic
import OpenCpi.Infra.Run

/-!
# Endpoints and mailboxes

`XferFactory` of `DtTransferInternal.cxx`. A factory keeps the set of its endpoints and, for the
local ones, a table by mailbox number (`m_locations`). New numbers come from a counter of the whole
process or from a search in the table.

The driver makes the text of an endpoint; what it chooses is a parameter (`name`), and the text keeps
the mailbox that the driver is given. Numbers are of 16 bits. `maxMailBox` is what `getMaxMailBox`
returns, which does not change.
-/

namespace OpenCpi.Xfer

open Infra

/-- The text of an endpoint. -/
structure Text where
  name : Nat
  mailbox : Nat
deriving DecidableEq, Repr

/-- `EndPoint`; `id` stands for its address. -/
structure EndPoint where
  id : Nat
  text : Text
  isLocal : Bool
  refCount : Nat
deriving DecidableEq, Repr

def EndPoint.mailbox (e : EndPoint) : Nat := e.text.mailbox

/-- The factory and the counter of the process. `fresh` is the address of the next endpoint. -/
structure Factory where
  nextMailBox : Nat
  locations : List (Option Nat)
  endPoints : List EndPoint
  fresh : Nat
deriving DecidableEq, Repr

/-- `DDT::MAX_SYSTEM_SMBS` -/
def maxSystemSmbs : Nat := 20

/-- What a call ends with. In a table of full size without a used slot from 1 on the counter of the
search wraps: the loop does not end, or it ends at slot 0 when that one is used. `hangs` stands for
both. -/
inductive Outcome where
  | done (e : Option EndPoint)
  | exists_ (text : Text)
  | differentMax (maxMb : Nat)
  | exhausted
  | hangs
deriving DecidableEq, Repr

/-- The texts of the errors, but for the endpoint and the protocol. -/
def Outcome.message : Outcome → Option String
  | .exists_ _ => some "Local explicit endpoint already exists"
  | .differentMax _ => some "Remote end point has different number of mailbox slots"
  | .exhausted => some "Mailboxes for endpoints for protocol are exhausted"
  | _ => none

/-! ## Numbers -/

/-- `getNextMailBox` -/
def Factory.draw (f : Factory) : Nat × Factory :=
  (f.nextMailBox, { f with nextMailBox := (f.nextMailBox + 1) % 2 ^ 16 })

/-- The table at a number. -/
def Factory.at (f : Factory) (n : Nat) : Option Nat := f.locations.getD n none

/-- Whether the search stops at a number. -/
def Factory.stops (f : Factory) (mailBox n : Nat) : Bool := n != mailBox && (f.at n).isSome

/-- The search of `addCompatibleLocalEndPoint`: the number at which it stops. -/
def Factory.search (f : Factory) (mailBox : Nat) : Nat :=
  (((List.range f.locations.length).filter (1 ≤ ·)).find? (f.stops mailBox)).getD
    (max 1 f.locations.length)

/-! ## Endpoints -/

/-- `m_locations.resize` and the assignment. -/
def setLocation (locations : List (Option Nat)) (n : Nat) (v : Option Nat) : List (Option Nat) :=
  (locations ++ List.replicate (n + 1 - locations.length) none).set n v

/-- `addEndPoint` -/
def Factory.addEndPoint (f : Factory) (text : Text) (isLocal : Bool) : Factory × EndPoint :=
  let e : EndPoint := ⟨f.fresh, text, isLocal, 1⟩
  ({ f with
      endPoints := f.endPoints ++ [e]
      locations := if isLocal then setLocation f.locations text.mailbox (some e.id) else f.locations
      fresh := f.fresh + 1 }, e)

/-- `removeEndPoint` -/
def Factory.removeEndPoint (f : Factory) (e : EndPoint) : Factory :=
  { f with
    locations := if e.isLocal then setLocation f.locations e.mailbox none else f.locations
    endPoints := f.endPoints.filter (·.id != e.id) }

def Factory.find (f : Factory) (text : Text) : Option EndPoint := f.endPoints.find? (·.text = text)

def Factory.count (f : Factory) (id n : Nat) : Factory :=
  { f with endPoints := f.endPoints.map fun e => if e.id = id then { e with refCount := n } else e }

/-- `getEndPoint` -/
def Factory.getEndPoint (f : Factory) (text : Text) (isLocal cantExist : Bool) : Factory × Outcome :=
  match f.find text with
  | some e => if cantExist then (f, .exists_ text) else (f.count e.id (e.refCount + 1), .done (some e))
  | none =>
    let (f, e) := f.addEndPoint text isLocal
    (f, .done (some e))

/-- `EndPoint::release`; an endpoint that is not there cannot be released. -/
def Factory.release (f : Factory) (id : Nat) : Factory × Outcome :=
  match f.endPoints.find? (·.id = id) with
  | some e =>
    if e.refCount ≤ 1 then (f.removeEndPoint e, .done none)
    else (f.count id (e.refCount - 1), .done none)
  | none => (f, .done none)

/-! ## Allocation -/

variable (maxMailBox : Nat)

/-- `addCompatibleLocalEndPoint`, where the number is known. -/
def Factory.addLocal (f : Factory) (name n : Nat) : Factory × Outcome :=
  let (f, e) := f.addEndPoint ⟨name, n⟩ true
  (f, .done (some e))

/-- `addCompatibleLocalEndPoint` -/
def Factory.addCompatible (f : Factory) (name mailBox maxMb : Nat) : Factory × Outcome :=
  if maxMb ≠ 0 ∧ maxMb ≠ maxMailBox then (f, .differentMax maxMb)
  else if mailBox = 0 then
    let (n, f) := f.draw
    f.addLocal name n
  else
    let n := f.search mailBox
    if 2 ^ 16 ≤ n then (f, .hangs)
    else if n = maxSystemSmbs ∨ maxMailBox < n then (f, .exhausted)
    else if f.locations.length ≤ n then
      let (n, f) := f.draw
      f.addLocal name n
    else f.addLocal name n

/-- The calls. `allocateEndpoints` is also for the numbers that other factories draw; the texts go
to the caller, who may add them with `getEndPoint`. -/
inductive Call where
  | allocateEndpoints
  | allocateProxyEndPoint (name : Nat)
  | getEndPoint (text : Text) (isLocal cantExist : Bool)
  | addCompatible (name mailBox maxMb : Nat)
  | release (id : Nat)
deriving DecidableEq, Repr

def Factory.call (f : Factory) : Call → Factory × Outcome
  | .allocateEndpoints => (f.draw.2, .done none)
  | .allocateProxyEndPoint name =>
    let (n, f) := f.draw
    f.getEndPoint ⟨name, n⟩ false true
  | .getEndPoint text isLocal cantExist => f.getEndPoint text isLocal cantExist
  | .addCompatible name mailBox maxMb => f.addCompatible maxMailBox name mailBox maxMb
  | .release id => f.release id

def Factory.step (f : Factory) (c : Call) : Option Factory :=
  if (f.call maxMailBox c).2 = .hangs then none else some (f.call maxMailBox c).1

/-- A new factory, when the counter is at some number. -/
def Factory.start (nextMailBox : Nat) : Factory := ⟨nextMailBox, [], [], 0⟩

end OpenCpi.Xfer
