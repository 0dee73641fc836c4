import Mathlib.Data.List.Basic
import Mathlib.Logic.Function.Basic

/-!
# Transfer templates

`OcpiTransferTemplate::isComplete` with the list functions of `OcpiList.cxx` that it uses. A template has
the transfer requests of its own and a list of gated transfers that are pending, which are templates as
well; the heap has the templates by their address. What the requests answer does not change during a call.

The scan removes entries from the list while it goes through it, and a template can be pending in several
lists, also in one of its own. The fuel bounds the nesting of the calls and the turns of the loops.
-/

namespace OpenCpi.Transport

/-- `XferRequest::CompletionStatus` -/
inductive CompletionStatus where
  | completeSuccess
  | completeFailure
  | pending
deriving DecidableEq, Repr

structure OcpiTransferTemplate where
  xferReq : List CompletionStatus
  gatedTransfersPending : List Nat
  sequence : Nat
  maxSequence : Nat
deriving DecidableEq, Repr

abbrev Heap := Nat → OcpiTransferTemplate

/-- `remove_from_list`: all entries with the item. -/
def removeFromList (l : List Nat) (item : Nat) : List Nat := l.filter (· != item)

/-- An entry is removed from the pending transfers of a template. -/
def Heap.remove (h : Heap) (t item : Nat) : Heap :=
  Function.update h t
    { h t with gatedTransfersPending := removeFromList (h t).gatedTransfersPending item }

mutual

/-- `isComplete` -/
def isComplete : Nat → Heap → Nat → Option (Bool × Heap)
  | 0, _, _ => none
  | fuel + 1, h, t =>
    if (h t).sequence < (h t).maxSequence then some (false, h)
    else if (h t).xferReq.any (· != .completeSuccess) then some (false, h)
    else scan fuel h t 0

/-- The loop of `isComplete` over the gated transfers, from an index on. -/
def scan : Nat → Heap → Nat → Nat → Option (Bool × Heap)
  | 0, _, _, _ => none
  | fuel + 1, h, t, i =>
    match (h t).gatedTransfersPending[i]? with
    | none => some (true, h)
    | some temp =>
      match isComplete fuel h temp with
      | none => none
      -- `i = 0` and then the increment of the loop
      | some (true, h) => scan fuel (h.remove t temp) t 1
      | some (false, h) => some (false, h)

end

end OpenCpi.Transport
