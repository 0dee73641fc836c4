import OpenCpi.Datagram.Wire

/-!
# Building and posting a transaction

`DatagramXferRequest::copy` and `post` of `DtDataGramXfer.cxx` for any number of messages. The variable
`msg` of `post` has 16 bits, the number of messages has more. Only the places are kept that `post` stores
into. Whether `nextFreeFrame` finds the slot of its turn free depends on the peer: `slots` says it for each
frame.
-/

namespace OpenCpi.Datagram.Post

/-! ## Building -/

/-- A call of `copy`, with `FlagTransfer` or without. -/
inductive Call where
  | data (srcoffs dstoffs nbytes : Nat)
  | flag (srcoffs dstoffs : Nat)
deriving DecidableEq, Repr

/-- `DatagramTransaction` while it is built: `m_init` and the messages. `fini` fills in fields that `post`
does not look at. -/
structure Transaction where
  init : Bool := false
  messages : List Message := []
deriving DecidableEq, Repr

/-- `copy`. Without room for data it divides by zero. -/
def Transaction.copy (maxPayload : Nat) (t : Transaction) : Call → Option Transaction
  | .flag _ _ => some (if t.init then t else ⟨true, [⟨0, 0, 0⟩]⟩)
  | .data srcoffs dstoffs nbytes =>
    let maxpl := sizeSub maxPayload (msgHeaderSize + frameHeaderSize + 8)
    if maxpl = 0 then none
    else some ⟨true, t.messages ++ addMessages maxpl nbytes srcoffs dstoffs nbytes⟩

/-- The transaction that some calls build. -/
def build (maxPayload : Nat) (calls : List Call) : Option Transaction :=
  calls.foldlM (Transaction.copy maxPayload) {}

/-! ## Posting -/

/-- The room that a message takes. -/
def need (m : Message) : Nat := msgHeaderSize + (m.dataLen + 7) / 8 * 8

/-- How the inner loop ends: with values of `msg` and `iovlen`, at the assertion in it, or with a store
behind the end of `iov`. -/
inductive Stuffed where
  | ended (msg iovlen : Nat)
  | asserted
  | overrun
deriving DecidableEq, Repr

/-- The inner loop of `post`. Each message takes some of `bytesLeft`. -/
def stuff (t : List Message) : Nat → Nat → Nat → Nat → Stuffed
  | 0, msg, _, iovlen => .ended msg iovlen
  | fuel + 1, msg, bytesLeft, iovlen =>
    if bytesLeft = 0 then .ended msg iovlen
    else
      match t[msg]? with
      | none => .ended msg iovlen
      | some m =>
        if bytesLeft < need m then if msg = 0 then .asserted else .ended msg iovlen
        else if iovlen + 2 ≤ Wire.MAX_MSGS + 1 then
          stuff t fuel ((msg + 1) % 2 ^ 16) (bytesLeft - need m) (iovlen + 2)
        else .overrun

/-- How `post` ends: it returns, with `iovlen` of each frame, or an assertion fails, or it leaves an `iov`. -/
inductive Ending where
  | returned (frames : List Nat)
  | asserted
  | overrun
deriving DecidableEq, Repr

def Ending.cons (iovlen : Nat) : Ending → Ending
  | .returned frames => .returned (iovlen :: frames)
  | e => e

/-- The outer loop of `post` after at most so many turns; `none` if it is not at its end. `frame` counts
the frames; the assertion in `nextFreeFrame` is that the slot is free. -/
def turns (bytesLeft : Nat) (slots : Nat → Bool) (t : List Message) : Nat → Nat → Nat → Option Ending
  | 0, _, msg => if msg < t.length then none else some (.returned [])
  | n + 1, frame, msg =>
    if msg < t.length then
      if slots frame then
        match stuff t bytesLeft msg bytesLeft 2 with
        | .ended msg iovlen =>
          if msg = 0 then some .asserted
          else (turns bytesLeft slots t n (frame + 1) msg).map (Ending.cons iovlen)
        | .asserted => some .asserted
        | .overrun => some .overrun
      else some .asserted
    else some (.returned [])

/-- `post`, with so many turns. -/
def post (maxPayload : Nat) (slots : Nat → Bool) (t : Transaction) (n : Nat) : Option Ending :=
  turns (sizeSub maxPayload (frameHeaderSize + 2)) slots t.messages n 0 0

end OpenCpi.Datagram.Post
