import OpenCpi.Datagram.Post

/-!
# The sender's frames

The part of `DtDataGramXfer.cxx` that sends: `getFrame`, `post`, `ack`, `checkAcks` and `sendAcks` of one
`DatagramXferServices`, with transactions of any number of messages. The variable `msg` of a running `post`
has 16 bits. Which acknowledgements arrive is up to the peer and the network.

A failed assertion stops the run, and so does a store outside the messages of a transaction or outside
`iov`. Getting a frame, filling it and sending it is one step. `released` has an entry for each frame that
was released, the latest first; `uid` is the position of a frame among those that were taken.
-/

namespace OpenCpi.Datagram.Sender

open Infra

/-- `DatagramXferRequest` with its `DatagramTransaction`. While `post` runs, `msg` is its variable; `posts`
counts the calls. -/
structure Transaction where
  messages : List Message
  nMessagesRx : Nat := 0
  msg : Nat := 0
  running : Bool := false
  posts : Nat := 0
deriving DecidableEq, Repr

/-- `complete` -/
def Transaction.complete (t : Transaction) : Bool := t.nMessagesRx == t.messages.length

/-- A frame when it is released: whose messages it carried, from which one on and how many. -/
structure Release where
  uid : Nat
  transaction : Nat × Nat
  msgStart : Nat
  msgCount : Nat
deriving DecidableEq, Repr

structure Services where
  freeFrames : Nat → Frame
  frameSeq : Nat
  frameCount : Nat
  acks : List Nat
  transactions : Nat → Option Transaction
  released : List Release

def Services.init : Services where
  freeFrames := fun _ => ⟨true, 0, 0, 0, 0, 0, 0, (0, 0)⟩
  frameSeq := 1
  frameCount := 0
  acks := []
  transactions := fun _ => none
  released := []

variable (s : Services)

/-- The slot of a sequence number. -/
def slotOf (seq : Nat) : Nat := seq &&& FRAME_SEQ_MASK

/-- `getFrame`: the frame that it prepares, with its slot taken. -/
def getFrame : Option (Frame × Services) :=
  if (s.freeFrames (slotOf s.frameSeq)).isFree then
    let r := takeAcks s.acks
    let f : Frame :=
      { isFree := false, uid := s.frameCount, frameSeq := s.frameSeq, ackStart := r.1.1,
        ackCount := r.1.2, msgStart := 0, msgCount := 0, transaction := (0, 0) }
    some (f, { s with
      freeFrames := Function.update s.freeFrames (slotOf s.frameSeq) f
      frameSeq := (s.frameSeq + 1) % 2 ^ 16
      frameCount := s.frameCount + 1
      acks := r.2 })
  else none

/-- The calls of `ACK` for the messages of a frame. -/
def credit (f : Frame) : Option Services :=
  if f.msgCount = 0 then some s
  else
    match s.transactions f.transaction.1 with
    | none => none
    | some t =>
      if t.messages.length < f.msgStart + f.msgCount then none
      else some { s with
        transactions := Function.update s.transactions f.transaction.1
          (some { t with nMessagesRx := (t.nMessagesRx + f.msgCount) % 2 ^ 32 }) }

/-- `Frame::release` -/
def release (slot : Nat) : Option Services :=
  let f := s.freeFrames slot
  if f.isFree then some s
  else
    (credit s f).map fun s => { s with
      freeFrames := Function.update s.freeFrames slot f.release
      released := ⟨f.uid, f.transaction, f.msgStart, f.msgCount⟩ :: s.released }

/-- `post` for the frame in a slot: a frame without messages is released when it is sent. -/
def post (slot : Nat) : Option Services :=
  if (s.freeFrames slot).msgCount = 0 then release s slot else some s

/-- `releaseFrame` -/
def releaseFrame (seq : Nat) : Option Services :=
  let f := s.freeFrames (slotOf seq)
  if !f.isFree && f.frameSeq == seq then release s (slotOf seq) else some s

/-- `ack` -/
def ack (count start : Nat) : Option Services :=
  (List.range count).foldlM (fun s k => releaseFrame s (start + k)) s

/-- `checkAcks` for a slot: a frame that is not acknowledged is sent again. -/
def checkAcks (slot : Nat) : Option Services :=
  if slot ≤ FRAME_SEQ_MASK ∧ !(s.freeFrames slot).isFree then post s slot else some s

/-- `sendAcks` -/
def sendAcks : Option Services :=
  if s.acks.isEmpty then some s
  else (getFrame s).bind fun (f, s) => post s (slotOf f.frameSeq)

/-- The frame of a turn is filled and sent. -/
def sendFrame (id : Nat) (t : Transaction) (msg count : Nat) : Option Services :=
  (getFrame s).bind fun (f, s) =>
    post { s with
      freeFrames := Function.update s.freeFrames (slotOf f.frameSeq)
        { f with msgStart := t.msg, msgCount := count, transaction := (id, t.posts) }
      transactions := Function.update s.transactions id (some { t with msg }) } (slotOf f.frameSeq)

/-- A turn of the outer loop of `DatagramXferRequest::post`, or its end. -/
def turn (maxPayload id : Nat) : Option Services :=
  match s.transactions id with
  | none => none
  | some t =>
    if !t.running then none
    else if t.msg < t.messages.length then
      let left := sizeSub maxPayload (frameHeaderSize + 2)
      match Post.stuff t.messages left t.msg left 2 with
      | .ended msg iovlen => if msg = 0 then none else sendFrame s id t msg ((iovlen - 2) / 2)
      | .asserted => none
      | .overrun => none
    else some { s with
      transactions := Function.update s.transactions id (some { t with running := false }) }

/-- The beginning of `DatagramXferRequest::post`. -/
def start (id : Nat) : Option Services :=
  match s.transactions id with
  | none => none
  | some t =>
    if t.running then none
    else some { s with
      transactions := Function.update s.transactions id
        (some { t with nMessagesRx := 0, msg := 0, running := true, posts := t.posts + 1 }) }

/-- `create` is a new request, all of its calls of `copy`; `received` is a frame of the peer that has to
be acknowledged. -/
inductive Op where
  | create (id : Nat) (messages : List Message)
  | start (id : Nat)
  | turn (id : Nat)
  | received (seq : Nat)
  | sendAcks
  | ack (count start : Nat)
  | checkAcks (slot : Nat)
deriving DecidableEq, Repr

/-- `m_nMessagesTx` has 32 bits. -/
def create (id : Nat) (messages : List Message) : Option Services :=
  if (s.transactions id).isNone ∧ messages.length < 2 ^ 32 then
    some { s with transactions := Function.update s.transactions id (some { messages }) }
  else none

def step (maxPayload : Nat) (s : Services) : Op → Option Services
  | .create id messages => create s id messages
  | .start id => start s id
  | .turn id => turn s maxPayload id
  | .received seq => some { s with acks := s.acks ++ [seq] }
  | .sendAcks => sendAcks s
  | .ack count start => ack s count start
  | .checkAcks slot => checkAcks s slot

end OpenCpi.Datagram.Sender
