import Mathlib.Logic.Function.Basic
import Mathlib.Data.List.Basic
import OpenCpi.Infra.Bytes
import OpenCpi.Infra.Run

/-!
# Transfers over a datagram network

`DtDataGramXfer.cxx`. A transfer request is cut into messages, the messages are packed into frames,
and frames are sent over a network that may lose, delay, duplicate and reorder them. A frame with
messages occupies one of 256 slots until the peer acknowledges it, and is sent again after a while;
acknowledgements ride on other frames. The receiver remembers the number of the last frame of each
of 256 slots to recognise duplicates, counts the messages of a transaction, and writes the flag of
the transaction when the count is complete.

Both endpoints send and receive. A frame and a packet carry their position `uid` in the sequence of
frames of their side, a message its request, posting and index; the code has none of these, and no
decision depends on them. `Log` records what happened. The assertions are compiled in: a failed one
stops the run, and so does an access outside an array. Packing a frame and sending it is one step;
the resend timer is any moment. Frames go to one peer only, so endpoint identifiers are left out,
and so are the message fields `type` (always `DATA`) and `msgSequence`, which is never read.
-/

namespace OpenCpi.Datagram

open Infra

inductive Side where
  | near
  | far
deriving DecidableEq, Repr

def Side.peer : Side → Side
  | .near => .far
  | .far => .near

/-! ## Messages, packets and frames -/

/-- Which message of which posting of which request. -/
structure Origin where
  request : Nat
  posting : Nat
  index : Nat
deriving DecidableEq, Repr

/-- `DatagramMsgHeader` followed by its data; `dataLen` is the length of the data. -/
structure Msg where
  origin : Origin
  transactionId : Nat
  flagAddr : Nat
  flagValue : Nat
  numMsgsInTransaction : Nat
  dataAddr : Nat
  data : List UInt8
deriving DecidableEq, Repr

/-- What is on the wire. `FRAME_FLAG_HAS_MESSAGES` is set when there are messages, `nextMsg` in
every message but the last. -/
structure Packet where
  uid : Nat
  frameSeq : Nat
  ackStart : Nat
  ackCount : Nat
  msgs : List Msg
deriving DecidableEq, Repr

/-- A slot of `m_freeFrames`. `transaction` is the request and its posting. -/
structure Frame where
  isFree : Bool
  uid : Nat
  frameSeq : Nat
  ackStart : Nat
  ackCount : Nat
  msgStart : Nat
  msgCount : Nat
  transaction : Nat × Nat
deriving DecidableEq, Repr

/-- `Frame::release`, apart from what it tells the transaction. -/
def Frame.release (f : Frame) : Frame := { f with isFree := true }

/-- `DatagramTransaction::Message` -/
structure Message where
  src : Nat
  dataAddr : Nat
  dataLen : Nat
deriving DecidableEq, Repr

/-- `DatagramXferRequest` and its `DatagramTransaction`. `next` is the variable `msg` of a
running `post`, which has 16 bits and is over when all messages are sent; `posting` counts the
calls. -/
structure Request where
  tid : Nat
  messages : List Message
  flagAddr : Nat
  flagValue : Nat
  nMessagesRx : Nat
  next : Nat
  posting : Nat
deriving DecidableEq, Repr

/-- `complete` -/
def Request.complete (r : Request) : Bool := r.nMessagesRx == r.messages.length

/-- `getStatus` -/
inductive CompletionStatus where
  | pending
  | completeSuccess
deriving DecidableEq, Repr

def Request.getStatus (r : Request) : CompletionStatus :=
  if r.complete then .completeSuccess else .pending

/-- `numMsgsInTransaction` as `fini` sets it: 0 for a single message. -/
def Request.numMsgs (r : Request) : Nat :=
  (if r.messages.length = 1 then 0 else r.messages.length) % 2 ^ 16

/-! ## Endpoints -/

structure FrameRecord where
  acked : Bool
  id : Nat
deriving DecidableEq, Repr

/-- `opened` and `counted` say which posting opened the record and which messages it counted. -/
structure MsgTransactionRecord where
  numMsgsInTransaction : Nat
  msgsProcessed : Nat
  inUse : Bool
  opened : Nat × Nat
  counted : List Nat
deriving DecidableEq, Repr

/-- What the receiver wrote into memory: the data of a message with its address and length, or the
flag of a posting. -/
inductive Event where
  | copy (o : Origin) (addr len : Nat)
  | flag (request posting : Nat)
deriving DecidableEq, Repr

/-- A frame with messages that was sent: messages `msgStart` to `msgStart + msgCount`. -/
structure Issued where
  uid : Nat
  request : Nat
  posting : Nat
  msgStart : Nat
  msgCount : Nat
deriving DecidableEq, Repr

/-- What happened at an endpoint, the latest first: frames of its own that were sent and that were
released by an acknowledgement; frames of the peer whose number was written into the history,
whose acknowledgement was queued, and whose messages were processed; writes into memory. -/
structure Log where
  issued : List Issued
  released : List Nat
  recorded : List Nat
  accepted : List Nat
  processed : List Nat
  events : List Event
deriving DecidableEq, Repr

/-- `DatagramXferServices` with the memory it serves and the requests made through it. -/
structure Endpoint where
  memory : Nat → UInt8
  freeFrames : Nat → Frame
  frameSeq : Nat
  frameCount : Nat
  acks : List Nat
  frameSeqRecord : Nat → FrameRecord
  msgTransactionRecord : Nat → MsgTransactionRecord
  framesInPlay : Nat
  requests : Nat → Option Request
  txId : Nat
  log : Log

/-- A new endpoint. `m_frames_in_play` is not initialised. -/
def Endpoint.new (memory : Nat → UInt8) (framesInPlay : Nat) : Endpoint :=
  { memory, freeFrames := fun _ => ⟨true, 0, 0, 0, 0, 0, 0, (0, 0)⟩, frameSeq := 1,
    frameCount := 0, acks := [], frameSeqRecord := fun _ => ⟨false, 0⟩,
    msgTransactionRecord := fun _ => ⟨0, 0, false, (0, 0), []⟩, framesInPlay,
    requests := fun _ => none, txId := 0, log := ⟨[], [], [], [], [], []⟩ }

def FRAME_SEQ_MASK : Nat := 0xff
def MAX_FRAME_HISTORY : Nat := 0xff
def MAX_TRANSACTION_HISTORY : Nat := 512

/-! ## Building requests -/

def msgHeaderSize : Nat := 24
def frameHeaderSize : Nat := 10

/-- Subtraction of `size_t`. -/
def sizeSub (a b : Nat) : Nat := (a + 2 ^ 64 - b) % 2 ^ 64

/-- The loop of `copy`: one message for each `maxpl` bytes. -/
def addMessages (maxpl : Nat) : Nat → Nat → Nat → Nat → List Message
  | 0, _, _, _ => []
  | fuel + 1, src, dst, nbytes =>
    if nbytes = 0 then []
    else
      let length := if maxpl < nbytes then maxpl else nbytes
      ⟨src, dst % 2 ^ 32, length % 2 ^ 16⟩ ::
        addMessages maxpl fuel (src + length) (dst + length) (nbytes - length)

/-- A call of `copy` that is not the flag transfer. -/
structure Copy where
  srcoffs : Nat
  dstoffs : Nat
  nbytes : Nat
deriving DecidableEq, Repr

/-- The calls of `copy` that make up a request: some data and last the flag. Without data the
flag travels in a message of its own. -/
def makeRequest (maxpl tid : Nat) (copies : List Copy) (flagAddr flagValue : Nat) : Request :=
  let messages :=
    if copies.isEmpty then [⟨0, 0, 0⟩]
    else copies.flatMap fun c => addMessages maxpl c.nbytes c.srcoffs c.dstoffs c.nbytes
  { tid, messages, flagAddr, flagValue, nMessagesRx := 0, next := messages.length, posting := 0 }

/-! ## Sending -/

/-- The loop of `getFrame` that turns queued acknowledgements into a count: the index stays at 1
and the value compared with stays `ACKStart + 1`. -/
def ackLoop (start : Nat) : Nat → Nat → List Nat → Nat × List Nat
  | 0, count, acks => (count, acks)
  | fuel + 1, count, acks =>
    if acks[1]? = some (start + 1) then ackLoop start fuel ((count + 1) % 256) acks.tail
    else (count, acks)

/-- The acknowledgements a new frame carries, and those that stay queued. -/
def takeAcks : List Nat → (Nat × Nat) × List Nat
  | [] => ((0, 0), [])
  | a :: rest =>
    if rest[0]? = some (a + 1) then
      let r := ackLoop a rest.length 2 rest.tail
      ((a, r.1), r.2)
    else ((a, 1), rest)

/-- `nextFreeFrame` and `getFrame`: the new frame in its slot, still without messages. -/
def getFrame (e : Endpoint) : Option (Frame × Endpoint) :=
  let seq := e.frameSeq
  let mseq := seq &&& FRAME_SEQ_MASK
  if (e.freeFrames mseq).isFree then
    let r := takeAcks e.acks
    let f : Frame :=
      { isFree := false, uid := e.frameCount, frameSeq := seq, ackStart := r.1.1,
        ackCount := r.1.2, msgStart := 0, msgCount := 0, transaction := (0, 0) }
    some (f,
      { e with
        frameSeq := (seq + 1) % 2 ^ 16
        frameCount := e.frameCount + 1
        acks := r.2
        freeFrames := Function.update e.freeFrames mseq f })
  else none

/-- The message of a request as it goes on the wire. -/
def Request.msg (r : Request) (memory : Nat → UInt8) (request posting index : Nat) (m : Message) :
    Msg :=
  { origin := ⟨request, posting, index⟩, transactionId := r.tid, flagAddr := r.flagAddr,
    flagValue := r.flagValue, numMsgsInTransaction := r.numMsgs, dataAddr := m.dataAddr,
    data := readBytes memory m.src m.dataLen }

/-- The messages from an index on, in the order in which `msg++` comes to them: behind message
65535 comes message 0 again. -/
def Request.following (r : Request) (start : Nat) : List Message :=
  if r.messages.length < 2 ^ 16 then r.messages.drop start
  else (r.messages.take (2 ^ 16)).drop start ++ r.messages.take (2 ^ 16)

/-- What `send` puts on the wire for a frame: headers and data are gathered when it is sent. -/
def Endpoint.packet (e : Endpoint) (f : Frame) : Packet :=
  { uid := f.uid, frameSeq := f.frameSeq, ackStart := f.ackStart, ackCount := f.ackCount,
    msgs :=
      match e.requests f.transaction.1 with
      | some r => ((r.following f.msgStart).take f.msgCount).mapIdx fun k m =>
          r.msg e.memory f.transaction.1 f.transaction.2 ((f.msgStart + k) % 2 ^ 16) m
      | none => [] }

/-- How many messages go into a frame with `bytesLeft` bytes of room. -/
def fillFrame (bytesLeft : Nat) : List Message → Nat
  | [] => 0
  | m :: rest =>
    let need := msgHeaderSize + (m.dataLen + 7) / 8 * 8
    if bytesLeft = 0 ∨ bytesLeft < need then 0 else 1 + fillFrame (bytesLeft - need) rest

/-- The number of messages the `iov` array of a frame has room for. -/
def maxMsgsPerFrame : Nat := 4

/-- One turn of the outer loop of `post`. A frame with more entries than `iov` has stops the
program. So does a frame after which `msg` is 0, be it that the first message does not fit or that
`msg` wrapped: the assertion fails, or `hdrPtr(msg-1)` is outside the array. -/
def postFrame (maxPayload : Nat) (e : Endpoint) (id : Nat) : Option (Endpoint × Packet) :=
  match e.requests id with
  | none => none
  | some r =>
    if r.next < r.messages.length then
      match getFrame e with
      | none => none
      | some (f, e') =>
        let count := fillFrame (sizeSub maxPayload (frameHeaderSize + 2)) (r.following r.next)
        let next := (r.next + count) % 2 ^ 16
        if next = 0 ∨ maxMsgsPerFrame < count then none
        else
          let f' : Frame :=
            { f with msgStart := r.next, msgCount := count, transaction := (id, r.posting),
                     isFree := count == 0 }
          let e'' : Endpoint :=
            { e' with
              freeFrames := Function.update e'.freeFrames (f.frameSeq &&& FRAME_SEQ_MASK) f'
              requests := Function.update e'.requests id
                (some { r with next })
              log := { e'.log with
                issued := ⟨f.uid, id, r.posting, r.next, count⟩ :: e'.log.issued } }
          some (e'', e''.packet f')
    else none

/-- The beginning of `post`. -/
def startPost (e : Endpoint) (id : Nat) : Option Endpoint :=
  match e.requests id with
  | none => none
  | some r =>
    if r.next = r.messages.length then
      let r' := { r with nMessagesRx := 0, next := 0, posting := r.posting + 1 }
      some { e with requests := Function.update e.requests id (some r') }
    else none

/-- `sendAcks`: a frame without messages, released as soon as it is sent. -/
def sendAcks (e : Endpoint) : Option (Endpoint × Packet) :=
  if e.acks.isEmpty then none
  else
    (getFrame e).map fun (f, e') =>
      let mseq := f.frameSeq &&& FRAME_SEQ_MASK
      let e'' : Endpoint :=
        { e' with freeFrames := Function.update e'.freeFrames mseq f.release }
      (e'', e''.packet f)

/-- `checkAcks` for one slot: the frame is sent again. -/
def resend (e : Endpoint) (slot : Nat) : Option Packet :=
  let f := e.freeFrames slot
  if slot ≤ FRAME_SEQ_MASK ∧ !f.isFree then some (e.packet f) else none

/-! ## Receiving -/

/-- `releaseFrame` and `Frame::release`. -/
def releaseFrame (e : Endpoint) (seq : Nat) : Endpoint :=
  let mseq := seq &&& FRAME_SEQ_MASK
  let f := e.freeFrames mseq
  if !f.isFree ∧ f.frameSeq = seq then
    { e with
      freeFrames := Function.update e.freeFrames mseq f.release
      requests := fun id =>
        if id = f.transaction.1 then
          (e.requests id).map fun r => { r with nMessagesRx := r.nMessagesRx + f.msgCount }
        else e.requests id
      log := { e.log with released := f.uid :: e.log.released } }
  else e

/-- `ack` -/
def ack (e : Endpoint) (count start : Nat) : Endpoint :=
  (List.range count).foldl (fun e k => releaseFrame e (start + k)) e

/-- `addFrameAck` -/
def addFrameAck (e : Endpoint) (p : Packet) : Endpoint :=
  { e with
    acks := e.acks ++ [p.frameSeq]
    log := { e.log with accepted := p.uid :: e.log.accepted } }

/-- The transaction record after a message: it is opened if it was free, takes the number of
messages from this message, and counts it unless that number is 0. -/
def MsgTransactionRecord.enter (fr : MsgTransactionRecord) (m : Msg) : MsgTransactionRecord :=
  let fr' : MsgTransactionRecord :=
    if fr.inUse then fr
    else { fr with inUse := true, msgsProcessed := 0,
                   opened := (m.origin.request, m.origin.posting), counted := [] }
  { fr' with
    numMsgsInTransaction := m.numMsgsInTransaction
    msgsProcessed :=
      if m.numMsgsInTransaction = 0 then fr'.msgsProcessed else (fr'.msgsProcessed + 1) % 2 ^ 16
    counted :=
      if m.numMsgsInTransaction = 0 then fr'.counted else m.origin.index :: fr'.counted }

/-- Close the transaction? -/
def MsgTransactionRecord.closes (fr : MsgTransactionRecord) : Bool :=
  fr.msgsProcessed == fr.numMsgsInTransaction

/-- The data of a message is copied unless it is four bytes long, which was a flag once, or the
message is the only one of its transaction. -/
def Msg.isCopied (m : Msg) : Bool := m.numMsgsInTransaction != 0 && m.data.length != 4

def Endpoint.copyData (e : Endpoint) (m : Msg) : Endpoint :=
  if m.isCopied then
    { e with
      memory := writeBytes e.memory m.dataAddr m.data
      log := { e.log with events := .copy m.origin m.dataAddr m.data.length :: e.log.events } }
  else e

def Endpoint.writeFlag (e : Endpoint) (m : Msg) : Endpoint :=
  { e with
    memory := writeBytes e.memory m.flagAddr (wordBytes m.flagValue)
    log := { e.log with events := .flag m.origin.request m.origin.posting :: e.log.events } }

/-- `m_frames_in_play` after a message found its record. -/
def Endpoint.inPlay (e : Endpoint) (fr : MsgTransactionRecord) : Nat :=
  if fr.inUse then e.framesInPlay else (e.framesInPlay + 1) % 2 ^ 32

/-- The body of the message loop of `processFrame`. The record index is 0 or 512, and the table
has 512 entries. -/
def processMsg (e : Endpoint) (m : Msg) : Option Endpoint :=
  let index := m.transactionId &&& MAX_TRANSACTION_HISTORY
  let fr := e.msgTransactionRecord index
  if MAX_TRANSACTION_HISTORY ≤ index ∨ (!fr.inUse ∧ MAX_TRANSACTION_HISTORY ≤ e.inPlay fr) then
    none
  else
    let fr' := fr.enter m
    let e' := e.copyData m
    if fr'.closes then
      some { e'.writeFlag m with
        msgTransactionRecord :=
          Function.update e.msgTransactionRecord index { fr' with inUse := false }
        framesInPlay := (e.inPlay fr + (2 ^ 32 - 1)) % 2 ^ 32 }
    else
      some { e' with
        msgTransactionRecord := Function.update e.msgTransactionRecord index fr'
        framesInPlay := e.inPlay fr }

/-- `processFrame` for a new frame: its number is recorded, then its acknowledgements are read. -/
def recordFrame (e : Endpoint) (p : Packet) : Endpoint :=
  let slot := p.frameSeq &&& MAX_FRAME_HISTORY
  let e' : Endpoint :=
    { e with
      frameSeqRecord := Function.update e.frameSeqRecord slot
        { e.frameSeqRecord slot with id := p.frameSeq }
      log := { e.log with recorded := p.uid :: e.log.recorded } }
  if p.ackCount = 0 then e' else ack e' p.ackCount p.ackStart

/-- `processFrame` for a new frame with messages, up to the messages: the acknowledgement of the
frame is queued. -/
def acceptFrame (e : Endpoint) (p : Packet) : Endpoint :=
  let slot := p.frameSeq &&& MAX_FRAME_HISTORY
  addFrameAck
    { e with
      frameSeqRecord := Function.update e.frameSeqRecord slot
        { e.frameSeqRecord slot with acked := true }
      log := { e.log with processed := p.uid :: e.log.processed } } p

/-- `processFrame` -/
def processFrame (e : Endpoint) (p : Packet) : Option Endpoint :=
  let fr := e.frameSeqRecord (p.frameSeq &&& MAX_FRAME_HISTORY)
  if fr.id = p.frameSeq then
    if fr.acked then some (addFrameAck e p) else none
  else if p.msgs.isEmpty then some (recordFrame e p)
  else p.msgs.foldlM processMsg (acceptFrame (recordFrame e p) p)

/-! ## Runs -/

/-- Two endpoints and the packets each of them has sent. The network never forgets a packet and
delivers it as often as it likes. -/
structure World where
  ends : Side → Endpoint
  sent : Side → List Packet

def World.init (memory : Side → Nat → UInt8) (framesInPlay : Side → Nat) : World :=
  { ends := fun x => Endpoint.new (memory x) (framesInPlay x), sent := fun _ => [] }

def World.setEnd (w : World) (x : Side) (e : Endpoint) : World :=
  { w with ends := Function.update w.ends x e }

def World.send (w : World) (x : Side) (p : Packet) : World :=
  { w with sent := Function.update w.sent x (p :: w.sent x) }

/-- `newRequest` builds a request after `skipped` transaction numbers went to other transfers of
the process; `store` is the program writing its memory; `deliver` is a packet of the peer that
arrives. -/
inductive Op where
  | newRequest (x : Side) (id skipped : Nat) (copies : List Copy) (flagAddr flagValue : Nat)
  | store (x : Side) (addr : Nat) (data : List UInt8)
  | startPost (x : Side) (id : Nat)
  | postFrame (x : Side) (id : Nat)
  | sendAcks (x : Side)
  | resend (x : Side) (slot : Nat)
  | deliver (x : Side) (p : Packet)
deriving DecidableEq, Repr

/-- With no room for data the loop of `copy` does not end. -/
def newRequest (maxPayload : Nat) (e : Endpoint) (id skipped : Nat) (copies : List Copy)
    (flagAddr flagValue : Nat) : Option Endpoint :=
  let maxpl := sizeSub maxPayload (msgHeaderSize + frameHeaderSize + 8)
  let tid := (e.txId + skipped + 1) % 2 ^ 32
  let r := makeRequest maxpl tid copies (flagAddr % 2 ^ 32) (flagValue % 2 ^ 32)
  if maxpl ≠ 0 ∧ (e.requests id).isNone then
    some { e with txId := tid, requests := Function.update e.requests id (some r) }
  else none

def step (maxPayload : Nat) (w : World) : Op → Option World
  | .newRequest x id skipped copies flagAddr flagValue =>
    (newRequest maxPayload (w.ends x) id skipped copies flagAddr flagValue).map (w.setEnd x)
  | .store x addr data =>
    some (w.setEnd x { w.ends x with memory := writeBytes (w.ends x).memory addr data })
  | .startPost x id => (startPost (w.ends x) id).map (w.setEnd x)
  | .postFrame x id =>
    (postFrame maxPayload (w.ends x) id).map fun (e, p) => (w.setEnd x e).send x p
  | .sendAcks x => (sendAcks (w.ends x)).map fun (e, p) => (w.setEnd x e).send x p
  | .resend x slot => (resend (w.ends x) slot).map (w.send x)
  | .deliver x p =>
    if p ∈ w.sent x.peer then (processFrame (w.ends x) p).map (w.setEnd x) else none

end OpenCpi.Datagram
