import OpenCpi.Datagram.Xfer
import OpenCpi.Infra.Stream

/-!
# Frames as bytes

`DatagramXferRequest::post` in `DtDataGramXfer.cxx` gathers message headers and their data into
frames, and `processFrame` finds the messages of a frame again by following `nextMsg` and the
data lengths. A header is shared by all frames that refer to it: what goes on the wire is what it
says when the frame is sent. Storing into `iov` behind its end stops the run, and so do a failed
assertion and a read outside the received frame.

The frames that `getFrame` prepares are a parameter: the header of the next one, or `none` where
the assertion that its slot is free fails.
-/

namespace OpenCpi.Datagram.Wire

open Infra

/-! ## Headers -/

/-- `DatagramMsgHeader` -/
structure MsgHeader where
  transactionId : UInt32
  flagAddr : UInt32
  flagValue : UInt32
  numMsgsInTransaction : UInt16
  msgSequence : UInt16
  dataAddr : UInt32
  dataLen : UInt16
  type : UInt8
  nextMsg : UInt8
deriving DecidableEq, Repr

def MsgHeader.toBytes (h : MsgHeader) : List UInt8 :=
  leBytes 4 h.transactionId.toNat ++ (leBytes 4 h.flagAddr.toNat ++
    (leBytes 4 h.flagValue.toNat ++ (leBytes 2 h.numMsgsInTransaction.toNat ++
    (leBytes 2 h.msgSequence.toNat ++ (leBytes 4 h.dataAddr.toNat ++
    (leBytes 2 h.dataLen.toNat ++ (leBytes 1 h.type.toNat ++ leBytes 1 h.nextMsg.toNat)))))))

/-- The header that the first bytes of some bytes are, and the bytes behind it. -/
def MsgHeader.ofBytes (bytes : List UInt8) : MsgHeader × List UInt8 :=
  let (transactionId, bytes) := takeWord 4 bytes
  let (flagAddr, bytes) := takeWord 4 bytes
  let (flagValue, bytes) := takeWord 4 bytes
  let (numMsgsInTransaction, bytes) := takeWord 2 bytes
  let (msgSequence, bytes) := takeWord 2 bytes
  let (dataAddr, bytes) := takeWord 4 bytes
  let (dataLen, bytes) := takeWord 2 bytes
  let (type, bytes) := takeWord 1 bytes
  let (nextMsg, bytes) := takeWord 1 bytes
  ({ transactionId := .ofNat transactionId, flagAddr := .ofNat flagAddr
     flagValue := .ofNat flagValue, numMsgsInTransaction := .ofNat numMsgsInTransaction
     msgSequence := .ofNat msgSequence, dataAddr := .ofNat dataAddr, dataLen := .ofNat dataLen
     type := .ofNat type, nextMsg := .ofNat nextMsg }, bytes)

/-- `DatagramFrameHeader` -/
structure FrameHeader where
  destId : UInt16
  srcId : UInt16
  frameSeq : UInt16
  ackStart : UInt16
  ackCount : UInt8
  flags : UInt8
deriving DecidableEq, Repr

def FrameHeader.toBytes (h : FrameHeader) : List UInt8 :=
  leBytes 2 h.destId.toNat ++ (leBytes 2 h.srcId.toNat ++ (leBytes 2 h.frameSeq.toNat ++
    (leBytes 2 h.ackStart.toNat ++ (leBytes 1 h.ackCount.toNat ++ leBytes 1 h.flags.toNat))))

def FRAME_FLAG_HAS_MESSAGES : UInt8 := 1

/-! ## Sending -/

/-- `DatagramTransaction::Message`, with the address its data is read from. -/
structure Message where
  hdr : MsgHeader
  srcAdr : Nat
deriving DecidableEq, Repr

/-- An entry of `iov`: the first bytes of the frame header as a pad, the frame header, the header
of a message, data. -/
inductive IOVec where
  | pad
  | frameHdr
  | msgHdr (msg : Nat)
  | data (src len : Nat)
deriving DecidableEq, Repr

def MAX_MSGS : Nat := 10

/-- Write the next entry of `iov`, which has `MAX_MSGS + 1`. -/
def addIov (iov : List IOVec) (v : IOVec) : Option (List IOVec) :=
  if iov.length < MAX_MSGS + 1 then some (iov ++ [v]) else none

/-- The length of the data in a frame, so that the next header is on an 8 byte boundary. -/
def Message.paddedLen (m : Message) : Nat := (m.hdr.dataLen.toNat + 7) / 8 * 8

def Message.need (m : Message) : Nat := msgHeaderSize + m.paddedLen

/-- `hdrPtr(msg)->nextMsg = b` -/
def setNextMsg (t : List Message) (msg : Nat) (b : UInt8) : List Message :=
  t.modify msg fun m => { m with hdr := { m.hdr with nextMsg := b } }

/-- The variables of `post` and of the frame it fills. -/
structure Filling where
  t : List Message
  msg : Nat
  bytesLeft : Nat
  iov : List IOVec
  msgCount : Nat
deriving DecidableEq, Repr

/-- The body of the inner loop of `post` for a message that fits. -/
def Filling.put (s : Filling) (m : Message) : Option Filling :=
  (addIov s.iov (.msgHdr s.msg)).bind fun iov =>
    (addIov iov (.data m.srcAdr m.paddedLen)).map fun iov =>
      { t := setNextMsg s.t s.msg 1, msg := (s.msg + 1) % 2 ^ 16, bytesLeft := s.bytesLeft - m.need
        iov, msgCount := (s.msgCount + 1) % 2 ^ 16 }

/-- The inner loop of `post`: as many messages as fit. The first argument is the number of messages
that are left. -/
def stuff : Nat → Filling → Option Filling
  | 0, s => some s
  | n + 1, s =>
    if s.bytesLeft = 0 then some s
    else
      match s.t[s.msg]? with
      | none => some s
      | some m =>
        if s.bytesLeft < m.need then
          if s.msg = 0 then none else some { s with t := setNextMsg s.t (s.msg - 1) 0 }
        else (s.put m).bind (stuff n)

/-- What `sendmsg` puts on the wire for an entry. -/
def gatherEntry (memory : Memory) (hdr : FrameHeader) (t : List Message) : IOVec → List UInt8
  | .pad => hdr.toBytes.take 2
  | .frameHdr => hdr.toBytes
  | .msgHdr msg => (t[msg]?.map fun m => m.hdr.toBytes).getD []
  | .data src len => readBytes memory src len

def gather (memory : Memory) (hdr : FrameHeader) (t : List Message) (iov : List IOVec) :
    List UInt8 :=
  iov.flatMap (gatherEntry memory hdr t)

/-- A frame that was sent. -/
structure Posted where
  msgStart : Nat
  msgCount : Nat
  bytes : List UInt8
deriving DecidableEq, Repr

/-- `DatagramXferServices::post` -/
def send (memory : Memory) (hdr : FrameHeader) (msgStart : Nat) (s : Filling) : Posted :=
  let hdr :=
    if s.msgCount = 0 then hdr else { hdr with flags := hdr.flags ||| FRAME_FLAG_HAS_MESSAGES }
  { msgStart, msgCount := s.msgCount, bytes := gather memory hdr s.t s.iov }

/-- The outer loop of `post`. As many turns as there are messages are enough unless a frame stays
empty, and then the loop does not end. -/
def postLoop (maxPayload : Nat) (memory : Memory) :
    Nat → List (Option FrameHeader) → List Message → Nat → Option (List Posted)
  | 0, _, t, msg => if msg < t.length then none else some []
  | n + 1, slots, t, msg =>
    if msg < t.length then
      match slots with
      | some hdr :: slots =>
        (stuff (t.length - msg) ⟨t, msg, sizeSub maxPayload (frameHeaderSize + 2),
            [.pad, .frameHdr], 0⟩).bind fun s =>
          if s.msg = 0 then none
          else
            let s := { s with t := setNextMsg s.t (s.msg - 1) 0 }
            (postLoop maxPayload memory n slots s.t s.msg).map (send memory hdr msg s :: ·)
      | _ => none
    else some []

/-- `maxPayloadSize` of the UDP driver. -/
def DATAGRAM_PAYLOAD_SIZE : Nat := 512

/-- `DatagramXferRequest::post` -/
def post (maxPayload : Nat) (memory : Memory) (slots : List (Option FrameHeader))
    (t : List Message) : Option (List Posted) :=
  postLoop maxPayload memory t.length slots t 0

/-! ## Receiving -/

/-- The message loop of `processFrame` over the bytes of the frame: the headers it visits, with the
data behind each. -/
def walk : Nat → List UInt8 → Option (List (MsgHeader × List UInt8))
  | 0, _ => none
  | n + 1, bytes =>
    if bytes.length < msgHeaderSize then none
    else
      let (msg, rest) := MsgHeader.ofBytes bytes
      let visit := (msg, rest.take msg.dataLen.toNat)
      if msg.nextMsg = 0 then some [visit]
      else (walk n (rest.drop ((msg.dataLen.toNat + 7) / 8 * 8))).map (visit :: ·)

/-- `processFrame` on the bytes of a frame that is no duplicate. The frame header follows the pad, and
its last byte has the flags. -/
def walkFrame (bytes : List UInt8) : Option (List (MsgHeader × List UInt8)) :=
  let rest := bytes.drop (frameHeaderSize + 2)
  if (bytes.getD (frameHeaderSize + 1) 0) &&& FRAME_FLAG_HAS_MESSAGES = 0 then some []
  else walk rest.length rest

end OpenCpi.Datagram.Wire
