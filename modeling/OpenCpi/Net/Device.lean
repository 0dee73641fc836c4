import Mathlib.Algebra.Group.Nat.Defs
import Mathlib.Data.List.Basic
import OpenCpi.Infra.Prog
import OpenCpi.Infra.Run

/-!
# Register access over a network

`NetDriver.cxx` with the packets of `NetDefs.h`. A `Net::Device` reads and writes the registers of
a device on the network. Each access is one packet with an 8-bit tag, sent up to `RETRIES` times,
and one packet back. Devices on one ethernet interface share a socket (`Driver::findSocket`), so a
device object can receive packets that answer the requests of another one.

The network loses, duplicates, delays and reorders packets. Each packet carries, as a record that the
code does not see, the request it belongs to. Timers are left out: a receive either gets a packet or
does not. `Device::command` is left out.
-/

namespace OpenCpi.Net

open Infra

/-! ## Packets -/

/-- `EtherControlMessageType` -/
inductive MessageType where
  | nop
  | write
  | read
  | response
deriving DecidableEq, Repr

def MessageType.code : MessageType → Nat
  | .nop => 0
  | .write => 1
  | .read => 2
  | .response => 3

/-- `OCCP_ETHER_TYPE_ETC` -/
def typeEtc (type : MessageType) (be uncache rsvd : Nat) : Nat :=
  type.code * 16 + be % 16 + uncache * 64 + rsvd * 128

/-- `OCCP_ETHER_MESSAGE_TYPE` -/
def messageType (typeEtc : Nat) : Nat := typeEtc / 16 % 4

/-- `OCCP_ETHER_RESPONSE`: 0 is `OK`, 1 `WORKER_TIMEOUT`, 2 `ERROR` and 3 `ETHER_TIMEOUT`. -/
def responseCode (typeEtc : Nat) : Nat := typeEtc % 16

def etherTimeout : Nat := 3

/-- What `request` leaves in `*status`. -/
def statusOf (response : Nat) : Nat :=
  if response = 1 then 2 ^ 7 else if response = 2 then 2 ^ 1 else 2 ^ 11

/-- The arguments of `request`. `status` says whether there is a place for the status. -/
structure Access where
  type : MessageType
  offset : Nat
  bytes : Nat
  data : BitVec 32
  status : Bool
deriving DecidableEq, Repr

/-- The address in the packet: `(offset & 0xffffff) & ~3`. -/
def address (offset : Nat) : Nat := offset % 2 ^ 24 / 4 * 4

/-- `(~(-1 << bytes) << (offset & 3)) & 0xf` -/
def byteEnables (offset bytes : Nat) : Nat := (2 ^ bytes - 1) * 2 ^ (offset % 4) % 16

/-- A request of a device object, by the number of the object and the number of the request. -/
structure Origin where
  device : Nat
  seq : Nat
deriving DecidableEq, Repr

/-- A request on the network. -/
structure Frame where
  dest : Nat
  socket : Nat
  typeEtc : Nat
  tag : Nat
  address : Nat
  data : BitVec 32
  origin : Origin
deriving DecidableEq, Repr

/-- A packet of a device back to a socket; `address` and `origin` are those of the request it
answers. -/
structure Reply where
  src : Nat
  socket : Nat
  typeEtc : Nat
  tag : Nat
  data : BitVec 32
  address : Nat
  origin : Origin
deriving DecidableEq, Repr

/-! ## Accessors -/

/-- What `request` returns: the status and the data of the last packet received. -/
structure Answer where
  status : Nat
  data : BitVec 32
deriving DecidableEq, Repr

abbrev Prog (α : Type) := Infra.Prog Access Answer α

def request (a : Access) : Prog Answer := .ask a .ret

def get (offset bytes : Nat) (status : Bool) : Prog (BitVec 32 × Nat) := do
  let ans ← request ⟨.read, offset, bytes, 0, status⟩
  return (ans.data, ans.status)

def set (offset bytes : Nat) (data : BitVec 32) (status : Bool) : Prog Nat := do
  let ans ← request ⟨.write, offset, bytes, data, status⟩
  return ans.status

/-- `get64`; a word that was not read is taken as 0. -/
def get64 (offset : Nat) (status : Bool) : Prog (BitVec 64 × Nat) := do
  let (lo, st) ← get offset 4 status
  if st = 0 then
    let (hi, st) ← get (offset + 4) 4 status
    return (hi ++ lo, st)
  else return ((0 : BitVec 32) ++ lo, st)

/-- Byte `i` of a word in the memory of the host. -/
def byteOf (word : BitVec 32) (i : Nat) : BitVec 8 := word.extractLsb' (8 * i) 8

/-- The bytes of one word that `getBytes` and `setBytes` take. -/
def bytesInWord (offset length : Nat) : Nat := min (4 - offset % 4) length

/-- The loop of `getBytes`; each turn takes at least one byte, so `length` turns are enough. -/
def getBytesLoop (status : Bool) : Nat → Nat → Nat → List (BitVec 8) →
    Prog (List (BitVec 8) × Nat)
  | 0, _, _, buf => return (buf, 0)
  | fuel + 1, offset, length, buf =>
    if length = 0 then return (buf, 0)
    else do
      let bytes := bytesInWord offset length
      let (val, st) ← get offset bytes status
      if st ≠ 0 then return (buf, st)
      else
        getBytesLoop status fuel (offset + bytes) (length - bytes)
          (buf ++ (List.range bytes).map fun i => byteOf val (offset % 4 + i))

def getBytes (offset length : Nat) (status : Bool) : Prog (List (BitVec 8) × Nat) :=
  getBytesLoop status length offset length []

def set64 (offset : Nat) (val : BitVec 64) (status : Bool) : Prog Nat := do
  let st ← set offset 4 (val.setWidth 32) status
  if st = 0 then set (offset + 4) 4 ((val >>> 32).setWidth 32) status else return st

/-- The word `setBytes` sends; the bytes that are not enabled are taken as 0. -/
def wordOf (offset : Nat) (bytes : List (BitVec 8)) : BitVec 32 :=
  (bytes.foldr (fun b (w : BitVec 32) => w <<< 8 ||| b.setWidth 32) 0) <<< (8 * (offset % 4))

def setBytesLoop (status : Bool) : Nat → Nat → List (BitVec 8) → Prog Nat
  | 0, _, _ => return 0
  | fuel + 1, offset, buf =>
    if buf = [] then return 0
    else do
      let bytes := bytesInWord offset buf.length
      let st ← set offset bytes (wordOf offset (buf.take bytes)) status
      if st ≠ 0 then return st
      else setBytesLoop status fuel (offset + bytes) (buf.drop bytes)

def setBytes (offset : Nat) (buf : List (BitVec 8)) (status : Bool) : Prog Nat :=
  setBytesLoop status buf.length offset buf

/-- A call of an accessor. -/
inductive Call where
  | get (offset bytes : Nat) (status : Bool)
  | get64 (offset : Nat) (status : Bool)
  | getBytes (offset length : Nat) (status : Bool)
  | set (offset bytes : Nat) (data : BitVec 32) (status : Bool)
  | set64 (offset : Nat) (val : BitVec 64) (status : Bool)
  | setBytes (offset : Nat) (buf : List (BitVec 8)) (status : Bool)
deriving DecidableEq, Repr

inductive Value where
  | word (w : BitVec 32)
  | long (w : BitVec 64)
  | bytes (buf : List (BitVec 8))
  | unit
deriving DecidableEq, Repr

def Call.prog : Call → Prog (Value × Nat)
  | .get offset bytes status => do
    let (w, st) ← Net.get offset bytes status
    return (.word w, st)
  | .get64 offset status => do
    let (w, st) ← Net.get64 offset status
    return (.long w, st)
  | .getBytes offset length status => do
    let (buf, st) ← Net.getBytes offset length status
    return (.bytes buf, st)
  | .set offset bytes data status => do
    let st ← Net.set offset bytes data status
    return (.unit, st)
  | .set64 offset val status => do
    let st ← Net.set64 offset val status
    return (.unit, st)
  | .setBytes offset buf status => do
    let st ← Net.setBytes offset buf status
    return (.unit, st)

/-! ## `Device::request` -/

/-- A request that waits: the attempt, the last response code and the last packet received. -/
structure Pending where
  access : Access
  n : Nat
  response : Nat
  last : Option Reply
  k : Answer → Prog (Value × Nat)

/-- Where a device object stands. `first` is the number of requests before the call. -/
inductive Phase where
  | idle
  | ready (call : Call) (first : Nat) (p : Prog (Value × Nat))
  | sending (call : Call) (first : Nat) (p : Pending)
  | receiving (call : Call) (first : Nat) (p : Pending)

/-- `Net::Device`; `seq` counts its requests. -/
structure Device where
  devAddr : Nat
  socket : Nat
  discovery : Bool
  tag : Nat
  seq : Nat
  failed : Bool
  phase : Phase

/-- A response that `request` accepted. -/
structure Accepted where
  device : Nat
  seq : Nat
  access : Access
  reply : Reply
deriving DecidableEq, Repr

/-- A call that came to its end. `first` and `last` are the numbers of requests before and after. -/
structure Done where
  device : Nat
  call : Call
  first : Nat
  last : Nat
  outcome : Except String (Value × Nat)

/-- `requests` and `replies` are the packets on the network. The last three fields are a record: the
packets that devices sent, the responses that were accepted and the calls that ended. -/
structure World where
  devices : List Device
  requests : List Frame
  replies : List Reply
  reports : List Reply
  accepted : List Accepted
  done : List Done

def retries : Nat := 3

def World.setPhase (w : World) (i : Nat) (d : Device) (phase : Phase) : World :=
  { w with devices := w.devices.set i { d with phase } }

/-- A call ends. -/
def World.finish (w : World) (i : Nat) (d : Device) (call : Call) (first : Nat)
    (outcome : Except String (Value × Nat)) : World :=
  { w.setPhase i d .idle with done := ⟨i, call, first, d.seq, outcome⟩ :: w.done }

/-- The error texts of `request`. -/
def requestError (a : Access) (response : Nat) : String :=
  let what := match a.type with
    | .read => "read"
    | .write => "write"
    | _ => "nop"
  let why := if response = 1 then "worker timeout" else if response = 2 then "worker error"
    else "ethernet timeout - no valid response"
  s!"HDL network {what} error: {why}"

/-- The end of `request` after its loop. -/
def World.giveUp (w : World) (i : Nat) (d : Device) (call : Call) (first : Nat) (p : Pending) :
    World :=
  let response := if p.response = 0 then etherTimeout else p.response
  if p.access.status then
    w.setPhase i d (.ready call first
      (p.k ⟨statusOf response, (p.last.map (·.data)).getD 0⟩))
  else
    w.finish i { d with failed := true } call first (.error (requestError p.access response))

/-- Run the program of a call up to its end or to its next request. -/
def World.run (w : World) (i : Nat) (d : Device) (call : Call) (first : Nat) :
    Prog (Value × Nat) → World
  | .ret v => w.finish i d call first (.ok v)
  | .ask a k =>
    if d.failed then
      w.finish i d call first (.error "HDL::Net::Device::request after previous failure")
    else
      w.setPhase i { d with tag := (d.tag + 1) % 256, seq := d.seq + 1 }
        (.sending call first ⟨a, 0, 0, none, k⟩)

/-- The head of the loop of `request`; `sent` is the success of `send`. -/
def World.send (w : World) (i : Nat) (d : Device) (call : Call) (first : Nat) (p : Pending)
    (sent : Bool) : World :=
  if p.n < retries ∧ sent then
    { w.setPhase i d (.receiving call first p) with
      requests := ⟨d.devAddr, d.socket,
        typeEtc p.access.type (byteEnables p.access.offset p.access.bytes)
          (if d.discovery then 1 else 0) 0,
        d.tag, address p.access.offset, p.access.data, ⟨i, d.seq⟩⟩ :: w.requests }
  else w.giveUp i d call first p

/-- The body of the receive loop of `request`. The address the packet came from is only printed. -/
def World.receive (w : World) (i : Nat) (d : Device) (call : Call) (first : Nat) (p : Pending)
    (r : Reply) : World :=
  let p := { p with last := some r }
  if messageType r.typeEtc ≠ MessageType.response.code ∨ r.tag ≠ d.tag then
    w.setPhase i d (.receiving call first p)
  else
    let p := { p with response := responseCode r.typeEtc }
    if p.response = 0 then
      { w.setPhase i d (.ready call first (p.k ⟨0, r.data⟩)) with
        accepted := ⟨i, d.seq, p.access, r⟩ :: w.accepted }
    else w.setPhase i d (.sending call first { p with n := p.n + 1 })

/-! ## Runs -/

inductive Op where
  | call (i : Nat) (c : Call)
  | run (i : Nat)
  | send (i : Nat) (sent : Bool)
  | receive (i j : Nat)
  | timeout (i : Nat)
  | answer (j : Nat) (typeEtc : Nat) (data : BitVec 32)
  | dropRequest (j : Nat)
  | dupRequest (j : Nat)
  | dropReply (j : Nat)
  | dupReply (j : Nat)
deriving DecidableEq, Repr

/-- The packet of a device in answer to a request. -/
def Frame.reply (f : Frame) (typeEtc : Nat) (data : BitVec 32) : Reply :=
  ⟨f.dest, f.socket, typeEtc, f.tag, data, f.address, f.origin⟩

/-- The network does not keep a response for 256 or more requests of the object it is for. -/
def World.recent (w : World) (r : Reply) : Bool :=
  (w.devices[r.origin.device]?).all fun d => d.seq < r.origin.seq + 256

/-- One step of a device object, of a device or of the network. -/
def step (w : World) : Op → Option World
  | .call i c => do
    let d ← w.devices[i]?
    match d.phase with
    | .idle => some (w.setPhase i d (.ready c d.seq c.prog))
    | _ => none
  | .run i => do
    let d ← w.devices[i]?
    match d.phase with
    | .ready call first p => some (w.run i d call first p)
    | _ => none
  | .send i sent => do
    let d ← w.devices[i]?
    match d.phase with
    | .sending call first p => some (w.send i d call first p sent)
    | _ => none
  | .receive i j => do
    let d ← w.devices[i]?
    let r ← w.replies[j]?
    match d.phase with
    | .receiving call first p =>
      if r.socket = d.socket ∧ w.recent r then
        some (World.receive { w with replies := w.replies.eraseIdx j } i d call first p r)
      else none
    | _ => none
  | .timeout i => do
    let d ← w.devices[i]?
    match d.phase with
    | .receiving call first p => some (w.setPhase i d (.sending call first { p with n := p.n + 1 }))
    | _ => none
  | .answer j typeEtc data => do
    let f ← w.requests[j]?
    some { w with
      requests := w.requests.eraseIdx j
      replies := f.reply typeEtc data :: w.replies
      reports := f.reply typeEtc data :: w.reports }
  | .dropRequest j => some { w with requests := w.requests.eraseIdx j }
  | .dupRequest j => do
    let f ← w.requests[j]?
    some { w with requests := f :: w.requests }
  | .dropReply j => some { w with replies := w.replies.eraseIdx j }
  | .dupReply j => do
    let r ← w.replies[j]?
    some { w with replies := r :: w.replies }

/-- The device objects after their constructors, given their addresses and sockets. -/
def boot (ds : List (Nat × Nat × Bool)) : World :=
  { devices := ds.map fun d => ⟨d.1, d.2.1, d.2.2, 0, 0, false, .idle⟩
    requests := [], replies := [], reports := [], accepted := [], done := [] }

end OpenCpi.Net
