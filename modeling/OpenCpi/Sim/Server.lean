import Mathlib.Algebra.Group.Nat.Defs
import Mathlib.Data.List.Basic
import OpenCpi.Infra.Run

/-!
# The simulator server

`SimServer.cxx`. The server forwards control packets of network clients to a simulator process
through a pipe (`sendToSim`) and what the simulator answers back to the clients (`doResponse`).
`m_respQueue` remembers where each request came from; both pipes carry plain bytes.

What the system calls return is a parameter of each step, and so is what the simulator answers. The
server reacts to one event at a time (`doit`). `error` is the text that ends the main loop of `run`;
an address is of any type. The credits on the control pipe are left out, and so are the commands
to the server itself and the emulation without a simulator.
-/

namespace OpenCpi.Sim

open Infra

/-! ## Packets -/

/-- `EtherControlHeader::length`, big endian. -/
def lengthField : List UInt8 → Nat
  | hi :: lo :: _ => hi.toNat * 256 + lo.toNat
  | _ => 0

/-- A control packet from the length field on: the first two bytes of the header overlay the
ethernet type and do not go through the pipes. -/
def Framed (bytes : List UInt8) : Prop := 6 ≤ bytes.length ∧ lengthField bytes = bytes.length

instance (bytes : List UInt8) : Decidable (Framed bytes) := inferInstanceAs (Decidable (_ ∧ _))

structure Packet where
  bytes : List UInt8
  framed : Framed bytes
deriving DecidableEq

/-- A response of the simulator. Its length fits in the second byte of the length field. -/
structure Response extends Packet where
  short : bytes.length < 256
deriving DecidableEq

/-- The packets at the start of a stream of bytes, as the simulator takes them. -/
def frames : Nat → List UInt8 → List (List UInt8)
  | 0, _ => []
  | fuel + 1, stream =>
    let len := lengthField stream
    if 6 ≤ len ∧ len ≤ stream.length then stream.take len :: frames fuel (stream.drop len) else []

/-! ## The server -/

/-- `OE::Socket`, by its descriptor and `ifIndex()`. -/
structure Socket where
  fd : Nat
  ifIndex : Nat
deriving DecidableEq, Repr

/-- `Sim::Request`: where a request came from. -/
structure Request (A : Type) where
  sock : Socket
  addr : A
  index : Nat
deriving DecidableEq

/-- A packet that was sent to a client. -/
structure Sent (A : Type) where
  via : Socket
  dest : A
  bytes : List UInt8
deriving DecidableEq

def respMin : Nat := 10

/-- `response` is what stands between `m_response.payload + 2` and `m_respPtr`. `requests` is
everything written to the request pipe and `respFifo` what stands in the response pipe. The last
three fields are a record: the requests that were forwarded, what the simulator answered and what
was sent to clients. -/
structure World (A : Type) where
  clients : List Socket
  respQueue : List (Request A)
  respLeft : Nat
  response : List UInt8
  dcp : Nat
  spinning : Bool
  error : Option String
  requests : List UInt8
  respFifo : List UInt8
  issued : List (Request A × Packet)
  answers : List Response
  sent : List (Sent A)
deriving DecidableEq

variable {A : Type}

/-- `spin`; `n` is what the write to the control pipe returns. -/
def World.spin (w : World A) (n : Int) : World A :=
  if w.spinning then w
  else if n = 2 then { w with spinning := true }
  else { w with error := some s!"spin control write to sim failed. w {n}" }

/-- `ack` and the `spin` behind it: one byte, which is 1, was read from the simulator, or not. -/
def World.ack (w : World A) (r c n : Int) : World A :=
  if r = 1 ∧ c = 1 then World.spin { w with spinning := false } n
  else { w with error := some s!"ack read from sim failed. r {r} c {c}" }

/-- The socket that `sendToIfc` uses: the first client socket of the interface. -/
def socketOf (clients : List Socket) (sock : Socket) (index : Nat) : Socket :=
  if index = 0 then sock else (clients.find? (·.ifIndex == index)).getD sock

/-! ## Requests -/

/-- What `write` to the request pipe returns, and what the writes to the control pipe return after
it. -/
inductive WriteResult where
  | interrupted
  | failed
  | wrote (n : Nat) (credit spin : Int)
deriving DecidableEq, Repr

/-- The loop of `sendToSim`. An interrupted `write` returns -1, and the loop counts it: `nw` and `bp`
go back by one byte. `none` is a result that `write` does not have. -/
def sendLoop (bytes : List UInt8) : Nat → List WriteResult → World A → Option (World A)
  | nw, [], w => if nw < bytes.length then none else some w
  | nw, result :: rest, w =>
    if nw < bytes.length then
      match result with
      | .interrupted => sendLoop bytes ((nw + (2 ^ 64 - 1)) % 2 ^ 64) rest w
      | .failed => some { w with error := some "write error to request fifo" }
      | .wrote n credit spin =>
        if n = 0 then some { w with error := some "wrote zero bytes to request fifo" }
        else if bytes.length < nw + n then none
        else
          let w := { w with requests := w.requests ++ (bytes.drop nw).take n }
          if credit ≠ 2 then some { w with error := some "write error to control fifo" }
          else
            let w := World.spin { w with dcp := w.dcp + n } spin
            if w.error.isSome then some w else sendLoop bytes (nw + n) rest w
    else none

def sendToSim (w : World A) (r : Request A) (p : Packet) (results : List WriteResult) :
    Option (World A) :=
  (sendLoop p.bytes 0 results w).map fun w =>
    if w.error.isSome then w
    else { w with respQueue := w.respQueue ++ [r], issued := w.issued ++ [(r, p)] }

/-! ## Responses -/

/-- What `read` from the response pipe returns; `again` stands for the errors that are no error. -/
inductive ReadResult where
  | again
  | broken (n errno : Int)
  | bytes (n : Nat)
deriving DecidableEq, Repr

/-- The end of `doResponse`, with a whole response in the buffer. `send` is the error of the socket
and `spin` what the write to the control pipe returns. -/
def forward (w : World A) (send : Option String) (spin : Int) : World A :=
  match w.respQueue.getLast? with
  | none => { w with error := some "Response client queue empty" }
  | some request =>
    let w := { w with
      sent := w.sent ++ [⟨socketOf w.clients request.sock request.index, request.addr, w.response⟩]
      error := send
      respQueue := w.respQueue.tail }
    if w.respQueue = [] then w.spin spin else w

/-- `doResponse` after its first lines. `m_respLeft` is computed from the length as soon as it was
read, in 64 bits. -/
def takeBytes (w : World A) (n : Nat) (send : Option String) (spin : Int) : Option (World A) :=
  if n = 0 ∨ w.respLeft < n ∨ w.respFifo.length < n then none
  else
    let w := { w with
      response := w.response ++ w.respFifo.take n
      respFifo := w.respFifo.drop n
      respLeft := w.respLeft - n }
    match w.response[1]? with
    | none => some w
    | some len =>
      let w := { w with
        respLeft := (2 + len.toNat + (2 ^ 64 - (2 + w.response.length))) % 2 ^ 64 }
      some (if w.respLeft = 0 then forward w send spin else w)

def doResponse (w : World A) (read : ReadResult) (send : Option String) (spin : Int) :
    Option (World A) :=
  let first := w.respLeft = 0
  let w := if first then { w with respLeft := respMin, response := [] } else w
  match read with
  | .again => some (if first then { w with respLeft := 0 } else w)
  | .broken n errno =>
    some { w with error := some s!"Response channel from simulator broken: {n} {errno}" }
  | .bytes n => takeBytes w n send spin

/-! ## Runs -/

inductive Op (A : Type) where
  | request (r : Request A) (p : Packet) (results : List WriteResult)
  | answer (response : Response)
  | respond (read : ReadResult) (send : Option String) (spin : Int)
  | ack (r c n : Int)

/-- One event. The simulator answers the requests it received in order, each once. -/
def step (w : World A) (op : Op A) : Option (World A) :=
  if w.error.isSome then none
  else
    match op with
    | .request r p results => sendToSim w r p results
    | .answer response =>
      if w.answers.length < (frames w.requests.length w.requests).length then
        some { w with
          answers := w.answers ++ [response]
          respFifo := w.respFifo ++ response.bytes }
      else none
    | .respond read send spin => doResponse w read send spin
    | .ack r c n => some (w.ack r c n)

/-- The server after its constructor. -/
def boot (clients : List Socket) : World A :=
  { clients, respQueue := [], respLeft := 0, response := [], dcp := 0, spinning := false
    error := none, requests := [], respFifo := [], issued := [], answers := [], sent := [] }

end OpenCpi.Sim
