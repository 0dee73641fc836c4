import OpenCpi.Infra.Run
import OpenCpi.Value.Marshal

/-!
# Commands to the simulator server

`Sim::doServer` of `SimServer.cxx`. Clients send commands in datagrams with a tag, and send them
again with the same tag until they are answered (`Device::request` of `NetDriver.cxx`). The server
remembers the last client, the last tag and the last reply, so that a datagram that comes again is
not executed again. `L` loads an executable, which may have to be transferred in the background
first, `R` runs it after the transfer, and `F` flushes everything.

A command is the `n`-th of its client; `issue` says what its datagrams hold. The order in which
datagrams arrive, how often, and what the system calls return, is free. An error that `doServer`
returns ends the server.
-/

namespace OpenCpi.Sim

open Infra Value

/-- The bytes of a text of ASCII characters. -/
def ascii (s : String) : Text := s.toList.map fun c => UInt8.ofNat c.toNat

def letterE : UInt8 := 69
def letterO : UInt8 := 79
def letterX : UInt8 := 88

/-- `%u` -/
def decimal (n : Nat) : Text := (Nat.toDigits 10 n).map fun c => UInt8.ofNat c.toNat

/-- The characters of a text up to a NUL. -/
def cString (t : Text) : Text := t.takeWhile (· ≠ 0)

/-! ## Numbers -/

/-- `isspace` -/
def isSpace (c : UInt8) : Bool := c = 32 || (9 ≤ c && c ≤ 13)

/-- The value of a digit in bases up to 16. -/
def digitOf (base : Nat) (c : UInt8) : Option Nat :=
  let v :=
    if 48 ≤ c ∧ c ≤ 57 then c.toNat - 48
    else if 97 ≤ c ∧ c ≤ 102 then c.toNat - 87
    else if 65 ≤ c ∧ c ≤ 70 then c.toNat - 55
    else 16
  if v < base then some v else none

/-- The digits at the start of a text: their value, how many they are, and the rest. -/
def digits (base : Nat) : Nat → Nat → Text → Nat × Nat × Text
  | v, n, [] => (v, n, [])
  | v, n, c :: rest =>
    match digitOf base c with
    | some k => digits base (v * base + k) (n + 1) rest
    | none => (v, n, c :: rest)

/-- The base that a number with base 0 is written in, and its digits. -/
def splitBase : Text → Nat × Text
  | 48 :: x :: c :: rest =>
    if (x = 120 ∨ x = 88) ∧ (digitOf 16 c).isSome then (16, c :: rest) else (8, 48 :: x :: c :: rest)
  | 48 :: rest => (8, 48 :: rest)
  | t => (10, t)

/-- `strtoull` with base 0: the value, unless it is out of range, and the rest of the text. -/
def strtoull (t : Text) : Option Nat × Text :=
  let u := t.dropWhile isSpace
  let negative := u.head? = some 45
  let u := if negative ∨ u.head? = some 43 then u.tail else u
  let (base, u) := splitBase u
  let (v, n, rest) := digits base 0 0 u
  if n = 0 then (some 0, t)
  else if 2 ^ 64 ≤ v then (none, rest)
  else (some (if negative then (2 ^ 64 - v) % 2 ^ 64 else v), rest)

/-! ## Loading and running -/

/-- The background transfer of an executable: `m_xferError`, `m_xferSize`, `m_xferCount`, and whether
there is an `m_xferSrvr`, an `m_xferSckt`, and `m_xferDone`. `running` is whether there is a process
of the simulator. -/
structure Transfer where
  error : Text
  size : Nat
  count : Nat
  srvr : Bool
  sckt : Bool
  done : Bool
  running : Bool

/-- What the system does during a command: the error of `mkdir`, that of everything in
`finishLoadRun`, whether there is a process behind it, the port of a new socket, and whether `send`
works. -/
structure Env where
  mkdir : Option Text
  finish : Option Text
  running : Bool
  port : Nat
  sends : Bool

/-- What comes of a command: the status letter and the message. -/
structure Outcome where
  letter : UInt8
  message : Text
deriving DecidableEq, Repr

/-- What `doServer` does about a command. -/
inductive Effect where
  /-- The reply is put together: `response` stands at `start`, `letter` is put at its beginning, and
  the message behind it is `error`. -/
  | answer (start : Nat) (letter : Option UInt8) (error : Text) (outcome : Outcome)
  /-- Nothing is sent. -/
  | putOff
  /-- An assertion fails, an exception is thrown, or an error is returned. -/
  | stop

/-- The usual reply. -/
def answered (letter : UInt8) (error : Text) : Effect :=
  .answer 0 (some letter) error ⟨letter, cString error⟩

/-- A reply for which `response` was advanced. -/
def advanced (error : Text) : Effect := .answer 1 (some letterE) error ⟨letterE, cString error⟩

/-- `flush` -/
def Transfer.flush (t : Transfer) : Transfer := { t with srvr := false, sckt := false }

/-- `shutdown` -/
def Transfer.shutdown (t : Transfer) : Transfer :=
  if t.running then { t.flush with running := false } else t

/-- `finishLoadRun` -/
def finishLoadRun (t : Transfer) (env : Env) : Effect × Transfer :=
  if t.srvr then (.stop, t)
  else
    match env.finish with
    | some error => (answered letterE error, { t with running := env.running })
    | none => (answered letterO [], { t with running := true })

/-- The name has a `-`, and a `.` behind the last one. -/
def wellNamed (file : Text) : Bool :=
  file.contains 45 && (file.reverse.takeWhile (· ≠ 45)).contains 46

/-- The last `-` is in the name of the directory. -/
def dashInDirectory (file : Text) : Bool := (file.reverse.takeWhile (· ≠ 45)).contains 47

/-- `loadRun`. With a negative length `m_app.assign` throws `length_error`. -/
def loadRun (t : Transfer) (file : Text) (size : Nat) (env : Env) : Effect × Transfer :=
  if !wellNamed file then
    (answered letterE (ascii "simulator file name " ++ file ++ ascii " is not formatted properly"), t)
  else if dashInDirectory file then (.stop, t)
  else
    match env.mkdir with
    | some error => (answered letterE error, t)
    | none =>
      if size = 0 then finishLoadRun t env
      else (answered letterX (decimal env.port), { t with size, count := 0, srvr := true })

/-- The size in an `L` command, if it is valid, and the file name. -/
def loadSize (text : Text) : Option Nat × Text :=
  match strtoull text with
  | (some size, rest) =>
    if size = 2 ^ 64 - 1 then (none, rest) else (some size, rest.dropWhile isSpace)
  | (none, rest) => (none, rest)

/-- The `switch` over the commands. The text for an invalid size holds the letter, which is not put
where it belongs. -/
def runCommand (t : Transfer) (text : Text) (env : Env) : Effect × Transfer :=
  match text with
  | 76 :: rest => -- L
    let t := { t with error := [] }
    match loadSize rest with
    | (none, _) =>
      (.answer 0 none (ascii "EInvalid file size") ⟨letterE, ascii "Invalid file size"⟩, t)
    | (some size, file) => loadRun t.shutdown file size env
  | 70 :: _ => (answered letterO [], t.flush) -- F
  | 82 :: _ => -- R
    if t.error ≠ [] then (advanced t.error, { t with sckt := false })
    else if t.size = 0 ∨ t.srvr then (.putOff, t)
    else if t.size ≠ t.count then
      (advanced (ascii "Received " ++ decimal t.count ++ ascii " bytes, expected " ++ decimal t.size ++
        ascii " bytes when receiving file"), { t with sckt := false })
    else
      let (effect, t) := finishLoadRun t env
      (effect, { t with sckt := false })
  | _ => (.stop, t)

/-! ## The channel -/

/-- `m_serverResponse`: the tag and the length in its header, and the bytes behind the header. -/
structure Reply where
  tag : UInt8
  length : Nat
  text : Memory

/-- `sizeof(EtherControlHeader)` -/
def headerSize : Nat := 8

/-- `sizeof(OE::Packet::payload)` -/
def maxPayLoad : Nat := 1502

/-- The bytes behind the header that are sent. -/
def Reply.body (r : Reply) : Text := readBytes r.text 0 (r.length + 2 - headerSize)

/-- The reply with the letter and the message in it. `none` if it is too long; a message that passes
the check and still does not fit the packet, which then overflows, is counted among these. -/
def Reply.compose (r : Reply) (start : Nat) (letter : Option UInt8) (error : Text) : Option Reply :=
  if maxPayLoad - 1 ≤ error.length then none
  else if maxPayLoad < headerSize + start + 1 + (cString error).length + 1 then none
  else
    let text := match letter with
      | some c => writeBytes r.text 0 [c]
      | none => r.text
    let text := writeBytes text (start + 1) (cString error ++ [0])
    some { r with text, length := headerSize + strlen text start ((cString error).length + 2) + 1 - 2 }

/-- What the datagrams of a command hold. -/
structure Issue where
  tag : UInt8
  text : Text

/-- A command that was executed. -/
structure Executed (A : Type) where
  client : A
  number : Nat
  outcome : Outcome
deriving DecidableEq

/-- A reply that was sent for a command. -/
structure Answered (A : Type) where
  client : A
  number : Nat
  body : Text
deriving DecidableEq

/-- The server. The last three fields are a record: the last command that was taken for a new one and
whether it was answered, the commands that were executed, and the replies. -/
structure Channel (A : Type) where
  haveTag : Bool
  lastClient : A
  reply : Reply
  transfer : Transfer
  stopped : Bool
  current : Option (A × Nat × Bool)
  executed : List (Executed A)
  replies : List (Answered A)

variable {A : Type} [DecidableEq A]

/-- The reply is sent for a command. -/
def Channel.send (s : Channel A) (client : A) (number : Nat) (sends : Bool) : Channel A :=
  if sends then { s with replies := ⟨client, number, s.reply.body⟩ :: s.replies }
  else { s with stopped := true }

/-- A command that is taken for a new one. -/
def Channel.execute (s : Channel A) (client : A) (number : Nat) (issue : Issue) (env : Env) :
    Channel A :=
  let s := { s with haveTag := true, lastClient := client, reply := { s.reply with tag := issue.tag } }
  match runCommand s.transfer issue.text env with
  | (.answer start letter error outcome, transfer) =>
    let s := { s with transfer, executed := ⟨client, number, outcome⟩ :: s.executed }
    match s.reply.compose start letter error with
    | some reply =>
      Channel.send { s with reply, current := some (client, number, true) } client number env.sends
    | none => { s with stopped := true }
  | (.putOff, transfer) => { s with transfer, current := some (client, number, false) }
  | (.stop, transfer) => { s with transfer, stopped := true }

/-- The datagram is taken for one that came again. -/
def Channel.known (s : Channel A) (client : A) (issue : Issue) : Bool :=
  s.haveTag && issue.tag == s.reply.tag && client == s.lastClient

/-- `doServer` -/
def Channel.doServer (s : Channel A) (client : A) (number : Nat) (issue : Issue) (env : Env) :
    Channel A :=
  if issue.text.contains 0 then { s with stopped := true }
  else if s.known client issue then s.send client number env.sends
  else s.execute client number issue env

/-- What is read from the socket of the transfer. -/
inductive Recv where
  | data (n : Nat) (written : Option Text)
  | eof
  | timeout
deriving DecidableEq, Repr

/-- `doXfer`; `written` is the error of the `write` to the file. -/
def Transfer.receive (t : Transfer) : Recv → Transfer
  | .data n none => { t with count := (t.count + n) % 2 ^ 64 }
  | .data _ (some e) => { t with error := ascii "Error writing executable file: " ++ e, sckt := false }
  | .eof =>
    { t with
      done := true
      error := if t.count ≠ t.size then
          ascii "Executable transfer got " ++ decimal t.count ++ ascii " bytes, expected " ++
            decimal t.size
        else t.error }
  | .timeout =>
    { t with error := ascii "Unexpected timeout on reading transfer socket", sckt := false }

/-- The client connects to the socket; `creat` of the file may fail. -/
def Transfer.accept (t : Transfer) : Option Text → Transfer
  | some e => { t with srvr := false, error := ascii "Couldn't create local copy of executable: " ++ e }
  | none => { t with srvr := false, sckt := true, done := false }

/-- What happens at the server. -/
inductive Event (A : Type) where
  | command (client : A) (number : Nat) (env : Env)
  | accept (creat : Option Text)
  | receive (r : Recv)

/-- One event, with what the commands of the clients are. -/
def Channel.step (issue : A → Nat → Issue) (s : Channel A) : Event A → Option (Channel A)
  | .command client number env =>
    if s.stopped then none else some (s.doServer client number (issue client number) env)
  | .accept creat =>
    if s.stopped || !s.transfer.srvr then none
    else some { s with transfer := s.transfer.accept creat }
  | .receive r =>
    if s.stopped || !s.transfer.sckt || s.transfer.done then none
    else some { s with transfer := s.transfer.receive r }

/-- The server as it is made; nothing is known of its buffers. -/
def Channel.start (nobody : A) (reply : Reply) : Channel A where
  haveTag := false
  lastClient := nobody
  reply
  transfer := ⟨[], 0, 0, false, false, false, false⟩
  stopped := false
  current := none
  executed := []
  replies := []

end OpenCpi.Sim
