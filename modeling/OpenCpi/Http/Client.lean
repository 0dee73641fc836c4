import Mathlib.Data.List.DropRight
import OpenCpi.Sim.Command

/-!
# HTTP: the buffer of the client

`OCPI::Util::Http::ClientStream::ClientBuf` sends a request over a connection, reads the status line
and the headers of the answer, and then hands out the body, a character (`underflow`, `uflow`) or a
block (`xsgetn`) at a time. The body is framed in one of three ways: in chunks, by a length, or by the
end of the connection. The reader may put back one character.

`std::streambuf` has no get area here, so that every read goes to these functions. An `int_type` is a
character or `eof`, which is `none`.
-/

namespace OpenCpi.Http

open Value (Text)
open Sim (ascii decimal isSpace digitOf digits)

/-! ## The connection -/

/-- The `std::istream` of a connection: the bytes that are to come, and `good ()`. -/
structure Conn where
  bytes : Text
  good : Bool
  deriving DecidableEq, Repr

/-- `read`, with what `gcount` counts. -/
def Conn.read (c : Conn) (n : Int) : Text × Conn :=
  if !c.good then ([], c)
  else if n < 0 then ([], { c with good := false })
  else
    let got := c.bytes.take n.toNat
    (got, ⟨c.bytes.drop n.toNat, got.length = n.toNat⟩)

/-- `get` -/
def Conn.get : Conn → Option UInt8 × Conn
  | ⟨b :: rest, true⟩ => (some b, ⟨rest, true⟩)
  | ⟨bytes, _⟩ => (none, ⟨bytes, false⟩)

/-- `peek` -/
def Conn.peek : Conn → Option UInt8 × Conn
  | ⟨b :: rest, true⟩ => (some b, ⟨b :: rest, true⟩)
  | ⟨bytes, _⟩ => (none, ⟨bytes, false⟩)

/-- The loop of `readline`, over the bytes to come. -/
def readlineLoop (maxSize : Nat) : Text → Text → Text × Conn
  | [], res => (res, ⟨[], false⟩)
  | c :: rest, res =>
    if c = 10 then (res, ⟨rest, true⟩)
    else if res.length = maxSize then (res, ⟨rest, false⟩)
    else readlineLoop maxSize rest (res ++ [c])

/-- The characters that `readline` takes off the end. -/
def isBlank (c : UInt8) : Bool := c = 32 || c = 9 || c = 13

def readline (conn : Conn) (maxSize : Nat) : Text × Conn :=
  if conn.good then
    let (res, conn) := readlineLoop maxSize conn.bytes []
    (res.rdropWhile isBlank, conn)
  else ([], conn)

/-- `MAX_LENGTH_OF_HEADER_LINE` -/
def maxLengthOfHeaderLine : Nat := 4096

/-- `MAX_NUM_OF_HEADER_LINES` -/
def maxNumOfHeaderLines : Nat := 256

/-! ## Numbers -/

/-- `static_cast<unsigned long long> (-1)` -/
def minusOne : Nat := 2 ^ 64 - 1

/-- The `0x` that a number with base 16 may begin with is skipped. -/
def skipPrefix : Text → Text
  | 48 :: x :: c :: rest =>
    if (x = 120 ∨ x = 88) ∧ (digitOf 16 c).isSome then c :: rest else 48 :: x :: c :: rest
  | t => t

/-- `strtoul`: the value and the rest of the text. A value out of range is `ULONG_MAX`. -/
def strtoul (base : Nat) (t : Text) : Nat × Text :=
  let u := t.dropWhile isSpace
  let negative := u.head? = some 45
  let u := if negative ∨ u.head? = some 43 then u.tail else u
  let u := if base = 16 then skipPrefix u else u
  let (v, n, rest) := digits base 0 0 u
  if n = 0 then (0, t)
  else if 2 ^ 64 ≤ v then (minusOne, rest)
  else (if negative then (2 ^ 64 - v) % 2 ^ 64 else v, rest)

/-- `!*ep`: the C string ends here. -/
def atEnd (rest : Text) : Bool := rest.headD 0 = 0

/-- `unsignedToStreamsize (value, true)` -/
def unsignedToStreamsize (value : Nat) : Int := if 2 ^ 63 ≤ value then -1 else value

/-! ## Headers -/

/-- The characters `isToken` refuses besides the control characters. -/
def separators : Text := ascii "()<>@,;:\\\"/[]?=\x7b\x7d"

def isToken (t : Text) : Bool := t.all fun c => 32 ≤ c && c < 127 && !separators.contains c

/-- `tolower` -/
def toLower (c : UInt8) : UInt8 := if 65 ≤ c ∧ c ≤ 90 then c + 32 else c

/-- Two field names are the same to `CaseInsensitiveStringLess`. -/
def sameName (a b : Text) : Bool := a.map toLower = b.map toLower

abbrev Headers := List (Text × Text)

def Headers.find (h : Headers) (name : Text) : Option Text :=
  (List.find? (fun f => sameName f.1 name) h).map Prod.snd

/-- If the header was seen before, its value is concatenated. -/
def Headers.add (h : Headers) (name value : Text) : Headers :=
  match h.find name with
  | some old => h.map fun f => if sameName f.1 name then (f.1, old ++ ascii "," ++ value) else f
  | none => h ++ [(name, value)]

/-- A header line: the name and the value of the field. -/
def parseHeader (line : Text) : Option (Text × Text) :=
  let name := line.takeWhile (· ≠ 58)
  if name.length = line.length ∨ ¬isToken name then none
  else some (name, (line.drop (name.length + 1)).dropWhile isSpace)

/-! ## The buffer -/

inductive State where
  | notConnected
  | sendRequest
  | receiveHeaders
  | download
  | upload
  | close
  deriving DecidableEq, Repr

inductive RequestType where
  | get
  | head
  | post
  | put
  | delete
  deriving DecidableEq, Repr

/-- What is thrown: a text, or `std::out_of_range` by a `substr`. -/
inductive Failure where
  | text (t : Text)
  | outOfRange
  deriving DecidableEq, Repr

/-- `ClientBuf`. `sent` is what was written to `m_outConn`. -/
structure ClientBuf where
  state : State
  conn : Conn
  sent : Text
  chunked : Bool
  firstChunk : Bool
  chunkRemaining : Nat
  contentLength : Nat
  contentRemaining : Nat
  haveLast : Bool
  havePending : Bool
  pending : Option UInt8
  closeConnection : Bool
  majorVersion : Nat
  minorVersion : Nat
  statusCode : Nat
  status : Text
  reason : Text
  responseHeaders : Headers
  deriving DecidableEq, Repr

/-- What an operation that may throw leaves. -/
abbrev Outcome := Option Failure × ClientBuf

/-- `ClientBuf ()`. The fields that the constructor leaves open are zero here. -/
def ClientBuf.created : ClientBuf :=
  ⟨.notConnected, ⟨[], false⟩, [], false, false, 0, 0, 0, false, false, none, false, 0, 0, 0, [], [], []⟩

def ClientBuf.setConn (b : ClientBuf) (conn : Conn) : ClientBuf :=
  { b with
    statusCode := 0
    conn := conn
    sent := []
    chunked := false
    haveLast := false
    havePending := false
    state := .sendRequest
    closeConnection := false
    majorVersion := 1
    minorVersion := 1
    responseHeaders := [] }

/-! ## Status and headers -/

/-- The version of the status line, when this client can handle it. -/
def ClientBuf.takeVersion (b : ClientBuf) (version : Text) : Option ClientBuf :=
  if version = ascii "1.1" ∧ b.majorVersion = 1 ∧ 0 < b.minorVersion then
    some { b with majorVersion := 1, minorVersion := 1 }
  else if version = ascii "1.0" then
    some { b with majorVersion := 1, minorVersion := 0, closeConnection := true }
  else none

/-- A status code: a digit from 1 to 5 and two digits. -/
def isStatusCode : Text → Bool
  | [x, y, z] => 49 ≤ x && x ≤ 53 && 48 ≤ y && y ≤ 57 && 48 ≤ z && z ≤ 57
  | _ => false

def ClientBuf.receiveStatus (b : ClientBuf) : Outcome :=
  let (status, conn) := readline b.conn maxLengthOfHeaderLine
  let b := { b with status := status, conn := conn }
  if !conn.good then (some (.text (ascii "could not read status")), b)
  else if status.take 5 ≠ ascii "HTTP/" then
    (some (.text (ascii "protocol error, expecting HTTP, got \"" ++ status ++ ascii "\"")), b)
  else
    let version := (status.drop 5).take 3
    match b.takeVersion version with
    | none => (some (.text (ascii "can not handle HTTP version " ++ version)), b)
    | some b =>
      if status.length < 9 then (some .outOfRange, b)
      else
        let code := (status.drop 9).take 3
        if !isStatusCode code then
          (some (.text (ascii "expected status code, got \"" ++ code ++ ascii "\"")), b)
        else
          let b := { b with statusCode := (digits 10 0 0 code).1 }
          if status.length < 13 then (some .outOfRange, b)
          else (none, { b with reason := status.drop 13 })

/-- The loop of `receiveHeaders`: `n` more lines are allowed, and `line` was read. -/
def receiveHeadersLoop : Nat → Text → ClientBuf → Outcome
  | n, line, b =>
    if b.conn.good && line ≠ [] then
      match n with
      | 0 => (some (.text (ascii "implementation limit reached: more than "
          ++ decimal maxNumOfHeaderLines ++ ascii " header lines")), b)
      | n + 1 =>
        match parseHeader line with
        | none => (some (.text (ascii "illegal header line: \"" ++ line ++ ascii "\"")), b)
        | some (name, value) =>
          let (line, conn) := readline b.conn maxLengthOfHeaderLine
          receiveHeadersLoop n line
            { b with responseHeaders := b.responseHeaders.add name value, conn := conn }
    else if !b.conn.good then
      (some (.text (ascii "connection broken while reading headers")), b)
    else if b.responseHeaders.find (ascii "Connection") = some (ascii "close") then
      (none, { b with closeConnection := true })
    else (none, b)

def ClientBuf.receiveHeaders (b : ClientBuf) : Outcome :=
  let (line, conn) := readline b.conn maxLengthOfHeaderLine
  receiveHeadersLoop maxNumOfHeaderLines line { b with conn := conn }

/-- Status and headers are read until the status is not informational. Each turn takes a byte from the
connection or throws, so that the number of the bytes to come bounds the turns. -/
def receiveResponse : Nat → ClientBuf → Outcome
  | 0, b => (some (.text (ascii "could not read status")), b)
  | fuel + 1, b =>
    match b.receiveStatus with
    | (some failure, b) => (some failure, b)
    | (none, b) =>
      match b.receiveHeaders with
      | (some failure, b) => (some failure, b)
      | (none, b) =>
        if 100 ≤ b.statusCode ∧ b.statusCode < 200 then receiveResponse fuel b else (none, b)

/-! ## Requests -/

def RequestType.word : RequestType → Text
  | .get => ascii "GET "
  | .head => ascii "HEAD "
  | .put => ascii "PUT "
  | .post => ascii "POST "
  | .delete => ascii "DELETE "

/-- `sendAnyRequest`, with the decoded host of the URI. -/
def ClientBuf.sendAnyRequest (b : ClientBuf) (requestType : RequestType) (host request : Text)
    (requestHeaders : Headers) : ClientBuf :=
  let crlf := ascii "\r\n"
  let requestLine := requestType.word ++ request ++ ascii " HTTP/"
    ++ decimal b.majorVersion ++ ascii "." ++ decimal b.minorVersion ++ crlf
  let hostLine :=
    if (requestHeaders.find (ascii "Host")).isNone then ascii "Host: " ++ host ++ crlf else []
  let agentLine :=
    if (requestHeaders.find (ascii "User-Agent")).isNone then
      ascii "User-Agent: mcClient/0.1" ++ crlf else []
  let lines := (requestHeaders.map fun f => f.1 ++ ascii ": " ++ f.2 ++ crlf).flatten
  { b with
    sent := b.sent ++ requestLine ++ hostLine ++ agentLine ++ lines ++ crlf
    closeConnection := b.closeConnection
      || requestHeaders.find (ascii "Connection") = some (ascii "close") }

/-- Whether the body is in chunks is taken from the headers. -/
def ClientBuf.takeEncoding (b : ClientBuf) : ClientBuf :=
  if b.majorVersion = 1 ∧ 1 ≤ b.minorVersion
      ∧ b.responseHeaders.find (ascii "Transfer-Encoding") = some (ascii "chunked") then
    { b with chunked := true, firstChunk := true, chunkRemaining := 0 }
  else { b with chunked := false }

/-- The length of the body is taken from the headers. -/
def ClientBuf.takeLength (b : ClientBuf) : ClientBuf :=
  match b.responseHeaders.find (ascii "Content-Length") with
  | some cl =>
    let (n, rest) := strtoul 10 cl
    if atEnd rest then { b with contentLength := n, contentRemaining := n }
    else { b with contentLength := minusOne, closeConnection := true }
  | none => { b with contentLength := minusOne }

/-- The download starts. -/
def ClientBuf.startDownload (b : ClientBuf) : ClientBuf :=
  let b := b.takeEncoding.takeLength
  { b with
    closeConnection := b.closeConnection || (!b.chunked && b.contentLength = minusOne)
    state := .download }

/-- There is no body to be read. -/
def noBody (requestType : RequestType) (statusCode : Nat) : Bool :=
  (100 ≤ statusCode && statusCode < 200) || statusCode = 204 || statusCode = 205
    || statusCode = 304 || requestType = .head

/-- `sendGetOrHeadOrDeleteRequest` -/
def ClientBuf.sendGetOrHeadOrDeleteRequest (b : ClientBuf) (requestType : RequestType)
    (host request : Text) (headers : Headers) : Outcome :=
  if b.state ≠ .sendRequest then (some (.text (ascii "not in the right mood")), b)
  else
    let b := { b with responseHeaders := [] }.sendAnyRequest requestType host request headers
    match receiveResponse (b.conn.bytes.length + 1) b with
    | (some failure, b) => (some failure, b)
    | (none, b) =>
      if noBody requestType b.statusCode then
        (none, { b with state := if b.closeConnection then .close else .sendRequest })
      else (none, b.startDownload)

/-- `completeUpload`: the answer to an upload is read. -/
def ClientBuf.completeUpload (b : ClientBuf) : Outcome :=
  if b.state ≠ .upload then (none, b)
  else
    match receiveResponse (b.conn.bytes.length + 1) b with
    | (some failure, b) => (some failure, { b with state := .close })
    | (none, b) => (none, { b with state := .download })

/-! ## Reading the body -/

/-- The end of line after a chunk is read, if there was a chunk. The answer is whether it is not there. -/
def ClientBuf.endChunk (b : ClientBuf) : Bool × ClientBuf :=
  if b.firstChunk then (false, { b with firstChunk := false })
  else
    let (trailingCRLF, conn) := readline b.conn maxLengthOfHeaderLine
    (!conn.good || trailingCRLF ≠ [], { b with conn := conn })

/-- The next chunk is opened. The answer is whether there is one; after the last one, or an error, the
connection is to be closed. -/
def ClientBuf.openChunk (b : ClientBuf) : Bool × ClientBuf :=
  let (broken, b) := b.endChunk
  if broken then (false, { b with state := .close })
  else
    let (chunkSizeLine, conn) := readline b.conn maxLengthOfHeaderLine
    let (n, rest) := strtoul 16 chunkSizeLine
    let b := { b with conn := conn, chunkRemaining := n }
    if !atEnd rest then (false, { b with state := .close })
    else if n = 0 then (false, { b.receiveHeaders.2 with state := .close })
    else (true, b)

/-- The length of the body is known, and it was read. -/
def ClientBuf.contentDone (b : ClientBuf) : Bool :=
  !b.chunked && b.contentLength ≠ minusOne && b.contentRemaining = 0

/-- The counter of the framing after `count` bytes. -/
def ClientBuf.count (b : ClientBuf) (count : Nat) : ClientBuf :=
  if b.chunked then { b with chunkRemaining := b.chunkRemaining - count }
  else if b.contentLength ≠ minusOne then { b with contentRemaining := b.contentRemaining - count }
  else b

/-- The next character is read. -/
def ClientBuf.nextChar (b : ClientBuf) (bump : Bool) : Option UInt8 × ClientBuf :=
  let (res, b) :=
    if b.chunked && b.chunkRemaining = 0 then (none, b)
    else if b.contentDone then (none, b)
    else if bump then
      let (c, conn) := b.conn.get
      (c, { b with haveLast := true, pending := c, conn := conn })
    else
      let (c, conn) := b.conn.peek
      (c, { b with conn := conn })
  if res = none then
    (none, { b with state := if b.closeConnection then .close else .sendRequest })
  else (res, if bump then b.count 1 else b)

/-- `underflow_common` -/
def ClientBuf.underflowCommon (b : ClientBuf) (bump : Bool) : Option UInt8 × ClientBuf :=
  let b := b.completeUpload.2
  -- after an upload that fails the state is not `download` either
  if b.state ≠ .download then (none, b)
  else if b.havePending then
    (b.pending, if bump then { b with haveLast := true, havePending := false } else b)
  else if b.chunked && b.chunkRemaining = 0 then
    match b.openChunk with
    | (false, b) => (none, b)
    | (true, b) => b.nextChar bump
  else b.nextChar bump

def ClientBuf.underflow (b : ClientBuf) : Option UInt8 × ClientBuf := b.underflowCommon false

def ClientBuf.uflow (b : ClientBuf) : Option UInt8 × ClientBuf := b.underflowCommon true

/-- `pbackfail`: `sputbackc` calls it with a character, `sungetc` with `eof`. -/
def ClientBuf.pbackfail (b : ClientBuf) (c : Option UInt8) : Option UInt8 × ClientBuf :=
  if b.state ≠ .download ∨ b.havePending then (none, b)
  else
    match c with
    | none =>
      if !b.haveLast then (none, b)
      -- `not_eof (eof)`
      else (some 0, { b with havePending := true })
    | some c => (some c, { b with pending := some c, havePending := true })

/-- `to_char_type` -/
def toCharType (c : Option UInt8) : UInt8 := c.getD 255

/-- How much `xsgetn` asks the connection for. -/
def ClientBuf.toRead (b : ClientBuf) (remaining : Nat) : Int :=
  if b.chunked then min (remaining : Int) (unsignedToStreamsize b.chunkRemaining)
  else if b.contentLength ≠ minusOne then
    min (remaining : Int) (unsignedToStreamsize b.contentRemaining)
  else remaining

/-- The loop of `xsgetn`. Each turn reads a byte or is the last, so that `n + 1` turns are enough. -/
def xsgetnLoop : Nat → Nat → Text → ClientBuf → Text × ClientBuf
  | 0, _, s, b => (s, b)
  | fuel + 1, remaining, s, b =>
    if remaining = 0 ∨ !b.conn.good then (s, b)
    else
      let (stop, b) :=
        if b.chunked && b.chunkRemaining = 0 then
          let (c, b) := b.underflow
          (decide (c = none), b)
        else (false, b)
      if stop || b.contentDone then (s, b)
      else
        let (got, conn) := b.conn.read (b.toRead remaining)
        xsgetnLoop fuel (remaining - got.length) (s ++ got)
          ({ b with conn := conn }.count got.length)

/-- The last character of a block can be put back. -/
def ClientBuf.remember (b : ClientBuf) (s : Text) : ClientBuf :=
  match s.getLast? with
  | some c => { b with haveLast := true, pending := some c }
  | none => b

/-- `xsgetn`, with the characters it stores. -/
def ClientBuf.xsgetn (b : ClientBuf) (n : Nat) : Text × ClientBuf :=
  let b := b.completeUpload.2
  if b.state ≠ .download then ([], b)
  else
    let (s, b) :=
      if b.havePending ∧ n ≠ 0 then ([toCharType b.pending], { b with havePending := false })
      else ([], b)
    let (s, b) := xsgetnLoop (n + 1) (n - s.length) s b
    (s, b.remember s)

/-! ## What a reader does -/

inductive Op where
  | underflow
  | uflow
  | xsgetn (n : Nat)
  | pbackfail (c : Option UInt8)
  deriving DecidableEq, Repr

/-- What an operation returns. -/
inductive Answer where
  | char (c : Option UInt8)
  | block (s : Text)
  deriving DecidableEq, Repr

def ClientBuf.step (b : ClientBuf) : Op → Answer × ClientBuf
  | .underflow => (.char b.underflow.1, b.underflow.2)
  | .uflow => (.char b.uflow.1, b.uflow.2)
  | .xsgetn n => (.block (b.xsgetn n).1, (b.xsgetn n).2)
  | .pbackfail c => (.char (b.pbackfail c).1, (b.pbackfail c).2)

end OpenCpi.Http
