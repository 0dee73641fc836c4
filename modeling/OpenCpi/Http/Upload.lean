import OpenCpi.Http.Server

/-!
# HTTP: the server receives a PUT

`Server::processPutRequest` for a file that it can open and write. Two loops serve the three framings: the
inner one reads a chunk, or all of the body; the outer one goes from chunk to chunk. Neither need have an
end, so that they take as much fuel as they are given.
-/

namespace OpenCpi.Http

open Value (Text)
open Sim (ascii)

/-- What a request says about its body. -/
structure PutRequest where
  version : Version
  headers : Headers
  closeConnection : Bool

/-- The variables of the loops. The file is what was written to it. -/
structure PutState where
  conn : Conn
  chunkSize : Nat
  contentLength : Nat
  file : Text

/-- What the server does in the end: the file is closed, or an answer 404 with a reason is sent. -/
inductive PutEnd where
  | created (file : Text) (conn : Conn) (closeConnection : Bool)
  | refused (reason explanation : Text)

/-- How the body is framed: in chunks, and with a length. -/
structure Framing where
  chunked : Bool
  haveContentLength : Bool

def PutState.amountToRead (f : Framing) (s : PutState) : Int :=
  if f.chunked then min (unsignedToStreamsize s.chunkSize) dataBufferSize
  else if !f.haveContentLength then min (unsignedToStreamsize s.contentLength) dataBufferSize
  else dataBufferSize

/-- One turn of the inner loop. The counters are unsigned. -/
def PutState.transfer (f : Framing) (s : PutState) : PutState :=
  let (buffer, conn) := s.conn.read (s.amountToRead f)
  { conn
    chunkSize := if f.chunked then (2 ^ 64 + s.chunkSize - buffer.length) % 2 ^ 64 else s.chunkSize
    contentLength :=
      if !f.chunked && f.haveContentLength then (2 ^ 64 + s.contentLength - buffer.length) % 2 ^ 64
      else s.contentLength
    file := s.file ++ buffer }

/-- The condition of the inner loop. -/
def PutState.more (f : Framing) (s : PutState) : Bool :=
  (!f.chunked || 0 < s.chunkSize) && (!f.haveContentLength || 0 < s.contentLength) && s.conn.good

/-- The inner loop. -/
def transferLoop (f : Framing) : Nat → PutState → Option PutState
  | 0, _ => none
  | fuel + 1, s => if s.more f then transferLoop f fuel (s.transfer f) else some s

def refuseSize : PutEnd := .refused (ascii "Upload failure") (ascii "Error reading chunk size.")

def refuseChunk : PutEnd := .refused (ascii "Upload failure") (ascii "Error reading end of chunk.")

/-- The outer loop. It is left by its condition or by the last chunk (`.ok`), or by an error. -/
def receiveLoop (f : Framing) : Nat → PutState → Option (Except PutEnd PutState)
  | 0, _ => none
  | fuel + 1, s =>
    if !s.conn.good then some (.ok s)
    else if f.chunked then
      let (line, conn) := readline s.conn maxLengthOfHeaderLine
      if line.length = 0 ∨ line.length = maxLengthOfHeaderLine then some (.error refuseSize)
      else
        let (chunkSize, rest) := strtoul 16 line
        if !atEnd rest then some (.error refuseSize)
        else if chunkSize = 0 then some (.ok { s with conn, chunkSize })
        else
          (transferLoop f fuel { s with conn, chunkSize }).bind fun s =>
            if s.chunkSize = 0 then
              let (line, conn) := readline s.conn maxLengthOfHeaderLine
              if line.length ≠ 0 then some (.error refuseChunk) else receiveLoop f fuel { s with conn }
            else receiveLoop f fuel s
    else (transferLoop f fuel s).bind (receiveLoop f fuel)

/-- `chunked`; another transfer encoding is refused. -/
def chunkedOf (r : PutRequest) : Option Bool :=
  if r.version = .http11 then
    match r.headers.find (ascii "Transfer-Encoding") with
    | some value => if value = ascii "chunked" then some true else none
    | none => some false
  else some false

/-- `contentLength`, when there is one that is a number. -/
def contentLengthOf (r : PutRequest) : Option Nat :=
  (r.headers.find (ascii "Content-Length")).bind fun value =>
    if atEnd (strtoul 10 value).2 then some (strtoul 10 value).1 else none

/-- The value that `contentLength` has in any case. -/
def contentLengthValue (r : PutRequest) : Nat :=
  match r.headers.find (ascii "Content-Length") with
  | some value => (strtoul 10 value).1
  | none => minusOne

/-- `Server::processPutRequest` -/
def processPutRequest (fuel : Nat) (r : PutRequest) (conn : Conn) : Option PutEnd :=
  match chunkedOf r with
  | none => some (.refused (ascii "Request error") (ascii "Unsupported transfer encoding."))
  | some chunked =>
    let f : Framing := ⟨chunked, (contentLengthOf r).isSome⟩
    let closing := !f.chunked && !f.haveContentLength
    (receiveLoop f fuel ⟨conn, minusOne, contentLengthValue r, []⟩).map fun
      | .error e => e
      | .ok s =>
        -- an end of the connection that ends the body is cleared
        let conn := if closing && !s.conn.good then { s.conn with good := true } else s.conn
        .created s.file conn (r.closeConnection || closing)

end OpenCpi.Http
