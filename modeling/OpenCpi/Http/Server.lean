import OpenCpi.Http.Client

/-!
# HTTP: the server's answer to a GET

`Server::processGetOrHeadRequest` for a file that it can open, and that was modified since. With HTTP/1.1
the body goes out in chunks, one for each read of the file; with HTTP/1.0 it goes out as it is, and its
length is in the headers if the file system knows it.
-/

namespace OpenCpi.Http

open Value (Text)
open Sim (ascii decimal)

/-- A file: `std::streamsize` and `off_t` can count its bytes. -/
structure File where
  bytes : Text
  fits : bytes.length < 2 ^ 63

/-! ## Dates -/

/-- What `gmtime` answers. The year is `tm_year + 1900`. -/
structure Tm where
  wday : Fin 7
  mday : Fin 32
  mon : Fin 12
  year : Int
  hour : Fin 24
  min : Fin 60
  sec : Fin 61
  year_fits : year.natAbs ≤ 2 ^ 32

def integerToString : Int → Text
  | .ofNat n => decimal n
  | .negSucc n => ascii "-" ++ decimal (n + 1)

def shortWkdayNames : List Text := ["Sun", "Mon", "Tue", "Wed", "Thu", "Fri", "Sat"].map ascii

def shortMonthNames : List Text :=
  ["Jan", "Feb", "Mar", "Apr", "May", "Jun", "Jul", "Aug", "Sep", "Oct", "Nov", "Dec"].map ascii

/-- A number with a zero before it when it is less than 10. -/
def twoDigits (n : Nat) : Text := (if n < 10 then ascii "0" else []) ++ integerToString n

def makeHttpDate (tm : Tm) : Text :=
  shortWkdayNames.getD tm.wday [] ++ ascii ", " ++ twoDigits tm.mday ++ ascii " "
    ++ shortMonthNames.getD tm.mon [] ++ ascii " " ++ integerToString tm.year ++ ascii " "
    ++ twoDigits tm.hour ++ ascii ":" ++ twoDigits tm.min ++ ascii ":" ++ twoDigits tm.sec
    ++ ascii " GMT"

/-! ## The answer -/

/-- The version of the request. -/
inductive Version where
  | http10
  | http11
  deriving DecidableEq, Repr

/-- What the server knows when it answers: the time, what `lastModified` says, and whether `size`
answers. -/
structure Stamp where
  currentTime : Tm
  lastModified : Option Tm
  sized : Bool

def crlf : Text := ascii "\r\n"

/-- `std::hex` -/
def hex (n : Nat) : Text := (Nat.toDigits 16 n).map fun c => UInt8.ofNat c.toNat

def statusLine : Version → Text
  | .http10 => ascii "HTTP/1.0 200 Ok"
  | .http11 => ascii "HTTP/1.1 200 Ok"

/-- The header lines. -/
def headerLines (version : Version) (stamp : Stamp) (fileSize : Nat) : List Text :=
  (if version = .http11 then [ascii "Transfer-Encoding: chunked"] else [])
    ++ [ascii "Date: " ++ makeHttpDate stamp.currentTime]
    ++ (stamp.lastModified.map fun tm => ascii "Last-Modified: " ++ makeHttpDate tm).toList
    ++ (if stamp.sized then [ascii "Content-Length: " ++ decimal fileSize] else [])

/-- All before the body: the status line, the header lines, and an empty line. -/
def responseHead (version : Version) (stamp : Stamp) (fileSize : Nat) : Text :=
  statusLine version ++ crlf
    ++ ((headerLines version stamp fileSize).map fun line => line ++ crlf).flatten ++ crlf

/-- `DATA_BUFFER_SIZE` -/
def dataBufferSize : Nat := 32768

/-- The loop that sends the file. A read that fills the buffer does not see the end of the file. Each
turn but the last takes a byte from the file, so that `file.length + 1` turns are enough. -/
def sendBodyLoop (chunked : Bool) : Nat → Text → Text
  | 0, _ => []
  | fuel + 1, file =>
    let buffer := file.take dataBufferSize
    let framed := chunked && buffer.length ≠ 0
    (if framed then hex buffer.length ++ crlf else []) ++ buffer ++ (if framed then crlf else [])
      ++ (if buffer.length < dataBufferSize then []
        else sendBodyLoop chunked fuel (file.drop dataBufferSize))

def lastChunk : Text := ascii "0\r\n\r\n"

def sendBody (version : Version) (file : Text) : Text :=
  sendBodyLoop (version = .http11) (file.length + 1) file
    ++ if version = .http11 then lastChunk else []

/-- The bytes that the server sends for a GET. -/
def respond (version : Version) (stamp : Stamp) (file : File) : Text :=
  responseHead version stamp file.bytes.length ++ sendBody version file.bytes

/-! ## Any split into chunks -/

/-- A chunk: a plain hexadecimal size, which fits a line, and as many bytes. -/
structure Chunk where
  size : Text
  data : Text
  plain : ∀ c ∈ size, (Sim.digitOf 16 c).isSome
  short : size.length < maxLengthOfHeaderLine
  counts : (Sim.digits 16 0 0 size).1 = data.length
  data_ne : data ≠ []

def Chunk.bytes (c : Chunk) : Text := c.size ++ crlf ++ c.data ++ crlf

/-- A body in chunks. -/
def chunkedBody (cs : List Chunk) : Text := (cs.map Chunk.bytes).flatten ++ lastChunk

/-- The bytes that are sent for a GET by any split of the file into chunks. -/
def respondInChunks (stamp : Stamp) (file : File) (cs : List Chunk) : Text :=
  responseHead .http11 stamp file.bytes.length ++ chunkedBody cs

end OpenCpi.Http
