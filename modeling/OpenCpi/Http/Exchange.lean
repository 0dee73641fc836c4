import OpenCpi.Http.Client

/-!
# HTTP: a request of the client and its answer

`ClientBuf::sendRequest` for all types of requests, with the body of an upload and `completeUpload`.
-/

namespace OpenCpi.Http

open Value (Text)
open Sim (ascii)

/-- `sendPutOrPostRequest`: an upload is sent with HTTP/1.0. -/
def ClientBuf.sendPutOrPostRequest (b : ClientBuf) (requestType : RequestType) (host request : Text)
    (headers : Headers) : Outcome :=
  let b := { b with majorVersion := 1, minorVersion := 0, closeConnection := true }
  if b.state ≠ .sendRequest then (some (.text (ascii "not in the right mood")), b)
  else
    let b := { b with responseHeaders := [] }.sendAnyRequest requestType host request headers
    (none, { b with state := .upload, chunked := false, contentLength := minusOne })

/-- `sendRequest` -/
def ClientBuf.sendRequest (b : ClientBuf) (requestType : RequestType) (host request : Text)
    (headers : Headers) : Outcome :=
  match requestType with
  | .get | .head | .delete => b.sendGetOrHeadOrDeleteRequest requestType host request headers
  | .put | .post => b.sendPutOrPostRequest requestType host request headers

/-- A request is sent, with what is uploaded, and its answer is received. -/
def ClientBuf.exchange (b : ClientBuf) (requestType : RequestType) (host request : Text) (headers : Headers)
    (upload : Text) : Outcome :=
  match b.sendRequest requestType host request headers with
  | (some failure, b) => (some failure, b)
  | (none, b) => { b with sent := b.sent ++ upload }.completeUpload

end OpenCpi.Http
