import OpenCpi.Infra.Bytes
import OpenCpi.Infra.Run

/-!
# Transfers over a socket

`SocketXferRequest::action_transfer` and `ServerSocketHandler::run` of `DtSocketsXfer.cxx`: each transfer is a
header and its data on a byte stream, which the handler copies to the offset in the header.

## The sender
-/

namespace OpenCpi.Socket

open Infra

/-- What a call of `send` does: it takes some of the bytes, or throws. -/
inductive Send where
  | sent (nb : Nat)
  | failed
  deriving DecidableEq, Repr

/-- `pio_transfer_`: the bytes at `src_va` and the destination. -/
structure Transfer where
  dstOff : Nat
  data : List UInt8
  dstOff_lt : dstOff < 2 ^ 32
  deriving DecidableEq, Repr

/-- `SocketDataHeader` -/
def headerBytes (offset length count : Nat) : List UInt8 := wordBytes offset ++ wordBytes length ++ wordBytes count

def headerSize : Nat := 12

/-- How a loop over `send` ends; `waiting` when no result has come yet. -/
inductive LoopEnd where
  | done (trys : Nat)
  | threw
  | waiting
  deriving DecidableEq, Repr

structure Loop where
  sent : List UInt8
  ended : LoopEnd
  results : List Send
  deriving DecidableEq, Repr

/-- `for (btt = ...; trys && btt && (nb = send(cp, btt)) != 0; btt -= nb, cp += nb, trys -= ...)` -/
def sendLoop (perTry : Nat) : List Send → Nat → List UInt8 → Loop
  | [], trys, bytes => ⟨[], if trys = 0 ∨ bytes = [] then .done trys else .waiting, []⟩
  | r :: results, trys, bytes =>
    if trys = 0 ∨ bytes = [] then ⟨[], .done trys, r :: results⟩
    else
      match r with
      | .failed => ⟨[], .threw, results⟩
      | .sent nb =>
        if nb = 0 then ⟨[], .done trys, results⟩
        else
          let rest := sendLoop perTry results (trys - perTry) (bytes.drop nb)
          { rest with sent := bytes.take nb ++ rest.sent }

/-- How `action_transfer` ends. -/
inductive Outcome where
  | returned
  | threw
  | waiting
  deriving DecidableEq, Repr

/-- The end of a loop, and what comes after it. -/
def afterLoop (l : Loop) (next : List UInt8 × Outcome) : List UInt8 × Outcome :=
  match l.ended with
  | .threw => (l.sent, .threw)
  | .waiting => (l.sent, .waiting)
  | .done trys => if trys = 0 then (l.sent, .threw) else (l.sent ++ next.1, next.2)

/-- `action_transfer`: the bytes that were sent, and how it ends. Only the loop over the header counts the
tries. -/
def actionTransfer (count : Nat) (t : Transfer) (results : List Send) : List UInt8 × Outcome :=
  let header := sendLoop 1 results 10 (headerBytes t.dstOff (t.data.length % 2 ^ 32) count)
  afterLoop header (afterLoop (sendLoop 0 header.results 10 t.data) ([], .returned))

/-! ## The handler -/

/-- The local variables of `run`, and what was copied to the mapped memory, a byte at a time. -/
structure Handler where
  currentPtr : Nat
  bytesLeft : Nat
  header : Memory
  inHeader : Bool
  copied : List (Nat × UInt8)

/-- `header.offset` -/
def Handler.offset (h : Handler) : Nat := wordOf (readBytes h.header 0 4)

/-- `header.length` -/
def Handler.length (h : Handler) : Nat := wordOf (readBytes h.header 4 4)

/-- Either a header is filled next, or a request based on one. -/
def Handler.begin (h : Handler) : Handler :=
  if h.bytesLeft = 0 then
    if h.inHeader then { h with currentPtr := 0, bytesLeft := headerSize }
    else { h with currentPtr := h.offset, bytesLeft := h.length }
  else h

/-- The bytes with the addresses that they are copied to. -/
def copies (addr : Nat) : List UInt8 → List (Nat × UInt8)
  | [] => []
  | b :: bytes => (addr, b) :: copies (addr + 1) bytes

/-- `memcpy` to the current pointer, which is then advanced. -/
def Handler.copy (h : Handler) (bytes : List UInt8) : Handler :=
  let left := h.bytesLeft - bytes.length
  let inHeader := if left = 0 then !h.inHeader else h.inHeader
  if h.inHeader then
    { h with header := writeBytes h.header h.currentPtr bytes, currentPtr := h.currentPtr + bytes.length,
             bytesLeft := left, inHeader := inHeader }
  else
    { h with copied := h.copied ++ copies h.currentPtr bytes, currentPtr := h.currentPtr + bytes.length,
             bytesLeft := left, inHeader := inHeader }

theorem Handler.begin_inHeader (h : Handler) : h.begin.inHeader = h.inHeader := by
  unfold Handler.begin
  split
  · split <;> rfl
  · rfl

/-- Only a header of length zero leaves nothing to copy. -/
theorem Handler.inHeader_of_begin {h : Handler} (hzero : h.begin.bytesLeft = 0) : h.inHeader = false := by
  unfold Handler.begin at hzero
  split at hzero
  · split at hzero
    · cases hzero
    · next hin => exact Bool.eq_false_iff.mpr hin
  · next hleft => exact absurd hzero hleft

theorem Handler.copy_inHeader (h : Handler) (bytes : List UInt8) :
    (h.copy bytes).inHeader = if h.bytesLeft - bytes.length = 0 then !h.inHeader else h.inHeader := by
  unfold Handler.copy
  dsimp only
  split <;> rfl

/-- A turn uses some bytes up, or goes back from the data to the header. -/
theorem Handler.turn_decreases (h : Handler) {bytes : List UInt8} (hne : bytes ≠ []) :
    2 * (bytes.drop h.begin.bytesLeft).length + ((h.begin.copy (bytes.take h.begin.bytesLeft)).inHeader.not).toNat <
      2 * bytes.length + h.inHeader.not.toNat := by
  by_cases hzero : h.begin.bytesLeft = 0
  · have hin := Handler.inHeader_of_begin hzero
    rw [Handler.copy_inHeader, Handler.begin_inHeader, hzero, hin, Nat.zero_sub, if_pos rfl]
    exact Nat.lt_succ_self _
  · have hpos : 0 < bytes.length := List.length_pos_iff.mpr hne
    have hflag := Bool.toNat_le (h.begin.copy (bytes.take h.begin.bytesLeft)).inHeader.not
    rw [List.length_drop]
    omega

/-- The loop of `run` over the bytes of one `recv`. -/
def Handler.receive (h : Handler) (bytes : List UInt8) : Handler :=
  if _hne : bytes = [] then h
  else (h.begin.copy (bytes.take h.begin.bytesLeft)).receive (bytes.drop h.begin.bytesLeft)
  termination_by 2 * bytes.length + h.inHeader.not.toNat
  decreasing_by exact h.turn_decreases _hne

/-! ## The link -/

/-- Both ends: the count of the next header, the bytes in flight, how the last transfer ended, and the transfers
that `action_transfer` was called with. -/
structure Link where
  count : Nat
  returned : List Transfer
  /-- The transfer that `action_transfer` has not returned from; the client sends no more. -/
  broken : Option Transfer
  sent : List UInt8
  flight : List UInt8
  handler : Handler

/-- What happens next: a transfer, or `recv` returns some of the bytes or times out. -/
inductive LinkOp where
  | transfer (t : Transfer) (results : List Send)
  | recv (n : Nat)
  | timeout
  deriving DecidableEq, Repr

/-- `TCP_BUFSIZE_READ` -/
def bufsizeRead : Nat := 4096

def Link.step (l : Link) : LinkOp → Option Link
  | .transfer t results =>
    if l.broken.isSome then none
    else
      let r := actionTransfer l.count t results
      some { l with
        count := (l.count + 1) % 2 ^ 32
        returned := if r.2 = .returned then l.returned ++ [t] else l.returned
        broken := if r.2 = .returned then none else some t
        sent := l.sent ++ r.1
        flight := l.flight ++ r.1 }
  | .recv n =>
    if 0 < n ∧ n ≤ l.flight.length ∧ n ≤ bufsizeRead then
      some { l with flight := l.flight.drop n, handler := l.handler.receive (l.flight.take n) }
    else none
  | .timeout => some l

/-- The handler has an uninitialised header and pointer. -/
def Link.init (header : Memory) (ptr : Nat) : Link :=
  ⟨0xabc00000, [], none, [], [], ⟨ptr, 0, header, true, []⟩⟩

end OpenCpi.Socket
