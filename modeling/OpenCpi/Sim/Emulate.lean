import OpenCpi.Infra.Bytes
import OpenCpi.Infra.Traced

/-!
# The emulation without a simulator

`Sim::doEmulate` of `SimServer.cxx` with the packets of `NetDefs.h` and the layout of `HdlOCCP.h`. As long
as no simulator runs, the server answers control packets itself: reads and writes of the administration
registers `m_admin` and of `m_uuid`.

Each access of four bytes to one of these is reported. What stands behind an object is kept with it as
memory, so an access outside has an effect there. The host stores words with the low byte first. Debug
output is left out, and so is the text of an error.
-/

namespace OpenCpi.Sim

open Infra

/-! ## Layout -/

/-- `sizeof(OccpAdminRegisters)`, which is the size of `m_admin` -/
def adminSize : Nat := 256

/-- `sizeof(HdlUUID)` -/
def uuidSize : Nat := 64

/-- `offsetof(OccpSpace, worker)` -/
def workerOffset : Nat := 2 ^ 16

/-- `sizeof(OccpWorker)` -/
def workerSize : Nat := 2 ^ 16

/-- `offsetof(OccpSpace, config)` -/
def configOffset : Nat := 2 ^ 20

/-- The offsets of the registers `initialize` and `start` in `OccpWorkerRegisters`. -/
def initializeOffset : Nat := 0

def startOffset : Nat := 4

/-- `OCCP_SUCCESS_RESULT` -/
def successResult : Nat := 0xc0de4201

/-- The sizes of `EtherControlWrite`, `EtherControlRead` and so on. -/
def writeSize : Nat := 16

def readSize : Nat := 12

def nopSize : Nat := 12

def writeResponseSize : Nat := 8

def readResponseSize : Nat := 12

def nopResponseSize : Nat := 12

/-! ## The objects -/

inductive Object where
  | admin
  | uuid
deriving DecidableEq, Repr

def Object.size : Object → Nat
  | .admin => adminSize
  | .uuid => uuidSize

/-- An access to the four bytes of an object from an offset on. -/
structure MemoryAccess where
  object : Object
  offset : Nat
  write : Bool
deriving DecidableEq, Repr

/-- `payload` is the buffer of the packet, with what was there before behind the packet. -/
structure Emulator where
  admin : Memory
  uuid : Memory
  payload : Memory

inductive Fault where
  | assertion
deriving DecidableEq, Repr

/-- "bad client message length" and "Invalid control message received when no sim executable" -/
inductive EmulateError where
  | badLength
  | invalidMessage
deriving DecidableEq, Repr

abbrev Emulating (α : Type) := Traced Emulator Fault MemoryAccess α

open Traced

/-! ## Words -/

/-- A big endian number in the packet. -/
def Emulator.number (s : Emulator) (offset len : Nat) : Nat :=
  wordOf (readBytes s.payload offset len).reverse

/-- `OCCP_ETHER_MESSAGE_TYPE` -/
def Emulator.action (s : Emulator) : Nat := (s.payload 6).toNat / 16 % 4

/-- `ntohl(pkt.write.address)`, and that of a read -/
def Emulator.address (s : Emulator) : Nat := s.number 8 4

/-- Some bytes of the packet are set. -/
def setPayload (offset : Nat) (data : List UInt8) : Emulating Unit :=
  change fun s => { s with payload := writeBytes s.payload offset data }

def load : Object → Nat → Emulating (List UInt8)
  | object, offset => do
    report ⟨object, offset, false⟩
    let s ← read
    return readBytes (match object with | .admin => s.admin | .uuid => s.uuid) offset 4

def store : Object → Nat → List UInt8 → Emulating Unit
  | object, offset, data => do
    report ⟨object, offset, true⟩
    change fun s => match object with
      | .admin => { s with admin := writeBytes s.admin offset data }
      | .uuid => { s with uuid := writeBytes s.uuid offset data }

/-! ## Requests -/

/-- `case HN::OCCP_WRITE`. The registers of workers are not kept. -/
def emulateWrite (offset : Nat) (data : List UInt8) : Emulating Unit :=
  if offset ≤ adminSize then store .admin offset data
  else if configOffset ≤ offset then
    if uuidSize ≤ offset - configOffset then return ()
    else store .uuid (offset - configOffset) data
  else return ()

/-- `case HN::OCCP_READ` -/
def emulateRead (offset : Nat) : Emulating Unit :=
  if offset ≤ adminSize then do
    let word ← load .admin offset
    setPayload 8 word.reverse
  else if configOffset ≤ offset then
    if uuidSize + 8 ≤ offset - configOffset then return ()
    else do
      let word ← load .uuid (offset - configOffset)
      setPayload 8 word.reverse
  else if workerOffset ≤ offset then
    if workerSize ≤ offset - workerOffset then return ()
    else if offset - workerOffset = initializeOffset ∨ offset - workerOffset = startOffset then
      setPayload 8 (wordBytes successResult).reverse
    else setPayload 8 (wordBytes 0)
  else setPayload 8 (wordBytes 0xa5a5a5a5)

/-- `doEmulate`: an error, or the length of the response. -/
def doEmulate (length : Nat) : Emulating (Except EmulateError Nat) := do
  let s ← read
  if (length + (2 ^ 64 - 2)) % 2 ^ 64 ≠ s.number 2 2 then return .error .badLength
  else do
    let uncache := (s.payload 6).toNat / 64 % 2
    setPayload 6 [UInt8.ofNat (3 * 16 + uncache * 64)]
    if s.action = 1 then do
      -- the data stands in the packet with the high byte first
      emulateWrite s.address (readBytes s.payload 12 4).reverse
      setPayload 2 [0, UInt8.ofNat (writeResponseSize - 2)]
      return .ok writeResponseSize
    else if s.action = 2 then do
      emulateRead s.address
      setPayload 2 [0, UInt8.ofNat (readResponseSize - 2)]
      return .ok readResponseSize
    else if s.action = 0 then
      if s.number 2 2 ≠ nopResponseSize - 2 then raise .assertion
      else do
        setPayload 8 [0x40, 0, 0, 1]
        setPayload 2 [0, UInt8.ofNat (nopResponseSize - 2)]
        return .ok nopResponseSize
    else return .error .invalidMessage

end OpenCpi.Sim
