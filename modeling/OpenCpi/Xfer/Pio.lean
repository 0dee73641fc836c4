import OpenCpi.Infra.Bytes
import OpenCpi.Infra.CountLoop

/-!
# Programmed transfers

`xfer_pio_action_transfer`: what is transferred is copied by the processor, in bytes or in words of 32 bits.
The accesses are recorded in order. A transfer from a null pointer is filled with zeros.
-/

namespace OpenCpi.Xfer

open Infra

/-- `pio_transfer_`, as far as it says what is copied; `nbytes` is a `size_t`. -/
structure PioTransfer where
  srcVa : Nat
  dstVa : Nat
  nbytes : Nat
  nbytes_lt : nbytes < 2 ^ 64
deriving DecidableEq, Repr

/-- An access of so many bytes. -/
structure PioAccess where
  write : Bool
  addr : Nat
  size : Nat
deriving DecidableEq, Repr

/-- The two pointers, the memory, and the accesses so far. -/
structure PioState where
  dst : Nat
  src : Nat
  memory : Memory
  log : List PioAccess

/-- `*dst++ = 0` -/
def PioState.clear (size : Nat) (s : PioState) : PioState where
  dst := s.dst + size
  src := s.src
  memory := writeBytes s.memory s.dst (List.replicate size 0)
  log := s.log ++ [⟨true, s.dst, size⟩]

/-- `*dst++ = *src++` -/
def PioState.copy (size : Nat) (s : PioState) : PioState where
  dst := s.dst + size
  src := s.src + size
  memory := writeBytes s.memory s.dst (readBytes s.memory s.src size)
  log := s.log ++ [⟨false, s.src, size⟩, ⟨true, s.dst, size⟩]

/-- A loop over `count` bytes or words. The counter is a `uint32_t`. -/
def moveLoop (fuel size count : Nat) (s : PioState) : Option PioState :=
  if s.src = 0 then countLoop 32 (PioState.clear size) count fuel 0 s
  else countLoop 32 (PioState.copy size) count fuel 0 s

/-- The words, and what remains in bytes. -/
def moveWords (fuel nbytes : Nat) (s : PioState) : Option PioState :=
  (moveLoop fuel 4 (nbytes / 4) s).bind fun s =>
    if nbytes % 4 ≠ 0 then moveLoop fuel 1 (nbytes % 4) s else some s

/-- `xfer_pio_action_transfer` -/
def xferPioActionTransfer (fuel : Nat) (t : PioTransfer) (memory : Memory) : Option PioState :=
  if t.srcVa % 4 ≠ t.dstVa % 4 then moveLoop fuel 1 t.nbytes ⟨t.dstVa, t.srcVa, memory, []⟩
  else if 0 < t.srcVa % 4 then
    (countLoop 32 (PioState.copy 1) (t.srcVa % 4) fuel 0 ⟨t.dstVa, t.srcVa, memory, []⟩).bind
      (moveWords fuel ((2 ^ 64 + t.nbytes - t.srcVa % 4) % 2 ^ 64))
  else moveWords fuel t.nbytes ⟨t.dstVa, t.srcVa, memory, []⟩

end OpenCpi.Xfer
