import Mathlib.Algebra.Group.Nat.Defs
import Mathlib.Data.List.Basic
import OpenCpi.Infra.Run

/-!
# The WCI decoder

`decoder.vhd`, with what it uses of `wci_pkg.vhd`, `wci_body.vhd` and `property_decoder.vhd`. The
control part is also `control_decoder.vhd`. The decoder takes commands from the WCI master: accesses
to properties, and control operations, which move the control state of the worker.

The names that end in `_e` are those of the enumerations of the source. The path of the property
data is left out.
-/

namespace OpenCpi.Wci

open Infra

/-! ## Enumerations -/

/-- `control_op_t` -/
inductive ControlOp where
  | initialize_e
  | start_e
  | stop_e
  | release_e
  | before_query_e
  | after_config_e
  | test_e
  | no_op_e
deriving DecidableEq, Repr

/-- `get_op_pos` -/
def opPos : ControlOp → Nat
  | .initialize_e => 0
  | .start_e => 1
  | .stop_e => 2
  | .release_e => 3
  | .before_query_e => 4
  | .after_config_e => 5
  | .test_e => 6
  | .no_op_e => 7

/-- `to_control_op` -/
def toControlOp : Nat → ControlOp
  | 0 => .initialize_e
  | 1 => .start_e
  | 2 => .stop_e
  | 3 => .release_e
  | 4 => .before_query_e
  | 5 => .after_config_e
  | 6 => .test_e
  | _ => .no_op_e

/-- `state_t` -/
inductive State where
  | exists_e
  | initialized_e
  | operating_e
  | suspended_e
  | finished_e
  | unusable_e
deriving DecidableEq, Repr

/-- `next_ops`: the operations allowed in a state, bit by position. -/
def nextOps : State → Nat
  | .exists_e => 0b00000001
  | .initialized_e => 0b01001010
  | .operating_e => 0b00111100
  | .suspended_e => 0b00111010
  | .finished_e => 0b00111110
  | .unusable_e => 0b00000000

/-- `access_t`; `init_e` is the value before the first reset. -/
inductive Access where
  | init_e
  | none_e
  | error_e
  | read_e
  | write_e
  | control_e
deriving DecidableEq, Repr

/-- `SResp` -/
inductive Resp where
  | null
  | dva
  | err
deriving DecidableEq, Repr

/-! ## Configuration and inputs -/

/-- `property_t`, as far as the decoding depends on it. -/
structure PropertyInfo where
  offset : Nat
  /-- total bytes minus one -/
  bytes_1 : Nat
  writable : Bool
  readable : Bool
deriving DecidableEq, Repr

/-- The generics. -/
structure Worker where
  decodeWidth : Nat
  allowedOps : Nat
  properties : List PropertyInfo
deriving DecidableEq, Repr

/-- `MCmd`; `other` are the codes that are not decoded. -/
inductive Cmd where
  | idle
  | write
  | read
  | other
deriving DecidableEq, Repr

/-- The inputs in a cycle. `addrSpace` is whether the configuration space is addressed. -/
structure Cycle where
  reset : Bool
  cmd : Cmd
  addrSpace : Bool
  addr : Nat
  byteEn : Nat
  done : Bool
  error : Bool
  finished : Bool
deriving DecidableEq, Repr

/-- `decode_access` -/
def decodeAccess (c : Cycle) : Access :=
  if c.reset then .none_e
  else
    match c.cmd with
    | .write => if c.addrSpace then .write_e else .error_e
    | .read => if c.addrSpace then .read_e else .control_e
    | .idle | .other => .none_e

/-- `control_op_in`: the operation is in the bits 4 to 2 of the address. -/
def controlOpIn (c : Cycle) : ControlOp := toControlOp (c.addr / 4 % 8)

/-- `be2offset` -/
def be2offset : Nat → Nat
  | 0b0010 => 1
  | 0b0100 | 0b1100 => 2
  | 0b1000 => 3
  | _ => 0

/-! ## The decoder -/

/-- The registers. -/
structure Decoder where
  access : Access
  controlOp : ControlOp
  state : State
  offset : Nat
deriving DecidableEq, Repr

variable (k : Worker) (d : Decoder) (c : Cycle)

/-- `offset_in` -/
def offsetIn : Nat := c.addr % 2 ^ k.decodeWidth / 4 * 4 + be2offset c.byteEn

/-- `my_offset` -/
def myOffset : Nat := if c.reset ∨ d.access = .none_e then offsetIn k c else d.offset

/-- `my_decode` of `property_decoder.vhd`. -/
def myDecode (p : PropertyInfo) : Bool :=
  !c.reset && decide (p.offset ≤ myOffset k d c) &&
    decide (myOffset k d c ≤ (p.offset + p.bytes_1) % 2 ^ k.decodeWidth)

/-- Any of `my_read_enables`, for a read. -/
def anyReadEnable : Bool := k.properties.any fun p => p.readable && myDecode k d c p

/-- Any of `my_write_enables`, for a write. -/
def anyWriteEnable : Bool := k.properties.any fun p => p.writable && myDecode k d c p

/-- `my_config_error` -/
def myConfigError : Bool :=
  (d.access == .read_e && c.done && !anyReadEnable k d c) ||
    (d.access == .write_e && c.done && !anyWriteEnable k d c)

/-- `ok_op` and `next_op`: the worker has the operation, and it is allowed in the state. -/
def accepts (op : ControlOp) (s : State) : Bool :=
  k.allowedOps.testBit (opPos op) && (nextOps s).testBit (opPos op)

/-- `my_error` -/
def myError : Bool :=
  d.access == .error_e || (d.access == .control_e && !accepts k d.controlOp d.state) ||
    myConfigError k d c

/-- `resp` -/
def resp : Resp :=
  if d.access ≠ .none_e ∧ (c.error || myError k d c) then .err
  else if d.access ≠ .none_e ∧ c.done ∧ !myError k d c ∧ !c.error then .dva
  else .null

/-- Where a control operation leads. -/
def leadsTo (op : ControlOp) (s : State) : State :=
  match op with
  | .initialize_e => .initialized_e
  | .start_e => if s = .finished_e then s else .operating_e
  | .stop_e => if s = .finished_e then s else .suspended_e
  | .release_e => .unusable_e
  | _ => s

/-- The state after a reset. -/
def initialState : State :=
  if k.allowedOps.testBit (opPos .initialize_e) then .exists_e else .initialized_e

/-- A clock edge. `my_control_op_r` is neither reset nor cleared. -/
def Decoder.clock : Decoder :=
  if c.reset then { d with access := .none_e, state := initialState k }
  else if decodeAccess c ≠ .none_e then
    { d with access := decodeAccess c, controlOp := controlOpIn c, offset := offsetIn k c }
  else if c.done || c.error || myError k d c then
    { d with
      access := .none_e
      state := if d.access = .control_e ∧ c.done ∧ !myError k d c then leadsTo d.controlOp d.state
        else d.state }
  else if d.state ≠ .unusable_e ∧ c.finished then { d with state := .finished_e }
  else d

/-! ## The decoder and its master -/

/-- A decoder, whether a command was captured and has not been answered, and the last command. -/
structure Bus where
  decoder : Decoder
  pending : Bool
  last : Option (Access × ControlOp)
deriving DecidableEq, Repr

def Bus.clock (b : Bus) (c : Cycle) : Bus where
  decoder := b.decoder.clock k c
  pending :=
    if c.reset then false
    else if decodeAccess c ≠ .none_e then true
    else b.pending && resp k b.decoder c == .null
  last := if decodeAccess c ≠ .none_e then some (decodeAccess c, controlOpIn c) else b.last

/-- The master issues a command only after the previous response. -/
def Bus.step (b : Bus) (c : Cycle) : Option Bus :=
  if decodeAccess c ≠ .none_e → b.pending = false then some (b.clock k c) else none

/-- After a reset; `op` and `offset` are what the registers without a reset happen to hold. -/
def Bus.start (op : ControlOp) (offset : Nat) : Bus := ⟨⟨.none_e, op, initialState k, offset⟩, false, none⟩

end OpenCpi.Wci
