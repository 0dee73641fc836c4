import OpenCpi.Wci.Decoder

/-!
# The WCI decoder without properties

`control_decoder.vhd`: the control part of the decoder, for workers without properties. With it the outputs
of both decoders. `my_config_error` is declared and read, but nothing drives it; `its` of an undriven signal
is false.
-/

namespace OpenCpi.Wci

/-- The outputs that both decoders have. -/
structure Outputs where
  resp : Resp
  busy : Bool
  controlOp : ControlOp
  state : State
  isOperating : Bool
deriving DecidableEq, Repr

/-- The outputs of `decoder.vhd` in a cycle. -/
def Decoder.outputs (k : Worker) (d : Decoder) (c : Cycle) : Outputs where
  resp := Wci.resp k d c
  busy := decodeAccess c != .none_e || d.access != .none_e
  controlOp := d.controlOp
  state := d.state
  isOperating := d.state == .operating_e

/-- The registers. -/
structure ControlDecoder where
  access : Access
  controlOp : ControlOp
  state : State
deriving DecidableEq, Repr

namespace ControlDecoder

variable (k : Worker) (d : ControlDecoder) (c : Cycle)

/-- `my_config_error` -/
def myConfigError : Bool := false

/-- `my_error` -/
def myError : Bool :=
  d.access == .error_e || (d.access == .control_e && !accepts k d.controlOp d.state) || myConfigError

/-- `resp` -/
def resp : Resp :=
  if d.access ≠ .none_e ∧ (c.error || d.myError k) then .err
  else if d.access ≠ .none_e ∧ c.done ∧ !d.myError k ∧ !c.error then .dva
  else .null

/-- A clock edge. -/
def clock : ControlDecoder :=
  if c.reset then { d with access := .none_e, state := initialState k }
  else if decodeAccess c ≠ .none_e then { d with access := decodeAccess c, controlOp := controlOpIn c }
  else if c.done || c.error || d.myError k then
    { d with
      access := .none_e
      state := if d.access = .control_e ∧ c.done ∧ !d.myError k then leadsTo d.controlOp d.state
        else d.state }
  else if d.state ≠ .unusable_e ∧ c.finished then { d with state := .finished_e }
  else d

/-- The outputs of `control_decoder.vhd` in a cycle. -/
def outputs : Outputs where
  resp := d.resp k c
  busy := decodeAccess c != .none_e || d.access != .none_e
  controlOp := d.controlOp
  state := d.state
  isOperating := d.state == .operating_e

end ControlDecoder

/-! ## Runs -/

/-- The outputs in each cycle of a sequence of inputs. -/
def Decoder.run (k : Worker) : Decoder → List Cycle → List Outputs
  | _, [] => []
  | d, c :: cs => d.outputs k c :: (d.clock k c).run k cs

def ControlDecoder.run (k : Worker) : ControlDecoder → List Cycle → List Outputs
  | _, [] => []
  | d, c :: cs => d.outputs k c :: (d.clock k c).run k cs

/-- The registers that both decoders have. -/
def Decoder.control (d : Decoder) : ControlDecoder := ⟨d.access, d.controlOp, d.state⟩

end OpenCpi.Wci
