import OpenCpi.Sim.Server

/-!
# The credits of the simulator

`sendToSim` of `SimServer.cxx` once more, with the control pipe: each write to the request pipe is followed
by a message that says how many bytes the simulator may take from it. `Sim/Server` has the same loop
without these messages.
-/

namespace OpenCpi.Sim

/-- `Sim::Action`, as far as it is written here. -/
def SPIN_CREDIT : UInt8 := 0
def DCP_CREDIT : UInt8 := 1

/-- The server with the messages it wrote to the control pipe. `places` is a record: for each byte that
went to the request pipe, its place in the packet it was taken from. -/
structure Traffic (A : Type) extends World A where
  places : List Nat
  control : List (UInt8 × UInt8)
deriving DecidableEq

/-- `sendToSim` comes back, or the assertion of `OCPI_UTRUNCATE` fails. -/
inductive Delivery (A : Type) where
  | returned (t : Traffic A)
  | aborted
deriving DecidableEq

variable {A : Type}

/-- `spin`, which sends `m_spinCount`. -/
def Traffic.spin (spinCount : UInt8) (t : Traffic A) (n : Int) : Traffic A :=
  { t with
    toWorld := t.toWorld.spin n
    control := if !t.spinning && n == 2 then t.control ++ [(SPIN_CREDIT, spinCount)] else t.control }

/-- The loop of `sendToSim`, for `bytes` behind the first two of the packet. `OCPI_UTRUNCATE` asserts that
the count fits in a byte unless `NDEBUG` is defined. -/
def sendBytes (ndebug : Bool) (spinCount : UInt8) (bytes : List UInt8) :
    Nat → List WriteResult → Traffic A → Option (Delivery A)
  | nw, [], t => if nw < bytes.length then none else some (.returned t)
  | nw, result :: rest, t =>
    if nw < bytes.length then
      match result with
      -- the loop header adds the -1
      | .interrupted => sendBytes ndebug spinCount bytes ((nw + (2 ^ 64 - 1)) % 2 ^ 64) rest t
      | .failed => some (.returned { t with error := some "write error to request fifo" })
      | .wrote n credit spin =>
        if n = 0 then
          some (.returned { t with error := some "wrote zero bytes to request fifo" })
        else if bytes.length < nw + n then none
        else
          let t := { t with
            requests := t.requests ++ (bytes.drop nw).take n
            places := t.places ++ List.range' nw n }
          if ndebug = false ∧ 256 ≤ n then some .aborted
          else if credit ≠ 2 then
            some (.returned { t with error := some "write error to control fifo" })
          else
            let t := Traffic.spin spinCount
              { t with
                control := t.control ++ [(DCP_CREDIT, UInt8.ofNat n)]
                dcp := t.dcp + n } spin
            if t.error.isSome then some (.returned t)
            else sendBytes ndebug spinCount bytes (nw + n) rest t
    else none

/-- `sendToSim`, which puts the requester into the queue if all went well. -/
def sendRequest (ndebug : Bool) (spinCount : UInt8) (t : Traffic A) (r : Request A)
    (bytes : List UInt8) (results : List WriteResult) : Option (Delivery A) :=
  (sendBytes ndebug spinCount bytes 0 results t).map fun
    | .aborted => .aborted
    | .returned t =>
      .returned (if t.error.isSome then t else { t with respQueue := t.respQueue ++ [r] })

/-- The credits announced on the control pipe. -/
def credits : List (UInt8 × UInt8) → Nat
  | [] => 0
  | (action, count) :: messages =>
    (if action = DCP_CREDIT then count.toNat else 0) + credits messages

/-- The counts that `write` returned for the request pipe. -/
def counts : List WriteResult → List Nat
  | [] => []
  | .wrote n .. :: rest => n :: counts rest
  | .interrupted :: rest | .failed :: rest => counts rest

end OpenCpi.Sim
