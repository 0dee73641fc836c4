import OpenCpi.Infra.Best
import OpenCpi.Uri.Text

/-!
# The search for a deployment

`ApplicationI::doInstance` of `OcpiApplication.cxx` with what it calls, and `init` up to the choice of the
deployment. Implementations, artifacts and the metadata of ports are known by their addresses. Sets of
containers, of ports and of the implementations of an artifact are words of 32 bits: a shift by 32 or more is
undefined in C++, and here it is that of the processors, which take the distance modulo 32.

`none` is a null pointer that is followed. The assembly has at least one instance.
-/

namespace OpenCpi.Application

open Infra Util

/-- `1 << n` -/
def bit (n : Nat) : Nat := 2 ^ (n % 32)

/-- `!strcasecmp(a, b)` -/
def sameName (a b : Text) : Bool := a.map tolower == b.map tolower

theorem sameName_iff {a b : Text} : sameName a b = true ↔ a.map tolower = b.map tolower := beq_iff_eq

/-! ## Implementations -/

/-- What a port is hard-wired to: an implementation and a port of its metadata. -/
structure Connection where
  impl : Nat
  port : Nat × Nat
deriving DecidableEq, Repr

structure Implementation where
  address : Nat
  /-- the address of `m_metadataImpl` and its ports -/
  metadataImpl : Nat
  ports : List Text
  artifact : Nat
  staticInstance : Bool
  internals : Nat
  connections : Nat → Connection
  ordinal : Nat

/-- A candidate for an instance, and the containers that `findContainers` finds for it. -/
structure Candidate where
  impl : Implementation
  score : Nat
  suitable : Nat → Bool

/-- `connectedPort` is the port that is connected to a port of an instance: its instance and its name. -/
structure Assembly where
  instances : List (List Candidate)
  connectedPort : Nat → Nat → Option (Nat × Text)
  nContainers : Nat

variable (a : Assembly)

/-- `m_feasibleContainers` of a candidate. -/
def Candidate.feasibleContainers (c : Candidate) (nContainers : Nat) : Nat :=
  (List.range nContainers).foldl (fun curMap cont => if c.suitable cont then curMap ||| bit cont else curMap) 0

/-- `findPort` -/
def Implementation.findPort (i : Implementation) (id : Text) : Option Nat := i.ports.findIdx? (sameName · id)

/-- `badConnection` for a port of an implementation and the name of the port that it is connected to. -/
def badConnection (impl otherImpl : Implementation) (connectedName : Text) (port : Nat) : Option Bool :=
  (otherImpl.findPort connectedName).map fun other =>
    if impl.internals &&& bit port ≠ 0 then
      otherImpl.internals &&& bit other = 0 ∨ (otherImpl.connections other).impl ≠ impl.address ∨
        (otherImpl.connections other).port ≠ (impl.metadataImpl, port)
    else otherImpl.internals &&& bit other ≠ 0

/-- The loop of `connectionsOk` over the ports, after the implementations of the instances before. -/
def connectionsLoop (impls : List Implementation) (impl : Implementation) : List Nat → Option Bool
  | [] => some true
  | nn :: ports =>
    match a.connectedPort impls.length nn with
    | none => connectionsLoop impls impl ports
    | some (other, name) =>
      match impls[other]? with
      -- not an instance that has been processed
      | none => connectionsLoop impls impl ports
      | some otherImpl =>
        (badConnection impl otherImpl name nn).bind fun bad =>
          if bad then some false else connectionsLoop impls impl ports

/-- `connectionsOk` -/
def connectionsOk (impls : List Implementation) (impl : Implementation) : Option Bool :=
  connectionsLoop a impls impl (List.range impl.ports.length)

/-! ## Bookings -/

structure Booking where
  artifact : Option Nat := none
  usedImpls : Nat := 0
deriving DecidableEq, Repr

/-- `bookingOk` -/
def bookingOk (b : Booking) (impl : Implementation) : Bool :=
  !(impl.staticInstance && b.artifact.isSome &&
    (b.artifact != some impl.artifact || b.usedImpls &&& bit impl.ordinal != 0))

/-- The booking of a container when a candidate is placed there. -/
def book (bookings : Nat → Booking) (cont : Nat) (impl : Implementation) : Nat → Booking :=
  if impl.staticInstance then
    Function.update bookings cont ⟨some impl.artifact, (bookings cont).usedImpls ||| bit impl.ordinal⟩
  else bookings

/-! ## The search -/

structure Deployment where
  candidate : Nat
  container : Nat
deriving DecidableEq, Repr

/-- `m_bestScore` and `m_bestDeployments` -/
abbrev BestDeployments := Best (List Deployment) Nat

/-- The loop over the containers; `place` is what is done when the candidate is placed on one. -/
def tryContainers (bookings : Nat → Booking) (c : Candidate)
    (place : Nat → BestDeployments → Option BestDeployments) :
    List Nat → BestDeployments → Option BestDeployments
  | [], best => some best
  | cont :: conts, best =>
    if c.feasibleContainers a.nContainers &&& bit cont ≠ 0 ∧ bookingOk (bookings cont) c.impl then
      (place cont best).bind fun best =>
        if c.impl.staticInstance then tryContainers bookings c place conts best else some best
    else tryContainers bookings c place conts best

/-- `doInstance` for the first of the instances that are left. `impls` and `deployments` are those of the
instances before. -/
def doInstance : List (List Candidate) → List Implementation → (Nat → Booking) → List Deployment → Nat →
    BestDeployments → Option BestDeployments
  | [], _, _, _, _, best => some best
  | cs :: rest, impls, bookings, deployments, score, best =>
    cs.zipIdx.foldlM (fun best (c, m) =>
      (connectionsOk a impls c.impl).bind fun ok =>
        if ok then
          tryContainers a bookings c (fun cont best =>
            let myScore := (score + c.score) % 2 ^ 32
            if rest.isEmpty then some (record ⟨myScore, deployments ++ [⟨m, cont⟩]⟩ best)
            else doInstance rest (impls ++ [c.impl]) (book bookings cont c.impl)
              (deployments ++ [⟨m, cont⟩]) myScore best) (List.range a.nContainers) best
        else some best) best

/-- No container is suitable for any candidate of an instance ("no feasible containers found for ..."), or
"There are no feasible deployments for the application given the constraints". -/
inductive InitError where
  | noFeasibleContainers (instNum : Nat)
  | noFeasibleDeployments
deriving DecidableEq, Repr

/-- `init` up to the choice of the deployment. -/
def init : Option (Except InitError (List Deployment)) :=
  match a.instances.findIdx? fun cs => cs.all fun c => c.feasibleContainers a.nContainers == 0 with
  | some instNum => some (.error (.noFeasibleContainers instNum))
  | none =>
    (doInstance a a.instances [] (fun _ => {}) [] 0 ⟨0, []⟩).map fun best =>
      if best.score = 0 then .error .noFeasibleDeployments else .ok best.found

end OpenCpi.Application
