import Mathlib.Algebra.Group.Nat.Defs
import Mathlib.Data.List.Basic
import OpenCpi.Infra.Latest

/-!
# The search for an artifact

`Manager::findArtifact` of `OcpiLibraryManager.cxx` with what it calls. A manager is the list of its drivers,
a driver the list of its libraries, a library the list of its artifacts, each in the order in which the search
goes through it. The implementations of an artifact are in the order of `m_workers`, which is the order of
insertion for those of one spec name.

What an expression stands for is found by `evalExpression` from the metadata of an implementation; both are
parameters. Loading the libraries (`configureOnce`) is left out.
-/

namespace OpenCpi.Lib

/-- `ExprValue` -/
structure ExprValue where
  string : String
  number : Int
  isNumber : Bool
deriving DecidableEq, Repr

structure Capabilities where
  model : String
  os : String
  platform : String
deriving DecidableEq, Repr

variable {μ : Type}

structure Implementation (μ : Type) where
  specName : String
  model : String
  metadataImpl : μ
deriving DecidableEq, Repr

structure Artifact (μ : Type) where
  name : String
  os : String
  platform : String
  workers : List (Implementation μ)
deriving DecidableEq, Repr

abbrev Library (μ : Type) := List (Artifact μ)

abbrev Driver (μ : Type) := List (Library μ)

abbrev Manager (μ : Type) := List (Driver μ)

variable (evalExpression : String → μ → Except String ExprValue) (caps : Capabilities) (specName : String)
  (selectCriteria : Option String)

/-- `satisfiesSelection`: whether the implementation does, and its score. -/
def satisfiesSelection (selection : String) (impl : μ) : Except String (Bool × Nat) :=
  match evalExpression selection impl with
  | .error err => .error s!"Error parsing selection expression: {err}"
  | .ok val =>
    if !val.isNumber then .error "selection expression has string value"
    else .ok (0 < val.number, (if val.number < 0 then 0 else val.number).toNat % 2 ^ 32)

/-- The loop of `meetsRequirements` over the implementations of a spec name. -/
def meetsLoop : List (Implementation μ) → Except String (Option Nat)
  | [] => .ok none
  | wi :: range =>
    if caps.model ≠ wi.model then meetsLoop range
    else
      match selectCriteria with
      | none => .ok (some 0)
      | some selection =>
        (satisfiesSelection evalExpression selection wi.metadataImpl).map fun (satisfied, score) =>
          if satisfied then some score else none

/-- `meetsRequirements`: the score, if they are met. It is set by a selection only, and is taken as 0 without
one. -/
def Artifact.meetsRequirements (a : Artifact μ) : Except String (Option Nat) :=
  if a.os = caps.os ∧ a.platform = caps.platform then
    meetsLoop evalExpression caps selectCriteria (a.workers.filter (·.specName = specName))
  else .ok none

/-- The loop of `Library::findArtifact`. -/
def libraryLoop : List (Artifact μ) → Option (Artifact μ) → Nat → Except String (Option (Artifact μ))
  | [], best, _ => .ok best
  | a :: rest, best, bestScore =>
    (a.meetsRequirements evalExpression caps specName selectCriteria).bind fun
      | none => libraryLoop rest best bestScore
      | some score =>
        if selectCriteria.isSome then
          if bestScore ≤ score then libraryLoop rest (some a) score else libraryLoop rest best bestScore
        else .ok (some a)

def Library.findArtifact (l : Library μ) : Except String (Option (Artifact μ)) :=
  libraryLoop evalExpression caps specName selectCriteria l none 0

/-- `Driver::findArtifact`; its loop returns in the first turn. -/
def Driver.findArtifact : Driver μ → Except String (Option (Artifact μ))
  | [] => .ok none
  | l :: _ => l.findArtifact evalExpression caps specName selectCriteria

/-- `Manager::findArtifactX` -/
def Manager.findArtifact : Manager μ → Except String (Artifact μ)
  | [] => .error ("No usable artifact found in any library in OCPI_LIBRARY_PATH, for worker implementing \"" ++
      specName ++ "\"")
  | d :: rest =>
    (Driver.findArtifact evalExpression caps specName selectCriteria d).bind fun
      | none => Manager.findArtifact rest
      | some a => .ok a

end OpenCpi.Lib
