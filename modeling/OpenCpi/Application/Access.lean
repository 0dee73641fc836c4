import OpenCpi.Application.Values
import Mathlib.Logic.Function.Basic

/-!
# The properties of an application by name

`getProperty` and `setProperty` of `OcpiApplication.cxx` with the table of properties that
`finalizeProperties` makes, and what they call in `OcpiWorker.cxx`. `impl` gives the properties of the
implementation that was chosen for an instance. What a property holds is kept as the items of its value; that
a container fails to read or write it is left out, and so are the files that properties are dumped to.
-/

namespace OpenCpi.Application

open Util

/-- `'.'` -/
def period : UInt8 := 46

/-- `ApplicationI::Property` -/
structure AppProperty where
  name : Text
  inst : Nat
  property : Nat
deriving DecidableEq, Repr

inductive AccessError where
  | unknownProperty (id : Text)
  | unknownApplicationProperty (name : Text)
  | noProperty
  | unsupportedGet
  | unsupportedStruct
  | parse (value : Text)
  | notSettable
deriving DecidableEq, Repr

variable {α : Type} (a : Util.Assembly) (impl : Nat → List (Property α))

/-! ## The table -/

def mappedEntry (mp : Util.Assembly.MappedProperty) : Except AccessError AppProperty :=
  match whichProperty (impl mp.inst) mp.instPropName with
  | some n => .ok ⟨mp.name, mp.inst, n⟩
  | none => .error (.unknownProperty mp.instPropName)

def instanceEntries (n : Nat) (inst : Util.Assembly.Instance) : List AppProperty :=
  (impl n).mapIdx fun nn p => ⟨inst.name ++ period :: p.name, n, nn⟩

/-- The table that `finalizeProperties` makes, the mapped properties first. -/
def finalizeTable : Except AccessError (List AppProperty) := do
  let mapped ← a.mappedProperties.mapM (mappedEntry impl)
  return mapped ++ (a.instances.mapIdx (instanceEntries impl)).flatten

/-- The name that is looked up in the table: the first `=` stands for a period. -/
def qualified (workerInstName : Option Text) (propName : Text) : Text :=
  match workerInstName with
  | some inst => inst ++ period :: propName
  | none => propName.takeWhile (· ≠ equals) ++
      match propName.dropWhile (· ≠ equals) with
      | [] => []
      | _ :: rest => period :: rest

/-- `ApplicationI::findProperty` -/
def findEntry (table : List AppProperty) (workerInstName : Option Text) (propName : Text) :
    Except AccessError AppProperty :=
  match table.find? (sameName (qualified workerInstName propName) ·.name) with
  | some p => .ok p
  | none => .error (.unknownApplicationProperty (qualified workerInstName propName))

/-! ## Workers -/

variable (props : List (Property α))

/-- `OA::Property(*this, name)`, which is the property of that name. -/
def propertyNamed (name : Text) : Except AccessError (Nat × Property α) :=
  match findProperty props name with
  | some p => .ok p
  | none => .error (.unknownProperty name)

/-- The property that `Worker::getProperty` reads: it looks up the name of the one with the ordinal. -/
def propertyRead (ordinal : Nat) : Except AccessError (Nat × Property α) := do
  match props[ordinal]? with
  | none => throw .noProperty
  | some p =>
    if p.base.isStruct || p.base.isType then throw .unsupportedGet
    propertyNamed props p.name

/-- `Worker::getProperty` -/
def Worker.getProperty (ordinal : Nat) (held : Nat → List α) : Except AccessError (List α) := do
  let p ← propertyRead props ordinal
  return held p.1

/-- `Worker::setProperty` -/
def Worker.setProperty (name value : Text) (held : Nat → List α) :
    Except AccessError (Nat → List α) := do
  let p ← propertyNamed props name
  if p.2.base.isStruct then throw .unsupportedStruct
  match p.2.parse value with
  | .error _ => throw (.parse value)
  | .ok v =>
    if p.2.base.isType then throw .notSettable
    return Function.update held p.1 v

/-! ## The application -/

variable (table : List AppProperty) (workerInstName : Option Text) (propName : Text)

/-- `ApplicationI::getProperty`; `held` says what the workers hold. -/
def getProperty (held : Nat → Nat → List α) : Except AccessError (List α) := do
  let p ← findEntry table workerInstName propName
  Worker.getProperty (impl p.inst) p.property (held p.inst)

/-- `ApplicationI::setProperty`, which gives the name to the worker as it got it. -/
def setProperty (value : Text) (held : Nat → Nat → List α) :
    Except AccessError (Nat → Nat → List α) := do
  let p ← findEntry table workerInstName propName
  let worker ← Worker.setProperty (impl p.inst) propName value (held p.inst)
  return Function.update held p.inst worker

end OpenCpi.Application
