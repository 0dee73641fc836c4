import OpenCpi.Assembly.Parse
import OpenCpi.Infra.Fill
import OpenCpi.Value.Parse

/-!
# The initial property values of an application

`prepareInstanceProperties` and `finalizeProperties` of `OcpiApplication.cxx` with `checkPropertyValue`, and
the part of `initialize` that sets the properties of a worker. An instance is known by its number in the
assembly, and `props` are the properties of the implementation that was chosen for it. The ordinal of a
property is its index there.

The values of an instance are written to an array whose length was counted before. The model does not stop at
its end: the writes are kept in a list, whose length can be compared with that of the array.
-/

namespace OpenCpi.Application

open Infra Util

/-- A property in the metadata of an implementation. -/
structure Property (α : Type) where
  name : Text
  isReadable : Bool := false
  isInitial : Bool := false
  isWritable : Bool := false
  decl : Value.Decl
  base : Value.Base α
  default : Option (List α) := none

/-- A slot of `m_propOrdinals` and `m_propValues`. The value is there if it could be parsed. -/
structure Slot (α : Type) where
  ordinal : Nat
  value : Option (List α)
deriving DecidableEq, Repr

inductive ValueError where
  | unknownProperty (id : Text)
  | notReadable (pName : Text)
  | notWritable (pName : Text)
  | invalidValue (pName : Text) (err : Value.Failure)
  | invalidAssignment (propAssign : Text)
deriving DecidableEq, Repr

variable {α : Type} (props : List (Property α))

/-- `pv->setType(uProp), pv->parse(value)` -/
def Property.parse (p : Property α) (value : Text) : Except Value.Failure (List α) :=
  Value.parseNew p.decl p.base value []

def Property.settable (p : Property α) : Bool := p.isInitial || p.isWritable

/-- `whichProperty` -/
def whichProperty (id : Text) : Option Nat := props.findIdx? (sameName ·.name id)

/-- `findProperty` -/
def findProperty (id : Text) : Option (Nat × Property α) :=
  (whichProperty props id).bind fun n => props[n]?.map fun p => (n, p)

abbrev Preparing (α β : Type) := Filling ValueError (Slot α) β

/-- `checkPropertyValue`. The slot is in use before the value is parsed. -/
def checkPropertyValue (pName value : Text) : Preparing α Unit :=
  match findProperty props pName with
  | none => Traced.raise (.unknownProperty pName)
  | some (ordinal, uProp) =>
    if uProp.settable then
      match uProp.parse value with
      | .ok v => Traced.report ⟨ordinal, some v⟩
      | .error err => do
        Traced.report ⟨ordinal, none⟩
        Traced.raise (.invalidValue pName err)
    else Traced.raise (.notWritable pName)

/-- `"property"` -/
def property : Text := [112, 114, 111, 112, 101, 114, 116, 121]

variable (a : Util.Assembly) (nInstance : Nat) (inst : Util.Assembly.Instance) (params : List PValue)

/-- `!strncasecmp(propAssign, pName, pLength) && propAssign[pLength] == '='` -/
def assigns (pName propAssign : Text) : Bool :=
  sameName (propAssign.take pName.length) pName && propAssign[pName.length]? == some equals

/-- There is a parameter of the instance for the property. -/
def instanceOverrides (pName : Text) : Bool :=
  (assignments property inst.name params).any (assigns pName)

/-- There is a parameter for a mapped property, if this is one of the instance. -/
def mappedValue (mp : Util.Assembly.MappedProperty) : Option Text :=
  if mp.inst = nInstance then (Util.findAssignNext property mp.name params).map (·.1) else none

/-- There is a parameter for a property of the assembly that is mapped to the property. -/
def mappedOverrides (pName : Text) : Bool :=
  a.mappedProperties.any fun mp => sameName mp.instPropName pName && (mappedValue nInstance params mp).isSome

/-- The check of a property of the instance that is dumped. -/
def checkDump (ap : Util.Assembly.Property) : Preparing α Unit :=
  if ap.dumpFile = [] then pure ()
  else match findProperty props ap.name with
    | none => Traced.raise (.unknownProperty ap.name)
    | some (_, uProp) => if uProp.isReadable then pure () else Traced.raise (.notReadable ap.name)

/-- A property of the instance whose value in the assembly is set. -/
def kept (ap : Util.Assembly.Property) : Bool :=
  (ap.dumpFile = [] || ap.hasValue) && !instanceOverrides inst params ap.name &&
    !mappedOverrides a nInstance params ap.name

/-- A property of the instance in the assembly. -/
def prepareProperty (ap : Util.Assembly.Property) : Preparing α Unit := do
  checkDump props ap
  if kept a nInstance inst params ap then checkPropertyValue props ap.name ap.value else pure ()

/-- A parameter `<prop>=<value>` of the instance. -/
def splitAssign (propAssign : Text) : Option (Text × Text) :=
  if equals ∈ propAssign then
    some (propAssign.takeWhile (· ≠ equals), (propAssign.dropWhile (· ≠ equals)).drop 1)
  else none

def prepareAssign (propAssign : Text) : Preparing α Unit :=
  match splitAssign propAssign with
  | none => Traced.raise (.invalidAssignment propAssign)
  | some (pName, value) => checkPropertyValue props pName value

def prepareMapped (mp : Util.Assembly.MappedProperty) : Preparing α Unit :=
  match mappedValue nInstance params mp with
  | none => pure ()
  | some propAssign => checkPropertyValue props mp.instPropName propAssign

/-- `prepareInstanceProperties` -/
def prepareInstanceProperties : Preparing α Unit := do
  Filling.each (prepareProperty props a nInstance inst params) inst.properties
  Filling.each (prepareAssign props) (assignments property inst.name params)
  Filling.each (prepareMapped props nInstance params) a.mappedProperties

/-- The loop of `finalizeProperties` that counts the parameters that are mapped to the instance. The place in
the list of parameters is kept from one mapped property to the next. -/
def countMapped : List Util.Assembly.MappedProperty → List PValue → Nat
  | [], _ => 0
  | mp :: mps, nDummy =>
    if mp.inst = nInstance then
      match Util.findAssignNext property mp.name nDummy with
      | some (_, nDummy) => countMapped mps nDummy + 1
      | none => countMapped mps nDummy
    else countMapped mps nDummy

/-- `nPropValues`, which is the length of the arrays that `finalizeProperties` allocates. -/
def nPropValues : Nat :=
  inst.properties.length + (assignments property inst.name params).length +
    countMapped nInstance a.mappedProperties params

/-- `finalizeProperties` for an instance. -/
def finalizeProperties : Preparing α Unit :=
  if nPropValues a nInstance inst params = 0 then pure ()
  else prepareInstanceProperties props a nInstance inst params

/-! ## Workers -/

/-- The values that `initialize` gives to `setProperty`, from the slots of the instance. -/
def settings (slots : List (Slot α)) : List (Nat × List α) :=
  slots.filterMap (fun s => s.value.map fun v => (s.ordinal, v)) ++
    props.zipIdx.filterMap fun (prop, n) =>
      if slots.any (·.ordinal == n) then none else prop.default.map fun v => (n, v)

/-- The values that the properties of a new worker have after `initialize`. -/
def initialValues (slots : List (Slot α)) : Nat → Option (List α) := written (settings props slots) fun _ => none

end OpenCpi.Application
