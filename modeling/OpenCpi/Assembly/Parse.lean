import OpenCpi.Application.Search

/-!
# Property values in an assembly

The part of `OcpiUtilAssembly.cxx` that reads the values of properties: those of the instances, and those of
the properties of the assembly that are mapped to instances. With it `findAssignNext` of `OcpiUtilPValue.cxx`,
which finds the parameters for an instance or for a mapped property.

The name that an instance gets, the connections and the other attributes are left out. What `file2String`
appends to a string, and its error, are a parameter.
-/

namespace OpenCpi.Util

open Application (sameName)

/-! ## Parameters -/

/-- `'='` -/
abbrev equals : UInt8 := 61

/-- A parameter. `init` has refused those for properties that are not strings. -/
structure PValue where
  name : Text
  vString : Text
deriving DecidableEq, Repr

/-- The value that a parameter assigns to `var`. The text of a parameter is not empty when `var` is. -/
def assigned (var vString : Text) : Option Text :=
  let len := if vString.head? = some equals then 0 else var.length
  if len = 0 ∨ sameName var (vString.take len) ∧ vString[len]? = some equals then
    some (vString.drop (len + 1))
  else none

/-- `findAssignNext`. The parameters from `next` on are given, and those from the new `next` on returned. -/
def findAssignNext (name var : Text) : List PValue → Option (Text × List PValue)
  | [] => none
  | p :: next =>
    match if sameName p.name name then assigned var p.vString else none with
    | some val => some (val, next)
    | none => findAssignNext name var next

/-- What the loop `for (n = 0; findAssignNext(params, name, var, val, n); )` runs over. -/
def assignments (name var : Text) : List PValue → List Text
  | [] => []
  | p :: next =>
    match if sameName p.name name then assigned var p.vString else none with
    | some val => val :: assignments name var next
    | none => assignments name var next

/-! ## Elements -/

/-- The attributes of an element that give a value. -/
structure ValueAttributes where
  value : Option Text := none
  valueFile : Option Text := none
  dumpFile : Option Text := none
deriving DecidableEq, Repr

/-- A `property` element of an instance. -/
structure PropertyElement extends ValueAttributes where
  name : Option Text
deriving DecidableEq, Repr

structure InstanceElement where
  name : Text
  properties : List PropertyElement
deriving DecidableEq, Repr

/-- A `property` element of the assembly. -/
structure MappedElement extends ValueAttributes where
  name : Option Text
  inst : Option Text
  property : Option Text := none
deriving DecidableEq, Repr

structure AssemblyElement where
  instances : List InstanceElement
  properties : List MappedElement
deriving DecidableEq, Repr

end OpenCpi.Util

namespace OpenCpi.Util.Assembly

structure Property where
  name : Text := []
  hasValue : Bool := false
  value : Text := []
  dumpFile : Text := []
deriving DecidableEq, Repr

structure MappedProperty where
  name : Text
  instPropName : Text
  inst : Nat
deriving DecidableEq, Repr

structure Instance where
  name : Text
  properties : List Property
deriving DecidableEq, Repr

inductive Error where
  | missingAttribute (attr element : String)
  | missingValue (property : Text)
  | file (error : Text)
  | noInstance (name : Text)
  | duplicate (name : Text)
deriving DecidableEq, Repr

variable (file2String : Text → Text × Option Text)

/-- `setValue` -/
def Property.setValue (p : Property) (px : ValueAttributes) : Property × Option Error :=
  match px.value, px.valueFile, px.dumpFile with
  | some cp, _, df => ({ p with hasValue := true, value := cp, dumpFile := df.getD p.dumpFile }, none)
  | none, some cp, df =>
    match file2String cp with
    | (out, none) =>
      ({ p with hasValue := true, value := p.value ++ out, dumpFile := df.getD p.dumpFile }, none)
    | (out, some err) => ({ p with hasValue := true, value := p.value ++ out }, some (.file err))
  | none, none, some df => ({ p with hasValue := false, dumpFile := df }, none)
  | none, none, none => ({ p with hasValue := false }, some (.missingValue p.name))

/-- `getRequiredString` -/
def getRequiredString (attr element : String) : Option Text → Except Error Text
  | some cp => .ok cp
  | none => .error (.missingAttribute attr element)

/-- `Property::parse` -/
def Property.parse (px : PropertyElement) : Except Error Property := do
  let name ← getRequiredString "name" "property" px.name
  match Property.setValue file2String { name } px.toValueAttributes with
  | (p, none) => return p
  | (_, some err) => throw err

/-- `Instance::parse` -/
def Instance.parse (ix : InstanceElement) : Except Error Instance := do
  let properties ← ix.properties.mapM (Property.parse file2String)
  return { name := ix.name, properties }

/-- `addProperty`. A new property has no name, and the error of `setValue` is ignored. -/
def Instance.addProperty (i : Instance) (name : Text) (px : ValueAttributes) : Instance :=
  match i.properties.findIdx? (·.name == name) with
  | some n =>
    { i with properties := i.properties.modify n fun p => (p.setValue file2String px).1 }
  | none => { i with properties := i.properties ++ [(Property.setValue file2String {} px).1] }

end OpenCpi.Util.Assembly

namespace OpenCpi.Util

open Assembly

structure Assembly where
  instances : List Instance
  mappedProperties : List MappedProperty := []
deriving DecidableEq, Repr

namespace Assembly

variable (file2String : Text → Text × Option Text)

/-- `getInstance` -/
def getInstance (a : Assembly) (name : Text) : Except Error Nat :=
  match a.instances.findIdx? (·.name == name) with
  | some n => .ok n
  | none => .error (.noInstance name)

/-- `m_instPropName` -/
def instPropName (px : MappedElement) (name : Text) : Text := px.property.getD name

/-- `MappedProperty::parse` for the next of the mapped properties. -/
def parseMapped (a : Assembly) (px : MappedElement) : Except Error Assembly := do
  let name ← getRequiredString "name" "property" px.name
  let inst ← getRequiredString "instance" "property" px.inst
  let n ← a.getInstance inst
  if a.mappedProperties.any (·.name == name) then throw (.duplicate name)
  let a := { a with
    mappedProperties := a.mappedProperties ++ [⟨name, instPropName px name, n⟩] }
  if px.value.isSome || px.valueFile.isSome || px.dumpFile.isSome then
    return { a with
      instances := a.instances.modify n
        (·.addProperty file2String (instPropName px name) px.toValueAttributes) }
  return a

/-- `parse` -/
def parse (ax : AssemblyElement) : Except Error Assembly := do
  let instances ← ax.instances.mapM (Instance.parse file2String)
  ax.properties.foldlM (parseMapped file2String) { instances }

end Assembly

end OpenCpi.Util
