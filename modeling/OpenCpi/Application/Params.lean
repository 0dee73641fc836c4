import OpenCpi.Application.Values

/-!
# Parameters for instances

The checks that `init` of `OcpiApplication.cxx` makes of the parameters that are for instances, and the
functions of `OcpiUtilPValue.cxx` that find such a parameter. Here parameters may also be of another type
than string; those are the ones that `vString` is `none` for.
-/

namespace OpenCpi.Application

open Util

structure Param where
  name : Text
  vString : Option Text
deriving DecidableEq, Repr

inductive ParamError where
  | notString (name : Text)
  | invalid (assign : Text)
  | noInstance (pName assign : Text)
deriving DecidableEq, Repr

/-- `findAssignNext`; `var` may be a null pointer. The parameters from `next` on are given, and those from
the new `next` on returned. -/
def findAssignNext (name : Text) (var : Option Text) :
    List Param → Except ParamError (Option (Text × List Param))
  | [] => .ok none
  | p :: next =>
    if sameName p.name name then
      match p.vString with
      | none => .error (.notString name)
      | some vString =>
        match (match var with
          | none => some vString
          | some var => assigned var vString) with
        | some val => .ok (some (val, next))
        | none => findAssignNext name var next
    else findAssignNext name var next

/-- `findAssign`, with the parameters behind the one that is found. -/
def findAssign (name var : Text) (params : List Param) : Except ParamError (Option (Text × List Param)) :=
  findAssignNext name (some var) params

/-- What the loop `for (n = 0; findAssignNext(params, name, var, val, n); )` goes through. -/
def loopAssign (name var : Text) : List Param → Except ParamError (List (Text × List Param))
  | [] => .ok []
  | p :: next =>
    if sameName p.name name then
      match p.vString with
      | none => .error (.notString name)
      | some vString =>
        match assigned var vString with
        | some val => do
          let found ← loopAssign name var next
          return (val, next) :: found
        | none => loopAssign name var next
    else loopAssign name var next

/-- `!strncasecmp(assign, name, len)` for the `len` bytes of `assign` before its first `=`. -/
def beginsName (x name : Text) : Bool := sameName x (name.take x.length)

/-- What `checkInstanceParams` does with one assignment. -/
def checkAssign (a : Util.Assembly) (pName : Text) (checkMapped : Bool) (assign : Text) :
    Except ParamError Unit :=
  if equals ∈ assign then
    let x := assign.takeWhile (· ≠ equals)
    if a.instances.any (beginsName x ·.name) ||
        checkMapped && a.mappedProperties.any (beginsName x ·.name) then .ok ()
    else .error (.noInstance pName assign)
  else .error (.invalid assign)

/-- `checkInstanceParams`, whose loop calls `findAssignNext` with a null pointer. -/
def checkInstanceParams (a : Util.Assembly) (pName : Text) (checkMapped : Bool) :
    List Param → Except ParamError Unit
  | [] => .ok ()
  | p :: next =>
    if sameName p.name pName then
      match p.vString with
      | none => .error (.notString pName)
      | some assign => do
        checkAssign a pName checkMapped assign
        checkInstanceParams a pName checkMapped next
    else checkInstanceParams a pName checkMapped next

/-- What an assignment can be for. -/
inductive Kind where
  | property
  | selection
  | model
  | container
  | platform
deriving DecidableEq, Repr

/-- The names of the parameters: "property", "selection", "model", "container" and "platform". -/
def Kind.name : Kind → Text
  | .property => Application.property
  | .selection => [115, 101, 108, 101, 99, 116, 105, 111, 110]
  | .model => [109, 111, 100, 101, 108]
  | .container => [99, 111, 110, 116, 97, 105, 110, 101, 114]
  | .platform => [112, 108, 97, 116, 102, 111, 114, 109]

def kinds : List Kind := [.property, .selection, .model, .container, .platform]

/-- The checks of `init`. -/
def checkParams (a : Util.Assembly) (params : List Param) : Except ParamError Unit :=
  kinds.forM fun kind => checkInstanceParams a kind.name (kind == .property) params

end OpenCpi.Application
