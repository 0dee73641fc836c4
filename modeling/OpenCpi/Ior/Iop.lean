import OpenCpi.Ior.Cdr

/-!
# Object references

`OcpiUtilIOP.cxx` and `OcpiUtilIIOP.cxx`: an IOR, a multiple component profile and an IIOP profile
body, each with its encoder and decoder. The text forms (`IOR:…`, `corbaloc:…`) are left out.
-/

namespace OpenCpi.Ior

open Infra

/-- `TaggedProfile`, `TaggedComponent` -/
structure Tagged where
  tag : UInt32
  data : Bytes
deriving DecidableEq, Repr

/-- `IOR`, without the cached `m_corbaloc`. -/
structure IOR where
  typeId : Bytes
  profiles : List Tagged
deriving DecidableEq, Repr

structure MultipleComponentProfile where
  components : List Tagged
deriving DecidableEq, Repr

/-- `IIOP::ProfileBody` -/
structure ProfileBody where
  major : UInt8
  minor : UInt8
  host : Bytes
  port : UInt16
  objectKey : Bytes
  components : List Tagged
deriving DecidableEq, Repr

section Encode

variable (s : Style)

def putTagged (t : Tagged) (d : Bytes) : Bytes := putOctetSeq s t.data (putULong s t.tag.toNat d)

/-- The number of elements and the elements. -/
def putTaggedSeq (l : List Tagged) (d : Bytes) : Bytes :=
  putAll (putTagged s) l (putULong s (l.length % 2 ^ 32) d)

def IOR.put (ior : IOR) (d : Bytes) : Bytes :=
  putTaggedSeq s ior.profiles (putString s ior.typeId (putBoolean s.little d))

def MultipleComponentProfile.put (p : MultipleComponentProfile) (d : Bytes) : Bytes :=
  putTaggedSeq s p.components (putBoolean s.little d)

/-- A body of version 1.0 has no components. -/
def ProfileBody.putComponents (b : ProfileBody) (d : Bytes) : Bytes :=
  if 1 ≤ b.minor then putTaggedSeq s b.components d else d

def ProfileBody.put (b : ProfileBody) (d : Bytes) : Bytes :=
  b.putComponents s (putOctetSeq s b.objectKey (putUShort s b.port.toNat
    (putString s b.host (putOctet b.minor (putOctet b.major (putBoolean s.little d))))))

/-- The versions that are known. -/
def ProfileBody.known (b : ProfileBody) : Prop := b.major = 1 ∧ b.minor ≤ 3

instance (b : ProfileBody) : Decidable b.known := inferInstanceAs (Decidable (_ ∧ _))

/-- An encoding by the rules of CDR. -/
def IOR.encodeIn (ior : IOR) : Bytes := ior.put s []

def MultipleComponentProfile.encodeIn (p : MultipleComponentProfile) : Bytes := p.put s []

def ProfileBody.encodeIn (b : ProfileBody) : Except String Bytes :=
  if b.known then .ok (b.put s []) else .error "unknown IIOP version"

end Encode

section Code

variable (native : Bool)

/-- `IOR::encode` -/
def IOR.encode (ior : IOR) : Bytes := ior.encodeIn (nativeStyle native)

/-- `MultipleComponentProfile::encode` -/
def MultipleComponentProfile.encode (p : MultipleComponentProfile) : Bytes :=
  p.encodeIn (nativeStyle native)

/-- `ProfileBody::encode` -/
def ProfileBody.encode (b : ProfileBody) : Except String Bytes := b.encodeIn (nativeStyle native)

variable (order : Bool)

def getTagged : Decoder Tagged := do
  let tag ← getULong native order
  let data ← getOctetSeq native order
  return ⟨UInt32.ofNat tag, data⟩

/-- The loops over profiles and components, with the check in front. The product is computed with
32 bits. -/
def getTaggedSeq : Decoder (List Tagged) := do
  let n ← getULong native order
  let remaining ← remainingData
  if remaining < n * 8 % 2 ^ 32 then throw .invalidData
  else getAll (getTagged native order) n

def IOR.get : Decoder IOR := do
  let order ← getBoolean
  let typeId ← getString native order
  let profiles ← getTaggedSeq native order
  return ⟨typeId, profiles⟩

def MultipleComponentProfile.get : Decoder MultipleComponentProfile := do
  let order ← getBoolean
  let components ← getTaggedSeq native order
  return ⟨components⟩

def getComponents (minor : UInt8) : Decoder (List Tagged) :=
  if 1 ≤ minor then getTaggedSeq native order else pure []

def ProfileBody.get : Decoder ProfileBody := do
  let order ← getBoolean
  let major ← getOctet
  let minor ← getOctet
  if major ≠ 1 ∨ 3 < minor then throw (.thrown "unknown IIOP version")
  else do
    let host ← getString native order
    let port ← getUShort native order
    let objectKey ← getOctetSeq native order
    let components ← getComponents native order minor
    return ⟨major, minor, host, UInt16.ofNat port, objectKey, components⟩

/-- The exceptions that leave `decode`. -/
def decodeWith {α : Type} (get : Decoder α) (data : Bytes) : Except String α :=
  match get ⟨data, 0⟩ with
  | .ok (v, _) => .ok v
  | .error .invalidData => .error "invalid data"
  | .error (.thrown text) => .error text

/-- `IOR::decode` -/
def IOR.decode (data : Bytes) : Except String IOR := decodeWith (IOR.get native) data

/-- `MultipleComponentProfile::decode` -/
def MultipleComponentProfile.decode (data : Bytes) : Except String MultipleComponentProfile :=
  decodeWith (MultipleComponentProfile.get native) data

/-- `ProfileBody::decode` -/
def ProfileBody.decode (data : Bytes) : Except String ProfileBody :=
  decodeWith (ProfileBody.get native) data

end Code

end OpenCpi.Ior
