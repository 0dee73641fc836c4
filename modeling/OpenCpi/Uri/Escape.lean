import OpenCpi.Uri.Parse

/-!
# Escapes in URIs

`encodeURI` of `OcpiUtilUri.cxx`, the function opposite to `decodeURI`.
-/

namespace OpenCpi.Util

/-- The digit that is written for four bits. -/
def hexChar (x : Nat) : UInt8 := if 9 < x then UInt8.ofNat (97 + x - 10) else UInt8.ofNat (48 + x)

/-- What is written for a character. -/
def encodeChar (allowedChars : Text) (c : UInt8) : Text :=
  if !isunreserved c && !allowedChars.contains c then [percent, hexChar (c.toNat >>> 4), hexChar (c.toNat &&& 15)] else [c]

/-- `encodeURI`. A null pointer allows no more than an empty text does. -/
def encodeURI (uri allowedChars : Text) : Text := uri.flatMap (encodeChar allowedChars)

end OpenCpi.Util
