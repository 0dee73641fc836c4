import OpenCpi.Uri.Text

/-!
# URIs

The class `Uri` of `OcpiUtilUri.cxx`. `parse` fills the components of an object from a text, and the
components that it does not set keep their values. What an operation leaves behind when it throws is not
modelled.
-/

namespace OpenCpi.Util

/-! ## Characters -/

/-- `':'` -/
abbrev colon : UInt8 := 58

/-- `'?'` -/
abbrev question : UInt8 := 63

/-- `'#'` -/
abbrev hash : UInt8 := 35

/-- `'@'` -/
abbrev atSign : UInt8 := 64

/-- `; / ? : @ & = + $ ,` -/
def isreserved (c : UInt8) : Bool := [59, slash, question, colon, atSign, 38, 61, 43, 36, 44].contains c

/-- `- _ . ! ~ * ' ( )` -/
def ismark (c : UInt8) : Bool := [45, 95, dot, 33, 126, 42, 39, 40, 41].contains c

def isunreserved (c : UInt8) : Bool := isalpha c || isdigit c || ismark c

def isuric (c : UInt8) : Bool := isreserved c || isunreserved c || c == percent

/-- The characters of a scheme after the first one: letters, digits, `+ - .` -/
def isscheme (c : UInt8) : Bool := isalpha c || isdigit c || [43, 45, dot].contains c

/-- The characters of an authority: unreserved ones and `% $ , ; : @ & = +` -/
def isauthority (c : UInt8) : Bool :=
  isunreserved c || [percent, 36, 44, 59, colon, atSign, 38, 61, 43].contains c

/-- The characters of a path: unreserved ones and `% / ; : @ & = + $ ,` -/
def ispath (c : UInt8) : Bool :=
  isunreserved c || [percent, slash, 59, colon, atSign, 38, 61, 43, 36, 44].contains c

/-! ## The components -/

structure Uri where
  uri : Text := []
  scheme : Text := []
  authority : Text := []
  userinfo : Text := []
  hostport : Text := []
  host : Text := []
  port : Text := []
  path : Text := []
  filename : Text := []
  query : Text := []
  request : Text := []
  fragment : Text := []
deriving DecidableEq, Repr

/-- `isAbsolute` -/
def Uri.isAbsolute (u : Uri) : Bool := u.scheme.length ≠ 0

/-- `find`, and the texts before and behind the character. -/
def cut (c : UInt8) : Text → Option (Text × Text)
  | [] => none
  | x :: text => if x = c then some ([], text) else (cut c text).map fun (front, rest) => (x :: front, rest)

def userinfoOf (authority : Text) : Text × Text := (cut atSign authority).getD ([], authority)

def hostOf (hostport : Text) : Text × Text := (cut colon hostport).getD (hostport, [])

def filenameOf (path : Text) : Text :=
  match rfind slash path with
  | some pos => path.drop (pos + 1)
  | none => if path.length = 0 then [] else path

def requestOf (path : Text) : Text := if path.length = 0 then [slash] else path

/-! ## Parsing -/

/-- The text after the scheme, with the scheme when it is set or cleared. -/
def parseScheme : Text → Option Text × Text
  | [] => (none, [])
  | c :: uri =>
    if isalpha c then
      match uri.dropWhile isscheme with
      | [] => (some [], c :: uri)
      | x :: rest => if x = colon then (some (c :: uri.takeWhile isscheme), rest) else (some [], c :: uri)
    -- nothing clears the scheme here
    else (none, c :: uri)

/-- The authority and the text after it. -/
def parseAuthority : Text → Text × Text
  | x :: y :: rest =>
    if x = slash ∧ y = slash then (rest.takeWhile isauthority, rest.dropWhile isauthority)
    else ([], x :: y :: rest)
  | rest => ([], rest)

/-- The query or the fragment after its mark, and the text after it. -/
def parseMark (mark : UInt8) : Text → Option Text × Text
  | [] => (none, [])
  | c :: rest =>
    if c = mark then (some (rest.takeWhile isuric), rest.dropWhile isuric) else (none, c :: rest)

/-- `%xx` -/
def hexText (c : UInt8) : String :=
  let digit (x : Nat) : Char := if 9 < x then Char.ofNat (97 + x - 10) else Char.ofNat (48 + x)
  String.ofList ['%', digit (c.toNat / 16), digit (c.toNat % 16)]

def invalidCharacter (c : UInt8) : String :=
  "Invalid character: " ++
    if c = 9 then "(tab)" else if c = 32 then "(space)" else "'" ++ hexText c ++ "'"

/-- `parse` -/
def parse (u : Uri) (data : Text) : Except String Uri :=
  let scheme := parseScheme data
  let authority := parseAuthority scheme.2
  let userinfo := userinfoOf authority.1
  let host := hostOf userinfo.2
  let path := authority.2.takeWhile ispath
  let query := parseMark question (authority.2.dropWhile ispath)
  let fragment := parseMark hash query.2
  match fragment.2 with
  | c :: _ => .error (invalidCharacter c)
  | [] => .ok
    { uri := data
      scheme := scheme.1.getD u.scheme
      authority := authority.1
      userinfo := userinfo.1
      hostport := userinfo.2
      host := host.1
      port := host.2
      path := path
      filename := filenameOf path
      query := query.1.getD []
      request := requestOf path ++ (query.1.map (question :: ·)).getD []
      fragment := fragment.1.getD [] }

/-! ## Resolving -/

/-- A component with its mark, when it is not empty. -/
def marked (mark : UInt8) (text : Text) : Text := if text.length ≠ 0 then mark :: text else []

/-- The end of `resolve`: the request, the fragment and the text are built again. -/
def Uri.rebuild (u : Uri) (fragment : Text) : Uri :=
  { u with
    request := requestOf u.path ++ marked question u.query
    fragment := fragment
    uri := u.scheme ++ colon :: slash :: slash :: u.authority ++ u.path ++ marked question u.query ++
      marked hash fragment }

/-- The path up to its last slash. -/
def directory (path : Text) : Text :=
  match rfind slash path with
  | some pos => path.take (pos + 1)
  | none => [slash]

/-- `resolve` -/
def resolve (u other : Uri) : Except String Uri :=
  if other.isAbsolute then parse u other.uri
  else if !u.isAbsolute then .error "cannot resolve against relative URI"
  else if other.authority.length ≠ 0 then
    -- the user info is not copied
    .ok ({ u with
      authority := other.authority
      hostport := other.hostport
      host := other.host
      port := other.port
      path := other.path
      filename := other.filename
      query := other.query }.rebuild other.fragment)
  else if other.path.head? = some slash then
    .ok ({ u with path := other.path, filename := other.filename, query := other.query }.rebuild
      other.fragment)
  else if other.path.length ≠ 0 ∨ other.query.length ≠ 0 then
    .ok ({ u with
      path := normalizePath (directory u.path ++ other.path)
      filename := other.filename
      query := other.query }.rebuild other.fragment)
  else .ok (u.rebuild other.fragment)

/-! ## Objects -/

/-- The objects of a program by their address. `construct` is the default constructor, `copy` the copy
constructor, `assign` is `operator=` and `resolve` is `operator+=`, from a text or from an object. -/
inductive Op where
  | construct (i : Nat)
  | constructText (i : Nat) (text : Text)
  | copy (i j : Nat)
  | assignText (i : Nat) (text : Text)
  | assign (i j : Nat)
  | resolveText (i : Nat) (text : Text)
  | resolve (i j : Nat)
deriving DecidableEq, Repr

abbrev Objects := Nat → Option Uri

/-- The object after an operation that does not throw. -/
def Objects.set (s : Objects) (i : Nat) (u : Except String Uri) : Option Objects :=
  u.toOption.map fun u => Function.update s i (some u)

def step (s : Objects) : Op → Option Objects
  | .construct i => s.set i (.ok {})
  | .constructText i text => s.set i (parse {} text)
  | .copy i j => (s j).bind fun other => s.set i (parse {} other.uri)
  | .assignText i text => (s i).bind fun u => s.set i (parse u text)
  | .assign i j => (s i).bind fun u => (s j).bind fun other => s.set i (parse u other.uri)
  | .resolveText i text => (s i).bind fun u => s.set i ((parse {} text).bind (resolve u))
  | .resolve i j => (s i).bind fun u => (s j).bind fun other => s.set i (resolve u other)

end OpenCpi.Util
