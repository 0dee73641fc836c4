import OpenCpi.Value.Literal

/-!
# Tokens of expressions

`lex` of `OcpiExprEvaluator.cxx`. A string is a list of bytes up to its NUL. The operators are numbered in the
order of `ALLOPS`, which goes up with their precedence.
-/

namespace OpenCpi.Expr

open Value

inductive OpCode where
  | cond1 | cond2 | lor | land
  | bor | xor | band
  | eq | neq | lt | gt | le | ge
  | sl | sr | plus | minus | mult | div | mod
  | uMinus | uPlus | tilde | not | lpar | rpar
  | opEnd | string | ident | number
deriving DecidableEq, Repr

/-- The value of the enumerator. -/
def OpCode.code (op : OpCode) : Nat := op.ctorIdx

/-- `opNames`, with the operators. Unary plus and minus have no name of their own. -/
def opNames : List (OpCode × Text) :=
  [(.cond1, [63]), (.cond2, [58]), (.lor, [124, 124]), (.land, [38, 38]),
    (.bor, [124]), (.xor, [94]), (.band, [38]),
    (.eq, [61, 61]), (.neq, [33, 61]), (.lt, [60]), (.gt, [62]), (.le, [60, 61]), (.ge, [62, 61]),
    (.sl, [60, 60]), (.sr, [62, 62]), (.plus, [43]), (.minus, [45]), (.mult, [42]), (.div, [47]), (.mod, [37]),
    (.uMinus, []), (.uPlus, []), (.tilde, [126]), (.not, [33]), (.lpar, [40]), (.rpar, [41])]

/-- How an expression fails: with an error, or with a fault of the program. -/
inductive Fault where
  | error (text : String)
  /-- A read behind the NUL of the string. -/
  | overrun
  /-- A token that there is not. -/
  | bounds
  /-- A read behind the end of `opStringOk`. -/
  | table
  /-- A division by zero, or a result that C does not define. -/
  | arithmetic
deriving DecidableEq, Repr

/-- A token as `lex` finds it: what is between `start` and `end`, and what `strtoll` makes of a number there. -/
structure Lexed where
  op : OpCode
  text : Text := []
  number : Option Int := none
deriving DecidableEq, Repr

/-- `strtoll` from the start of a token on, which has to stop at its end. -/
def numberOf (text rest : Text) : Option Int :=
  match numeral (text ++ rest) with
  | none => none
  | some n => if n.rest.length = rest.length then some (max (-2 ^ 63) (min (2 ^ 63 - 1) n.value)) else none

def isalpha (c : UInt8) : Bool := 65 ≤ c && c ≤ 90 || 97 ≤ c && c ≤ 122

def isdigit (c : UInt8) : Bool := 48 ≤ c && c ≤ 57

/-- The start of an identifier. -/
def isIdent (c : UInt8) : Bool := isalpha c || c == 95

/-- What is between the quotes, and what is behind them. A backslash also hides the NUL. -/
def stringBody : Text → Except Fault (Text × Text)
  | [] => .error (.error "missing close quote on string")
  | c :: s =>
    if c = 34 then .ok ([], s)
    else if c = 92 then
      match s with
      | [] => .error .overrun
      | d :: s => (stringBody s).map fun r => (c :: d :: r.1, r.2)
    else (stringBody s).map fun r => (c :: r.1, r.2)

/-- The loop over `opNames` for a character and the next one: the operator, and whether it takes both. A name of
one character does not end the loop. -/
def findOp (c : UInt8) (next : Option UInt8) : List (OpCode × Text) → Option (OpCode × Bool) → Option (OpCode × Bool)
  | [], op => op
  | (n, [a]) :: names, op => findOp c next names (if c = a then some (n, false) else op)
  | (n, [a, b]) :: names, op => if c = a ∧ next = some b then some (n, true) else findOp c next names op
  | _ :: names, op => findOp c next names op

/-- `lex` from behind the blanks. -/
def lexToken : Text → Except Fault (Lexed × Text)
  | [] => .ok ({ op := .opEnd }, [])
  | c :: s =>
    if isIdent c then
      let r := s.span fun c => isIdent c || isdigit c
      .ok ({ op := .ident, text := c :: r.1 }, r.2)
    else if c = 34 then
      (stringBody s).map fun r => ({ op := .string, text := r.1 }, r.2)
    else if isdigit c then
      let r := s.span fun c => isdigit c || c == 46 || c == 101
      .ok ({ op := .number, text := c :: r.1, number := numberOf (c :: r.1) r.2 }, r.2)
    else
      match findOp c s.head? opNames none with
      | none => .error (.error "illegal token")
      | some (op, both) => .ok ({ op }, if both then s.tail else s)

/-- `lex` -/
def lex (cp : Text) : Except Fault (Lexed × Text) :=
  (lexToken (skipSpaces cp)).map fun r => (r.1, skipSpaces r.2)

/-- The loop that counts the tokens, which finds them all. Each but the last takes a character. -/
def lexAll : Nat → Text → Except Fault (List Lexed)
  | 0, _ => .ok []
  | fuel + 1, cp => do
    let r ← lex cp
    if r.1.op = .opEnd then return []
    else return r.1 :: (← lexAll fuel r.2)

/-- The tokens of an expression but the last, which is its end. -/
def tokensOf (buf : Text) : Except Fault (List Lexed) := lexAll (buf.length + 1) buf

end OpenCpi.Expr
