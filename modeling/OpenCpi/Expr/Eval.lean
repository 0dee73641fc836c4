import OpenCpi.Expr.Lex
import OpenCpi.Value.Element

/-!
# Evaluating expressions

`reduce` and `parse` of `OcpiExprEvaluator.cxx`. The tokens that were read and not yet replaced by values are the
first ones of the array, and the next token comes behind them. Expressions are evaluated from their end, and all
that is open is evaluated when an operator comes that is lower than the one before it.

Numbers have 64 bits. Results that C does not define are faults, like a division by zero. The number of a string is
not set: an arithmetic operator with a string at its left computes with it, which nobody sees unless it divides by
zero, and leaves the string.
-/

namespace OpenCpi.Expr

open Value

/-- `ExprToken`: an operator, or one with a value, `OpNumber` or `OpString`. -/
inductive ExprToken where
  | operator (op : OpCode)
  | number (n : Int)
  | string (s : Text)
deriving DecidableEq, Repr

def ExprToken.op : ExprToken → OpCode
  | .operator op => op
  | .number _ => .number
  | .string _ => .string

/-- `ExprValue` -/
inductive ExprValue where
  | number (n : Int)
  | string (s : Text)
deriving DecidableEq, Repr

/-- The token that an identifier with this value becomes. -/
def ExprValue.token : ExprValue → ExprToken
  | .number n => .number n
  | .string s => .string s

/-- The value of the first token at the end. What is no number is a string; that of an operator is empty. -/
def ExprToken.value : ExprToken → ExprValue
  | .operator _ => .string []
  | .number n => .number n
  | .string s => .string s

/-- `opStringOk` -/
def OpCode.stringOk : OpCode → Option Bool
  | .cond1 | .cond2 | .lor | .land | .eq | .neq | .lt | .gt | .le | .ge => some true
  | .bor | .xor | .band | .sl | .sr | .plus | .minus | .mult | .div | .mod => some false
  | .uMinus | .uPlus | .tilde | .not | .lpar | .rpar | .opEnd => some false
  | .string | .ident | .number => none

/-! ## Operators -/

/-- A result that has 64 bits. -/
def int64 (v : Int) : Option Int := if -2 ^ 63 ≤ v ∧ v < 2 ^ 63 then some v else none

/-- An operation on the bits of two numbers. -/
def bitwise (f : BitVec 64 → BitVec 64 → BitVec 64) (a b : Int) : Int := (f (.ofInt 64 a) (.ofInt 64 b)).toInt

/-- The operators that compute numbers from numbers. -/
def OpCode.arithmetic (op : OpCode) (a b : Int) : Option Int :=
  match op with
  | .minus => int64 (a - b)
  | .plus => int64 (a + b)
  | .mult => int64 (a * b)
  | .div => if b = 0 then none else int64 (a.tdiv b)
  | .mod => if b = 0 ∨ int64 (a.tdiv b) = none then none else some (a.tmod b)
  | .xor => some (bitwise (· ^^^ ·) a b)
  | .bor => some (bitwise (· ||| ·) a b)
  | .band => some (bitwise (· &&& ·) a b)
  | .sl => if 0 ≤ a ∧ 0 ≤ b ∧ b < 64 then int64 (a * 2 ^ b.toNat) else none
  | .sr => if 0 ≤ b ∧ b < 64 then some (a / 2 ^ b.toNat) else none
  | _ => none

/-- What a comparison says of the order of its operands. -/
def OpCode.compares (op : OpCode) (order : Ordering) : Bool :=
  match op with
  | .eq => order = .eq
  | .neq => order ≠ .eq
  | .lt => order = .lt
  | .gt => order = .gt
  | .le => order ≠ .gt
  | .ge => order ≠ .lt
  | _ => false

/-- `strcasecmp` -/
def strcasecmp (a b : Text) : Ordering := compare (a.map lower) (b.map lower)

def truth (b : Bool) : Int := if b then 1 else 0

/-- `string2Number`, and whether the number is not zero. -/
def ExprToken.isTrue : ExprToken → Bool
  | .operator _ => false
  | .number n => n ≠ 0
  | .string s => s ≠ []

/-- `~`, `!` and the signs. A string does not get here. -/
def OpCode.unary (op : OpCode) (t : ExprToken) : Option Int :=
  match t with
  | .number n =>
    match op with
    | .tilde => some (-n - 1)
    | .not => some (truth (n ≠ 0))
    | .uMinus => int64 (-n)
    | _ => some n
  | _ => none

/-- The cases of `reduce`. -/
inductive Action where
  | unary
  | arithmetic
  | compare
  | logical
  | conditional
  | bad
deriving DecidableEq, Repr

def OpCode.action : OpCode → Action
  | .tilde | .not | .uPlus | .uMinus => .unary
  | .minus | .plus | .mult | .div | .mod | .xor | .bor | .band | .sl | .sr => .arithmetic
  | .eq | .neq | .lt | .gt | .le | .ge => .compare
  | .lor | .land => .logical
  | .cond2 => .conditional
  | _ => .bad

/-- `t[-2]` after an operator with numbers. -/
def applyArithmetic (op : OpCode) (l t : ExprToken) : Except Fault ExprToken :=
  match l, t with
  | .number a, .number b =>
    match op.arithmetic a b with
    | some v => .ok (.number v)
    | none => .error .arithmetic
  | l, .number b => if (op = .div ∨ op = .mod) ∧ b = 0 then .error .arithmetic else .ok l
  | l, _ => .ok l

/-- `t[-2]` after a comparison. -/
def applyCompare (op : OpCode) (l t : ExprToken) : Except Fault ExprToken :=
  match l, t with
  | .number a, .number b => .ok (.number (truth (op.compares (compare a b))))
  | .string a, .string b => .ok (.number (truth (op.compares (strcasecmp a b))))
  | _, _ => .error (.error "string and non-string with binary operator")

/-- `t[-2]` after `||` or `&&`. -/
def applyLogical (op : OpCode) (l t : ExprToken) : ExprToken :=
  .number (truth (if op = .lor then l.isTrue || t.isTrue else l.isTrue && t.isTrue))

/-! ## Reducing -/

/-- The checks of a token and the operator in front of it. -/
def checkOperand (op : OpCode) (t : ExprToken) : Except Fault Unit :=
  if t.op = .string ∧ op.stringOk = none then .error .table
  else if t.op = .string ∧ op.stringOk = some false then .error (.error "operator illegal for string")
  else if t.op.code ≤ OpCode.opEnd.code then .error (.error "operator syntax")
  else .ok ()

/-- The loop of `reduce` from a token on, with the tokens in front of it in reverse order. -/
def reduceLoop : ExprToken → List ExprToken → Except Fault ExprToken
  | t, [] => .ok t
  | t, o :: front =>
    match checkOperand o.op t with
    | .error e => .error e
    | .ok () =>
      match o.op.action, front with
      | .unary, front =>
        match o.op.unary t with
        | none => .error .arithmetic
        | some v => reduceLoop (.number v) front
      | .arithmetic, l :: front => do reduceLoop (← applyArithmetic o.op l t) front
      | .compare, l :: front => do reduceLoop (← applyCompare o.op l t) front
      | .logical, l :: front => reduceLoop (applyLogical o.op l t) front
      | .arithmetic, [] | .compare, [] | .logical, [] => .error .bounds
      | .conditional, b :: q :: c :: front =>
        if q.op ≠ .cond1 ∨ b.op.code ≤ OpCode.opEnd.code then .error (.error "bad conditional operator syntax")
        else reduceLoop (if c.isTrue then b else t) front
      | .conditional, _ => .error (.error "bad conditional operator syntax")
      | .bad, _ => .error (.error "bad operator syntax")

/-- `reduce`: the value of the tokens. A single token is its own. -/
def reduce (tokens : List ExprToken) : Except Fault ExprToken :=
  match tokens.reverse with
  | [] => .error (.error "bad expression syntax")
  | t :: front => reduceLoop t front

/-! ## Parsing -/

/-- The variables of `parse`: the tokens up to `t`, and the place of the last open parenthesis. -/
structure State where
  tokens : List ExprToken := []
  lpar : Option Nat := none
  nParens : Nat := 0
deriving DecidableEq, Repr

/-- The next token stays where it is. -/
def State.push (s : State) (t : ExprToken) : State := { s with tokens := s.tokens ++ [t] }

/-- The last open parenthesis in front of a place. -/
def lparBelow (tokens : List ExprToken) : Nat → Option Nat
  | 0 => none
  | n + 1 => if tokens[n]?.map (·.op) = some .lpar then some n else lparBelow tokens n

/-- An open parenthesis. -/
def openParen (s : State) : State :=
  { tokens := s.tokens ++ [.operator .lpar], lpar := some s.tokens.length, nParens := s.nParens + 1 }

/-- A close parenthesis: the value replaces the open one. -/
def closeParen (s : State) : Except Fault State :=
  if s.nParens = 0 then .error (.error "unmatched parens")
  else
    match s.lpar with
    | none => .error .bounds
    | some l => do
      let v ← reduce (s.tokens.drop (l + 1))
      let tokens := s.tokens.take l ++ [v]
      if s.nParens - 1 = 0 then return { tokens, lpar := none, nParens := 0 }
      else
        match lparBelow tokens l with
        | none => .error .bounds
        | some l => return { tokens, lpar := some l, nParens := s.nParens - 1 }

/-- Where the tokens start that are evaluated. -/
def State.start (s : State) : Nat :=
  match s.lpar with
  | none => 0
  | some l => l + 1

/-- A binary or conditional operator. -/
def binaryOp (s : State) (op : OpCode) : Except Fault State :=
  match s.tokens.getLast? with
  | none => .error (.error "binary operator with no value on left side")
  | some last =>
    if last.op.code < OpCode.opEnd.code then .error (.error "binary operator with no value on left side")
    else if s.lpar.getD 0 + 2 < s.tokens.length then
      match s.tokens[s.tokens.length - 2]? with
      | none => .error .bounds
      | some before =>
        if op.code < before.op.code then do
          let v ← reduce (s.tokens.drop s.start)
          return { s with tokens := s.tokens.take s.start ++ [v, .operator op] }
        else return s.push (.operator op)
    else return s.push (.operator op)

/-- `+` and `-` are unary at the start and behind an operator or an open parenthesis. -/
def State.isUnary (s : State) : Bool :=
  match s.tokens.getLast? with
  | none => true
  | some last => last.op.code < OpCode.rpar.code

/-- One turn of the loop of `parse` with a token. -/
def step (s : State) (t : ExprToken) : Except Fault State :=
  match t.op with
  | .string | .number | .ident => .ok (s.push t)
  | .lpar => .ok (openParen s)
  | .rpar => closeParen s
  | .tilde | .not => .ok (s.push t)
  | .plus => if s.isUnary then .ok (s.push (.operator .uPlus)) else binaryOp s .plus
  | .minus => if s.isUnary then .ok (s.push (.operator .uMinus)) else binaryOp s .minus
  | op => binaryOp s op

/-- `IdentResolver::getValue` -/
abbrev Resolver := Text → Except String ExprValue

/-- A token with its value. -/
def resolve (resolver : Option Resolver) (t : Lexed) : Except Fault ExprToken :=
  match t.op with
  | .string => .ok (.string t.text)
  | .number =>
    match t.number with
    | none => .error (.error "bad number syntax")
    | some n => .ok (.number n)
  | .ident =>
    match resolver with
    | none => .error (.error "no symbols are available for this expression")
    | some getValue =>
      match getValue t.text with
      | .error e => .error (.error e)
      | .ok v => .ok v.token
  | op => .ok (.operator op)

/-- The loop of `parse` over tokens. -/
def run (resolver : Option Resolver) (s : State) (tokens : List Lexed) : Except Fault State :=
  tokens.foldlM (fun s t => do step s (← resolve resolver t)) s

/-- The loop of `parse` and the end of the expression. -/
def evalTokens (resolver : Option Resolver) (tokens : List Lexed) : Except Fault ExprValue := do
  let s ← run resolver {} tokens
  return (← reduce s.tokens).value

/-- `evalExpression` -/
def evalExpression (resolver : Option Resolver) (buf : Text) : Except Fault ExprValue := do
  evalTokens resolver (← tokensOf buf)

end OpenCpi.Expr
