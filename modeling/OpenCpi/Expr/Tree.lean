import OpenCpi.Expr.Eval

/-!
# Expressions as trees

What an expression stands for when every operator has the operands that C gives it. `Reads` is the grammar of C, and
`Tree.tokens` is how a tree is written for the evaluator, which does not have all of that grammar: it takes
operators of one precedence from the right, a sign as an operator on all that follows, and no conditional expression
with an operator behind its question mark. Such operands stand in parentheses.
-/

namespace OpenCpi.Expr

open Value

inductive Tree where
  | leaf (x : Lexed)
  | unary (op : OpCode) (e : Tree)
  | binary (op : OpCode) (l r : Tree)
  | cond (c a b : Tree)

/-! ## Values -/

/-- An operator in front of an operand, as `reduce` computes it: `!` does not negate. -/
def OpCode.prefixed (op : OpCode) (v : ExprValue) : Option ExprValue :=
  if op.action = .unary then (op.unary v.token).map .number else none

/-- An operator between two operands. -/
def OpCode.between (op : OpCode) (a b : ExprValue) : Option ExprValue :=
  match op.action, a, b with
  | .arithmetic, .number a, .number b => (op.arithmetic a b).map .number
  | .compare, .number a, .number b => some (.number (truth (op.compares (compare a b))))
  | .compare, .string a, .string b => some (.number (truth (op.compares (strcasecmp a b))))
  | .logical, a, b =>
    some (.number (truth (if op = .lor then a.token.isTrue || b.token.isTrue else a.token.isTrue && b.token.isTrue)))
  | _, _, _ => none

/-- The value of an expression all of whose parts have one. -/
def Tree.value (resolver : Option Resolver) : Tree → Option ExprValue
  | .leaf x =>
    match resolve resolver x with
    | .ok (.number n) => some (.number n)
    | .ok (.string s) => some (.string s)
    | _ => none
  | .unary op e => do op.prefixed (← e.value resolver)
  | .binary op l r => do op.between (← l.value resolver) (← r.value resolver)
  | .cond c a b => do
    let c ← c.value resolver
    let a ← a.value resolver
    let b ← b.value resolver
    return if c.token.isTrue then a else b

/-! ## The grammar of C -/

/-- The first operators of the levels of C, from the lowest on, conditional expressions apart. -/
def levels : List OpCode := [.lor, .land, .bor, .xor, .band, .eq, .lt, .sl, .plus, .mult, .uMinus]

def OpCode.prec (op : OpCode) : Nat := levels.countP (·.code ≤ op.code)

/-- An operator between two operands. -/
def OpCode.joins (op : OpCode) : Prop := op.action = .arithmetic ∨ op.action = .compare ∨ op.action = .logical

/-- The token of a unary operator. -/
def OpCode.sign : OpCode → OpCode
  | .uMinus => .minus
  | .uPlus => .plus
  | op => op

/-- Tokens in parentheses. -/
def inParens (tokens : List Lexed) : List Lexed := { op := .lpar } :: tokens ++ [{ op := .rpar }]

/-- The tokens that C reads as an expression whose operators are not below a level. Operators of one level group from
the left. -/
inductive Reads : Nat → List Lexed → Tree → Prop where
  | leaf (n : Nat) (x : Lexed) (hx : x.op = .number ∨ x.op = .string ∨ x.op = .ident) : Reads n [x] (.leaf x)
  | paren {n : Nat} {tokens : List Lexed} {e : Tree} (h : Reads 0 tokens e) : Reads n (inParens tokens) e
  | unary {n : Nat} {op : OpCode} {tokens : List Lexed} {e : Tree} (hop : op.action = .unary) (hn : n ≤ op.prec)
    (h : Reads op.prec tokens e) : Reads n ({ op := op.sign } :: tokens) (.unary op e)
  | binary {n : Nat} {op : OpCode} {ls rs : List Lexed} {l r : Tree} (hop : op.joins) (hn : n ≤ op.prec)
    (hl : Reads op.prec ls l) (hr : Reads (op.prec + 1) rs r) : Reads n (ls ++ { op } :: rs) (.binary op l r)
  | cond {cs as bs : List Lexed} {c a b : Tree} (hc : Reads 1 cs c) (ha : Reads 0 as a) (hb : Reads 0 bs b) :
    Reads 0 (cs ++ { op := .cond1 } :: as ++ { op := .cond2 } :: bs) (.cond c a b)

/-! ## Writing trees -/

/-- Where an expression stands: as an operand on its own, where nothing is open, or at the right of an operator. -/
inductive Mode where
  | operand
  | start
  | right (op : OpCode)
deriving DecidableEq

/-- Whether an expression with this operator stands in parentheses. -/
def Mode.needs (mode : Mode) (op : OpCode) : Bool :=
  match mode with
  | .operand => true
  | .start => false
  | .right before => ¬before.prec < op.prec ∧ op.action ≠ .unary

/-- Where the expression stands when its parentheses are there. -/
def Mode.inner (mode : Mode) (op : OpCode) : Mode := if mode.needs op then .start else mode

/-- The left operand of an operator is evaluated before it when all that is open is higher. -/
def Tree.leftMode (l : Tree) (op : OpCode) (mode : Mode) : Mode :=
  match l with
  | .binary op' _ _ => if mode = .start ∧ op.code < op'.code then .start else .operand
  | _ => .operand

def wrap (needs : Bool) (tokens : List Lexed) : List Lexed := if needs then inParens tokens else tokens

/-- The tokens of a tree with the parentheses that the evaluator needs. -/
def Tree.tokens : Tree → Mode → List Lexed
  | .leaf x, _ => [x]
  | .unary op e, mode => wrap (mode.needs op) ({ op := op.sign } :: e.tokens (.right op))
  | .binary op l r, mode =>
    wrap (mode.needs op) (l.tokens (l.leftMode op (mode.inner op)) ++ { op } :: r.tokens (.right op))
  | .cond c a b, mode =>
    wrap (mode.needs .cond1) (c.tokens (c.leftMode .cond1 (mode.inner .cond1)) ++
      { op := .cond1 } :: a.tokens .operand ++ { op := .cond2 } :: b.tokens (.right .cond2))

end OpenCpi.Expr
