import Stepwise.Expr.Parser
import Stepwise.Value

/-!
# Evaluation

Operands are evaluated from left to right and the first failure is the answer. Integers wrap around at 64 bits; division
rounds toward negative infinity and the remainder has the sign of the dividend. A sum with a string joins the two texts.
-/

namespace Stepwise

/-- Why an evaluation fails. -/
inductive EvalFault where
  | malformed (cause : Malformation)
  | invalidNumber (digits : String)
  | unknownVariable (name : String)
  | negatedString
  /-- An operator other than the sum was given a string. -/
  | needsIntegers (op : ArithOp)
  | divisionByZero
  | moduloByZero
  | uncomparable (left : Kind) (op : CompareOp) (right : Kind)
  deriving DecidableEq, Repr, Inhabited

/-- What an operator is called in messages. -/
def ArithOp.title : ArithOp → String
  | .add => "Addition"
  | .sub => "Subtraction"
  | .mul => "Multiplication"
  | .div => "Division"
  | .mod => "Modulo"

/-- The message of a failed evaluation. -/
def EvalFault.message : EvalFault → String
  | malformed c => c.message
  | invalidNumber s => "Invalid number " ++ Text.quote s
  | unknownVariable n => "Unknown variable " ++ Text.quote n
  | negatedString => "Negation only works with integers"
  | needsIntegers op => op.title ++ " only works with integers"
  | divisionByZero => "Division by zero"
  | moduloByZero => "Modulo by zero"
  | uncomparable l op r =>
    "Comparison operators only work with integers (got " ++ l.text ++ " " ++ op.symbol ++ " " ++ r.text ++ ")"

/-- A failed evaluation: the column of the node that failed, and why. -/
structure EvalError where
  col : Nat
  fault : EvalFault
  deriving DecidableEq, Repr, Inhabited

/-- A text that does not parse fails at the column of its malformation. -/
def Malformed.toEvalError (m : Malformed) : EvalError :=
  ⟨m.col, .malformed m.cause⟩

/-- Division of 64-bit integers, rounded toward negative infinity. -/
def floorDiv (a b : Int64) : Int64 :=
  if a % b ≠ 0 ∧ decide (a < 0) ≠ decide (b < 0) then a / b - 1 else a / b

/-- Applies an operator to two values. -/
def ArithOp.apply (op : ArithOp) (left right : Value) : Except EvalFault Value :=
  match left, right with
  | .int a, .int b =>
    match op with
    | .add => .ok (.int (a + b))
    | .sub => .ok (.int (a - b))
    | .mul => .ok (.int (a * b))
    | .div => if b = 0 then .error .divisionByZero else .ok (.int (floorDiv a b))
    | .mod => if b = 0 then .error .moduloByZero else .ok (.int (a % b))
  | l, r =>
    match op with
    | .add => .ok (.str (l.text ++ r.text))
    | _ => .error (.needsIntegers op)

/-- Compares two integers. -/
def CompareOp.holds (op : CompareOp) (a b : Int64) : Bool :=
  match op with
  | .eq => a == b
  | .ne => a != b
  | .lt => decide (a < b)
  | .gt => decide (b < a)
  | .le => decide (a ≤ b)
  | .ge => decide (b ≤ a)

/-- The value of a number as it is written: its leading digits count, within the signed 64-bit range. -/
def numberValue? (digits : String) : Option Int64 :=
  Text.readInt? (digits.toList.takeWhile Char.isDigit)

namespace Expr

/-- Evaluates an expression. -/
def eval (env : Env) : Expr → Except EvalError Value
  | text _ s => .ok (.str s)
  | number c s =>
    match numberValue? s with
    | some n => .ok (.int n)
    | none => .error ⟨c, .invalidNumber s⟩
  | name c n =>
    match env.get? n with
    | some v => .ok v
    | none => .error ⟨c, .unknownVariable n⟩
  | neg c e =>
    match e.eval env with
    | .error f => .error f
    | .ok (.int n) => .ok (.int (-n))
    | .ok (.str _) => .error ⟨c, .negatedString⟩
  | binary c o l r =>
    match l.eval env with
    | .error f => .error f
    | .ok a =>
      match r.eval env with
      | .error f => .error f
      | .ok b =>
        match o.apply a b with
        | .error f => .error ⟨c, f⟩
        | .ok v => .ok v
  | group _ e => e.eval env

end Expr

/-- Evaluates a condition. Both sides are evaluated before their kinds are looked at. -/
def Condition.eval (env : Env) (c : Condition) : Except EvalError Bool :=
  match c.left.eval env with
  | .error f => .error f
  | .ok a =>
    match c.right.eval env with
    | .error f => .error f
    | .ok b =>
      match a, b with
      | .int m, .int n => .ok (c.op.holds m n)
      | a, b => .error ⟨c.col, .uncomparable a.kind c.op b.kind⟩

/-- Reads and evaluates the text of an expression. -/
def evaluate (s : String) (env : Env) : Except EvalError Value :=
  match Expr.parse s with
  | .error m => .error m.toEvalError
  | .ok e => e.eval env

/-- Reads and evaluates the text of a condition. -/
def evaluateCondition (s : String) (env : Env) : Except EvalError Bool :=
  match Condition.parse s with
  | .error m => .error m.toEvalError
  | .ok c => c.eval env

end Stepwise
