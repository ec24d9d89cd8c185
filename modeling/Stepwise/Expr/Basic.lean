import Stepwise.Token.Basic

/-!
# Expressions and conditions

The trees of expressions. Every node keeps the column of its own token, counted from the start of the expression: the
operator of an operation, the minus of a negation, the opening parenthesis of a group. Operators have no precedence, so
operations are nested to the left and groups are nodes of their own.
-/

namespace Stepwise

/-- An expression. -/
inductive Expr where
  /-- A string literal, by its value. -/
  | text (col : Nat) (value : String)
  /-- A number as it is written. -/
  | number (col : Nat) (digits : String)
  /-- A variable. -/
  | name (col : Nat) (id : String)
  | neg (col : Nat) (operand : Expr)
  | binary (col : Nat) (op : ArithOp) (left right : Expr)
  /-- An expression in parentheses. -/
  | group (col : Nat) (inner : Expr)
  deriving DecidableEq, Repr, Inhabited

namespace Expr

/-- The column of an expression's own token. -/
def col : Expr → Nat
  | text c _ => c
  | number c _ => c
  | name c _ => c
  | neg c _ => c
  | binary c _ _ _ => c
  | group c _ => c

/-- An expression as text that shows its tree. -/
def describe : Expr → String
  | text _ s => "String(" ++ Text.quote s ++ ")"
  | number _ s => "Number(" ++ s ++ ")"
  | name _ s => "Ident(" ++ s ++ ")"
  | neg _ e => "Unary(- " ++ e.describe ++ ")"
  | binary _ o l r => "Binary(" ++ l.describe ++ " " ++ o.symbol.toString ++ " " ++ r.describe ++ ")"
  | group _ e => "Paren(" ++ e.describe ++ ")"

/-- The nodes of an expression: each before its parts, the left part before the right. -/
def nodes : Expr → List Expr
  | neg c e => neg c e :: e.nodes
  | binary c o l r => binary c o l r :: (l.nodes ++ r.nodes)
  | group c e => group c e :: e.nodes
  | e => [e]

/-- The name of a node's class. -/
def className : Expr → String
  | text .. => "StringLiteral"
  | number .. => "NumberLiteral"
  | name .. => "Identifier"
  | neg .. => "UnaryExpr"
  | binary .. => "BinaryExpr"
  | group .. => "ParenExpr"

/-- What a node itself says; a group says nothing. -/
def label? : Expr → Option String
  | text _ s => some s
  | number _ s => some s
  | name _ s => some s
  | neg _ _ => some "-"
  | binary _ o _ _ => some o.symbol.toString
  | group _ _ => none

end Expr

/-- A comparison of two expressions; the column is that of the comparison. -/
structure Condition where
  col : Nat
  op : CompareOp
  left : Expr
  right : Expr
  deriving DecidableEq, Repr, Inhabited

/-- A condition as text that shows its trees. -/
def Condition.describe (c : Condition) : String :=
  "Condition(" ++ c.left.describe ++ " " ++ c.op.symbol ++ " " ++ c.right.describe ++ ")"

end Stepwise
