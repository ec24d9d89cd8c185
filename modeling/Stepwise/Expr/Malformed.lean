import Stepwise.Token.Basic

/-!
# Malformed expressions

Why a text is no expression or no condition, with the column of the offending token.
-/

namespace Stepwise

/-- What is wrong with the text of an expression or a condition. -/
inductive Malformation where
  | emptyExpression
  | emptyCondition
  | noComparison
  | secondComparison
  | missingLeft (op : CompareOp)
  | missingRight (op : CompareOp)
  | emptyParentheses
  | unclosed
  /-- The text ends right after an operator. -/
  | dangling (op : ArithOp)
  | missingOperand
  /-- A token that cannot stand where it stands. -/
  | unexpected (lexeme : Lexeme)
  deriving DecidableEq, Repr, Inhabited

/-- The message for a token that cannot stand where it stands. -/
def Lexeme.unexpectedMessage (l : Lexeme) : String :=
  match l with
  | .unterminated => "Unterminated string literal"
  | .compare _ => "Comparison '" ++ l.text ++ "' is only allowed in an if condition"
  | .closing => "Unmatched ')'"
  | .literal _ => "Expected an operator before string literal"
  | .name _ | .number _ => "Expected an operator before '" ++ l.text ++ "'"
  | _ => "Unexpected '" ++ l.text ++ "'"

/-- The message of a malformation. -/
def Malformation.message : Malformation → String
  | emptyExpression => "Empty expression"
  | emptyCondition => "Empty condition"
  | noComparison => "Invalid condition: expected one of <= >= == != < >"
  | secondComparison => "Invalid condition: only one comparison is allowed"
  | missingLeft op => "Missing left side of '" ++ op.symbol ++ "'"
  | missingRight op => "Missing right side of '" ++ op.symbol ++ "'"
  | emptyParentheses => "Empty parentheses"
  | unclosed => "Expected ')'"
  | dangling op => "Invalid expression: dangling '" ++ op.symbol.toString ++ "' operator"
  | missingOperand => "Expected an operand"
  | unexpected l => l.unexpectedMessage

/-- A malformation and the column where it shows. -/
structure Malformed where
  col : Nat
  cause : Malformation
  deriving DecidableEq, Repr, Inhabited

end Stepwise
