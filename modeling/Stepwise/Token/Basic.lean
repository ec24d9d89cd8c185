import Stepwise.Source.Span
import Stepwise.Text.Quoted

/-!
# Tokens

The words of expressions and conditions. A `Lexeme` is what a token says, a `Token` adds the place where it begins.
-/

namespace Stepwise

/-- The operators between the operands of an expression. -/
inductive ArithOp where
  | add
  | sub
  | mul
  | div
  | mod
  deriving DecidableEq, Repr, Inhabited

/-- How an operator is written. -/
def ArithOp.symbol : ArithOp → Char
  | .add => '+'
  | .sub => '-'
  | .mul => '*'
  | .div => '/'
  | .mod => '%'

/-- The comparisons of a condition. -/
inductive CompareOp where
  | eq
  | ne
  | lt
  | gt
  | le
  | ge
  deriving DecidableEq, Repr, Inhabited

/-- How a comparison is written. -/
def CompareOp.symbol : CompareOp → String
  | .eq => "=="
  | .ne => "!="
  | .lt => "<"
  | .gt => ">"
  | .le => "<="
  | .ge => ">="

/-- What a token says. -/
inductive Lexeme where
  /-- A word that does not begin with a digit. -/
  | name (text : String)
  /-- A word that begins with a digit. -/
  | number (text : String)
  /-- A string literal, by its value. -/
  | literal (value : String)
  | arith (op : ArithOp)
  | compare (op : CompareOp)
  | opening
  | closing
  /-- An equals sign or an exclamation mark that belongs to no comparison. -/
  | stray (c : Char)
  /-- A string literal without a closing quote. -/
  | unterminated
  /-- The end of the text. -/
  | finish
  deriving DecidableEq, Repr, Inhabited

namespace Lexeme

/-- The text of a token in messages. -/
def text : Lexeme → String
  | name s => s
  | number s => s
  | literal s => s
  | arith op => op.symbol.toString
  | compare op => op.symbol
  | opening => "("
  | closing => ")"
  | stray c => c.toString
  | unterminated => "Unterminated string"
  | finish => ""

/-- The name of a token's class. -/
def className : Lexeme → String
  | name _ => "IDENT"
  | number _ => "NUMBER"
  | literal _ => "STRING"
  | arith .add => "PLUS"
  | arith .sub => "MINUS"
  | arith .mul => "STAR"
  | arith .div => "SLASH"
  | arith .mod => "PERCENT"
  | compare .eq => "EQ"
  | compare .ne => "NEQ"
  | compare .lt => "LT"
  | compare .gt => "GT"
  | compare .le => "LTE"
  | compare .ge => "GTE"
  | opening => "LPAREN"
  | closing => "RPAREN"
  | stray _ => "ILLEGAL"
  | unterminated => "ILLEGAL"
  | finish => "EOF"

/-- An operator that may stand between operands. -/
def isArith : Lexeme → Bool
  | arith _ => true
  | _ => false

/-- A comparison. -/
def isCompare : Lexeme → Bool
  | compare _ => true
  | _ => false

end Lexeme

/-- A token: what it says and where it begins. -/
structure Token where
  lexeme : Lexeme
  pos : Pos
  deriving DecidableEq, Repr, Inhabited

namespace Token

/-- The column where a token begins. -/
def col (t : Token) : Nat := t.pos.col

/-- A token in one line: its class, its text where the class does not fix it, and its place. -/
def describe (t : Token) : String :=
  let place := " @ " ++ toString t.pos.line ++ ":" ++ toString t.pos.col
  match t.lexeme with
  | .literal s => "STRING(" ++ Text.quote s ++ ")" ++ place
  | .name s => "IDENT(" ++ s ++ ")" ++ place
  | .number s => "NUMBER(" ++ s ++ ")" ++ place
  | .stray c => "ILLEGAL(" ++ c.toString ++ ")" ++ place
  | .unterminated => "ILLEGAL(Unterminated string)" ++ place
  | l => l.className ++ place

end Token

end Stepwise
