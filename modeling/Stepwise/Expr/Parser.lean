import Stepwise.Expr.Basic
import Stepwise.Expr.Malformed
import Stepwise.Token.Lexer

/-!
# Reading expressions and conditions

An expression is a chain of operands with operators between them, folded to the left:

    expr    = operand { ("+" | "-" | "*" | "/" | "%") operand }
    operand = "-" operand | literal | number | name | "(" expr ")"

A condition is two expressions with one comparison between them, in at most one pair of parentheses of its own. Each
reader takes tokens off the front of a list and answers with a shorter rest, which is why reading ends. The column
`stop` is where the list itself ends.
-/

namespace Stepwise.Expr

/-- An expression read off the front of a list of tokens. -/
structure Parsed (ts : List Token) where
  expr : Expr
  rest : List Token
  shorter : rest.length < ts.length

/-- The fault of a text that ends where an operand is needed, given the token before. -/
def missing (stop : Nat) : Option Token → Malformed
  | some ⟨.arith op, p⟩ => ⟨p.col, .dangling op⟩
  | _ => ⟨stop, .missingOperand⟩

/-- The column of the first token, or of the end. -/
def headCol (stop : Nat) : List Token → Nat
  | [] => stop
  | t :: _ => t.col

mutual

/-- Reads one operand; `prev` is the token before it. -/
def parseOperand (stop : Nat) (prev : Option Token) (ts : List Token) : Except Malformed (Parsed ts) :=
  match ts with
  | [] => .error (missing stop prev)
  | t :: ts =>
    match t.lexeme with
    | .arith .sub =>
      match parseOperand stop (some t) ts with
      | .error e => .error e
      | .ok r => .ok ⟨.neg t.col r.expr, r.rest, Nat.lt_succ_of_lt r.shorter⟩
    | .literal v => .ok ⟨.text t.col v, ts, Nat.lt_succ_self _⟩
    | .number s => .ok ⟨.number t.col s, ts, Nat.lt_succ_self _⟩
    | .name s => .ok ⟨.name t.col s, ts, Nat.lt_succ_self _⟩
    | .opening =>
      match ts.head? with
      | some ⟨.closing, p⟩ => .error ⟨p.col, .emptyParentheses⟩
      | _ =>
        match parseChain stop (some t) ts with
        | .error e => .error e
        | .ok r =>
          match h : r.rest with
          | ⟨.closing, _⟩ :: rest =>
            .ok ⟨.group t.col r.expr, rest, by
              have := r.shorter
              simp only [h, List.length_cons] at this ⊢
              omega⟩
          | us => .error ⟨headCol stop us, .unclosed⟩
    | l => .error ⟨t.col, .unexpected l⟩
termination_by (ts.length, 0)

/-- Reads a chain of operands. -/
def parseChain (stop : Nat) (prev : Option Token) (ts : List Token) : Except Malformed (Parsed ts) :=
  match parseOperand stop prev ts with
  | .error e => .error e
  | .ok r =>
    match parseTail stop r.expr r.rest with
    | .error e => .error e
    | .ok (e, ⟨rest, h⟩) => .ok ⟨e, rest, Nat.lt_of_le_of_lt h r.shorter⟩
termination_by (ts.length, 1)
decreasing_by
  · exact Prod.Lex.right _ (Nat.lt_succ_self 0)
  · exact Prod.Lex.left _ _ r.shorter

/-- Reads the operators and operands that follow `left`. -/
def parseTail (stop : Nat) (left : Expr) (ts : List Token) :
    Except Malformed (Expr × { rest : List Token // rest.length ≤ ts.length }) :=
  match ts with
  | ⟨.arith op, p⟩ :: ts =>
    match parseOperand stop (some ⟨.arith op, p⟩) ts with
    | .error e => .error e
    | .ok r =>
      match parseTail stop (.binary p.col op left r.expr) r.rest with
      | .error e => .error e
      | .ok (e, ⟨rest, h⟩) => .ok (e, ⟨rest, by
          have := r.shorter
          simp only [List.length_cons]
          omega⟩)
  | ts => .ok (left, ⟨ts, Nat.le_refl _⟩)
termination_by (ts.length, 0)
decreasing_by
  · exact Prod.Lex.left _ _ (Nat.lt_succ_self _)
  · exact Prod.Lex.left _ _ (Nat.lt_succ_of_lt r.shorter)

end

/-- Reads an expression that takes up the whole list of tokens. -/
def ofTokens (stop : Nat) (ts : List Token) : Except Malformed Expr :=
  match parseChain stop none ts with
  | .error e => .error e
  | .ok r =>
    match r.rest with
    | [] => .ok r.expr
    | t :: _ => .error ⟨t.col, .unexpected t.lexeme⟩

/-- Reads an expression. -/
def parse (s : String) : Except Malformed Expr :=
  let tokens := Token.lex s
  if tokens.1.isEmpty then .error ⟨1, .emptyExpression⟩ else ofTokens tokens.2.col tokens.1

end Stepwise.Expr

namespace Stepwise.Condition

/-- How many tokens stand before the parenthesis that closes the innermost of `depth` open ones. -/
def closingIndex? : Nat → List Token → Option Nat
  | _, [] => none
  | depth, t :: ts =>
    match t.lexeme with
    | .opening => (closingIndex? (depth + 1) ts).map (· + 1)
    | .closing => if depth ≤ 1 then some 0 else (closingIndex? (depth - 1) ts).map (· + 1)
    | _ => (closingIndex? depth ts).map (· + 1)

/-- The tokens without a pair of parentheses around all of them, with the column where they end. -/
def unwrap (stop : Nat) (ts : List Token) : List Token × Nat :=
  match ts with
  | ⟨.opening, _⟩ :: us =>
    match us.getLast? with
    | some last => if closingIndex? 1 us = some (us.length - 1) then (us.dropLast, last.col) else (ts, stop)
    | none => (ts, stop)
  | _ => (ts, stop)

/-- The tokens around a comparison. -/
structure Split where
  left : List Token
  op : CompareOp
  pos : Pos
  right : List Token
  deriving DecidableEq, Repr

/-- The splits at the comparisons outside parentheses, in order; `seen` holds the tokens before, the last one first. -/
def splits (seen : List Token) (depth : Int) : List Token → List Split
  | [] => []
  | t :: ts =>
    match t.lexeme with
    | .opening => splits (t :: seen) (depth + 1) ts
    | .closing => splits (t :: seen) (depth - 1) ts
    | .compare op =>
      if depth = 0 then ⟨seen.reverse, op, t.pos, ts⟩ :: splits (t :: seen) depth ts else splits (t :: seen) depth ts
    | _ => splits (t :: seen) depth ts

/-- Reads one side of a comparison, with the fault of an empty side. -/
def side (stop : Nat) (empty : Malformation) (ts : List Token) : Except Malformed Expr :=
  if ts.isEmpty then .error ⟨stop, empty⟩ else Expr.ofTokens stop ts

/-- Reads a condition that takes up the whole list of tokens. -/
def ofTokens (stop : Nat) (ts : List Token) : Except Malformed Condition :=
  if ts.isEmpty then .error ⟨1, .emptyCondition⟩
  else
    let body := unwrap stop ts
    match splits [] 0 body.1 with
    | [] => .error ⟨1, .noComparison⟩
    | [s] =>
      match side s.pos.col (.missingLeft s.op) s.left with
      | .error e => .error e
      | .ok left =>
        match side body.2 (.missingRight s.op) s.right with
        | .error e => .error e
        | .ok right => .ok ⟨s.pos.col, s.op, left, right⟩
    | _ :: s :: _ => .error ⟨s.pos.col, .secondComparison⟩

/-- Reads a condition. -/
def parse (s : String) : Except Malformed Condition :=
  let tokens := Token.lex s
  ofTokens tokens.2.col tokens.1

end Stepwise.Condition
