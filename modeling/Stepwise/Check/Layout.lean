import Stepwise.Check.Statement
import Stepwise.Program.Parser

/-!
# The layout of a program

Steps are numbered from 1, begin with `start` and end with `stop`. The block of an `if` is indented past the word `if`, the
block of a nested `if` two spaces further, and there is no deeper nesting.
-/

namespace Stepwise.Check

/-- Steps have the numbers 1, 2, 3 and so on, written without leading zeros and up to the greatest step number. -/
def numbering (expected : Nat) : List Statement → Option Problem
  | [] => none
  | s :: ss =>
    match s.head with
    | none => numbering expected ss
    | some h =>
      if maxStepNumber < h.number then some (.onLine s.line (.numberTooLarge (String.ofList h.digits)))
      else if h.digits ≠ (toString h.number).toList then some (.onLine s.line (.leadingZeros h.number))
      else if h.number ≠ expected then some (.onLine s.line (.outOfOrder expected h.number))
      else numbering (expected + 1) ss

/-- The statement begins with `stop`. -/
def isStop (s : Statement) : Bool := Text.startsWith "stop".toList s.content

/-- Only the last step begins with `stop`. -/
def stopOrder : List Statement → Option Problem
  | [] => none
  | [last] => if isStop last then none else some (.onLine last.line .lastNotStop)
  | s :: next :: rest =>
    if isStop s then some (.onLine next.line (.afterStop ((next.head.map Head.number).getD 0)))
    else stopOrder (next :: rest)

/-- The first step is `start` and the last one, and only that, `stop`. -/
def startStop : List Statement → Option Problem
  | [] => none
  | first :: rest =>
    if first.content ≠ "start".toList then some (.onLine first.line .firstNotStart) else stopOrder (first :: rest)

/-- The command is an `if`, whatever follows the word. -/
def isIf (c : List Char) : Bool :=
  c == "if".toList || Text.startsWith "if ".toList c || Text.startsWith "if(".toList c

/-- The block that a line may belong to: the step it hangs on, its indentation and the items so far; and the line of the
nested `if` that is open in it, with the items of its block so far. -/
structure Block where
  line : Nat
  step : Nat
  base : Nat
  items : Nat
  nested : Option Nat
  nestedItems : Nat
  deriving DecidableEq, Repr

namespace Block

/-- The block of a step before its first item. -/
def ofStep (line : Nat) (h : Head) : Block :=
  ⟨line, h.number, Program.blockColumn h.digits.length, 0, none, 0⟩

/-- The nested block ends: it must have an item. -/
def closeNested (b : Block) : Option Problem :=
  match b.nested with
  | some n => if b.nestedItems = 0 then some (.onLine n (.emptyNestedBlock (b.base + 2))) else none
  | none => none

/-- The block ends: it must have an item. -/
def close (b : Block) : Option Problem :=
  match b.closeNested with
  | some p => some p
  | none => if b.items = 0 then some (.onLine b.line (.emptyBlock b.base)) else none

end Block

/-- Every indented line stands in a block, at its column. -/
def indentationOf : Option Block → List Statement → Option Problem
  | none, [] => none
  | some b, [] => b.close
  | block, s :: ss =>
    match s.head with
    | some h =>
      match block.bind Block.close with
      | some p => some p
      | none => indentationOf (if isIf s.content then some (.ofStep s.line h) else none) ss
    | none =>
      match block with
      | none => some (.onLine s.line .unexpectedIndent)
      | some b =>
        if s.indent = b.base then
          match b.closeNested with
          | some p => some p
          | none =>
            let nested := if isIf s.content then some s.line else none
            indentationOf (some { b with items := b.items + 1, nested := nested, nestedItems := 0 }) ss
        else
          match b.nested with
          | none => some (.onLine s.line (.blockIndent b.base b.step s.indent))
          | some n =>
            if s.indent = b.base + 2 then
              if isIf s.content then some (.onLine s.line .nestedTooDeep)
              else indentationOf (some { b with nestedItems := b.nestedItems + 1 }) ss
            else some (.onLine s.line (.nestedIndent b.base n s.indent))

end Stepwise.Check
