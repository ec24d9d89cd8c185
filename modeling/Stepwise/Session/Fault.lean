import Stepwise.Expr.Eval

/-!
# Failed steps

Why a step fails, and the message that shows the step, the place and the line.
-/

namespace Stepwise

/-- Why a step fails. -/
inductive StepFault where
  | evaluation (fault : EvalFault)
  | unknownCommand (text : String)
  | unsupportedInBlock (text : String)
  | invalidJump (raw : String)
  | invalidTarget (number : Nat)
  deriving DecidableEq, Repr, Inhabited

/-- The message of a failed step. -/
def StepFault.message : StepFault → String
  | evaluation f => f.message
  | unknownCommand s => "Unknown command: " ++ s
  | unsupportedInBlock s => "Unsupported command in if block: " ++ s
  | invalidJump raw => "Invalid goto command: " ++ raw
  | invalidTarget n => "Invalid goto target: step-" ++ toString n

/-- A fault and its place in the program text. -/
structure Located where
  span : Span
  fault : StepFault
  deriving DecidableEq, Repr, Inhabited

/-- A failed step: its label, the place of the fault, the fault and the line of the step. -/
structure Failure where
  label : String
  span : Span
  fault : StepFault
  line : String
  deriving DecidableEq, Repr, Inhabited

/-- The report of a fault. Without label and line it is the message and its column; otherwise it names the step and the
place, and shows the line with a caret under the column. -/
def faultReport (label : String) (span : Span) (message line : String) : String :=
  if label = "" ∧ line = "" then
    if 0 < span.col then message ++ " (column " ++ toString span.col ++ ")" else message
  else
    let step := if label = "" then "" else " at step " ++ label
    let place := if 0 < span.line then " (line " ++ span.text ++ ")" else ""
    let margin := "  " ++ toString span.line ++ " | "
    let caret :=
      if 0 < span.col then
        "\n" ++ String.ofList (List.replicate ((margin.length : Int) + span.col - 1).toNat ' ') ++ "^"
      else ""
    let shown := if line ≠ "" ∧ 0 < span.line then "\n" ++ margin ++ line ++ caret else ""
    "Runtime error" ++ step ++ place ++ "\n  " ++ message ++ shown

/-- The report of a failed step. -/
def Failure.report (f : Failure) : String :=
  faultReport f.label f.span f.fault.message f.line

/-- The report of a text that cannot be read: its line if it is known, else its column if that is known. -/
def readingReport (line col : Int) (message : String) : String :=
  if 0 < line then "Parse error at line " ++ toString line ++ ": " ++ message
  else if 0 < col then message ++ " at column " ++ toString col
  else message

end Stepwise
