import Stepwise.Text.Quoted

/-!
# Problems of a program text

What the check of a program text can find, and how it is put into words.
-/

namespace Stepwise

/-- What is wrong with a program text or one of its lines. -/
inductive Issue where
  | emptyProgram
  | tab
  | blankLine
  | noSteps
  | capitalStep (header : String)
  | missingHyphen (digits : String)
  | missingNumber
  | missingColon (digits : String)
  | missingCommand (digits : String)
  | missingSpace (digits : String)
  | extraSpace (digits : String)
  | invalidStep (text : String)
  | splitGoto
  | writeTarget (digits : String)
  | spaceAfter (keyword : String)
  | numberTooLarge (digits : String)
  | leadingZeros (number : Nat)
  | outOfOrder (expected found : Nat)
  | firstNotStart
  | afterStop (number : Nat)
  | lastNotStop
  | unexpectedIndent
  | emptyBlock (spaces : Nat)
  | emptyNestedBlock (spaces : Nat)
  | nestedTooDeep
  | blockIndent (spaces step found : Nat)
  | nestedIndent (spaces line found : Nat)
  | startInBlock
  | startNotFirst
  | startArguments
  | stopInBlock
  | stopArguments
  | readNeedsName
  | printNeedsExpression
  | invalidGoto
  | ifNeedsSpace
  | ifNeedsCondition
  | wrapCondition (condition : String)
  | ifNeedsColon (condition : String)
  | colonNotAfterCondition (condition : String)
  | ifOneSpace
  | emptyCondition
  | doubleParentheses (condition : String)
  | ifNeedsComparison
  | emptyAssignment (name : String)
  | assignmentSpacing (name value : String)
  | invalidName (name : String)
  | nameTooLong (name : String) (size : Nat)
  | unknownCommand (text : String) (guess : Option String)
  | tooManyVariables (names : List String)
  | missingTarget (digits : String)
  deriving DecidableEq, Repr, Inhabited

/-- The greatest step number. -/
def maxStepNumber : Nat := 99

/-- How many variables a program may use. -/
def maxVariables : Nat := 6

/-- How many bytes a variable name may have. -/
def maxNameLength : Nat := 42

/-- An issue in words. -/
def Issue.message : Issue → String
  | emptyProgram => "The program is empty; start with 'step-1: start' and end with a 'stop' step"
  | tab => "tab characters are not allowed; indent with spaces"
  | blankLine => "blank lines are not allowed between steps"
  | noSteps => "The program has no steps; unindented lines must look like 'step-1: start'"
  | capitalStep h => "'step' must be lowercase; write " ++ Text.quote h
  | missingHyphen d => "use a hyphen between 'step' and its number; write 'step-" ++ d ++ ":'"
  | missingNumber => "missing step number after 'step-'"
  | missingColon d => "missing ':' after 'step-" ++ d ++ "'"
  | missingCommand d => "step-" ++ d ++ " has no command"
  | missingSpace d => "add a space after 'step-" ++ d ++ ":'"
  | extraSpace d => "use exactly one space after 'step-" ++ d ++ ":'"
  | invalidStep t => "invalid step format " ++ Text.quote t ++ "; expected 'step-<number>: <command>'"
  | splitGoto => "write 'goto' as one word"
  | writeTarget d => "write the target as 'goto step-" ++ d ++ "'"
  | spaceAfter k => "add a space after '" ++ k ++ "'"
  | numberTooLarge d => "step numbers cannot exceed " ++ toString maxStepNumber ++ " (found step-" ++ d ++ ")"
  | leadingZeros n => "write step numbers without leading zeros; use 'step-" ++ toString n ++ "'"
  | outOfOrder e f =>
    "expected step-" ++ toString e ++ " but found step-" ++ toString f ++
      "; steps must be numbered 1, 2, 3, ... in order"
  | firstNotStart => "the first step must be 'step-1: start'"
  | afterStop n => "step-" ++ toString n ++ " comes after the 'stop' step; 'stop' must be the last step"
  | lastNotStop => "the last step must be 'stop'"
  | unexpectedIndent => "unexpected indentation; only commands inside an 'if' block may be indented"
  | emptyBlock n => "the 'if' block is empty; indent at least one command by " ++ toString n ++ " spaces"
  | emptyNestedBlock n => "the nested 'if' block is empty; indent its commands by " ++ toString n ++ " spaces"
  | nestedTooDeep => "an 'if' cannot be nested inside a nested 'if'; only one level of nesting is allowed"
  | blockIndent n s f =>
    "expected " ++ toString n ++ " spaces of indentation for the block of step-" ++ toString s ++ ", found " ++ toString f
  | nestedIndent n l f =>
    "expected " ++ toString n ++ " spaces of indentation (or " ++ toString (n + 2) ++
      " inside the nested 'if' on line " ++ toString l ++ "), found " ++ toString f
  | startInBlock => "'start' cannot be used inside an 'if' block"
  | startNotFirst => "'start' may only be used as step-1"
  | startArguments => "'start' takes no arguments"
  | stopInBlock => "'stop' cannot be used inside an 'if' block"
  | stopArguments => "'stop' takes no arguments"
  | readNeedsName => "'read' needs a variable name: read <Name>"
  | printNeedsExpression => "'print' needs an expression: print <expression>"
  | invalidGoto => "invalid goto; write 'goto step-<number>'"
  | ifNeedsSpace => "add a space between 'if' and '('; write 'if (<condition>):'"
  | ifNeedsCondition => "'if' needs a condition; write 'if (<condition>):'"
  | wrapCondition c => "wrap the condition in parentheses; write 'if (" ++ c ++ "):'"
  | ifNeedsColon c => "the 'if' line must end with ':'; write 'if " ++ c ++ ":'"
  | colonNotAfterCondition c => "put ':' directly after ')'; write 'if " ++ c ++ ":'"
  | ifOneSpace => "use a single space between 'if' and '('"
  | emptyCondition => "the 'if' condition is empty"
  | doubleParentheses c => "use a single pair of parentheses around the condition; write 'if (" ++ c ++ "):'"
  | ifNeedsComparison => "the 'if' condition needs a comparison (<, >, <=, >=, ==, !=)"
  | emptyAssignment n => "the assignment to " ++ n ++ " has no expression"
  | assignmentSpacing n v => "put one space on each side of '='; write '" ++ n ++ " = " ++ v ++ "'"
  | invalidName n =>
    "invalid variable name " ++ Text.quote n ++ "; names start with an uppercase letter followed by letters or digits"
  | nameTooLong n size =>
    "variable name " ++ Text.quote n ++ " is too long (" ++ toString size ++ " characters, maximum " ++
      toString maxNameLength ++ ")"
  | unknownCommand t none => "unrecognized command " ++ Text.quote t
  | unknownCommand t (some k) => "unrecognized command " ++ Text.quote t ++ "; did you mean '" ++ k ++ "'?"
  | tooManyVariables names =>
    "Too many variables: found " ++ toString names.length ++ " (" ++ ", ".intercalate names ++
      "); a program may use at most " ++ toString maxVariables
  | missingTarget d => "goto target step-" ++ d ++ " does not exist"

/-- An issue and the line where it shows; an issue of the whole text has no line. -/
structure Problem where
  line : Option Nat
  issue : Issue
  deriving DecidableEq, Repr, Inhabited

namespace Problem

/-- A problem of one line. -/
def onLine (line : Nat) (issue : Issue) : Problem := ⟨some line, issue⟩

/-- A problem in words. -/
def message (p : Problem) : String :=
  match p.line with
  | some n => "Line " ++ toString n ++ ": " ++ p.issue.message
  | none => p.issue.message

/-- The report of a text that was refused. -/
def report (p : Problem) : String :=
  "Validation failed:\n  " ++ p.message

end Problem

end Stepwise
