import Stepwise.Program.Basic
import Stepwise.Program.Command
import Stepwise.Source.Lines

/-!
# Reading programs

A step is a line `step-N: command`. The block of a branch is the run of lines after it that are indented far enough: past
the word `if` for a step, two spaces past the line for a branch inside a block. Reading stops at the first line that
cannot be placed; what a command means is looked at when it is executed.
-/

namespace Stepwise

/-- Why a text is no program. -/
inductive ProgramFault where
  | unexpectedIndent (text : String)
  | invalidStep (line : String)
  | invalidNumber (digits : String)
  | noSteps
  deriving DecidableEq, Repr, Inhabited

/-- The message of a fault. -/
def ProgramFault.message : ProgramFault → String
  | unexpectedIndent s => "Unexpected indented line: " ++ s
  | invalidStep s => "Invalid step format: " ++ s
  | invalidNumber s => "Invalid step number " ++ Text.quote s
  | noSteps => "Program has no steps"

/-- A fault and the line where it shows; line 0 stands for the whole text. -/
structure ProgramError where
  line : Nat
  fault : ProgramFault
  deriving DecidableEq, Repr, Inhabited

/-- The parts of a step's line: its digits, and its command with the column where it begins. -/
structure Header where
  digits : List Char
  col : Nat
  content : List Char
  deriving DecidableEq, Repr

namespace Program

/-- The text after the colon of a step, without the blanks before it; when there are only blanks, the last one is the
text. Answers with the number of blanks dropped. -/
def body? (cs : List Char) : Option (Nat × List Char) :=
  match cs.dropWhile Text.isAsciiBlank with
  | [] =>
    match cs.getLast? with
    | some c => some (cs.length - 1, [c])
    | none => none
  | c :: rest => some ((cs.takeWhile Text.isAsciiBlank).length, c :: rest)

/-- The parts of a step's line. -/
def header? (cs : List Char) : Option Header :=
  match Text.after? "step-".toList cs with
  | none => none
  | some rest =>
    let digits := rest.takeWhile Char.isDigit
    match rest.dropWhile Char.isDigit with
    | ':' :: tail =>
      if digits.isEmpty then none
      else (body? tail).map fun b => ⟨digits, 5 + digits.length + 1 + b.1 + 1, Text.strip b.2⟩
    | _ => none

/-- How far the block of a step is indented: past the word `if` as the step is written. -/
def blockColumn (digits : Nat) : Nat := 5 + digits + 4

/-- The line belongs to a block that is indented by at least `least` spaces. -/
def inBlock (least : Nat) (l : Line) : Bool :=
  !l.text.isEmpty && decide (least ≤ indentation l.text)

/-- The text `arg` that follows `skipped` characters of a command, without the blanks around it, at its place. -/
def excerpt (line col skipped : Nat) (arg : List Char) : Excerpt :=
  ⟨String.ofList (Text.strip arg), line, col + skipped + indentation arg⟩

/-- The condition of a branch: a colon at its end is dropped. -/
def condition (line col : Nat) (arg : List Char) : Excerpt :=
  let cond := Text.strip arg
  let cond := if Text.endsWith ':' cond then Text.strip cond.dropLast else cond
  ⟨String.ofList cond, line, col + 3 + indentation arg⟩

/-- The target of a jump: blanks, then `step-` and a number. -/
def jumpTarget? (cs : List Char) : Option Nat :=
  match Text.after? "goto".toList cs with
  | none => none
  | some rest =>
    if (rest.head?.any Text.isAsciiBlank) then
      match Text.after? "step-".toList (rest.dropWhile Text.isAsciiBlank) with
      | none => none
      | some digits => Text.readNumeral? digits
    else none

/-- The action that a command means, given the place where it begins. -/
def action (line col : Nat) (content : List Char) : Action :=
  match Form.ofText content with
  | .start => .start
  | .stop => .stop
  | .print arg => .print (excerpt line col 6 arg)
  | .read arg => .read (String.ofList (Text.strip arg))
  | .jump _ => .jump (jumpTarget? content) (String.ofList content)
  | .assign name value => .assign (String.ofList (Text.strip name)) (excerpt line col (name.length + 1) value)
  | .branch _ => .unknown (String.ofList content)
  | .unknown => .unknown (String.ofList content)

/-- The items of a block, given all its lines. The lines below a branch that are indented two or more further are its
block. -/
def blockItems : List Line → List Node
  | [] => []
  | l :: ls =>
    let indent := indentation l.text
    let content := l.text.dropWhile Text.isIndent
    let place : Place := ⟨l.number, indent + 1, String.ofList l.text⟩
    match Text.after? "if ".toList content with
    | some arg =>
      .branch place (condition l.number (indent + 1) arg) (blockItems (ls.takeWhile (inBlock (indent + 2)))) ::
        blockItems (ls.dropWhile (inBlock (indent + 2)))
    | none => .act place (action l.number (indent + 1) content) :: blockItems ls
termination_by ls => ls.length
decreasing_by
  · exact Nat.lt_succ_of_le (List.takeWhile_prefix _).length_le
  · exact Nat.lt_succ_of_le (List.dropWhile_suffix _).length_le
  · exact Nat.lt_succ_self _

/-- The node of a step's command; `below` holds the lines that may be its block. -/
def stepNode (l : Line) (h : Header) (below : List Line) : Node :=
  let place : Place := ⟨l.number, h.col, String.ofList l.text⟩
  match Text.after? "if ".toList h.content with
  | some arg =>
    .branch place (condition l.number h.col arg) (blockItems (below.takeWhile (inBlock (blockColumn h.digits.length))))
  | none => .act place (action l.number h.col h.content)

/-- The lines after a step and its block. -/
def afterStep (h : Header) (below : List Line) : List Line :=
  match Text.after? "if ".toList h.content with
  | some _ => below.dropWhile (inBlock (blockColumn h.digits.length))
  | none => below

/-- The lines after a step are among those below it. -/
theorem length_afterStep_le (h : Header) (below : List Line) : (afterStep h below).length ≤ below.length := by
  unfold afterStep
  split
  · exact (List.dropWhile_suffix _).length_le
  · exact Nat.le_refl _

/-- The steps of a text, given its lines. -/
def readSteps : List Line → Except ProgramError (List Step)
  | [] => .ok []
  | l :: ls =>
    if l.text.isEmpty then readSteps ls
    else if isIndented l.text then .error ⟨l.number, .unexpectedIndent (String.ofList (Text.strip l.text))⟩
    else
      match header? l.text with
      | none => .error ⟨l.number, .invalidStep (String.ofList l.text)⟩
      | some h =>
        match Text.readNumeral? h.digits with
        | none => .error ⟨l.number, .invalidNumber (String.ofList h.digits)⟩
        | some n =>
          match readSteps (afterStep h ls) with
          | .error e => .error e
          | .ok rest => .ok (⟨n, stepNode l h ls⟩ :: rest)
termination_by ls => ls.length
decreasing_by
  · exact Nat.lt_succ_self _
  · exact Nat.lt_succ_of_le (length_afterStep_le _ _)

/-- Reads a program. -/
def parse (s : String) : Except ProgramError Program :=
  match readSteps (sourceLines s) with
  | .error e => .error e
  | .ok [] => .error ⟨0, .noSteps⟩
  | .ok ss => .ok ⟨ss, s⟩

end Program

end Stepwise
