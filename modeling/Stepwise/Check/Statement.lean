import Stepwise.Check.Problem
import Stepwise.Program.Command
import Stepwise.Source.Lines

/-!
# Statements

The check first cuts a text into statements: the lines between its first and its last line that is not empty, each either
a step with its number or an indented line of a block. A line that looks like a misspelled step or command is refused
here, with a hint.
-/

namespace Stepwise.Check

/-- The number of a step as it is written and as it is read. -/
structure Head where
  digits : List Char
  number : Nat
  deriving DecidableEq, Repr

/-- A line of a program: a step when it has a head, else a line of a block. -/
structure Statement where
  line : Nat
  head : Option Head
  indent : Nat
  content : List Char
  deriving DecidableEq, Repr

/-- The line of the first tab; here only a line feed ends a line. -/
def tabLine? (cs : List Char) : Option Nat :=
  if cs.contains '\t' then some ((cs.takeWhile (· != '\t')).count '\n' + 1) else none

/-- The lines without the empty ones at both ends. -/
def trimEmpty (ls : List Line) : List Line :=
  let isEmpty := fun (l : Line) => l.text.isEmpty
  ((ls.dropWhile isEmpty).reverse.dropWhile isEmpty).reverse

/-- The lines of a text that is not empty and has neither tabs nor empty lines between its lines. -/
def load (s : String) : Except Problem (List Line) :=
  if s.toList.all Text.isBlank then .error ⟨none, .emptyProgram⟩
  else
    match tabLine? s.toList with
    | some n => .error (.onLine n .tab)
    | none =>
      let ls := trimEmpty (sourceLines s)
      match ls.find? fun l => l.text.isEmpty with
      | some l => .error (.onLine l.number .blankLine)
      | none => .ok ls

/-- The number of a step, at most the greatest 64-bit number. -/
def stepNumber (digits : List Char) : Nat :=
  min (Text.numeralValue digits) Text.greatestInt64

/-- A line that is exactly `step-`, a number, a colon, one space and a command: its number and its command. -/
def exactStep? (cs : List Char) : Option (List Char × List Char) :=
  match Text.after? "step-".toList cs with
  | none => none
  | some rest =>
    let digits := rest.takeWhile Char.isDigit
    match rest.dropWhile Char.isDigit with
    | ':' :: ' ' :: c :: content =>
      if digits.isEmpty || Text.isAsciiBlank c then none else some (digits, c :: content)
    | _ => none

/-- A letter that continues a word: an ASCII letter, a digit or an underscore. -/
def isWordChar (c : Char) : Bool :=
  c.isAlphanum || c == '_'

/-- The line begins with the word `step` in any case. The long s counts as an s. -/
def beginsWithStep (cs : List Char) : Bool :=
  match cs with
  | s :: t :: e :: p :: rest =>
    (s.toLower == 's' || s == '\u017f') && t.toLower == 't' && e.toLower == 'e' && p.toLower == 'p' &&
      !rest.head?.any isWordChar
  | _ => false

/-- The beginning of a line up to its first colon, else up to its first space. -/
def headerPart (cs : List Char) : List Char :=
  if cs.contains ':' then cs.takeWhile (· != ':') ++ [':'] else cs.takeWhile (· != ' ')

/-- Why a line that begins with `step-` and a number is no step. -/
def afterNumberIssue (digits rest : List Char) : Issue :=
  let d := String.ofList digits
  match rest with
  | ':' :: ' ' :: _ => .extraSpace d
  | [':'] => .missingCommand d
  | ':' :: _ => .missingSpace d
  | _ => .missingColon d

/-- Why a line is no step. -/
def stepIssue (cs : List Char) : Issue :=
  if beginsWithStep cs && !Text.startsWith "step".toList cs then
    .capitalStep ("step" ++ String.ofList (Text.dropBytes 4 (headerPart cs)))
  else
    match Text.after? "step".toList cs with
    | none => .invalidStep (String.ofList cs)
    | some rest =>
      let spaced := (rest.dropWhile Text.isAsciiBlank).takeWhile Char.isDigit
      if !spaced.isEmpty then .missingHyphen (String.ofList spaced)
      else
        match rest with
        | '-' :: tail =>
          let digits := tail.takeWhile Char.isDigit
          if digits.isEmpty then .missingNumber else afterNumberIssue digits (tail.dropWhile Char.isDigit)
        | _ => .invalidStep (String.ofList cs)

/-- A line as a statement. -/
def statement (l : Line) : Except Issue Statement :=
  if isIndented l.text then .ok ⟨l.number, none, indentation l.text, l.text.dropWhile (· == ' ')⟩
  else
    match exactStep? l.text with
    | some (digits, content) => .ok ⟨l.number, some ⟨digits, stepNumber digits⟩, 0, content⟩
    | none => .error (stepIssue l.text)

/-- The number after `goto`, blanks, `step` and blanks. -/
def spacedTarget? (c : List Char) : Option (List Char) :=
  match Text.after? "goto".toList c with
  | none => none
  | some rest =>
    if rest.head?.any Text.isAsciiBlank then
      match Text.after? "step".toList (rest.dropWhile Text.isAsciiBlank) with
      | none => none
      | some tail =>
        let digits := tail.dropWhile Text.isAsciiBlank
        if tail.head?.any Text.isAsciiBlank && Text.isNumeral digits then some digits else none
    else none

/-- The number after `goto` and possibly blanks. -/
def bareTarget? (c : List Char) : Option (List Char) :=
  match Text.after? "goto".toList c with
  | none => none
  | some rest =>
    let digits := rest.dropWhile Text.isAsciiBlank
    if Text.isNumeral digits then some digits else none

/-- The command begins with a keyword that is followed by a character that belongs neither to a word nor after a space. -/
def joined (keyword : String) (c : List Char) : Bool :=
  match Text.after? keyword.toList c with
  | some (d :: _) => d != ' ' && !d.isAlphanum
  | _ => false

/-- The command begins with `read` and a capital letter, and is no assignment. -/
def joinedRead (c : List Char) : Bool :=
  match Text.after? "read".toList c with
  | some (d :: _) => d.isUpper && (assignment? c).isNone
  | _ => false

/-- A misspelled form of a command. -/
def typo? (c : List Char) : Option Issue :=
  if c = "go to".toList ∨ Text.startsWith "go to ".toList c = true then some .splitGoto
  else
    match spacedTarget? c with
    | some digits => some (.writeTarget (String.ofList digits))
    | none =>
      match bareTarget? c with
      | some digits => some (.writeTarget (String.ofList digits))
      | none =>
        match ["print", "read", "goto"].find? fun k => joined k c with
        | some k => some (.spaceAfter k)
        | none =>
          if joinedRead c then some (.spaceAfter "read")
          else if Text.startsWith "gotostep".toList c then some (.spaceAfter "goto")
          else none

/-- The statements of lines; the first line that is wrong is refused. -/
def statements : List Line → Except Problem (List Statement)
  | [] => .ok []
  | l :: ls =>
    match statement l with
    | .error issue => .error (.onLine l.number issue)
    | .ok s =>
      match typo? s.content with
      | some issue => .error (.onLine l.number issue)
      | none =>
        match statements ls with
        | .error p => .error p
        | .ok ss => .ok (s :: ss)

/-- The statements of a program, at least one of which is a step. -/
def headers (ls : List Line) : Except Problem (List Statement) :=
  if ls.all fun l => isIndented l.text then .error ⟨none, .noSteps⟩ else statements ls

/-- The steps among statements. -/
def stepsOf (ss : List Statement) : List Statement :=
  ss.filter fun s => s.head.isSome

end Stepwise.Check
