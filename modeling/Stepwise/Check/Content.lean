import Stepwise.Check.Layout
import Stepwise.Text.Distance

/-!
# The commands of a program

Each command has its exact form: names begin with a capital letter, an assignment has one space on each side of its
equals sign, an `if` has its condition in one pair of parentheses with a colon after it.
-/

namespace Stepwise.Check

/-- A capital ASCII letter followed by ASCII letters and digits. -/
def isName : List Char → Bool
  | [] => false
  | c :: cs => c.isUpper && cs.all Char.isAlphanum

/-- A name has the form of a name and is not too long. -/
def nameIssue (name : List Char) : Option Issue :=
  if !isName name then some (.invalidName (String.ofList name))
  else if maxNameLength < Text.byteLength name then
    some (.nameTooLong (String.ofList name) (Text.byteLength name))
  else none

/-- The first parenthesis of the text, opened at depth 0, is closed by its last character. Parentheses inside string
literals do not count. -/
def closesAtEnd (depth : Nat) (quoted : Bool) : List Char → Bool
  | [] => false
  | c :: cs =>
    if c = '\\' ∧ quoted = true then
      match cs with
      | [] => false
      | _ :: ds => closesAtEnd depth quoted ds
    else if c = '"' then closesAtEnd depth (!quoted) cs
    else if quoted then closesAtEnd depth quoted cs
    else if c = '(' then closesAtEnd (depth + 1) quoted cs
    else if c = ')' then
      if depth = 1 then cs.isEmpty else closesAtEnd (depth - 1) quoted cs
    else closesAtEnd depth quoted cs

/-- One pair of parentheses encloses the text. -/
def isWrapped (cs : List Char) : Bool :=
  match cs with
  | '(' :: rest => closesAtEnd 1 false rest
  | _ => false

/-- The text has a comparison. -/
def hasComparison : List Char → Bool
  | [] => false
  | '=' :: '=' :: _ => true
  | '!' :: '=' :: _ => true
  | c :: cs => c == '<' || c == '>' || hasComparison cs

/-- The text without parentheses at its ends. -/
def trimParentheses (cs : List Char) : List Char :=
  Text.trim (fun c => c == '(' || c == ')') cs

/-- The text without its first and its last character. -/
def inside (cs : List Char) : List Char :=
  (cs.drop 1).dropLast

/-- An `if` is written `if (condition):`. -/
def ifIssue (c : List Char) : Option Issue :=
  if Text.startsWith "if(".toList c then some .ifNeedsSpace
  else
    let rest := Text.strip ((Text.after? "if".toList c).getD c)
    let body := Text.strip (Text.dropLast? ':' rest)
    if rest = [] ∨ rest = [':'] then some .ifNeedsCondition
    else if body.head? ≠ some '(' ∨ body.getLast? ≠ some ')' then
      some (.wrapCondition (String.ofList (trimParentheses body)))
    else if !Text.endsWith ':' rest then some (.ifNeedsColon (String.ofList body))
    else if rest.dropLast.getLast? ≠ some ')' then some (.colonNotAfterCondition (String.ofList body))
    else if !Text.startsWith "if (".toList c then some .ifOneSpace
    else
      let condition := Text.strip (inside body)
      if condition = [] then some .emptyCondition
      else if isWrapped condition then
        some (.doubleParentheses (String.ofList (Text.strip (inside condition))))
      else if !hasComparison condition then some .ifNeedsComparison
      else none

/-- The text ends with exactly one space. -/
def endsWithOneSpace (cs : List Char) : Bool :=
  Text.endsWith ' ' cs && !Text.endsWith ' ' cs.dropLast

/-- The text begins with exactly one space. -/
def beginsWithOneSpace : List Char → Bool
  | ' ' :: c :: _ => c != ' '
  | [' '] => true
  | _ => false

/-- An assignment has an expression, one space on each side of its equals sign, and a name. -/
def assignIssue (left right : List Char) : Option Issue :=
  let name := Text.strip left
  let value := Text.strip right
  if value = [] then some (.emptyAssignment (String.ofList name))
  else if !(endsWithOneSpace left && beginsWithOneSpace right) then
    some (.assignmentSpacing (String.ofList name) (String.ofList value))
  else nameIssue name

/-- The digits of a jump that is written `goto step-` and a number. -/
def gotoDigits? (c : List Char) : Option (List Char) :=
  match Text.after? "goto step-".toList c with
  | some digits => if Text.isNumeral digits then some digits else none
  | none => none

/-- The words that begin a command. -/
def keywords : List String := ["start", "stop", "print", "read", "goto", "if"]

/-- The keyword closest to the first word of a command, when it is close enough for a misspelling. -/
def guess? (c : List Char) : Option String :=
  let word := (c.dropWhile Text.isBlank).takeWhile fun d => !Text.isBlank d
  if word.isEmpty then none
  else
    let size := Text.byteLength word
    Text.nearest (keywords.filterMap fun k =>
      let d := Text.editDistance (word.map Text.foldCase) k.toList
      if d = 0 ∨ (d ≤ 2 ∧ d < k.length ∧ d < size) then some (k, d) else none)

/-- What is wrong with a command; `top` says whether it is a step and `first` whether it is the first one. -/
def contentIssue (top first : Bool) (c : List Char) : Option Issue :=
  if c = "start".toList then
    if !top then some .startInBlock else if !first then some .startNotFirst else none
  else if Text.startsWith "start".toList c then some .startArguments
  else if c = "stop".toList then if !top then some .stopInBlock else none
  else if Text.startsWith "stop".toList c then some .stopArguments
  else if c = "read".toList then some .readNeedsName
  else
    match Text.after? "read ".toList c with
    | some arg => nameIssue (Text.strip arg)
    | none =>
      if c = "print".toList then some .printNeedsExpression
      else
        match Text.after? "print ".toList c with
        | some arg => if Text.strip arg = [] then some .printNeedsExpression else none
        | none =>
          if c = "goto".toList ∨ Text.startsWith "goto ".toList c = true then
            if (gotoDigits? c).isNone then some .invalidGoto else none
          else if isIf c then ifIssue c
          else
            match assignment? c with
            | some (left, right) => assignIssue left right
            | none => some (.unknownCommand (String.ofList c) (guess? c))

/-- Every command has its exact form; `first` is the line of the first step. -/
def contents (first : Nat) : List Statement → Option Problem
  | [] => none
  | s :: ss =>
    match contentIssue s.head.isSome (s.head.isSome && s.line == first) s.content with
    | some issue => some (.onLine s.line issue)
    | none => contents first ss

/-- The name that a command binds. -/
def nameOf? (c : List Char) : Option String :=
  match Form.ofText c with
  | .read arg => some (String.ofList (Text.strip arg))
  | .assign name _ => some (String.ofList (Text.strip name))
  | _ => none

/-- The names that a program binds, in the order of their first appearance. -/
def names (ss : List Statement) : List String :=
  ((ss.filterMap fun s => nameOf? s.content).filter (· ≠ "")).eraseDups

/-- A program does not use too many variables. -/
def variableCount (ss : List Statement) : Option Problem :=
  if maxVariables < (names ss).length then some ⟨none, .tooManyVariables (names ss)⟩ else none

/-- Every jump has a target among the given numbers. -/
def targets (numbers : List Nat) : List Statement → Option Problem
  | [] => none
  | s :: ss =>
    match gotoDigits? s.content with
    | none => targets numbers ss
    | some digits =>
      match Text.readNumeral? digits with
      | some n =>
        if numbers.contains n then targets numbers ss
        else some (.onLine s.line (.missingTarget (String.ofList digits)))
      | none => some (.onLine s.line (.missingTarget (String.ofList digits)))

end Stepwise.Check
