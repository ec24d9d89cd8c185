import Stepwise.Text.Trim
import Stepwise.Text.Bytes

/-!
# Commands as they are written

The form of a command is decided by its first word, and for an assignment by its equals sign: the first one outside
string literals that belongs to no comparison.
-/

namespace Stepwise

/-- Finds the equals sign of an assignment: the texts before and after it. `quoted` says whether the text starts inside
a string literal, `prev` is the character before it. -/
def findAssignment (quoted : Bool) (prev : Char) : List Char → Option (List Char × List Char)
  | [] => none
  | c :: cs =>
    if c = '\\' ∧ quoted = true then
      match cs with
      | [] => none
      | d :: ds => (findAssignment quoted d ds).map fun (l, r) => (c :: d :: l, r)
    else if c = '"' then (findAssignment (!quoted) c cs).map fun (l, r) => (c :: l, r)
    else if c = '=' ∧ quoted = false then
      match cs with
      | '=' :: ds => (findAssignment quoted '=' ds).map fun (l, r) => (c :: '=' :: l, r)
      | ds =>
        if prev = '!' ∨ prev = '<' ∨ prev = '>' then (findAssignment quoted c ds).map fun (l, r) => (c :: l, r)
        else some ([], ds)
    else (findAssignment quoted c cs).map fun (l, r) => (c :: l, r)

/-- The texts before and after the equals sign of an assignment. -/
def assignment? (cs : List Char) : Option (List Char × List Char) :=
  findAssignment false ' ' cs

/-- The byte where the equals sign of an assignment stands. -/
def assignOffset? (cs : List Char) : Option Nat :=
  (assignment? cs).map fun parts => Text.byteLength parts.1

/-- The form of a command, with the texts that it leaves to be read. -/
inductive Form where
  | start
  | stop
  | print (arg : List Char)
  | read (arg : List Char)
  | jump (arg : List Char)
  | branch (arg : List Char)
  | assign (name value : List Char)
  | unknown
  deriving DecidableEq, Repr, Inhabited

namespace Form

/-- The form of a command. -/
def ofText (cs : List Char) : Form :=
  if cs = "start".toList then start
  else if cs = "stop".toList then stop
  else match Text.after? "print ".toList cs with
  | some arg => print arg
  | none =>
    match Text.after? "read ".toList cs with
    | some arg => read arg
    | none =>
      match Text.after? "goto ".toList cs with
      | some arg => jump arg
      | none =>
        match Text.after? "if ".toList cs with
        | some arg => branch arg
        | none =>
          match assignment? cs with
          | some (name, value) => assign name value
          | none => unknown

/-- What a form is called. -/
def title : Form → String
  | start => "start"
  | stop => "stop"
  | print _ => "print"
  | read _ => "read"
  | jump _ => "goto"
  | branch _ => "if"
  | assign _ _ => "assignment"
  | unknown => "unknown"

end Form

end Stepwise
