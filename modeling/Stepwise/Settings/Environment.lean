import Stepwise.Text.Quoted
import Stepwise.Text.Trim

/-!
# The environment and its file

Settings come from named texts: the environment of the process, and a file that adds names to it. A line of the file is a
name, `=` or `:`, and a value; `export` may stand before the name and `#` starts a comment. A value may be quoted; outside
of single quotes `$NAME` stands for a value set earlier in the file.
-/

namespace Stepwise.Settings

/-- Named texts; the first binding of a name counts. -/
abbrev Bindings := List (String × String)

/-- Why the file cannot be read. -/
inductive BindingFault where
  | strayCharacter (c : Char) (near : String)
  | nothingToName
  | unterminated (text : String)
  deriving DecidableEq, Repr, Inhabited

/-- The message of a file that cannot be read. -/
def BindingFault.message : BindingFault → String
  | strayCharacter c near =>
    "unexpected character " ++ Text.quote c.toString ++ " in variable name near " ++ Text.quote near
  | nothingToName => "zero length string"
  | unterminated text => "unterminated quoted value " ++ text

namespace Bindings

/-- A blank inside a line. -/
def isGap (c : Char) : Bool :=
  c == '\t' || c == '\x0b' || c == '\x0c' || c == '\r' || c == ' ' || c == '\u0085' || c == '\u00a0'

/-- The end of a line. -/
def isLineEnd (c : Char) : Bool := c == '\n' || c == '\r'

/-- A byte that a name may have: a blank, a letter, a number, a point or an underscore among the first 256 characters. -/
def isNameByte (b : UInt8) : Bool :=
  let c := Char.ofNat b.toNat
  isGap c || c.isAlphanum || c == '.' || c == '_' ||
    [0xaa, 0xb2, 0xb3, 0xb5, 0xb9, 0xba, 0xbc, 0xbd, 0xbe].contains b.toNat ||
    (0xc0 ≤ b.toNat && b.toNat != 0xd7 && b.toNat != 0xf7)

/-- The first byte of a character that a name cannot have. -/
def strayByte? (c : Char) : Option UInt8 :=
  (String.utf8EncodeChar c).find? fun b => !isNameByte b

/-- Carriage returns before line feeds go. -/
def joinBreaks : List Char → List Char
  | '\r' :: '\n' :: rest => '\n' :: joinBreaks rest
  | c :: rest => c :: joinBreaks rest
  | [] => []

theorem length_dropWhile_le (p : Char → Bool) (cs : List Char) : (cs.dropWhile p).length ≤ cs.length :=
  (List.dropWhile_suffix p).length_le

/-- The text from its next statement on: blanks and comments go. -/
def statementStart (comment : Bool) : List Char → List Char
  | [] => []
  | c :: rest =>
    if comment then statementStart (c != '\n') rest
    else if Text.isBlank c then statementStart false rest
    else if c = '#' then statementStart true rest
    else c :: rest

/-- The name of a statement and what follows its separator. A line without a separator has no name and is a value. -/
def splitName (near : List Char) (name : List Char) : List Char → Except BindingFault (List Char × List Char)
  | [] => if near.isEmpty then .error .nothingToName else .ok ([], near)
  | c :: rest =>
    if c = '=' ∨ c = ':' then .ok (name.reverse, rest)
    else
      match strayByte? c with
      | some b => .error (.strayCharacter (Char.ofNat b.toNat) (String.ofList near))
      | none => splitName near (c :: name) rest

/-- A statement without the word `export` before it. -/
def dropExport (cs : List Char) : List Char :=
  match Text.after? "export".toList cs with
  | some (c :: rest) => if isGap c then rest.dropWhile isGap else cs
  | _ => cs

/-- The text up to the quote that closes it and the rest; a quote after a backslash does not close. -/
def closeQuote (q before : Char) (inner : List Char) : List Char → Option (List Char × List Char)
  | [] => none
  | c :: rest =>
    if c = q ∧ before ≠ '\\' then some (inner.reverse, rest) else closeQuote q c (c :: inner) rest

/-- Line breaks written as escapes. -/
def breakEscapes : List Char → List Char
  | '\\' :: 'n' :: rest => '\n' :: breakEscapes rest
  | '\\' :: 'r' :: rest => '\r' :: breakEscapes rest
  | '\\' :: c :: rest => '\\' :: c :: breakEscapes rest
  | c :: rest => c :: breakEscapes rest
  | [] => []

/-- A backslash gives way to the character after it, unless that is a dollar sign. -/
def dropEscapes : List Char → List Char
  | '\\' :: '$' :: rest => '\\' :: '$' :: dropEscapes rest
  | '\\' :: c :: rest => c :: dropEscapes rest
  | c :: rest => c :: dropEscapes rest
  | [] => []

/-- A reference after its dollar sign: the text it takes up, the name in it and the rest. -/
structure Reference where
  text : List Char
  name : List Char
  rest : List Char

/-- A character taken off when the text begins with it. -/
def takeChar (c : Char) : List Char → List Char × List Char
  | x :: rest => if x = c then ([c], rest) else ([], x :: rest)
  | [] => ([], [])

/-- Reads a reference after its dollar sign: a parenthesis, a brace, a name and a brace, each of which may be missing. -/
def reference (cs : List Char) : Reference :=
  let paren := takeChar '(' cs
  let left := takeChar '\x7b' paren.2
  let isName := fun c : Char => c.isUpper || c.isDigit || c == '_'
  let name := left.2.takeWhile isName
  let right := takeChar '\x7d' (left.2.dropWhile isName)
  ⟨'$' :: (paren.1 ++ left.1 ++ name ++ right.1), name, right.2⟩

theorem length_takeChar_le (c : Char) (cs : List Char) : (takeChar c cs).2.length ≤ cs.length := by
  cases cs with
  | nil => simp [takeChar]
  | cons x rest =>
    simp only [takeChar]
    split <;> simp

theorem length_reference_le (cs : List Char) : (reference cs).rest.length ≤ cs.length := by
  simp only [reference]
  exact Nat.le_trans (length_takeChar_le _ _) (Nat.le_trans (length_dropWhile_le _ _)
    (Nat.le_trans (length_takeChar_le _ _) (length_takeChar_le _ _)))

/-- The value of a name; a name that is not bound is empty. -/
def value (vars : Bindings) (name : List Char) : List Char :=
  ((vars.lookup (String.ofList name)).getD "").toList

/-- Replaces references by the values of their names. A backslash before a dollar sign keeps the reference as text. -/
def expand (vars : Bindings) : List Char → List Char
  | [] => []
  | '\\' :: '$' :: rest =>
    let r := reference rest
    r.text ++ expand vars r.rest
  | '$' :: rest =>
    let r := reference rest
    (if r.name.isEmpty then r.text else value vars r.name) ++ expand vars r.rest
  | c :: rest => c :: expand vars rest
termination_by cs => cs.length
decreasing_by
  · have := length_reference_le rest
    simp only [List.length_cons]
    omega
  · have := length_reference_le rest
    simp only [List.length_cons]
    omega
  · simp

/-- The part of an unquoted value before its comment, which is a number sign after a blank. -/
def beforeComment : List Char → List Char
  | c :: '#' :: rest => if isGap c then [c] else c :: beforeComment ('#' :: rest)
  | c :: rest => c :: beforeComment rest
  | [] => []

/-- The value of a statement and the rest of the text. -/
def takeValue (vars : Bindings) (cs : List Char) : Except BindingFault (List Char × List Char) :=
  match cs with
  | [] => .ok ([], [])
  | c :: rest =>
    if c = '"' ∨ c = '\'' then
      match closeQuote c c [] rest with
      | none => .error (.unterminated (String.ofList (cs.takeWhile (· != '\n'))))
      | some (inner, after) =>
        let bare := Text.trim (· == c) inner
        .ok (if c = '"' then expand vars (dropEscapes (breakEscapes bare)) else bare, after)
    else
      let line := cs.takeWhile fun c => !isLineEnd c
      .ok (expand vars (Text.trim isGap (beforeComment line)), cs.dropWhile fun c => !isLineEnd c)

/-- Reads the statements of the file in turn, given what was bound before them. -/
def readFrom (vars : Bindings) (cs : List Char) : Except BindingFault Bindings :=
  match statementStart false cs with
  | [] => .ok vars
  | start => do
    let near := dropExport (start.dropWhile isGap)
    let (name, rest) ← splitName near [] near
    let (text, after) ← takeValue vars (rest.dropWhile isGap)
    let bound := (String.ofList (Text.trimRight Text.isBlank name), String.ofList text) :: vars
    -- Every statement takes up some of the text.
    if after.length < cs.length then readFrom bound after else .ok bound
termination_by cs.length

/-- Reads the file. -/
def read (text : String) : Except BindingFault Bindings :=
  readFrom [] (joinBreaks text.toList)

/-- The names of the file join the environment; a name that is there already stays as it is. Names and values that no
environment can hold are left out. -/
def join (env file : Bindings) : Bindings :=
  env ++ file.filter fun b =>
    b.1 != "" && !b.1.toList.contains '\x00' && !b.2.toList.contains '\x00'

end Bindings

end Stepwise.Settings
