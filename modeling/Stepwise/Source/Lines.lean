import Stepwise.Text.Trim

/-!
# Lines of a program text

A line ends with a line feed, a carriage return or both. Spaces and tabs at the end of a line do not count; those at its
beginning are its indentation.
-/

namespace Stepwise

/-- The text with every line break written as a line feed. -/
def unifyBreaks : List Char → List Char
  | [] => []
  | '\r' :: '\n' :: cs => '\n' :: unifyBreaks cs
  | '\r' :: cs => '\n' :: unifyBreaks cs
  | c :: cs => c :: unifyBreaks cs

/-- The lines of a text, without the spaces and tabs at their ends. -/
def splitLines (cs : List Char) : List (List Char) :=
  ((unifyBreaks cs).splitOn '\n').map (Text.trimRight Text.isIndent)

/-- How many spaces a line begins with. -/
def indentation (line : List Char) : Nat :=
  (line.takeWhile (· == ' ')).length

/-- The line begins with a space or a tab. -/
def isIndented (line : List Char) : Bool :=
  line.head?.any Text.isIndent

/-- A line of a text with its number, counted from 1. -/
structure Line where
  number : Nat
  text : List Char
  deriving DecidableEq, Repr

/-- Numbers lines, the first one with the given number. -/
def numberLines (first : Nat) : List (List Char) → List Line
  | [] => []
  | l :: ls => ⟨first, l⟩ :: numberLines (first + 1) ls

/-- The numbered lines of a text. -/
def sourceLines (s : String) : List Line :=
  numberLines 1 (splitLines s.toList)

@[simp]
theorem numberLines_length (first : Nat) (ls : List (List Char)) : (numberLines first ls).length = ls.length := by
  induction ls generalizing first with
  | nil => rfl
  | cons l ls ih => simp [numberLines, ih]

/-- Numbering keeps the lines as they are. -/
@[simp]
theorem numberLines_map_text (first : Nat) (ls : List (List Char)) : (numberLines first ls).map Line.text = ls := by
  induction ls generalizing first with
  | nil => rfl
  | cons l ls ih => simp [numberLines, ih]

end Stepwise
