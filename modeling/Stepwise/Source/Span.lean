/-!
# Places in a text

A `Pos` is where a character stands, counted while the text is read. A `Span` is a place as messages show it; its numbers
may be relative to a part of the text, so they are integers.
-/

namespace Stepwise

/-- A place in a text: line and column of a character, both counted from 1. -/
structure Pos where
  line : Nat
  col : Nat
  deriving DecidableEq, Repr, Inhabited

namespace Pos

/-- The first character of a text. -/
def start : Pos := ⟨1, 1⟩

/-- The place after a character: a newline ends the line. -/
def next (p : Pos) (c : Char) : Pos :=
  if c = '\n' then ⟨p.line + 1, 1⟩ else ⟨p.line, p.col + 1⟩

/-- The place after a piece of text. -/
def after (p : Pos) (cs : List Char) : Pos :=
  cs.foldl next p

@[simp]
theorem after_nil (p : Pos) : p.after [] = p := rfl

@[simp]
theorem after_cons (p : Pos) (c : Char) (cs : List Char) : p.after (c :: cs) = (p.next c).after cs := rfl

@[simp]
theorem after_append (p : Pos) (a b : List Char) : p.after (a ++ b) = (p.after a).after b := by
  simp [after]

end Pos

/-- A place as messages show it. Column 0 stands for the whole line, line 0 for a line not yet known. -/
structure Span where
  line : Int
  col : Int
  deriving DecidableEq, Repr, Inhabited

namespace Span

/-- The text of a place: the line, and the column when there is one. -/
def text (s : Span) : String :=
  if 0 < s.col then toString s.line ++ ":" ++ toString s.col else toString s.line

/-- Moves a place that is relative to a piece of text onto the place where that piece starts. -/
def shift (s base : Span) : Span :=
  if 0 < s.col then ⟨base.line, base.col + s.col - 1⟩ else base

end Span

end Stepwise
