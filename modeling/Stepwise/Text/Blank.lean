import Stepwise.Text.Ranges

/-!
# Blank characters

Two notions of blank are in use. `isBlank` is the Unicode property White_Space: it decides what is cut off around names,
expressions and inputs. `isAsciiBlank` is the five ASCII blanks that may stand inside a step header or a jump.
-/

namespace Stepwise.Text

/-- The ranges of White_Space. -/
def blankRanges : List (Nat × Nat) :=
  [(0x9, 0xD), (0x20, 0x20), (0x85, 0x85), (0xA0, 0xA0), (0x1680, 0x1680), (0x2000, 0x200A), (0x2028, 0x2029),
    (0x202F, 0x202F), (0x205F, 0x205F), (0x3000, 0x3000)]

/-- A character with the property White_Space. -/
def isBlank (c : Char) : Bool :=
  inRanges blankRanges c

/-- Tab, line feed, form feed, carriage return or space. -/
def isAsciiBlank (c : Char) : Bool :=
  c == ' ' || c == '\t' || c == '\n' || c == '\r' || c == '\x0c'

/-- Space or tab: what may stand before the first word of a line. -/
def isIndent (c : Char) : Bool :=
  c == ' ' || c == '\t'

/-- The ASCII blanks are blank. -/
theorem isBlank_of_isAsciiBlank {c : Char} (h : isAsciiBlank c = true) : isBlank c = true := by
  simp only [isAsciiBlank, Bool.or_eq_true, beq_iff_eq] at h
  rcases h with (((h | h) | h) | h) | h <;> subst h <;> rfl

/-- Space and tab are ASCII blanks. -/
theorem isAsciiBlank_of_isIndent {c : Char} (h : isIndent c = true) : isAsciiBlank c = true := by
  simp only [isIndent, Bool.or_eq_true, beq_iff_eq] at h
  rcases h with h | h <;> subst h <;> rfl

end Stepwise.Text
