/-!
# Labels

Every action has a label: the number of its step, followed inside a block by a letter, and by a number once the letters
have been used up.
-/

namespace Stepwise

/-- The label of a step. -/
def stepLabel (number : Nat) : String := toString number

/-- The letter at a position, counted again from `a` after `z`. -/
def labelLetter (position : Nat) : Char := Char.ofNat ('a'.toNat + position % 26)

/-- The label of the action at a position, counted from 0, inside the block of a step. -/
def subLabel (number sub : Nat) : String :=
  if sub < 26 then toString number ++ (labelLetter sub).toString
  else toString number ++ (labelLetter sub).toString ++ toString (sub / 26)

end Stepwise
