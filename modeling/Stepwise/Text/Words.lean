import Stepwise.Text.Blank

/-!
# Words of a text

The words of a text are its longest pieces without blanks.
-/

namespace Stepwise.Text

/-- The words of a text. -/
def words (cs : List Char) : List (List Char) :=
  (cs.splitOnP isBlank).filter fun w => !w.isEmpty

/-- The word is spread over the text: its characters stand there in the same order. -/
def isSpreadOver : List Char → List Char → Bool
  | [], _ => true
  | _ :: _, [] => false
  | w :: ws, c :: cs => if w = c then isSpreadOver ws cs else isSpreadOver (w :: ws) cs

end Stepwise.Text
