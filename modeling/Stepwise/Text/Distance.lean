/-!
# Closeness of words

The edit distance of two words counts the insertions, deletions and replacements of single characters that lead from one
to the other. It is used to guess the word that a misspelled one was meant to be.
-/

namespace Stepwise.Text

/-- The lower case of a character, for comparison with ASCII words: the characters whose lower case is an ASCII letter are
the ASCII capitals, the dotted capital I and the Kelvin sign. -/
def foldCase (c : Char) : Char :=
  if c.isUpper then c.toLower
  else if c.toNat = 0x130 then 'i'
  else if c.toNat = 0x212A then 'k'
  else c

/-- The rest of a row of distances: `left` is the distance before it, the second list is the row of the word so far. -/
def distanceRow (c : Char) (left : Nat) : List Char → List Nat → List Nat
  | x :: xs, diagonal :: above :: row =>
    let d := min (min (above + 1) (left + 1)) (diagonal + if x = c then 0 else 1)
    d :: distanceRow c d xs (above :: row)
  | _, _ => []

/-- The row of distances between the beginnings of `a` and a word that is one character longer. -/
def nextDistances (a : List Char) (row : List Nat) (c : Char) : List Nat :=
  let first := row.headD 0 + 1
  first :: distanceRow c first a row

/-- The edit distance of two words. -/
def editDistance (a b : List Char) : Nat :=
  (b.foldl (nextDistances a) (List.range (a.length + 1))).getLastD 0

/-- The first of the candidates with the smallest distance. -/
def nearest : List (String × Nat) → Option String
  | [] => none
  | (w, d) :: rest => some (rest.foldl (fun best c => if c.2 < best.2 then c else best) (w, d)).1

end Stepwise.Text
