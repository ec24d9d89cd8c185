import Stepwise.Text.Blank

/-!
# Cutting text

Texts are scanned as lists of characters. This module holds the cuts that the rest of the library shares: what follows a
given word, and a text without the characters of one class at its ends.
-/

namespace Stepwise.Text

/-- What follows `word` when the text begins with it. -/
def after? : List Char → List Char → Option (List Char)
  | [], cs => some cs
  | _ :: _, [] => none
  | w :: ws, c :: cs => if w = c then after? ws cs else none

/-- The text begins with `word`. -/
def startsWith (word cs : List Char) : Bool :=
  (after? word cs).isSome

/-- The text ends with the character `c`. -/
def endsWith (c : Char) (cs : List Char) : Bool :=
  cs.getLast? == some c

/-- The text without its longest ending of characters of the class. -/
def trimRight (p : Char → Bool) (cs : List Char) : List Char :=
  (cs.reverse.dropWhile p).reverse

/-- The text without the characters of the class at both ends. -/
def trim (p : Char → Bool) (cs : List Char) : List Char :=
  trimRight p (cs.dropWhile p)

/-- The text without the blanks around it. -/
def strip (cs : List Char) : List Char :=
  trim isBlank cs

/-- A string without the blanks around it. -/
def stripped (s : String) : String :=
  String.ofList (strip s.toList)

/-- The text without one given character at its end, when it has it. -/
def dropLast? (c : Char) (cs : List Char) : List Char :=
  if endsWith c cs then cs.dropLast else cs

/-- A text begins with a word exactly when it is that word followed by the rest. -/
theorem after?_eq_some_iff {word cs rest : List Char} : after? word cs = some rest ↔ cs = word ++ rest := by
  induction word generalizing cs with
  | nil => simp [after?, eq_comm]
  | cons w ws ih =>
    cases cs with
    | nil => simp [after?]
    | cons c cs =>
      by_cases h : w = c
      · subst h
        simp [after?, ih]
      · simp [after?, h, Ne.symm h]

@[simp]
theorem after?_append (word rest : List Char) : after? word (word ++ rest) = some rest :=
  after?_eq_some_iff.2 rfl

/-- A text whose last character is outside the class is not cut at its end. -/
theorem trimRight_of_last {p : Char → Bool} {cs : List Char} {c : Char} (h : cs.getLast? = some c) (hc : p c = false) :
    trimRight p cs = cs := by
  obtain ⟨init, rfl⟩ := List.getLast?_eq_some_iff.1 h
  simp [trimRight, hc]

@[simp]
theorem trimRight_nil (p : Char → Bool) : trimRight p [] = [] := rfl

@[simp]
theorem strip_nil : strip [] = [] := rfl

end Stepwise.Text
