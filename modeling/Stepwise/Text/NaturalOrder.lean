import Stepwise.Text.Letter

/-!
# The natural order of names

Names are compared character by character, but where both go on with digits the numbers are compared, so that `X2` comes
before `X10`. A letter comes after any other character, except after a digit, where it comes before.
-/

namespace Stepwise.Text

/-- The number that a run of digits adds to a number, in 64-bit arithmetic. -/
def digitRun (start : Int64) (cs : List Char) : Int64 :=
  (cs.takeWhile isDecimalDigit).foldl (fun n c => n * 10 + Int64.ofInt ((c.toNat : Int) - 48)) start

/-- How long a run of digits is. -/
def digitRunLength (cs : List Char) : Nat :=
  (cs.takeWhile isDecimalDigit).length

/-- Compares names from where they differ first: `a` and `b` are the differing characters, with what follows them.
`digits` says whether a digit stands before, `counts` whether the digits before are not all zeros. -/
def differsBefore (digits counts : Bool) (a b : Char) (as bs : List Char) : Bool :=
  if isLetter a && isLetter b then decide (a < b)
  else if isLetter a || isLetter b then if digits then isLetter a else isLetter b
  else
    let start : Int64 := if counts && (a == '0' || b == '0') then 1 else 0
    let m := digitRun start (a :: as)
    let n := digitRun start (b :: bs)
    if m ≠ n then decide (m < n)
    else if digitRunLength (a :: as) ≠ digitRunLength (b :: bs) then
      decide (digitRunLength (a :: as) < digitRunLength (b :: bs))
    else decide (a < b)

/-- The first name comes before the second, after a common beginning that `digits` and `counts` tell of. -/
def comesBefore (digits counts : Bool) : List Char → List Char → Bool
  | _, [] => false
  | [], _ :: _ => true
  | a :: as, b :: bs =>
    if a = b then comesBefore (isDecimalDigit a) (isDecimalDigit a && (counts || a != '0')) as bs
    else differsBefore digits counts a b as bs

/-- Sorts names in their natural order. -/
def naturalSort (names : List String) : List String :=
  names.mergeSort fun a b => !comesBefore false false b.toList a.toList

end Stepwise.Text
