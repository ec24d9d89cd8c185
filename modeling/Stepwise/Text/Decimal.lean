/-!
# Decimal numbers

Reading of decimal numbers with a limit. Numbers in programs and inputs are signed 64-bit numbers; a numeral outside that
range is no number.
-/

namespace Stepwise.Text

/-- At least one ASCII digit and nothing else. -/
def isNumeral (cs : List Char) : Bool :=
  !cs.isEmpty && cs.all Char.isDigit

/-- The number that a list of ASCII digits denotes. -/
def numeralValue (ds : List Char) : Nat :=
  Nat.ofDigitChars 10 ds 0

/-- The greatest signed 64-bit number. -/
def greatestInt64 : Nat := 9223372036854775807

/-- The greatest unsigned 64-bit integer. -/
def greatestUInt64 : Nat := 18446744073709551615

/-- A numeral without sign, up to the greatest signed 64-bit number. -/
def readNumeral? (cs : List Char) : Option Nat :=
  if isNumeral cs = true ∧ numeralValue cs ≤ greatestInt64 then some (numeralValue cs) else none

/-- A whole number: an optional sign and ASCII digits, within the signed 64-bit range. -/
def readInt? : List Char → Option Int64
  | '-' :: ds =>
    if isNumeral ds = true ∧ numeralValue ds ≤ greatestInt64 + 1 then some (Int64.ofInt (-(numeralValue ds : Int)))
    else none
  | '+' :: ds => (readNumeral? ds).map fun n => Int64.ofInt n
  | ds => (readNumeral? ds).map fun n => Int64.ofInt n

/-- A number in base 16 with lower-case digits, filled up with zeros to the given width. -/
def hex (width n : Nat) : String :=
  let digits := Nat.toDigits 16 n
  String.ofList (List.replicate (width - digits.length) '0' ++ digits)

end Stepwise.Text
