/-!
# Timestamps

The dates and times that YAML readers take for timestamps: a date, or a date and a time of day. Month, day, hour, minute
and second have one or two digits each, and the date must exist.
-/

namespace Stepwise.Yaml

/-- One or two digits at the front of a text. -/
def shortNumber? : List Char → Option (Nat × List Char)
  | a :: b :: rest =>
    if a.isDigit then
      if b.isDigit then some (10 * (a.toNat - 48) + (b.toNat - 48), rest) else some (a.toNat - 48, b :: rest)
    else none
  | [a] => if a.isDigit then some (a.toNat - 48, []) else none
  | [] => none

/-- Two digits at the front of a text. -/
def pairNumber? : List Char → Option (Nat × List Char)
  | a :: b :: rest =>
    if a.isDigit && b.isDigit then some (10 * (a.toNat - 48) + (b.toNat - 48), rest) else none
  | _ => none

/-- How many days a month has. -/
def daysIn (year month : Nat) : Nat :=
  if month = 2 then if year % 4 = 0 ∧ (year % 100 ≠ 0 ∨ year % 400 = 0) then 29 else 28
  else if month = 4 ∨ month = 6 ∨ month = 9 ∨ month = 11 then 30
  else 31

/-- What follows a given character. -/
def afterChar? (c : Char) : List Char → Option (List Char)
  | d :: rest => if d = c then some rest else none
  | [] => none

/-- What follows a date that exists. -/
def afterDate? (cs : List Char) : Option (List Char) := do
  let year := cs.take 4
  if year.length ≠ 4 || !year.all Char.isDigit then none
  let rest ← afterChar? '-' (cs.drop 4)
  let (month, rest) ← shortNumber? rest
  let rest ← afterChar? '-' rest
  let (day, rest) ← shortNumber? rest
  if month = 0 || 12 < month || day = 0 || daysIn (Nat.ofDigitChars 10 year 0) month < day then none
  some rest

/-- What follows a time of day, with any number of digits after the second. -/
def afterTime? (cs : List Char) : Option (List Char) := do
  let (hour, rest) ← shortNumber? cs
  let rest ← afterChar? ':' rest
  let (minute, rest) ← shortNumber? rest
  let rest ← afterChar? ':' rest
  let (second, rest) ← shortNumber? rest
  if 24 ≤ hour || 60 ≤ minute || 60 ≤ second then none
  match rest with
  | p :: d :: more =>
    if (p == '.' || p == ',') && d.isDigit then some (more.dropWhile Char.isDigit) else some rest
  | _ => some rest

/-- What follows a time zone: `Z`, or a sign, hours and minutes. -/
def afterZone? : List Char → Option (List Char)
  | 'Z' :: rest => some rest
  | sign :: rest =>
    if sign == '+' || sign == '-' then do
      let (hours, rest) ← pairNumber? rest
      let rest ← afterChar? ':' rest
      let (minutes, rest) ← pairNumber? rest
      if 24 < hours || 60 < minutes then none else some rest
    else none
  | [] => none

/-- The text after a date is nothing, a time with a zone after `T` or `t`, or a time without a zone after spaces. -/
def isTimeOfDay : List Char → Bool
  | [] => true
  | 'T' :: rest => ((afterTime? rest).bind afterZone?) == some []
  | 't' :: rest => ((afterTime? rest).bind afterZone?) == some []
  | ' ' :: rest => afterTime? (rest.dropWhile (· == ' ')) == some []
  | _ => false

/-- The text is a timestamp. -/
def isTimestamp (cs : List Char) : Bool :=
  (afterDate? cs).any isTimeOfDay

end Stepwise.Yaml
