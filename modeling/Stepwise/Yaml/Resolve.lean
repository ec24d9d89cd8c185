import Stepwise.Text.Radix
import Stepwise.Yaml.Timestamp

/-!
# What a plain scalar reads as

A text without quotes reads as a boolean, a number, a timestamp or nothing at all when it has the form of one. Such a text
has to be quoted to stay a string.
-/

namespace Stepwise.Yaml

/-- The words for truth, nothing, infinity and no number. -/
def reservedWords : List String :=
  ["", "~", "null", "Null", "NULL", "true", "True", "TRUE", "false", "False", "FALSE", ".nan", ".NaN", ".NAN", ".inf",
    ".Inf", ".INF", "+.inf", "+.Inf", "+.INF", "-.inf", "-.Inf", "-.INF"]

/-- The words for truth that only older readers know. -/
def oldBooleans : List String :=
  ["y", "Y", "yes", "Yes", "YES", "on", "On", "ON", "n", "N", "no", "No", "NO", "off", "Off", "OFF"]

/-- A number with a point or an exponent, taken apart: the digits before and after the point, and the exponent. -/
structure Decimal where
  whole : List Char
  fraction : List Char
  exponent : Int
  deriving DecidableEq, Repr

/-- The exponent that a text gives: `e`, an optional sign and digits; no text at all gives 0. -/
def exponent? : List Char → Option Int
  | [] => some 0
  | e :: rest =>
    if e == 'e' || e == 'E' then
      match rest with
      | '-' :: ds => if Text.isNumeral ds then some (-(Text.numeralValue ds : Int)) else none
      | '+' :: ds => if Text.isNumeral ds then some (Text.numeralValue ds) else none
      | ds => if Text.isNumeral ds then some (Text.numeralValue ds) else none
    else none

/-- Takes a decimal number without sign apart. -/
def decimal? (cs : List Char) : Option Decimal :=
  let whole := cs.takeWhile Char.isDigit
  match cs.dropWhile Char.isDigit with
  | '.' :: rest =>
    let fraction := rest.takeWhile Char.isDigit
    if whole.isEmpty && fraction.isEmpty then none
    else (exponent? (rest.dropWhile Char.isDigit)).map fun e => ⟨whole, fraction, e⟩
  | rest => if whole.isEmpty then none else (exponent? rest).map fun e => ⟨whole, [], e⟩

/-- The least number that is too large for a 64-bit floating-point number, rounding included. -/
def floatLimit : Nat := Nat.pow 2 1024 - Nat.pow 2 970

/-- The decimal number fits into a 64-bit floating-point number. -/
def Decimal.fits (d : Decimal) : Bool :=
  let digits := Text.numeralValue (d.whole ++ d.fraction)
  let e := d.exponent - d.fraction.length
  let size := ((Nat.toDigits 10 digits).length : Int) + e
  if digits = 0 || size < 300 then true
  else if 400 < size then false
  else if 0 ≤ e then decide (digits * Nat.pow 10 e.toNat < floatLimit)
  else decide (digits < floatLimit * Nat.pow 10 (-e).toNat)

/-- The text without a sign at its front. -/
def unsigned : List Char → List Char
  | '-' :: rest => rest
  | '+' :: rest => rest
  | cs => cs

/-- A number as YAML writes it, with a point or an exponent or without. -/
def isDecimal (cs : List Char) : Bool :=
  (decimal? (unsigned cs)).any Decimal.fits

/-- A number that begins with a point, where underscores may divide digits. -/
def isFraction (cs : List Char) : Bool :=
  (decimal? (cs.filter (· != '_'))).any Decimal.fits && (!cs.contains '_' || Text.underscoresFit false false cs)

/-- Digits of a base after the sign of the base, with an optional sign of their own. -/
def isBased (base : Nat) (cs : List Char) : Bool :=
  let digits (limit : Nat) (ds : List Char) : Bool :=
    !ds.isEmpty && (match Text.readDigits base false 0 ds with | .ok n => decide (n ≤ limit) | .error _ => false)
  match cs with
  | '-' :: ds => digits (Text.greatestInt64 + 1) ds
  | '+' :: ds => digits Text.greatestInt64 ds
  | ds => digits Text.greatestUInt64 ds

/-- A whole number in any base. -/
def isWhole (cs : List Char) : Bool :=
  (Text.readSigned cs).toOption.isSome || (Text.readUnsigned cs).toOption.isSome ||
    (match cs with
    | '0' :: 'b' :: ds => isBased 2 ds
    | '0' :: 'o' :: ds => isBased 8 ds
    | '-' :: '0' :: 'b' :: ds => isBased 2 ('-' :: ds)
    | '-' :: '0' :: 'o' :: ds => isBased 8 ('-' :: ds)
    | _ => false)

/-- A number in base 60: groups of digits with colons between them. -/
def isSexagesimal (cs : List Char) : Bool :=
  let body := unsigned cs
  let whole := body.takeWhile fun c => c.isDigit || c == '_'
  let rest := body.dropWhile fun c => c.isDigit || c == '_'
  let groups := rest.takeWhile (· != '.')
  let tail := rest.dropWhile (· != '.')
  let group (g : List Char) : Bool :=
    match g with
    | [d] => d.isDigit
    | [a, b] => decide ('0' ≤ a) && decide (a ≤ '5') && b.isDigit
    | _ => false
  whole.head?.any Char.isDigit &&
    (match groups with
    | ':' :: gs => (gs.splitOn ':').all group
    | _ => false) &&
    (match tail with
    | [] => true
    | _ :: ds => ds.all fun c => c.isDigit || c == '_')

/-- The text reads as something other than a string when it stands without quotes. -/
def readsAsOther (s : String) : Bool :=
  let cs := s.toList
  reservedWords.contains s || oldBooleans.contains s || isSexagesimal cs ||
    (match cs.head? with
    | some c =>
      if c == '.' then isFraction cs
      else if c == '+' || c == '-' || c.isDigit then
        let plain := cs.filter (· != '_')
        isTimestamp cs || isWhole plain || isDecimal plain
      else false
    | none => true)

end Stepwise.Yaml
