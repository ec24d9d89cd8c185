import Stepwise.Text.Decimal

/-!
# Numbers with a base

A number may be written in base 2, 8 or 16 after `0b`, `0o` and `0x`, and in base 8 after a plain `0`. Underscores may
stand between digits, and between the sign of the base and a digit.
-/

namespace Stepwise.Text

/-- Why a text is no number. -/
inductive NumberFault where
  | form
  | range
  deriving DecidableEq, Repr, Inhabited

/-- The value of a digit in bases up to 36. -/
def digitValue? (c : Char) : Option Nat :=
  if c.isDigit then some (c.toNat - 48)
  else if c.isLower then some (c.toNat - 87)
  else if c.isUpper then some (c.toNat - 55)
  else none

/-- The number that digits of a base add to `n`, up to the greatest unsigned 64-bit number. Underscores are skipped when
they are allowed. -/
def readDigits (base : Nat) (underscores : Bool) (n : Nat) : List Char → Except NumberFault Nat
  | [] => .ok n
  | c :: cs =>
    if c = '_' ∧ underscores = true then readDigits base underscores n cs
    else
      match digitValue? c with
      | none => .error .form
      | some d =>
        if base ≤ d then .error .form
        else if greatestUInt64 < n * base + d then .error .range
        else readDigits base underscores (n * base + d) cs

/-- The base that a number's beginning stands for, and what is left of the number. -/
def splitBase (cs : List Char) : Nat × List Char :=
  match cs with
  | '0' :: b :: d :: rest =>
    if b.toLower = 'b' then (2, d :: rest)
    else if b.toLower = 'o' then (8, d :: rest)
    else if b.toLower = 'x' then (16, d :: rest)
    else (8, b :: d :: rest)
  | '0' :: rest => (8, rest)
  | _ => (10, cs)

/-- Each underscore follows and precedes a digit; `before` says whether one stands before. -/
def underscoresFit (hexadecimal before : Bool) : List Char → Bool
  | [] => true
  | c :: cs =>
    let isDigit := fun (d : Char) =>
      d.isDigit || (hexadecimal && (('a' ≤ d.toLower) && (d.toLower ≤ 'f')))
    if c = '_' then before && cs.head?.any isDigit && underscoresFit hexadecimal false cs
    else underscoresFit hexadecimal (isDigit c) cs

/-- The underscores of a number with a base stand where they may. -/
def underscoresOk (cs : List Char) : Bool :=
  match cs with
  | '0' :: b :: rest =>
    if b.toLower = 'x' then underscoresFit true true rest
    else if b.toLower = 'b' ∨ b.toLower = 'o' then underscoresFit false true rest
    else underscoresFit false false cs
  | _ => underscoresFit false false cs

/-- A number without sign, with the base that its beginning stands for. -/
def readUnsigned (cs : List Char) : Except NumberFault Nat :=
  if cs.isEmpty then .error .form
  else
    let parts := splitBase cs
    match readDigits parts.1 true 0 parts.2 with
    | .error f => .error f
    | .ok n => if cs.contains '_' && !underscoresOk cs then .error .form else .ok n

/-- A number with an optional sign, in the signed 64-bit range. -/
def readSigned (cs : List Char) : Except NumberFault Int :=
  let signed (negative : Bool) (rest : List Char) : Except NumberFault Int :=
    match readUnsigned rest with
    | .error f => .error f
    | .ok n =>
      if negative then if n ≤ greatestInt64 + 1 then .ok (-(n : Int)) else .error .range
      else if n ≤ greatestInt64 then .ok n else .error .range
  match cs with
  | '-' :: rest => signed true rest
  | '+' :: rest => signed false rest
  | _ => signed false cs

end Stepwise.Text
