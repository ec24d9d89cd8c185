import Stepwise.Check.Content

/-!
# The check of a program text

The rules are tried in a fixed order and the first problem found is the answer. A text without a problem is accepted.
-/

namespace Stepwise.Check

/-- The rules on statements, in their order. -/
def rules (ss : List Statement) : Option Problem :=
  let steps := stepsOf ss
  let first := (steps.head?.map Statement.line).getD 0
  match numbering 1 steps with
  | some p => some p
  | none =>
    match startStop steps with
    | some p => some p
    | none =>
      match indentationOf none ss with
      | some p => some p
      | none =>
        match contents first ss with
        | some p => some p
        | none =>
          match variableCount ss with
          | some p => some p
          | none => targets (steps.filterMap fun s => s.head.map Head.number) ss

/-- The statements of a text that passes the check, or the first problem found. -/
def accepted (s : String) : Except Problem (List Statement) :=
  match load s with
  | .error p => .error p
  | .ok ls =>
    match headers ls with
    | .error p => .error p
    | .ok ss =>
      match rules ss with
      | some p => .error p
      | none => .ok ss

/-- The first problem of a text. -/
def problem? (s : String) : Option Problem :=
  match accepted s with
  | .error p => some p
  | .ok _ => none

end Stepwise.Check
