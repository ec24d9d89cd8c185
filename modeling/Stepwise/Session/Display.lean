import Stepwise.Session.Basic

/-!
# What a session shows

A `Display` holds what is shown of a session: where it stands, what it has bound, printed and recorded. It announces the
label and the line of the next action.
-/

namespace Stepwise

/-- A position inside the block of a step. -/
structure Cursor where
  step : Nat
  depth : Nat
  index : Nat
  sub : Nat
  deriving DecidableEq, Repr, Inhabited

/-- What is shown of a session. At the end there is no label and the line is 0. -/
structure Display where
  status : Status
  pc : Nat
  cursor : Option Cursor
  label : String
  line : Nat
  vars : Env
  columns : List String
  console : String
  trace : List Row
  /-- The name that a read waits for. -/
  waiting : Option String
  undoDepth : Nat
  deriving DecidableEq, Repr, Inhabited

namespace Session

/-- The position inside the block of the current step. -/
def cursor? (s : Session) : Option Cursor :=
  match s.program.steps[s.now.pc]?, s.now.frames with
  | some step, f :: fs => some ⟨step.number, (f :: fs).length, f.index, s.now.sub⟩
  | _, _ => none

/-- The label of the next action; at the end there is none. -/
def currentLabel (s : Session) : String :=
  if s.atEnd then "" else (s.focus?.map Focus.label).getD ""

/-- The line of the next action; at the end it is 0. -/
def currentLine (s : Session) : Nat :=
  if s.atEnd then 0 else (s.focus?.map fun f => f.node.line).getD 0

/-- What is shown of a session. -/
def display (s : Session) : Display :=
  { status := s.status
    pc := s.now.pc
    cursor := s.cursor?
    label := s.currentLabel
    line := s.currentLine
    vars := s.now.vars
    columns := s.program.varNames
    console := s.now.console
    trace := s.now.trace
    waiting := s.now.pending.map Pending.name
    undoDepth := s.undoDepth }

end Session

end Stepwise
