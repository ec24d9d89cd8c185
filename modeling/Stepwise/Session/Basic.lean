import Stepwise.Program.Basic
import Stepwise.Session.Label
import Stepwise.Value

/-!
# Sessions

A session is the execution of a program up to some point: the present state and the states before it, which undo goes
back to. Inside blocks the state keeps a stack of frames, the innermost block first.
-/

namespace Stepwise

/-- A row of the trace: one completed action, what it printed and what it changed. -/
structure Row where
  label : String
  output : String
  changed : Env
  deriving DecidableEq, Repr, Inhabited

/-- A position inside a block. -/
structure Frame where
  items : List Node
  index : Nat
  deriving Repr, Inhabited

/-- The frame has no item left. -/
def Frame.finished (f : Frame) : Bool :=
  decide (f.items.length ≤ f.index)

/-- A value that a read waits for: the name to bind and the label of the read. -/
structure Pending where
  name : String
  label : String
  deriving DecidableEq, Repr, Inhabited

/-- Everything that a step may change. -/
structure State where
  /-- The index of the current step. -/
  pc : Nat
  vars : Env
  console : String
  /-- The rows of the trace, the last one first. -/
  rows : List Row
  /-- The open blocks, the innermost first. -/
  frames : List Frame
  /-- How many labels have been used up in the block of the current step. -/
  sub : Nat
  pending : Option Pending
  halted : Bool
  deriving Repr, Inhabited

/-- The state before the first step. -/
def State.initial : State := ⟨0, Env.empty, "", [], [], 0, none, false⟩

/-- The trace: the actions completed so far, in their order. -/
def State.trace (st : State) : List Row := st.rows.reverse

/-- The execution of a program: the present state, and the states before it, the last one first. -/
structure Session where
  program : Program
  now : State
  history : List State
  deriving Repr, Inhabited

/-- What a session is doing. -/
inductive Status where
  | idle
  | running
  | waiting
  | halted
  deriving DecidableEq, Repr, Inhabited

/-- The name of a status. -/
def Status.text : Status → String
  | idle => "idle"
  | running => "running"
  | waiting => "waiting-for-input"
  | halted => "halted"

/-- What the cursor points at: an action or a branch, its label, and whether it stands in a block. -/
structure Focus where
  label : String
  node : Node
  nested : Bool
  deriving Repr, Inhabited

/-- What the cursor points at. -/
def State.focus? (p : Program) (st : State) : Option Focus :=
  match p.steps[st.pc]? with
  | none => none
  | some step =>
    match st.frames.head?.bind fun f => f.items[f.index]? with
    | some item => some ⟨subLabel step.number st.sub, item, true⟩
    | none => some ⟨stepLabel step.number, step.node, false⟩

namespace Session

/-- A session before its first step. -/
def ofProgram (p : Program) : Session := ⟨p, State.initial, []⟩

/-- The program has ended: at its stop, or past its last step. -/
def atEnd (s : Session) : Bool :=
  s.now.halted || (s.now.frames.isEmpty && decide (s.program.steps.length ≤ s.now.pc))

/-- A step would do something. -/
def canStep (s : Session) : Bool :=
  s.now.pending.isNone && !s.atEnd

/-- There is a step to undo. -/
def canUndo (s : Session) : Bool :=
  !s.history.isEmpty

/-- How many steps can be undone. -/
def undoDepth (s : Session) : Nat := s.history.length

/-- What the session is doing. -/
def status (s : Session) : Status :=
  if s.now.pending.isSome then .waiting
  else if s.atEnd then .halted
  else if s.history.isEmpty then .idle
  else .running

/-- What the cursor points at. -/
def focus? (s : Session) : Option Focus :=
  s.now.focus? s.program

end Session

end Stepwise
