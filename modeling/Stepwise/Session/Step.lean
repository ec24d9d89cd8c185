import Stepwise.Session.Basic
import Stepwise.Session.Fault
import Stepwise.Text.Trim

/-!
# Stepping, undo and input

A step executes what the cursor points at. A step that fails leaves the session as it was. Undo goes back to the state
before the last step; a read that was waiting then has to be stepped into again. Input is supplied to a waiting read; its
text goes to the console even when it is refused.
-/

namespace Stepwise

namespace State

/-- Adds a row to the trace. -/
def record (st : State) (label output : String) (changed : Env) : State :=
  { st with rows := ⟨label, output, changed⟩ :: st.rows }

@[simp]
theorem trace_record (st : State) (label output : String) (changed : Env) :
    (st.record label output changed).trace = st.trace ++ [⟨label, output, changed⟩] := by
  simp [record, trace]

/-- Leaves the blocks that have no item left; leaving the outermost one moves past the step. -/
def settle (st : State) : State :=
  match st.frames.dropWhile Frame.finished with
  | [] => { st with frames := [], sub := 0, pc := st.pc + 1 }
  | f :: fs => { st with frames := f :: fs }

/-- Moves the cursor of the innermost block to the next item. -/
def nextItem (st : State) : State :=
  match st.frames with
  | [] => st
  | f :: fs => { st with frames := { f with index := f.index + 1 } :: fs }

/-- Moves past what the cursor points at, which uses up the given number of labels. -/
def pass (st : State) (labels : Nat) : State :=
  { st.nextItem with sub := st.sub + labels }.settle

/-- Enters a block. -/
def enter (st : State) (block : List Node) : State :=
  { st.nextItem with frames := ⟨block, 0⟩ :: st.nextItem.frames }.settle

/-- Evaluates an expression of the program; a fault is placed in the text. -/
def valueOf (st : State) (e : Excerpt) : Except Located Value :=
  match evaluate e.text st.vars with
  | .ok v => .ok v
  | .error f => .error ⟨Span.shift ⟨0, f.col⟩ e.span, .evaluation f.fault⟩

/-- Evaluates a condition of the program; a fault is placed in the text. -/
def test (st : State) (e : Excerpt) : Except Located Bool :=
  match evaluateCondition e.text st.vars with
  | .ok b => .ok b
  | .error f => .error ⟨Span.shift ⟨0, f.col⟩ e.span, .evaluation f.fault⟩

/-- Jumps to a step and leaves all blocks. -/
def jump (p : Program) (st : State) (place : Place) (raw : String) : Option Nat → Except Located State
  | none => .error ⟨place.span, .invalidJump raw⟩
  | some n =>
    match p.indexOf? n with
    | none => .error ⟨place.span, .invalidTarget n⟩
    | some i => .ok { st with frames := [], sub := 0, pc := i }

/-- Executes an action. Only a step may start, stop or be unknown; in a block these are refused. -/
def execAction (p : Program) (st : State) (label : String) (nested : Bool) (place : Place) :
    Action → Except Located State
  | .print e =>
    match st.valueOf e with
    | .error f => .error f
    | .ok v => .ok (({ st with console := st.console ++ v.text }.record label v.text Env.empty).pass 1)
  | .assign name e =>
    match st.valueOf e with
    | .error f => .error f
    | .ok v => .ok (({ st with vars := st.vars.insert name v }.record label "" (Env.single name v)).pass 1)
  | .read name => .ok { st with pending := some ⟨name, label⟩ }
  | .jump target raw => st.jump p place raw target
  | .start =>
    if nested then .error ⟨place.span, .unsupportedInBlock (Text.stripped place.source)⟩
    else .ok ((st.record label "" Env.empty).pass 1)
  | .stop =>
    if nested then .error ⟨place.span, .unsupportedInBlock (Text.stripped place.source)⟩
    else .ok { (st.record label "" Env.empty).pass 1 with halted := true }
  | .unknown _ =>
    if nested then .error ⟨place.span, .unsupportedInBlock (Text.stripped place.source)⟩
    else .error ⟨place.span, .unknownCommand (Text.stripped place.source)⟩

/-- Executes what the cursor points at. A branch that is not taken uses up the labels of its block. -/
def exec (p : Program) (st : State) (f : Focus) : Except Located State :=
  match f.node with
  | .act place a => st.execAction p f.label f.nested place a
  | .branch _ cond block =>
    match st.test cond with
    | .error e => .error e
    | .ok true => .ok (st.enter block)
    | .ok false => .ok (st.pass block.length)

/-- Shows a line of input on the console. -/
def echo (st : State) (raw : String) : State :=
  { st with console := st.console ++ raw ++ "\n" }

/-- Binds the number that a read waits for and moves past the read. -/
def answer (st : State) (w : Pending) (n : Int64) : State :=
  ({ st with vars := st.vars.insert w.name (.int n), pending := none }.record w.label ""
    (Env.single w.name (.int n))).pass 1

end State

/-- Why an input is refused. -/
inductive InputFault where
  | notWaiting
  | notInteger (raw name : String)
  deriving DecidableEq, Repr, Inhabited

/-- The message of a refused input. -/
def InputFault.message : InputFault → String
  | notWaiting => "session is not waiting for input"
  | notInteger raw name => "Input must be a whole number: " ++ Text.quote raw ++ " is not valid for " ++ name

namespace Session

/-- Goes back to the state before the last step; the session never comes back waiting. -/
def undo (s : Session) : Session :=
  match s.history with
  | [] => s
  | st :: rest => { s with now := { st with pending := none }, history := rest }

/-- Keeps the present state for undo. -/
def keep (s : Session) : Session :=
  { s with history := s.now :: s.history }

/-- Executes one action. The state before it is kept for undo; after a failure the session goes back to it. -/
def step (s : Session) : Session × Option Failure :=
  if s.canStep then
    match s.focus? with
    | none => (s, none)
    | some f =>
      match s.now.exec s.program f with
      | .ok st => ({ s.keep with now := st }, none)
      | .error e => (s.keep.undo, some ⟨f.label, e.span, e.fault, f.node.source⟩)
  else (s, none)

/-- Undoes a number of steps, or all of them when there are fewer. -/
def undos : Nat → Session → Session
  | 0, s => s
  | n + 1, s => if s.canUndo then undos n s.undo else s

/-- Supplies the text that a read waits for. -/
def supply (s : Session) (raw : String) : Session × Option InputFault :=
  match s.now.pending with
  | none => (s, some .notWaiting)
  | some w =>
    match Text.readInt? (Text.strip raw.toList) with
    | none => ({ s with now := s.now.echo raw }, some (.notInteger raw w.name))
    | some n => ({ s with now := (s.now.echo raw).answer w n }, none)

/-- Steps up to a number of times, as long as steps do something and succeed: the session, the steps that succeeded, and
the failure that ended them. -/
def steps : Nat → Session → Session × Nat × Option Failure
  | 0, s => (s, 0, none)
  | n + 1, s =>
    if s.canStep then
      match s.step with
      | (t, some f) => (t, 0, some f)
      | (t, none) =>
        let r := steps n t
        (r.1, r.2.1 + 1, r.2.2)
    else (s, 0, none)

end Session

end Stepwise
