import Stepwise.Debugger.Command
import Stepwise.Files.Folder
import Stepwise.Log.Basic
import Stepwise.Report.State
import Stepwise.Session.Load

/-!
# The debugger

A debugger holds a session and handles one line at a time. Its reply is what the line wrote, what it logged, and why it
failed, if it did.
-/

namespace Stepwise

/-- A session under a debugger, with the name of its file and the most steps of one run. -/
structure Debugger where
  name : String
  session : Session
  maxSteps : Int
  deriving Repr, Inhabited

namespace Debugger

/-- Why a line fails. -/
inductive Fault where
  | line (fault : LineFault)
  | step (failure : Failure)
  | input (fault : InputFault)
  | file (path : String) (fault : Files.FileFault)
  | load (fault : LoadFault)
  | stepLimit (limit : Nat)
  deriving DecidableEq, Repr, Inhabited

/-- The message of a line that fails. -/
def Fault.message : Fault → String
  | line f => f.message
  | step f => f.report
  | input f => f.message
  | file path f => "Failed to read " ++ path ++ ": " ++ f.readMessage path
  | load f => f.report
  | stepLimit n => "stopped after " ++ toString n ++ " steps; use :run again to continue"

/-- The reply to a line. -/
structure Reply where
  debugger : Debugger
  quit : Bool
  fault : Option Fault
  output : String
  log : List Log.Record
  deriving Repr, Inhabited

/-- The width of the trace table. -/
def traceWidth : Nat := 80

/-- The most steps of one run when nothing else is set. -/
def defaultRunSteps : Nat := 10000

/-- The text of the help. -/
def helpText : String :=
  "Commands:\n" ++
  "  <enter>, :next [n]   Run the next n atomic steps\n" ++
  "  :back [n]            Undo the last n steps\n" ++
  "  :run                 Run until stop or the next read\n" ++
  "  :input <value>       Answer a pending read (or just type the value)\n" ++
  "  :restart             Reset to the start of the program\n" ++
  "  :load <file>         Replace the program\n" ++
  "  :list                Show the program and the current line\n" ++
  "  :trace               Show the execution trace\n" ++
  "  :vars                Show variables\n" ++
  "  :console             Show console output, spaces as ·\n" ++
  "  :state               Dump the full state as YAML\n" ++
  "  :quit                Exit\n"

/-- A debugger that starts with a program text. -/
def load (name text : String) (maxSteps : Int) : Except LoadFault Debugger :=
  match Session.load text with
  | .ok s => .ok ⟨name, s, maxSteps⟩
  | .error f => .error f

/-- What asks for the next line. -/
def prompt (d : Debugger) : String :=
  if d.session.status = .waiting then "input> " else "step> "

/-- A reply that changes nothing and writes a text. -/
def answer (d : Debugger) (output : String) : Reply := ⟨d, false, none, output, []⟩

/-- A reply that changes nothing and fails. -/
def fail (d : Debugger) (fault : Fault) : Reply := ⟨d, false, some fault, "", []⟩

/-- What the console has gained over an earlier one. -/
def gained (before after : String) : String :=
  String.ofList (after.toList.drop before.length)

/-- What is written after steps or an input: what the console has gained, and the status. -/
def progressText (before after : Session) : String :=
  gained before.now.console after.now.console ++ Report.status after

/-- The listing and the status, which start a program. -/
def opening (s : Session) : String := Report.listing s ++ Report.status s

/-- The record of a program that was loaded. -/
def loadedRecord (d : Debugger) : Log.Record :=
  ⟨.info, "steptrace: program loaded",
    [("file", .text d.name), ("steps", .number d.session.program.steps.length)]⟩

/-- Takes a number of steps, or fewer when the program stops or waits. -/
def next (d : Debugger) (n : Nat) : Reply :=
  let (s, _, failure) := d.session.steps n
  let output := progressText d.session s
  match failure with
  | none => ⟨{ d with session := s }, false, none, output, []⟩
  | some f =>
    ⟨{ d with session := s }, false, some (.step f), output,
      [⟨.debug, "steptrace: step failed", [("file", .text d.name), ("err", .text f.report)]⟩]⟩

/-- Takes steps until the program stops or waits, or a limit is reached. -/
def run (d : Debugger) : Reply :=
  let limit := if 0 < d.maxSteps then d.maxSteps.toNat else defaultRunSteps
  let r := d.next limit
  if r.fault.isNone ∧ r.debugger.session.canStep then { r with fault := some (.stepLimit limit) } else r

/-- Answers a read that waits. -/
def input (d : Debugger) (raw : String) : Reply :=
  match d.session.supply raw with
  | (_, some .notWaiting) => d.fail (.input .notWaiting)
  | (s, refused) => ⟨{ d with session := s }, false, refused.map .input, progressText d.session s, []⟩

/-- Undoes a number of steps, or all when there are fewer. -/
def back (d : Debugger) (n : Nat) : Reply :=
  let s := d.session.undos n
  ⟨{ d with session := s }, false, none, Report.status s, []⟩

/-- Starts the program again. -/
def restart (d : Debugger) : Reply :=
  match d.session.restart with
  | (_, some f) => d.fail (.load f)
  | (s, none) =>
    ⟨{ d with session := s }, false, none, Report.status s,
      [⟨.info, "steptrace: restarted", [("file", .text d.name)]⟩]⟩

/-- Replaces the program by that of a file. -/
def replace (d : Debugger) (path : String) (content : Except Files.FileFault String) : Reply :=
  match content with
  | .error f => d.fail (.file path f)
  | .ok text =>
    match d.session.replace text with
    | (_, some f) => d.fail (.load f)
    | (s, none) =>
      let d := { d with name := path, session := s }
      ⟨d, false, none, opening s, [d.loadedRecord]⟩

/-- Carries out a command; files are read from the folder. -/
def exec (folder : Files.Folder) (d : Debugger) : Command → Reply
  | .quit => ⟨d, true, none, "", []⟩
  | .help => d.answer helpText
  | .next n => d.next n
  | .back n => d.back n
  | .run => d.run
  | .input raw => d.input raw
  | .restart => d.restart
  | .load path => d.replace path (folder.read path)
  | .list => d.answer (Report.listing d.session)
  | .trace => d.answer (Report.trace traceWidth d.session)
  | .vars => d.answer (Report.bindings d.session)
  | .console => d.answer (Report.console d.session)
  | .state => d.answer (Report.yaml d.session)

/-- Handles a line. -/
def handle (folder : Files.Folder) (d : Debugger) (line : String) : Reply :=
  match Command.ofLine (d.session.status == .waiting) line with
  | .error f => d.fail (.line f)
  | .ok c => d.exec folder c

end Debugger

end Stepwise
