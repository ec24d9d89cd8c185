import Stepwise.Debugger.Basic
import Stepwise.Log.Lines
import Stepwise.Run.Basic
import Stepwise.Settings.Basic

/-!
# The command line

The commands `check`, `run` and `debug` on a program file. What a command does is a function of its arguments, the
environment, the input and the working folder: it gives an exit code, what is written to the two outputs, and the folder
afterwards, in which a log file may have grown.
-/

namespace Stepwise.CommandLine

/-- What a command has written so far. -/
structure Output where
  out : ByteArray
  err : String
  folder : Files.Folder

/-- What a command gives. -/
structure Outcome where
  exit : Nat
  output : Output

/-- The log of a command: the level of what is shown, and the names that lead to the log file, if there is one. -/
structure Logger where
  level : Log.Level
  file : Option (List String)

namespace Output

/-- Nothing is written yet. -/
def start (folder : Files.Folder) : Output := ⟨ByteArray.empty, "", folder⟩

/-- Writes to the first output. -/
def print (o : Output) (text : String) : Output := { o with out := o.out ++ text.toByteArray }

/-- Writes a line to the second output. -/
def complain (o : Output) (text : String) : Output := { o with err := o.err ++ text ++ "\n" }

/-- Logs a record: shown on the second output if it is at or above the level, and added to the log file. -/
def record (l : Logger) (o : Output) (r : Log.Record) : Output :=
  { o with
    err := o.err ++ Log.text l.level [r]
    folder :=
      match l.file with
      | none => o.folder
      | some names => o.folder.append names r.jsonLine }

/-- Writes a note of a run. -/
def note (l : Logger) (o : Output) : Run.Note → Output
  | .message text => o.complain text
  | .record r => o.record l r

/-- Ends a command. -/
def exit (o : Output) (code : Nat) : Outcome := ⟨code, o⟩

end Output

/-- What the program says about its use. -/
def usage : String :=
  "Usage:\n" ++
  "  steptrace <file>               debug on a terminal, run otherwise\n" ++
  "  steptrace check <file>         validate only\n" ++
  "  steptrace run [flags] <file>   run to completion, reading input from stdin\n" ++
  "  steptrace debug [flags] <file> step through interactively\n"

/-- The result of a check and what it says: the problem, or the size of the program. -/
def check (text : String) : Bool × String :=
  match Check.problem? text with
  | some p => (false, p.message ++ "\n")
  | none =>
    match Program.parse text with
    | .error e => (false, readingReport e.line 0 e.fault.message ++ "\n")
    | .ok p =>
      (true, "OK: " ++ toString p.steps.length ++ " steps, " ++ toString p.varNames.length ++ " variables\n")

/-- The lines that a debugger is given. A line ends at a line feed or a carriage return; a last line needs neither. -/
def debugLines (input : String) : List String :=
  let pieces := input.toList.splitOnP fun c => c == '\n' || c == '\r'
  (if pieces.getLast? = some [] then pieces.dropLast else pieces).map String.ofList

/-- Gives lines to a debugger until one quits; the end of the input leaves the line. -/
def debugLoop (l : Logger) (d : Debugger) (o : Output) : List String → Output
  | [] => o.print "\n"
  | line :: rest =>
    let r := d.handle o.folder line
    let o := r.log.foldl (Output.record l) (o.print r.output)
    let o :=
      match r.fault with
      | none => o
      | some f => o.complain f.message
    if r.quit then o else debugLoop l r.debugger o rest

/-- Debugs a program text. -/
def debug (l : Logger) (o : Output) (name text input : String) (maxSteps : Int) : Outcome :=
  match Debugger.load name text maxSteps with
  | .error f => (o.complain f.report).exit 1
  | .ok d =>
    let o := (o.record l d.loadedRecord).print
      ("steptrace: " ++ name ++ ". Enter steps, :help for commands, :quit to exit.\n" ++ Debugger.opening d.session)
    (debugLoop l d o (debugLines input)).exit 0

/-- Runs a program text. -/
def run (l : Logger) (o : Output) (name text input : String) (maxSteps : Int) (dump : Bool) : Outcome :=
  let r := Run.run name text input maxSteps dump none
  let o := r.notes.foldl (Output.note l) { o with out := o.out ++ r.output }
  match r.fault with
  | none => o.exit 0
  | some f => (o.complain f.message).exit 1

/-- What is asked of a command line. -/
inductive Task where
  | check
  | run
  | debug
  deriving DecidableEq, Repr, Inhabited

/-- The name of a task. -/
def Task.name : Task → String
  | check => "check"
  | run => "run"
  | debug => "debug"

/-- The task of a command line and the arguments left. Without a task a file is debugged on a terminal and run elsewhere;
nothing is asked by a call for help. -/
def task? (terminal : Bool) : List String → Option (Task × List String)
  | [] => none
  | "check" :: rest => some (.check, rest)
  | "run" :: rest => some (.run, rest)
  | "debug" :: rest => some (.debug, rest)
  | "-h" :: _ => none
  | "-help" :: _ => none
  | "--help" :: _ => none
  | "help" :: _ => none
  | args => some (if terminal then .debug else .run, args)

/-- The flags of a command line, in the order of their names. -/
def flags (s : Settings) : List Settings.Flag :=
  ⟨"dump", "run: print the final state as YAML", .switch false⟩ :: s.flags

/-- The last state that a switch is given. -/
def switched (name : String) (given : List (String × Settings.FlagValue)) : Bool :=
  (given.reverse.lookup name) == some (.switch true)

/-- Opens the log: its level, and its file, which is made when it is not there. -/
def openLog (s : Settings) (folder : Files.Folder) : Except String (Logger × Files.Folder) :=
  match Log.Level.ofName? s.logLevel with
  | none => .error (Log.Level.unknownMessage s.logLevel)
  | some level =>
    if s.logFile = "" then .ok (⟨level, none⟩, folder)
    else
      match folder.openToAppend s.logFile with
      | .error f => .error ("open log file: " ++ f.writeMessage s.logFile)
      | .ok (names, folder) => .ok (⟨level, some names⟩, folder)

/-- Carries out a task on a file. -/
def perform (task : Task) (l : Logger) (o : Output) (path input : String) (s : Settings) (dump : Bool) : Outcome :=
  match o.folder.read path with
  | .error f => (o.complain ("Error reading " ++ path ++ ": " ++ f.readMessage path)).exit 1
  | .ok text =>
    let o := o.record l ⟨.debug, "steptrace: source read",
      [("file", .text path), ("bytes", .number text.utf8ByteSize), ("command", .text task.name)]⟩
    let name := Files.baseName path
    match task with
    | .check =>
      let (fine, report) := check text
      (o.print report).exit (if fine then 0 else 1)
    | .run => run l o name text input s.maxSteps dump
    | .debug => debug l o name text input s.maxSteps

/-- The program: its arguments, the environment, whether the input is a terminal, the input and the working folder. -/
def invoke (args : List String) (env : Settings.Bindings) (terminal : Bool) (input : String) (folder : Files.Folder) :
    Outcome :=
  let o := Output.start folder
  match task? terminal args with
  | none => (o.print usage).exit 2
  | some (task, args) =>
    match Settings.load env folder with
    | .error f => (o.complain ("Error: " ++ f.message)).exit 1
    | .ok base =>
      let help := Settings.Flag.help task.name (flags base)
      match Settings.Flag.readAll (flags base) args with
      | .error .help => { o with err := help }.exit 0
      | .error f => { o with err := f.message ++ "\n" ++ help }.exit 2
      | .ok (given, [path]) =>
        let s := given.foldl Settings.set base
        match openLog s folder with
        | .error message => (o.complain ("Error: " ++ message)).exit 1
        | .ok (l, folder) => perform task l { o with folder := folder } path input s (switched "dump" given)
      | .ok _ => (o.print usage).exit 2

end Stepwise.CommandLine
