import Stepwise.Log.Basic
import Stepwise.Report.State
import Stepwise.Run.Stream
import Stepwise.Session.Load
import Stepwise.Text.Trim

/-!
# Runs

A run takes a program to its end. Each read takes a line of the input; a line that is no whole number is reported and the
next line is tried. The console is written as it grows. A run ends early when the input ends, when a step fails, when the
output cannot be written or when it has taken as many steps as it may.
-/

namespace Stepwise.Run

/-- Why a run ends early. -/
inductive Fault where
  | load (fault : LoadFault)
  | longLine
  | inputEnded (name : String)
  | input (fault : InputFault)
  | console
  | dump
  | stepLimit (limit : Nat)
  | step (failure : Failure)
  deriving DecidableEq, Repr, Inhabited

/-- The message of a run that ended early. -/
def Fault.message : Fault → String
  | load f => f.report
  | longLine => "reading input: bufio.Scanner: token too long"
  | inputEnded name => "input ended while waiting for " ++ name
  | input f => f.message
  | console => "write console: " ++ Sink.fullMessage
  | dump => Sink.fullMessage
  | stepLimit n => "stopped after " ++ toString n ++ " steps without reaching 'stop'"
  | step f => f.report

/-- What a run reports besides its output: messages and log records. -/
inductive Note where
  | message (text : String)
  | record (r : Log.Record)
  deriving DecidableEq, Repr, Inhabited

/-- A run up to some point. -/
structure Progress where
  session : Session
  stream : Stream
  /-- The steps that succeeded. -/
  steps : Nat
  notes : List Note

/-- The end of a run: how far it came, the input that it did not read, and why it ended early. -/
structure Ending where
  progress : Progress
  unread : List String
  fault : Option Fault

/-- The lines of the input. A last line needs no line feed. -/
def inputLines (input : String) : List String :=
  let pieces := input.toList.splitOn '\n'
  (if pieces.getLast? = some [] then pieces.dropLast else pieces).map String.ofList

/-- A line of this many bytes or more is too long to be read. -/
def lineLimit : Nat := 65536

/-- The text of an input line, without the carriage return at its end. -/
def lineText (line : String) : String :=
  String.ofList (Text.dropLast? '\r' line.toList)

/-- The steps of a run that has no limit of its own: more than any run can take. -/
def patience : Nat := 4611686018427387904

/-- How many steps a run may take. -/
def stepLimit (maxSteps : Int) : Nat :=
  if 0 < maxSteps then maxSteps.toNat else patience

namespace Progress

/-- Adds notes. -/
def note (p : Progress) (notes : List Note) : Progress :=
  { p with notes := p.notes ++ notes }

/-- Goes on with a session whose console is written, which may fail. -/
def flush (p : Progress) (s : Session) : Progress × Bool :=
  let (stream, done) := p.stream.flush s.now.console
  ({ p with session := s, stream := stream }, done)

end Progress

/-- The notes on a refused input. -/
def refusal (f : InputFault) : List Note :=
  match f with
  | .notWaiting => []
  | .notInteger raw name =>
    [.message f.message,
      .record ⟨.warn, "steptrace: rejected input", [("var", .text name), ("raw", .text raw)]⟩]

/-- Runs a program to its end, with the steps that are left and the input. -/
def loop (name : String) (limit left : Nat) (lines : List String) (p : Progress) : Ending :=
  match p.session.now.pending with
  | some w =>
    match lines with
    | [] => ⟨p, [], some (.inputEnded w.name)⟩
    | line :: rest =>
      if lineLimit ≤ line.utf8ByteSize then ⟨p, rest, some .longLine⟩
      else
        let (s, refused) := p.session.supply (lineText line)
        let (q, done) := p.flush s
        if done then
          match refused with
          | none => loop name limit left rest q
          | some .notWaiting => ⟨q, rest, some (.input .notWaiting)⟩
          | some f => loop name limit left rest (q.note (refusal f))
        else ⟨q, rest, some .console⟩
  | none =>
    if p.session.atEnd then ⟨p, lines, none⟩
    else
      match left with
      | 0 =>
        ⟨p.note [.record ⟨.warn, "steptrace: step limit reached",
            [("file", .text name), ("max_steps", .number limit)]⟩], lines, some (.stepLimit limit)⟩
      | left + 1 =>
        let (s, failure) := p.session.step
        let (q, done) := p.flush s
        if done then
          match failure with
          | some f => ⟨q, lines, some (.step f)⟩
          | none => loop name limit left lines { q with steps := p.steps + 1 }
        else ⟨q, lines, some .console⟩
termination_by left + lines.length

/-- What a run gives: the bytes of its output, its notes, and why it ended early. -/
structure Outcome where
  output : ByteArray
  notes : List Note
  fault : Option Fault

/-- A record on a program by its file. -/
def fileRecord (message name : String) (steps : Nat) : Log.Record :=
  ⟨.info, message, [("file", .text name), ("steps", .number steps)]⟩

/-- The run of a session from its start. -/
def ofSession (name : String) (s : Session) (lines : List String) (maxSteps : Int) (outLimit : Option Nat) : Ending :=
  let limit := stepLimit maxSteps
  loop name limit limit lines
    ⟨s, Stream.toSink (Sink.empty outLimit), 0,
      [.record (fileRecord "steptrace: program loaded" name s.program.steps.length)]⟩

/-- Runs a program text: its file's name, the text, the input, how many steps it may take, whether to write the state at the
end, and how many bytes the output takes. -/
def run (name text input : String) (maxSteps : Int) (dump : Bool) (outLimit : Option Nat) : Outcome :=
  match Session.load text with
  | .error f => ⟨ByteArray.empty, [], some (.load f)⟩
  | .ok s =>
    let e := ofSession name s (inputLines input) maxSteps outLimit
    let p := e.progress
    match e.fault with
    | some f => ⟨p.stream.sink.bytes, p.notes, some f⟩
    | none =>
      let notes := p.notes ++ [.record (fileRecord "steptrace: program halted" name p.steps)]
      if dump then
        let state := (Report.yaml p.session).toByteArray
        let (sink, n) := p.stream.sink.write state
        ⟨sink.bytes, notes, if n = state.size then none else some .dump⟩
      else ⟨p.stream.sink.bytes, notes, none⟩

end Stepwise.Run
