import Stepwise.Text.Decimal
import Stepwise.Text.Distance
import Stepwise.Text.Quoted
import Stepwise.Text.Trim
import Stepwise.Text.Words

/-!
# Commands of the debugger

A line that starts with a colon is a command, with a long name or a short one. Any other line answers a read that waits; a
blank line takes the next step. For a name that is not known, the closest command is suggested.
-/

namespace Stepwise.Debugger

/-- A command. -/
inductive Command where
  | quit
  | help
  | next (count : Nat)
  | back (count : Nat)
  | run
  | input (raw : String)
  | restart
  | load (path : String)
  | list
  | trace
  | vars
  | console
  | state
  deriving DecidableEq, Repr, Inhabited

/-- Why a line is no command. -/
inductive LineFault where
  | unknownInput (text : String)
  | inputUsage
  | loadUsage
  | badCount (text : String)
  | unknownCommand (name : String) (meant : Option String)
  deriving DecidableEq, Repr, Inhabited

/-- The message for a line that is no command. -/
def LineFault.message : LineFault → String
  | unknownInput text => "Unknown input " ++ Text.quote text ++ ". Try :help"
  | inputUsage => "Usage: :input <value>"
  | loadUsage => "Usage: :load <file>"
  | badCount text => "expected a positive count, got " ++ Text.quote text
  | unknownCommand name (some meant) => "Unknown command " ++ name ++ ". Did you mean " ++ meant ++ "?"
  | unknownCommand name none => "Unknown command " ++ name ++ ". Try :help"

/-- The long names of the commands, in the order in which they are suggested. -/
def commandNames : List String :=
  [":next", ":back", ":run", ":input", ":restart", ":load", ":list", ":trace", ":vars", ":console", ":state", ":help",
    ":quit"]

/-- The closest command to a name: of those over which the name is spread in lower case, the first with the smallest edit
distance to the name as it is written. -/
def suggest (name : String) : Option String :=
  let bare := (Text.after? [':'] name.toList).getD name.toList
  if bare.isEmpty then none
  else
    let near := commandNames.filter fun c => Text.isSpreadOver (bare.map Text.foldCase) c.toList
    Text.nearest (near.map fun c => (c, Text.editDistance bare c.toList))

/-- The count of a command; without one it is done once. -/
def count : List String → Except LineFault Nat
  | [] => .ok 1
  | s :: _ =>
    match Text.readInt? s.toList with
    | some n => if 0 < n.toInt then .ok n.toInt.toNat else .error (.badCount s)
    | none => .error (.badCount s)

namespace Command

/-- Reads a command by its name and its arguments; `argument` is the text after the name. -/
def ofName (name : String) (args : List String) (argument : String) : Except LineFault Command :=
  match name with
  | ":q" | ":quit" | ":exit" => .ok .quit
  | ":h" | ":help" => .ok .help
  | ":n" | ":next" => (count args).map .next
  | ":b" | ":back" => (count args).map .back
  | ":r" | ":run" => .ok .run
  | ":i" | ":input" => if args.isEmpty then .error .inputUsage else .ok (.input argument)
  | ":restart" => .ok .restart
  | ":load" =>
    match args with
    | [path] => .ok (.load path)
    | _ => .error .loadUsage
  | ":l" | ":list" => .ok .list
  | ":t" | ":trace" => .ok .trace
  | ":v" | ":vars" => .ok .vars
  | ":c" | ":console" => .ok .console
  | ":s" | ":state" => .ok .state
  | name => .error (.unknownCommand name (suggest name))

/-- Reads a line, given whether a read waits. -/
def ofLine (waiting : Bool) (line : String) : Except LineFault Command :=
  let text := Text.strip line.toList
  match text with
  | ':' :: _ =>
    match Text.words text with
    | [] => .error (.unknownInput (String.ofList text))
    | name :: args =>
      ofName (String.ofList name) (args.map String.ofList)
        (String.ofList (Text.strip (text.drop name.length)))
  | _ =>
    if waiting then .ok (.input line)
    else if text.isEmpty then .ok (.next 1)
    else .error (.unknownInput (String.ofList text))

end Command

end Stepwise.Debugger
