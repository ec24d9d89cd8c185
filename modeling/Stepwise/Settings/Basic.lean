import Stepwise.Files.Folder
import Stepwise.Settings.Environment
import Stepwise.Settings.Flags
import Stepwise.Text.Decimal

/-!
# Settings

Settings start from defaults; the environment changes them, and then the flags of the command line.
-/

namespace Stepwise

/-- The settings of the program. -/
structure Settings where
  logLevel : String
  logFile : String
  historyFile : String
  maxSteps : Int
  deriving DecidableEq, Repr, Inhabited

namespace Settings

/-- Why settings cannot be made. -/
inductive SettingsFault where
  | file (cause : Files.FileFault)
  | bindings (cause : BindingFault)
  | maxSteps (value : String)
  deriving DecidableEq, Repr, Inhabited

/-- The file of the environment. -/
def bindingsFile : String := ".env"

/-- The message of settings that cannot be made. -/
def SettingsFault.message : SettingsFault → String
  | file cause => "load .env: " ++ cause.readMessage bindingsFile
  | bindings cause => "load .env: " ++ cause.message
  | maxSteps value => "STEPTRACE_MAX_STEPS must be a positive integer, got " ++ Text.quote value

/-- How many steps a run takes when nothing else is set. -/
def defaultMaxSteps : Nat := 10000

/-- The settings when nothing is set. The history is kept in the home folder, if there is one. -/
def default (env : Bindings) : Settings :=
  let home := (env.lookup "HOME").getD ""
  ⟨"warn", "", if home = "" then "" else Files.pathIn home ".steptrace_history", defaultMaxSteps⟩

/-- The value of a name without the blanks around it, unless nothing is left. -/
def setting? (env : Bindings) (name : String) : Option String :=
  match Text.stripped ((env.lookup name).getD "") with
  | "" => none
  | s => some s

/-- Reads a positive number. -/
def readCount? (s : String) : Option Int :=
  match Text.readInt? s.toList with
  | some n => if 0 < n.toInt then some n.toInt else none
  | none => none

/-- The settings of an environment. -/
def ofBindings (env : Bindings) : Except SettingsFault Settings :=
  let base := default env
  let named : Settings := {
    logLevel := (setting? env "STEPTRACE_LOG_LEVEL").getD base.logLevel
    logFile := (setting? env "STEPTRACE_LOG_FILE").getD base.logFile
    historyFile := ((env.lookup "STEPTRACE_HISTORY").map Text.stripped).getD base.historyFile
    maxSteps := base.maxSteps }
  match setting? env "STEPTRACE_MAX_STEPS" with
  | none => .ok named
  | some s =>
    match readCount? s with
    | some n => .ok { named with maxSteps := n }
    | none => .error (.maxSteps s)

/-- The settings of an environment and its file, which need not be there. -/
def load (env : Bindings) (folder : Files.Folder) : Except SettingsFault Settings :=
  match folder.read bindingsFile with
  | .error .missing => ofBindings env
  | .error f => .error (.file f)
  | .ok text =>
    match Bindings.read text with
    | .error f => .error (.bindings f)
    | .ok file => ofBindings (Bindings.join env file)

/-- The flags that change settings, in the order of their names. -/
def flags (s : Settings) : List Flag :=
  [⟨"history", "REPL history file (empty disables)", .text s.historyFile⟩,
   ⟨"log-file", "also write JSON logs to this file", .text s.logFile⟩,
   ⟨"log-level", "log level: debug, info, warn, error", .text s.logLevel⟩,
   ⟨"max-steps", "stop run/:run after this many steps", .whole s.maxSteps⟩]

/-- Changes a setting by a flag. -/
def set (s : Settings) : String × FlagValue → Settings
  | ("history", .text v) => { s with historyFile := v }
  | ("log-file", .text v) => { s with logFile := v }
  | ("log-level", .text v) => { s with logLevel := v }
  | ("max-steps", .whole n) => { s with maxSteps := n }
  | _ => s

/-- Changes settings by a command line: the settings and the operands. -/
def withFlags (s : Settings) (args : List String) : Except FlagFault (Settings × List String) := do
  let (given, operands) ← Flag.readAll s.flags args
  return (given.foldl set s, operands)

end Settings

end Stepwise
