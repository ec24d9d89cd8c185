import Stepwise.CommandLine

/-!
# The program

Reads the environment, the input and the files that the arguments and the input name, carries out the command line, and
writes what it gives.
-/

namespace Stepwise.CommandLine

/-- The names of the environment that the settings use. -/
def settingNames : List String :=
  ["HOME", "STEPTRACE_LOG_LEVEL", "STEPTRACE_LOG_FILE", "STEPTRACE_HISTORY", "STEPTRACE_MAX_STEPS"]

/-- The paths that a command line may use: its arguments, also behind an equals sign, and the words of its input. -/
def namedPaths (args : List String) (env : Settings.Bindings) (input : String) : List String :=
  (Settings.bindingsFile :: env.map (·.2) ++ args ++
    args.map (fun a => String.ofList ((a.toList.dropWhile (· != '=')).drop 1)) ++
    (Text.words input.toList).map String.ofList).eraseDups

/-- Reads the environment. -/
def readEnvironment : IO Settings.Bindings :=
  settingNames.filterMapM fun name => do
    return (← IO.getEnv name).map (name, ·)

/-- Reads the input to its end. -/
partial def readInput (stream : IO.FS.Stream) (text : String) : IO String := do
  let line ← stream.getLine
  if line.isEmpty then return text else readInput stream (text ++ line)

/-- Reads the files and finds the folders among some paths. -/
def readFolder (paths : List String) : IO Files.Folder := do
  let mut files : List (String × String) := []
  let mut folders : List String := []
  for path in paths do
    match ← (IO.FS.readFile path).toBaseIO with
    | .ok text => files := (path, text) :: files
    | .error (.inappropriateType ..) => folders := path :: folders
    | .error _ => pure ()
  return Files.Folder.ofPaths files folders

/-- Adds to each file what it has gained. -/
def writeFolder (before after : Files.Folder) : IO Unit :=
  for (names, text) in after.files do
    let old := (before.content? names).getD ""
    if (before.content? names).isNone || old.length < text.length then
      IO.FS.withFile (Files.joinNames names) .append fun file =>
        file.putStr (Debugger.gained old text)

end Stepwise.CommandLine

open Stepwise in
/-- The program. -/
def main (args : List String) : IO UInt32 := do
  let stdin ← IO.getStdin
  let terminal ← stdin.isTty
  let input ←
    match CommandLine.task? terminal args with
    | some (.run, _) | some (.debug, _) => CommandLine.readInput stdin ""
    | _ => pure ""
  let env ← CommandLine.readEnvironment
  let folder ← CommandLine.readFolder (CommandLine.namedPaths args env input)
  let result := CommandLine.invoke args env terminal input folder
  (← IO.getStdout).write result.output.out
  (← IO.getStderr).putStr result.output.err
  CommandLine.writeFolder folder result.output.folder
  return result.exit.toUInt32
