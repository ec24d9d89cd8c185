import Stepwise.Report.Basic
import Stepwise.Text.NaturalOrder
import Stepwise.Yaml.Document

/-!
# The state of a session as YAML

All that a session shows, as a YAML document. Entries that say nothing are left out.
-/

namespace Stepwise.Report

/-- A value as a YAML scalar. -/
def valueYaml : Value → Yaml
  | .int n => .plain (toString n)
  | .str s => .text s

/-- Bindings as a mapping, the names in their natural order. -/
def envYaml (env : Env) : Yaml :=
  .map ((Text.naturalSort (env.entries.map Prod.fst)).filterMap fun n =>
    (env.get? n).map fun v => (n, valueYaml v))

/-- A number as a YAML scalar. -/
def natYaml (n : Nat) : Yaml := .plain (toString n)

/-- A truth value as a YAML scalar. -/
def boolYaml (b : Bool) : Yaml := .plain (if b then "true" else "false")

/-- An entry for a text that is not empty. -/
def textEntry (key s : String) : List (String × Yaml) :=
  if s = "" then [] else [(key, .text s)]

/-- A row of the trace. -/
def rowYaml (r : Row) : Yaml :=
  .map ([("label", .text r.label)] ++ textEntry "output" r.output ++
    if r.changed.entries.isEmpty then [] else [("changed", envYaml r.changed)])

/-- A position inside a block. -/
def cursorYaml (c : Cursor) : Yaml :=
  .map [("step", natYaml c.step), ("depth", natYaml c.depth), ("index", natYaml c.index), ("sub", natYaml c.sub)]

/-- The entries of a session's state. -/
def stateEntries (d : Display) : List (String × Yaml) :=
  [("status", .text d.status.text), ("program_counter", natYaml d.pc)] ++
    (match d.cursor with
    | some c => [("block_cursor", cursorYaml c)]
    | none => []) ++
    textEntry "current_label" d.label ++
    (if d.line = 0 then [] else [("current_line", natYaml d.line)]) ++
    [("variables", envYaml d.vars), ("columns", .seq (d.columns.map .text)), ("console", .text d.console),
      ("trace", .seq (d.trace.map rowYaml)), ("waiting_for_input", boolYaml d.waiting.isSome)] ++
    textEntry "waiting_variable" (d.waiting.getD "") ++
    [("undo_depth", natYaml d.undoDepth)]

/-- The state of a session as a YAML document. -/
def yaml (s : Session) : String :=
  Yaml.document (stateEntries s.display)

end Stepwise.Report
