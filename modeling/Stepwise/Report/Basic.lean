import Stepwise.Session.Display
import Stepwise.Text.Columns

/-!
# Reports on a session

The texts that show a session: its listing with the next line marked, its trace as a table, its variables, its console
with visible spaces, and its status in one line.
-/

namespace Stepwise.Report

/-- A text cut to a width; a cut text ends with an ellipsis. -/
def clip (width : Nat) (s : String) : String :=
  if width ≤ 1 ∨ s.length ≤ width then s else String.ofList (s.toList.take (width - 1)) ++ "…"

/-- A text with its spaces made visible. -/
def visibleSpaces (s : String) : String :=
  s.map fun c => if c = ' ' then '·' else c

/-- A number filled up with spaces on its left. -/
def padLeft (width n : Nat) : String :=
  let digits := toString n
  String.ofList (List.replicate (width - digits.length) ' ') ++ digits

/-- A line of the listing; the current line is marked. -/
def listingLine (current : Nat) (e : Entry) : String :=
  (if e.node.line = current then "=>" else "  ") ++ " " ++ padLeft 3 e.node.line ++ " | " ++ e.text ++ "\n"

/-- The listing of a program with the next line marked. -/
def listing (s : Session) : String :=
  String.join (s.program.listing.map (listingLine s.currentLine))

/-- The least width of a table cell. -/
def leastCell : Nat := 6

/-- The width of a table cell: an equal share of the line. -/
def cellWidth (width columns : Nat) : Nat :=
  max leastCell (width / (columns + 2))

/-- The text without one line feed at its end. -/
def dropLineFeed (s : String) : String :=
  if s.toList.getLast? = some '\n' then String.ofList s.toList.dropLast else s

/-- A row of the trace as the cells of a table: what it bound in each column, and what it printed. -/
def traceCells (cell : Nat) (columns : List String) (r : Row) : List String :=
  [r.label] ++ columns.map (fun name =>
    match r.changed.get? name with
    | some v => clip cell v.shown
    | none => "") ++ [clip cell (visibleSpaces (dropLineFeed r.output))]

/-- The trace as a table with a column for each variable. -/
def trace (width : Nat) (s : Session) : String :=
  let d := s.display
  if d.trace.isEmpty then "(no steps taken)\n"
  else
    let rows := (["step"] ++ d.columns ++ ["output"]) ::
      d.trace.map (traceCells (cellWidth width d.columns.length) d.columns)
    Text.alignColumns (String.join (rows.map fun cells => "\t".intercalate cells ++ "\n"))

/-- The variables and their values. -/
def bindings (s : Session) : String :=
  let env := s.now.vars
  if env.entries.isEmpty then "(no variables)\n"
  else String.join (env.names.map fun n => n ++ " = " ++ ((env.get? n).map Value.shown).getD "" ++ "\n")

/-- The console with visible spaces. -/
def console (s : Session) : String :=
  let text := s.now.console
  if text = "" then "(console empty)\n"
  else visibleSpaces text ++ if text.toList.getLast? = some '\n' then "" else "\n"

/-- The status in one line. -/
def status (s : Session) : String :=
  let d := s.display
  let head := "[" ++ d.status.text ++ "]"
  match d.waiting with
  | some name => head ++ " waiting for input to " ++ name ++ "\n"
  | none =>
    if d.label ≠ "" then head ++ " next: step " ++ d.label ++ " (line " ++ toString d.line ++ ")\n"
    else head ++ "\n"

end Stepwise.Report
