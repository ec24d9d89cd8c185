import Stepwise.Text.Distance
import Stepwise.Text.Quoted
import Stepwise.Text.Trim

/-!
# Log records

A record has a level, a message and named values. A log keeps records in the order in which they were made; what is shown
of it are the records at or above a level.
-/

namespace Stepwise.Log

/-- How much a record matters. -/
inductive Level where
  | debug
  | info
  | warn
  | error
  deriving DecidableEq, Repr, Inhabited

namespace Level

/-- The order of the levels. -/
def rank : Level → Nat
  | debug => 0
  | info => 1
  | warn => 2
  | error => 3

/-- The name of a level in a record. -/
def text : Level → String
  | debug => "DEBUG"
  | info => "INFO"
  | warn => "WARN"
  | error => "ERROR"

/-- Reads the name of a level, in any case and with blanks around it. No name at all stands for warnings. -/
def ofName? (s : String) : Option Level :=
  match String.ofList ((Text.strip s.toList).map Text.foldCase) with
  | "debug" => some debug
  | "info" => some info
  | "" => some warn
  | "warn" => some warn
  | "warning" => some warn
  | "error" => some error
  | _ => none

/-- The message for a name that is no level. -/
def unknownMessage (s : String) : String := "unknown log level " ++ Text.quote s

end Level

/-- The value of an attribute. -/
inductive Datum where
  | text (s : String)
  | number (n : Int)
  deriving DecidableEq, Repr, Inhabited

/-- A log record. -/
structure Record where
  level : Level
  message : String
  attributes : List (String × Datum)
  deriving DecidableEq, Repr, Inhabited

/-- The record is at or above a level. -/
def Record.atLeast (l : Level) (r : Record) : Bool := decide (l.rank ≤ r.level.rank)

end Stepwise.Log
