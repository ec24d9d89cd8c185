import Stepwise.Check.Rules
import Stepwise.Session.Step

/-!
# Loading programs

A text that passes the check is read into a session. Loading another text into a session replaces it only when that text
loads.
-/

namespace Stepwise

/-- Why a text does not load. -/
inductive LoadFault where
  | refused (problem : Problem)
  | unreadable (error : ProgramError)
  deriving DecidableEq, Repr, Inhabited

/-- The report of a text that does not load. -/
def LoadFault.report : LoadFault → String
  | refused p => p.report
  | unreadable e => readingReport e.line 0 e.fault.message

namespace Session

/-- Checks and reads a text and starts a session. -/
def load (text : String) : Except LoadFault Session :=
  match Check.problem? text with
  | some p => .error (.refused p)
  | none =>
    match Program.parse text with
    | .error e => .error (.unreadable e)
    | .ok p => .ok (ofProgram p)

/-- Loads another text; when it does not load, the session stays. -/
def replace (s : Session) (text : String) : Session × Option LoadFault :=
  match load text with
  | .ok fresh => (fresh, none)
  | .error f => (s, some f)

/-- Loads the session's own text again. -/
def restart (s : Session) : Session × Option LoadFault :=
  s.replace s.program.source

end Session

end Stepwise
