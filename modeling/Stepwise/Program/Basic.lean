import Stepwise.Source.Span
import Stepwise.Text.Quoted

/-!
# Programs

A program is a list of numbered steps. A step is an action or a branch; a branch has a condition and a block of actions
and further branches. Expressions and conditions are kept as text with their place and are read when they are needed, so
a malformed one concerns only the step that uses it.
-/

namespace Stepwise

/-- A piece of a program text and where it starts. -/
structure Excerpt where
  text : String
  line : Nat
  col : Nat
  deriving DecidableEq, Repr, Inhabited

/-- The place of an excerpt. -/
def Excerpt.span (e : Excerpt) : Span := ⟨e.line, e.col⟩

/-- A command without a block. -/
inductive Action where
  | start
  | stop
  | print (value : Excerpt)
  | read (name : String)
  | assign (name : String) (value : Excerpt)
  /-- A jump to a step; there is no target when it cannot be read from the line. -/
  | jump (target : Option Nat) (raw : String)
  | unknown (text : String)
  deriving DecidableEq, Repr, Inhabited

/-- The line that holds a command, and the column where the command begins. -/
structure Place where
  line : Nat
  col : Nat
  source : String
  deriving DecidableEq, Repr, Inhabited

/-- The place of a command. -/
def Place.span (p : Place) : Span := ⟨p.line, p.col⟩

/-- A command at its place: an action, or a branch with its block. -/
inductive Node where
  | act (place : Place) (action : Action)
  | branch (place : Place) (condition : Excerpt) (block : List Node)
  deriving Repr

instance : Inhabited Node := ⟨.act default default⟩

/-- A numbered step. -/
structure Step where
  number : Nat
  node : Node
  deriving Repr, Inhabited

/-- A program and the text it was read from. -/
structure Program where
  steps : List Step
  source : String
  deriving Repr, Inhabited

/-- A step's number for each form that the target of a jump may have. -/
def targetText : Option Nat → String
  | some n => toString n
  | none => "-1"

/-- An action as text. -/
def Action.describe : Action → String
  | start => "Start"
  | stop => "Stop"
  | print v => "Print(" ++ v.text ++ ")"
  | read n => "Read(" ++ n ++ ")"
  | assign n v => "Assign(" ++ n ++ " = " ++ v.text ++ ")"
  | jump t _ => "Goto(step-" ++ targetText t ++ ")"
  | unknown s => "Unknown(" ++ Text.quote s ++ ")"

/-- The name that an action binds. -/
def Action.name? : Action → Option String
  | read n => some n
  | assign n _ => some n
  | _ => none

namespace Node

/-- The place of a node. -/
def place : Node → Place
  | act p _ => p
  | branch p _ _ => p

/-- The number of the line that holds a node. -/
def line (n : Node) : Nat := n.place.line

/-- The line that holds a node. -/
def source (n : Node) : String := n.place.source

/-- A node as text. -/
def describe : Node → String
  | act _ a => a.describe
  | branch _ c block => "If(" ++ c.text ++ ", block=" ++ toString block.length ++ ")"

/-- The name that a node binds. -/
def name? : Node → Option String
  | act _ a => a.name?
  | branch .. => none

/-- The block of a branch; an action has none. -/
def block : Node → List Node
  | act _ _ => []
  | branch _ _ b => b

/-- How many spaces the line of a block item begins with. -/
def indent (n : Node) : Nat := n.place.col - 1

/-- An item of a block as text. -/
def describeItem (n : Node) : String := "BlockItem(" ++ n.describe ++ ")"

end Node

/-- A step as text. -/
def Step.describe (s : Step) : String := "Step(" ++ toString s.number ++ ", " ++ s.node.describe ++ ")"

/-- A line of the listing: the step it belongs to and, inside a block, the positions that lead to it. -/
structure Entry where
  step : Nat
  path : List Nat
  node : Node
  deriving Repr, Inhabited

namespace Entry

/-- The place of a line of the listing: a step begins its line. -/
def span (e : Entry) : Span :=
  match e.path with
  | [] => ⟨e.node.line, 1⟩
  | _ => e.node.place.span

/-- The text of a line of the listing. -/
def text (e : Entry) : String := e.node.source

end Entry

mutual

/-- The lines of a node: its own, then those of its block. -/
def Node.entries (step : Nat) (path : List Nat) : Node → List Entry
  | .act p a => [⟨step, path, .act p a⟩]
  | .branch p c block => ⟨step, path, .branch p c block⟩ :: blockEntries step path 0 block

/-- The lines of the items of a block, the first of which has the given position. -/
def blockEntries (step : Nat) (path : List Nat) (position : Nat) : List Node → List Entry
  | [] => []
  | n :: ns => n.entries step (path ++ [position]) ++ blockEntries step path (position + 1) ns

end

/-- The lines of steps, the first of which has the given index. -/
def stepEntries (index : Nat) : List Step → List Entry
  | [] => []
  | s :: ss => s.node.entries index [] ++ stepEntries (index + 1) ss

namespace Program

/-- The lines of a program in the order of its text. -/
def listing (p : Program) : List Entry :=
  stepEntries 0 p.steps

/-- The text of a program, rebuilt from its lines. -/
def text (p : Program) : String :=
  "\n".intercalate (p.listing.map Entry.text)

/-- The names that a program binds, in the order of their first appearance. -/
def varNames (p : Program) : List String :=
  ((p.listing.filterMap fun e => e.node.name?).filter (· ≠ "")).eraseDups

/-- The index of the first step with a number. -/
def indexOf? (p : Program) (number : Nat) : Option Nat :=
  p.steps.findIdx? fun s => s.number == number

end Program

end Stepwise
