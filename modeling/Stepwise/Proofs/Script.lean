import Stepwise.Proofs.Commands
import Stepwise.Proofs.Grammar

/-!
# Scripts

A script is a program by its meaning alone: what its steps do and what their blocks hold. Each part carries the promises of the
language, so that every script can be written down. This module says how a script is written, line by line, and which steps a
reader has to find in the text.
-/

namespace Stepwise

namespace Script

/-! ## The parts of a script -/

/-- The text has neither tabs nor line breaks. -/
def OneLine (text : String) : Prop :=
  ∀ c ∈ text.toList, c ≠ '\t' ∧ c ≠ '\r' ∧ c ≠ '\n'

/-- The text of an expression, whatever it says: one line with no blanks around it. -/
structure Phrase where
  text : String
  oneLine : OneLine text
  first : ∃ c cs, text.toList = c :: cs ∧ Text.isBlank c = false
  last : ∃ c, text.toList.getLast? = some c ∧ Text.isBlank c = false

/-- The name of a variable. -/
structure Variable where
  name : String
  valid : IsVariable name

/-- The text of a condition, without its parentheses: one line whose tokens are two expressions with a comparison between them. -/
structure Comparison where
  text : String
  oneLine : OneLine text
  noNul : '\x00' ∉ text.toList
  noQuote : '"' ∉ text.toList
  compares : ∃ left op right, (Token.lex text).1.map Token.lexeme = left ++ .compare op :: right ∧
    Expr.Derives .chain left ∧ Expr.Derives .chain right

/-- A command that may stand anywhere between the first and the last step. -/
inductive Order where
  | print (value : Phrase)
  | read (name : Variable)
  | assign (name : Variable) (value : Phrase)
  | jump (target : Nat)

/-- An item of the block of a step: a command, or a branch with a block of commands. -/
inductive Item where
  | order (o : Order)
  | branch (c : Comparison) (block : List Order) (filled : block ≠ [])

/-- A step between the first and the last one: a command, or a branch with a block of items. -/
inductive Part where
  | order (o : Order)
  | branch (c : Comparison) (block : List Item) (filled : block ≠ [])

/-! ## How it is written -/

/-- What the line of a step or of an item says. -/
inductive Command where
  | start
  | stop
  | order (o : Order)
  | branch (c : Comparison)

/-- How a command is written. -/
def Order.text : Order → String
  | print value => "print " ++ value.text
  | read name => "read " ++ name.name
  | assign name value => name.name ++ " = " ++ value.text
  | jump target => "goto step-" ++ toString target

/-- How a step or an item is written, after its number or its indentation. -/
def Command.text : Command → String
  | start => "start"
  | stop => "stop"
  | order o => o.text
  | branch c => "if (" ++ c.text ++ "):"

/-- The name that a command binds. -/
def Command.name? : Command → Option String
  | order (.read name) => some name.name
  | order (.assign name _) => some name.name
  | _ => none

/-- The number of the step that a command jumps to. -/
def Command.target? : Command → Option Nat
  | order (.jump target) => some target
  | _ => none

/-- A command on its line: behind the number of its step, or in a block behind its indentation. -/
inductive Placed where
  | step (number : Nat) (c : Command)
  | item (indent : Nat) (c : Command)

/-- The command of a line. -/
def Placed.command : Placed → Command
  | step _ c => c
  | item _ c => c

/-- The text of a line. -/
def Placed.text : Placed → String
  | step number c => "step-" ++ toString number ++ ": " ++ c.text
  | item indent c => String.ofList (List.replicate indent ' ') ++ c.text

/-- The lines of commands in a block. -/
def orderLines (indent : Nat) (os : List Order) : List Placed :=
  os.map fun o => .item indent (.order o)

/-- The lines of an item: a nested block is indented two columns further. -/
def Item.lines (indent : Nat) : Item → List Placed
  | order o => [.item indent (.order o)]
  | branch c block _ => .item indent (.branch c) :: orderLines (indent + 2) block

/-- The lines of items. -/
def itemLines (indent : Nat) (items : List Item) : List Placed :=
  items.flatMap (Item.lines indent)

/-- What the first line of a step says. -/
def Part.command : Part → Command
  | order o => .order o
  | branch c _ _ => .branch c

/-- The items of the block of a step. -/
def Part.items : Part → List Item
  | order _ => []
  | branch _ block _ => block

/-- The lines of a step with the given number: its block is indented past the word `if`. -/
def Part.lines (number : Nat) (p : Part) : List Placed :=
  .step number p.command :: itemLines (Program.blockColumn (toString number).length) p.items

/-- The lines of steps, the first of which has the given number. -/
def partLines (number : Nat) : List Part → List Placed
  | [] => []
  | p :: ps => p.lines number ++ partLines (number + 1) ps

/-- The lines of a whole script: a start, the given steps and a stop. -/
def linesOf (parts : List Part) : List Placed :=
  .step 1 .start :: (partLines 2 parts ++ [.step (parts.length + 2) .stop])

/-! ## What it means -/

/-- The action of a command. -/
def Order.action (o : Order) : Action :=
  match o with
  | print value => .print ⟨value.text, 0, 0⟩
  | read name => .read name.name
  | assign name value => .assign name.name ⟨value.text, 0, 0⟩
  | jump target => .jump (some target) o.text

/-- The node of a command. -/
def Order.node (o : Order) : Node := .act default o.action

/-- The condition of a branch. -/
def Comparison.condition (c : Comparison) : Excerpt := ⟨"(" ++ c.text ++ ")", 0, 0⟩

/-- The node of an item. -/
def Item.node : Item → Node
  | order o => o.node
  | branch c block _ => .branch default c.condition (block.map Order.node)

/-- The node of a step. -/
def Part.node : Part → Node
  | order o => o.node
  | branch c block _ => .branch default c.condition (block.map Item.node)

/-- Steps with their numbers, the first of which is given. -/
def partSteps (number : Nat) : List Part → List Step
  | [] => []
  | p :: ps => ⟨number, p.node⟩ :: partSteps (number + 1) ps

end Script

/-- A program by its meaning: the steps between its start and its stop. -/
structure Script where
  parts : List Script.Part
  /-- There are at most ninety-nine steps. -/
  short : parts.length ≤ 97
  /-- Every jump has a target. -/
  targets : ∀ w ∈ Script.linesOf parts, ∀ k, w.command.target? = some k → 1 ≤ k ∧ k ≤ parts.length + 2
  /-- There are at most six names. -/
  fewNames : ((Script.linesOf parts).filterMap fun w => w.command.name?).eraseDups.length ≤ 6

namespace Script

/-- The lines of a script. -/
def lines (s : Script) : List Placed := linesOf s.parts

/-- The text of a script, with any number of line breaks at its end. -/
def text (s : Script) (breaks : Nat) : String :=
  "\n".intercalate (s.lines.map Placed.text ++ List.replicate breaks "")

/-- The steps of a script. -/
def steps (s : Script) : List Step :=
  ⟨1, .act default .start⟩ :: (partSteps 2 s.parts ++ [⟨s.parts.length + 2, .act default .stop⟩])

end Script

/-! ## Programs without their places -/

/-- A text without its place. -/
def Excerpt.unplaced (e : Excerpt) : Excerpt := ⟨e.text, 0, 0⟩

/-- An action without the places of its expressions. -/
def Action.unplaced : Action → Action
  | .print value => .print value.unplaced
  | .assign name value => .assign name value.unplaced
  | a => a

mutual

/-- A node without the places of its lines. -/
def Node.unplaced : Node → Node
  | .act _ a => .act default a.unplaced
  | .branch _ c block => .branch default c.unplaced (unplacedBlock block)

/-- A block without the places of its lines. -/
def unplacedBlock : List Node → List Node
  | [] => []
  | n :: ns => n.unplaced :: unplacedBlock ns

end

/-- A step without the places of its lines. -/
def Step.unplaced (s : Step) : Step := ⟨s.number, s.node.unplaced⟩

/-- The steps of a program without the places of its lines: their numbers, commands, names, texts, targets and blocks. -/
def Program.unplaced (p : Program) : List Step := p.steps.map Step.unplaced

end Stepwise
