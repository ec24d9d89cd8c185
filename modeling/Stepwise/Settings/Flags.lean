import Stepwise.Text.Quoted
import Stepwise.Text.Radix
import Stepwise.Text.Trim

/-!
# Flags

A command line starts with flags, `-name value` or `-name=value` with one dash or two; the rest are its operands. A switch
has no value of its own. Two dashes alone end the flags.
-/

namespace Stepwise.Settings

/-- The value of a flag. -/
inductive FlagValue where
  | text (s : String)
  | whole (n : Int)
  | switch (b : Bool)
  deriving DecidableEq, Repr, Inhabited

/-- A flag: its name, what it is for, and its value when it is not given. -/
structure Flag where
  name : String
  purpose : String
  default : FlagValue
  deriving DecidableEq, Repr, Inhabited

/-- Why a command line is refused. -/
inductive FlagFault where
  | help
  | badForm (arg : String)
  | unknown (name : String)
  | needsValue (name : String)
  | badValue (value name : String) (fault : Text.NumberFault)
  | badSwitch (value name : String)
  deriving DecidableEq, Repr, Inhabited

/-- Why a number cannot be taken. -/
def numberCause : Text.NumberFault → String
  | .form => "parse error"
  | .range => "value out of range"

/-- The message of a refused command line. -/
def FlagFault.message : FlagFault → String
  | help => "flag: help requested"
  | badForm arg => "bad flag syntax: " ++ arg
  | unknown name => "flag provided but not defined: -" ++ name
  | needsValue name => "flag needs an argument: -" ++ name
  | badValue value name fault =>
    "invalid value " ++ Text.quote value ++ " for flag -" ++ name ++ ": " ++ numberCause fault
  | badSwitch value name => "invalid boolean value " ++ Text.quote value ++ " for -" ++ name ++ ": parse error"

namespace Flag

/-- Reads the state of a switch. -/
def readSwitch? (s : String) : Option Bool :=
  if ["1", "t", "T", "TRUE", "true", "True"].contains s then some true
  else if ["0", "f", "F", "FALSE", "false", "False"].contains s then some false
  else none

/-- The flag is a switch. -/
def isSwitch (f : Flag) : Bool :=
  match f.default with
  | .switch _ => true
  | _ => false

/-- Reads a value for the flag. -/
def readValue (f : Flag) (s : String) : Except FlagFault FlagValue :=
  match f.default with
  | .text _ => .ok (.text s)
  | .whole _ =>
    match Text.readSigned s.toList with
    | .ok n => .ok (.whole n)
    | .error e => .error (.badValue s f.name e)
  | .switch _ =>
    match readSwitch? s with
    | some b => .ok (.switch b)
    | none => .error (.badSwitch s f.name)

/-- What an argument is: the end of the flags, or a flag with its name and its value, if one is joined to it. -/
inductive Shape where
  | operand
  | stop
  | flag (name : String) (value : Option String)
  | bad
  deriving DecidableEq, Repr, Inhabited

/-- The name and the joined value of a flag without its dashes. -/
def shapeOfName (cs : List Char) : Shape :=
  match cs with
  | [] => .bad
  | c :: _ =>
    if c = '-' ∨ c = '=' then .bad
    else
      let name := cs.takeWhile (· != '=')
      .flag (String.ofList name)
        (if name.length < cs.length then some (String.ofList (cs.drop (name.length + 1))) else none)

/-- What an argument is. -/
def shape (arg : String) : Shape :=
  match arg.toList with
  | ['-', '-'] => .stop
  | '-' :: '-' :: rest => shapeOfName rest
  | '-' :: c :: rest => shapeOfName (c :: rest)
  | _ => .operand

/-- Reads a command line: the values given, in their order, and the operands. -/
def readAll (flags : List Flag) : List String → Except FlagFault (List (String × FlagValue) × List String)
  | [] => .ok ([], [])
  | arg :: rest =>
    match shape arg with
    | .operand => .ok ([], arg :: rest)
    | .stop => .ok ([], rest)
    | .bad => .error (.badForm arg)
    | .flag name joined =>
      match flags.find? (·.name == name) with
      | none => .error (if name = "help" ∨ name = "h" then .help else .unknown name)
      | some f =>
        match if f.isSwitch then some (joined.getD "true") else joined with
        | some value => do
          let v ← f.readValue value
          let (given, operands) ← readAll flags rest
          return ((name, v) :: given, operands)
        | none =>
          match rest with
          | [] => .error (.needsValue name)
          | value :: rest => do
            let v ← f.readValue value
            let (given, operands) ← readAll flags rest
            return ((name, v) :: given, operands)

/-- The kind of value that the help names. -/
def kindText (f : Flag) : String :=
  match f.default with
  | .text _ => " string"
  | .whole _ => " int"
  | .switch _ => ""

/-- The default that the help shows; an empty one is not shown. -/
def defaultText (f : Flag) : String :=
  match f.default with
  | .text s => if s = "" then "" else " (default " ++ Text.quote s ++ ")"
  | .whole n => if n = 0 then "" else " (default " ++ toString n ++ ")"
  | .switch b => if b then " (default true)" else ""

/-- A flag in the help. -/
def helpText (f : Flag) : String :=
  "  -" ++ f.name ++ f.kindText ++ "\n    \t" ++ f.purpose ++ f.defaultText ++ "\n"

/-- The help on the flags of a command. -/
def help (command : String) (flags : List Flag) : String :=
  "Usage of " ++ command ++ ":\n" ++ String.join (flags.map helpText)

end Flag

end Stepwise.Settings
