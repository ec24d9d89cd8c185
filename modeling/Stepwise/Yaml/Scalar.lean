import Stepwise.Yaml.Resolve

/-!
# Strings in YAML

A string is written plain when it reads back as the same string, else between single or double quotes; a string with line
feeds is written as a literal block. Double quotes take escapes, so they can hold every string.
-/

namespace Stepwise.Yaml

/-- The characters that end a line. -/
def isBreak (c : Char) : Bool :=
  c == '\n' || c == '\r' || c == '\u0085' || c == '\u2028' || c == '\u2029'

/-- The characters that may stand in a text as they are. -/
def isPlainChar (c : Char) : Bool :=
  let n := c.toNat
  c == '\n' || (0x20 ≤ n && n ≤ 0x7E) || (0xA0 ≤ n && n ≤ 0xFFFD && n != 0xFEFF)

/-- Space or tab. -/
def isGap (c : Char) : Bool := c == ' ' || c == '\t'

/-- The characters that give a text another meaning when it begins with them. -/
def indicators : List Char :=
  ['#', ',', '[', ']', '\x7b', '\x7d', '&', '*', '!', '|', '>', '\'', '"', '%', '@', '\x60']

/-- The text gives itself another meaning by a character inside it: a colon before a gap or the end, or a number sign
after a gap or a break. `afterGap` tells of the character before. -/
def hasInnerMark (afterGap : Bool) : List Char → Bool
  | [] => false
  | c :: cs =>
    (c == ':' && cs.head?.all isGap) || (c == '#' && afterGap) ||
      hasInnerMark (isGap c || isBreak c || c == '\x00') cs

/-- The text has a character that gives it another meaning. -/
def hasIndicator (cs : List Char) : Bool :=
  match cs with
  | [] => false
  | c :: rest =>
    cs.take 3 == ['-', '-', '-'] || cs.take 3 == ['.', '.', '.'] || indicators.contains c ||
      ((c == '?' || c == ':' || c == '-') && rest.head?.all isGap) ||
      hasInnerMark (isGap c || isBreak c || c == '\x00') rest

/-- Two characters of the given classes follow each other. -/
def hasPair (p q : Char → Bool) : List Char → Bool
  | a :: b :: rest => (p a && q b) || hasPair p q (b :: rest)
  | _ => false

/-- Which ways of writing a string keep it as it is. -/
structure Allowed where
  plain : Bool
  single : Bool
  block : Bool
  deriving DecidableEq, Repr

/-- The ways of writing that keep a string as it is. -/
def allowed (cs : List Char) : Allowed :=
  let isSpace := fun (c : Char) => c == ' '
  let spaceBreak := hasPair isSpace isBreak cs
  let breakSpace := hasPair isBreak isSpace cs
  let tabs := cs.contains '\t'
  let special := cs.any fun c => !isPlainChar c && c != '\t'
  let edge := fun (c : Char) => isSpace c || isBreak c
  { plain := !(cs.head?.any edge || cs.getLast?.any edge || breakSpace || spaceBreak || tabs || special ||
      cs.any isBreak || hasIndicator cs)
    single := !(breakSpace || spaceBreak || tabs || special)
    block := !(cs.getLast?.any isSpace || spaceBreak || special) }

/-- How a string is written. -/
inductive Style where
  | plain
  | single
  | double
  | literal
  deriving DecidableEq, Repr, Inhabited

/-- The way a string is written; a key is never written as a block. -/
def styleOf (key : Bool) (s : String) : Style :=
  let cs := s.toList
  let ok := allowed cs
  if cs.contains '\n' then if ok.block && !key then .literal else .double
  else if readsAsOther s then .double
  else if ok.plain then .plain
  else if ok.single then .single
  else .double

/-- A number in base 16 with capital digits. -/
def upperHex (width n : Nat) : String :=
  String.ofList ((Text.hex width n).toList.map Char.toUpper)

/-- A character by its escape. -/
def escape (c : Char) : String :=
  let n := c.toNat
  match n with
  | 0x00 => "\\0"
  | 0x07 => "\\a"
  | 0x08 => "\\b"
  | 0x09 => "\\t"
  | 0x0A => "\\n"
  | 0x0B => "\\v"
  | 0x0C => "\\f"
  | 0x0D => "\\r"
  | 0x1B => "\\e"
  | 0x22 => "\\\""
  | 0x5C => "\\\\"
  | 0x85 => "\\N"
  | 0xA0 => "\\_"
  | 0x2028 => "\\L"
  | 0x2029 => "\\P"
  | _ =>
    if n ≤ 0xFF then "\\x" ++ upperHex 2 n else if n ≤ 0xFFFF then "\\u" ++ upperHex 4 n else "\\U" ++ upperHex 8 n

/-- A string between double quotes. After a byte order mark every character is escaped. -/
def doubleQuoted (cs : List Char) : String :=
  let marked := cs.head? == some '\ufeff'
  let char := fun (c : Char) =>
    if marked || !isPlainChar c || isBreak c || c == '"' || c == '\\' then escape c else c.toString
  "\"" ++ String.join (cs.map char) ++ "\""

/-- Spaces. -/
def spaces (n : Nat) : String := String.ofList (List.replicate n ' ')

/-- The characters of a string with the indentation put after its breaks, before the next character that is none. -/
def indented (indent : Nat) (fresh : Bool) (char : Char → String) : List Char → String
  | [] => ""
  | c :: cs =>
    if isBreak c then c.toString ++ indented indent true char cs
    else (if fresh then spaces indent else "") ++ char c ++ indented indent false char cs

/-- A string between single quotes, where a quote is written twice. -/
def singleQuoted (indent : Nat) (cs : List Char) : String :=
  "'" ++ indented indent false (fun c => if c == '\'' then "''" else c.toString) cs ++ "'"

/-- The hints of a literal block: the indentation when it begins with a space or a break, and what happens to the breaks
at its end. -/
def blockHints (cs : List Char) : String :=
  let lead := if cs.head?.any fun c => c == ' ' || isBreak c then "4" else ""
  let tail :=
    match cs.reverse with
    | [] => "-"
    | [c] => if isBreak c then "+" else "-"
    | c :: d :: _ => if !isBreak c then "-" else if isBreak d then "+" else ""
  lead ++ tail

/-- A string as a literal block. A break at its beginning also ends the line of its hints. -/
def literalBlock (indent : Nat) (cs : List Char) : String :=
  "|" ++ blockHints cs ++ (if cs.head?.any isBreak then "" else "\n") ++ indented indent true Char.toString cs

/-- A string in the way it is written. -/
def scalar (key : Bool) (indent : Nat) (s : String) : String :=
  match styleOf key s with
  | .plain => s
  | .single => singleQuoted indent s.toList
  | .double => doubleQuoted s.toList
  | .literal => literalBlock indent s.toList

end Stepwise.Yaml
