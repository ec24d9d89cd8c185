import Stepwise.Log.Basic

/-!
# Lines of a log

A record is one line, as text for a reader or as JSON for a file. The text shows words as they are and quotes the others;
the JSON escapes what JSON strings cannot hold and the two line separators.
-/

namespace Stepwise.Log

/-- The character stands in an unquoted word. -/
def isWordChar (c : Char) : Bool :=
  if c.toNat < 0x80 then c.toNat > 0x20 && c != '"' && c != '='
  else c != '\ufffd' && !Text.isBlank c && Text.isPrintable c

/-- A key or a value in a text line, quoted if it is empty or has a character that no word has. -/
def word (s : String) : String :=
  if s ≠ "" ∧ s.toList.all isWordChar then s else Text.quote s

/-- A value in a text line. -/
def Datum.word : Datum → String
  | .text s => Log.word s
  | .number n => toString n

/-- A record as a line of text. -/
def Record.textLine (r : Record) : String :=
  "level=" ++ r.level.text ++ " msg=" ++ word r.message ++
    String.join (r.attributes.map fun a => " " ++ word a.1 ++ "=" ++ a.2.word) ++ "\n"

/-- A character inside a JSON string. -/
def jsonChar (c : Char) : String :=
  match c with
  | '"' => "\\\""
  | '\\' => "\\\\"
  | '\n' => "\\n"
  | '\r' => "\\r"
  | '\t' => "\\t"
  | c =>
    if c.toNat < 0x20 ∨ c = '\u2028' ∨ c = '\u2029' then "\\u" ++ Text.hex 4 c.toNat else c.toString

/-- A text as a JSON string. -/
def jsonString (s : String) : String :=
  "\"" ++ String.join (s.toList.map jsonChar) ++ "\""

/-- A value as JSON. -/
def Datum.json : Datum → String
  | .text s => jsonString s
  | .number n => toString n

/-- A record as a line of JSON. -/
def Record.jsonLine (r : Record) : String :=
  "\x7b\"level\":" ++ jsonString r.level.text ++ ",\"msg\":" ++ jsonString r.message ++
    String.join (r.attributes.map fun a => "," ++ jsonString a.1 ++ ":" ++ a.2.json) ++ "\x7d\n"

/-- The text of the records at or above a level. -/
def text (l : Level) (rs : List Record) : String :=
  String.join ((rs.filter (Record.atLeast l)).map Record.textLine)

/-- All records as JSON. -/
def json (rs : List Record) : String :=
  String.join (rs.map Record.jsonLine)

end Stepwise.Log
