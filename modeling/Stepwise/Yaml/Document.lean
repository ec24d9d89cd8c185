import Stepwise.Yaml.Scalar

/-!
# YAML documents

Mappings and sequences in block form. What stands inside another mapping is indented to the next multiple of four, what
stands inside a sequence by two. An empty mapping or sequence is written in brackets.
-/

namespace Stepwise

/-- A YAML document. -/
inductive Yaml where
  /-- A string. -/
  | text (s : String)
  /-- A number or a truth value, by its text. -/
  | plain (s : String)
  | map (entries : List (String × Yaml))
  | seq (items : List Yaml)

namespace Yaml

/-- The output stands at the beginning of a line. -/
def atLineStart (out : String) : Bool :=
  out.back?.all isBreak

/-- Goes to a column of a new line. -/
def openLine (indent : Nat) (out : String) : String :=
  (if atLineStart out then out else out ++ "\n") ++ spaces indent

/-- The indentation of what stands inside a mapping. -/
def insideMap (indent : Nat) : Nat := 4 * ((indent + 4) / 4)

/-- The indentation of what stands inside a sequence. -/
def insideSeq (indent : Nat) : Nat := indent + 2

/-- How many bytes a key may have that is written before its colon on one line. -/
def simpleKeyLimit : Nat := 128

/-- Writes a key and its colon. A key that is long or has breaks stands on a line of its own after a question mark. -/
def writeKey (indent : Nat) (out : String) (k : String) : String :=
  if k.toList.any isBreak || simpleKeyLimit < k.utf8ByteSize then
    openLine indent (out ++ "? " ++ scalar false (insideMap indent) k) ++ ":"
  else out ++ scalar true (insideMap indent) k ++ ":"

mutual

/-- Writes a document after the colon of a key or the dash of an item; `indent` is its own indentation. -/
def write (indent : Nat) (item : Bool) (out : String) : Yaml → String
  | .text s => out ++ " " ++ scalar false indent s
  | .plain s => out ++ " " ++ s
  | .map [] => out ++ " \x7b\x7d"
  | .map (e :: es) => writeEntries indent item out (e :: es)
  | .seq [] => out ++ " []"
  | .seq (x :: xs) => writeItems indent out (x :: xs)

/-- Writes the entries of a mapping; the first one may go on in the line of a dash. -/
def writeEntries (indent : Nat) (inLine : Bool) (out : String) : List (String × Yaml) → String
  | [] => out
  | (k, v) :: es =>
    let start := if inLine then out ++ " " else openLine indent out
    writeEntries indent false (write (insideMap indent) false (writeKey indent start k) v) es

/-- Writes the items of a sequence. -/
def writeItems (indent : Nat) (out : String) : List Yaml → String
  | [] => out
  | x :: xs => writeItems indent (write (insideSeq indent) true (openLine indent out ++ "-") x) xs

end

/-- The text of a mapping as a whole document. -/
def document (entries : List (String × Yaml)) : String :=
  openLine 0 (writeEntries 0 false "" entries)

end Yaml

end Stepwise
