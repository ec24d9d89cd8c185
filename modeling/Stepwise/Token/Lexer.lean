import Stepwise.Token.Basic

/-!
# Reading tokens

`lex` cuts a text into tokens. Blanks between tokens are skipped and everything else belongs to exactly one token: each
step takes the `extent` of one token off the front of the text and leaves a shorter rest. A NUL character ends the text.
-/

namespace Stepwise.Token

/-- The blanks between tokens. -/
def isSpace (c : Char) : Bool :=
  c == ' ' || c == '\t' || c == '\r' || c == '\n'

/-- The operator that is written as the given character. -/
def arith? : Char → Option ArithOp
  | '+' => some .add
  | '-' => some .sub
  | '*' => some .mul
  | '/' => some .div
  | '%' => some .mod
  | _ => none

/-- The characters that end a word. -/
def isDelimiter (c : Char) : Bool :=
  isSpace c || (arith? c).isSome || c == '(' || c == ')' || c == '"' || c == '=' || c == '!' || c == '<' || c == '>'

/-- A token cut off the front of a text: what it says, the characters it covers, and the rest. -/
structure Cut where
  lexeme : Lexeme
  extent : List Char
  rest : List Char
  deriving DecidableEq, Repr

/-- A string literal after its opening quote: its value, the characters up to and with its closing quote, and the rest.
A backslash before `n` means a newline and before a quote the quote; any other backslash stands for itself. -/
def literal? : List Char → Option (List Char × List Char × List Char)
  | [] => none
  | '"' :: cs => some ([], ['"'], cs)
  | '\\' :: 'n' :: cs => (literal? cs).map fun (v, e, r) => ('\n' :: v, '\\' :: 'n' :: e, r)
  | '\\' :: '"' :: cs => (literal? cs).map fun (v, e, r) => ('"' :: v, '\\' :: '"' :: e, r)
  | c :: cs => (literal? cs).map fun (v, e, r) => (c :: v, c :: e, r)

/-- A token that begins with `c` and is followed by an equals sign or not. -/
def cutPair (c : Char) (paired alone : Lexeme) : List Char → Cut
  | '=' :: cs => ⟨paired, [c, '='], cs⟩
  | cs => ⟨alone, [c], cs⟩

/-- A word: everything up to the next delimiter. -/
def cutWord (c : Char) (cs : List Char) : Cut :=
  let word := c :: cs.takeWhile fun d => !isDelimiter d
  let text := String.ofList word
  ⟨if c.isDigit then .number text else .name text, word, cs.dropWhile fun d => !isDelimiter d⟩

/-- The token at the front of a text that begins with the character `c`, which is not a blank. -/
def cut (c : Char) (cs : List Char) : Cut :=
  if c = '"' then
    match literal? cs with
    | some (v, e, r) => ⟨.literal (String.ofList v), c :: e, r⟩
    | none => ⟨.unterminated, c :: cs, []⟩
  else if c = '=' then cutPair c (.compare .eq) (.stray c) cs
  else if c = '!' then cutPair c (.compare .ne) (.stray c) cs
  else if c = '<' then cutPair c (.compare .le) (.compare .lt) cs
  else if c = '>' then cutPair c (.compare .ge) (.compare .gt) cs
  else if c = '(' then ⟨.opening, [c], cs⟩
  else if c = ')' then ⟨.closing, [c], cs⟩
  else match arith? c with
    | some op => ⟨.arith op, [c], cs⟩
    | none => cutWord c cs

/-- A closed literal and the rest make up the text after the opening quote. -/
theorem literal?_append {cs v e r : List Char} (h : literal? cs = some (v, e, r)) : e ++ r = cs ∧ e ≠ [] := by
  fun_induction literal? cs generalizing v e r with
  | case1 => simp at h
  | case2 cs =>
    obtain ⟨-, rfl, rfl⟩ := by simpa using h
    simp
  | case3 cs ih =>
    obtain ⟨⟨v', e', r'⟩, h', heq⟩ := Option.map_eq_some_iff.1 h
    obtain ⟨-, rfl, rfl⟩ := by simpa using heq
    simp [ih h']
  | case4 cs ih =>
    obtain ⟨⟨v', e', r'⟩, h', heq⟩ := Option.map_eq_some_iff.1 h
    obtain ⟨-, rfl, rfl⟩ := by simpa using heq
    simp [ih h']
  | case5 c cs _ _ _ ih =>
    obtain ⟨⟨v', e', r'⟩, h', heq⟩ := Option.map_eq_some_iff.1 h
    obtain ⟨-, rfl, rfl⟩ := by simpa using heq
    simp [ih h']

/-- The extent of a token and the rest make up the text. -/
theorem cutPair_append (c : Char) (paired alone : Lexeme) (cs : List Char) :
    (cutPair c paired alone cs).extent ++ (cutPair c paired alone cs).rest = c :: cs := by
  unfold cutPair
  split <;> rfl

/-- A token takes its extent off the front of the text and loses nothing. -/
theorem cut_append (c : Char) (cs : List Char) : (cut c cs).extent ++ (cut c cs).rest = c :: cs := by
  unfold cut
  split
  · split
    · rename_i v e r h
      simp [(literal?_append h).1]
    · simp
  · split
    · exact cutPair_append ..
    · split
      · exact cutPair_append ..
      · split
        · exact cutPair_append ..
        · split
          · exact cutPair_append ..
          · split
            · rfl
            · split
              · rfl
              · split
                · rfl
                · simp [cutWord, List.takeWhile_append_dropWhile]

/-- A token covers at least one character. -/
theorem cut_extent_ne_nil (c : Char) (cs : List Char) : (cut c cs).extent ≠ [] := by
  unfold cut cutPair cutWord
  repeat' split
  all_goals simp

/-- A token leaves a shorter text. -/
theorem length_cut_rest (c : Char) (cs : List Char) : (cut c cs).rest.length < (c :: cs).length := by
  have h := congrArg List.length (cut_append c cs)
  have hne := List.length_pos_iff.2 (cut_extent_ne_nil c cs)
  simp only [List.length_append] at h
  omega

/-- The tokens of a text that starts at the given place, and the place where it ends. -/
def lexFrom (p : Pos) : List Char → List Token × Pos
  | [] => ([], p)
  | c :: cs =>
    if isSpace c then lexFrom (p.next c) cs
    else
      let t := cut c cs
      let r := lexFrom (p.after t.extent) t.rest
      (⟨t.lexeme, p⟩ :: r.1, r.2)
termination_by cs => cs.length
decreasing_by
  · simp
  · exact length_cut_rest c cs

/-- The part of a text before its first NUL character. -/
def readable (cs : List Char) : List Char :=
  cs.takeWhile fun c => c != '\x00'

/-- The tokens of a text, without the mark of its end, and the place where it ends. -/
def lex (s : String) : List Token × Pos :=
  lexFrom Pos.start (readable s.toList)

/-- The tokens of a text, with the mark of its end. -/
def tokenize (s : String) : List Token :=
  (lex s).1 ++ [⟨.finish, (lex s).2⟩]

end Stepwise.Token
