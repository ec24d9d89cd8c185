import Stepwise.Check.Content
import Stepwise.Proofs.Cutting
import Stepwise.Proofs.Seams

/-!
# The grammar of expressions and the text of conditions

The grammar of expressions is stated on what the tokens say, apart from the reader. A condition is two expressions with a
comparison between them. Its characters show this: the comparison is written in it, and no pair of parentheses encloses it, since
those before the comparison are balanced. The check counts the parentheses outside string literals on its own, and it sees the same
literals as the reader unless a literal holds two backslashes in a row.
-/

namespace Stepwise

namespace Expr

/-- The phrases of the grammar. -/
inductive Category where
  | operand
  | chain
  deriving DecidableEq, Repr

/-- The tokens form an operand, or a chain of operands with operators between them. -/
inductive Derives : Category → List Lexeme → Prop where
  | literal (value : String) : Derives .operand [.literal value]
  | number (text : String) : Derives .operand [.number text]
  | name (text : String) : Derives .operand [.name text]
  | neg {ls : List Lexeme} (inner : Derives .operand ls) : Derives .operand (.arith .sub :: ls)
  | group {ls : List Lexeme} (inner : Derives .chain ls) : Derives .operand (.opening :: (ls ++ [.closing]))
  | single {ls : List Lexeme} (only : Derives .operand ls) : Derives .chain ls
  | append {ls ms : List Lexeme} (left : Derives .chain ls) (op : ArithOp) (right : Derives .operand ms) :
      Derives .chain (ls ++ .arith op :: ms)

/-- The parentheses of a phrase are balanced. -/
theorem Derives.count_opening {k : Category} {ls : List Lexeme} (h : Derives k ls) :
    ls.count .opening = ls.count .closing := by
  induction h with
  | literal => rfl
  | number => rfl
  | name => rfl
  | neg _ ih => simpa using ih
  | group _ ih => simpa using ih
  | single _ ih => exact ih
  | append _ _ _ ihl ihr => simp [ihl, ihr]

end Expr

namespace Check

/-! ## Parentheses outside string literals -/

/-- A string literal after its opening quote, as the check passes over it: a backslash takes the next character with it. -/
inductive Quoted : List Char → Prop where
  | close : Quoted ['"']
  | escape {d : Char} {cs : List Char} (rest : Quoted cs) : Quoted ('\\' :: d :: cs)
  | plain {c : Char} {cs : List Char} (backslash : c ≠ '\\') (quote : c ≠ '"') (rest : Quoted cs) : Quoted (c :: cs)

/-- A text that ends outside string literals, with the numbers of opening and closing parentheses outside of them. -/
inductive Passed : List Char → Nat → Nat → Prop where
  | nil : Passed [] 0 0
  | opening {cs : List Char} {o k : Nat} (rest : Passed cs o k) : Passed ('(' :: cs) (o + 1) k
  | closing {cs : List Char} {o k : Nat} (rest : Passed cs o k) : Passed (')' :: cs) o (k + 1)
  | plain {c : Char} {cs : List Char} {o k : Nat} (opening : c ≠ '(') (closing : c ≠ ')') (quote : c ≠ '"')
      (rest : Passed cs o k) : Passed (c :: cs) o k
  | literal {e cs : List Char} {o k : Nat} (quoted : Quoted e) (rest : Passed cs o k) : Passed ('"' :: (e ++ cs)) o k

/-- The check sees the string literals that the reader sees: there are none, or no two backslashes follow each other. -/
def Legible (cs : List Char) : Prop := '"' ∈ cs → ¬ ['\\', '\\'] <:+: cs

/-- A part of a legible text is legible. -/
theorem Legible.of_infix {cs part : List Char} (h : Legible cs) (hpart : part <:+: cs) : Legible part := by
  intro hquote hpair
  exact h (hpart.subset hquote) (hpair.trans hpart)

/-- The check leaves a literal at its closing quote. -/
theorem Quoted.closesAtEnd_append {e : List Char} (h : Quoted e) (depth : Nat) (after : List Char) :
    closesAtEnd depth true (e ++ after) = closesAtEnd depth false after := by
  induction h with
  | close =>
    rw [List.cons_append, closesAtEnd.eq_def]
    simp
  | escape _ ih =>
    rw [List.cons_append, List.cons_append, closesAtEnd.eq_def]
    simpa using ih
  | plain backslash quote _ ih =>
    rw [List.cons_append, closesAtEnd.eq_def]
    simpa [backslash, quote] using ih

/-- What the reader takes for a literal without two backslashes in a row, the check takes for one too. -/
theorem quoted_of_literal? {cs v e r : List Char} (h : Token.literal? cs = some (v, e, r)) (hpair : ¬ ['\\', '\\'] <:+: cs) :
    Quoted e := by
  fun_induction Token.literal? cs generalizing v e r with
  | case1 => cases h
  | case2 cs =>
    cases h
    exact .close
  | case3 cs ih =>
    obtain ⟨⟨v', e', r'⟩, h', heq⟩ := Option.map_eq_some_iff.1 h
    cases heq
    exact .escape (ih h' fun hlater => hpair (hlater.trans (List.suffix_append ['\\', 'n'] cs).isInfix))
  | case4 cs ih =>
    obtain ⟨⟨v', e', r'⟩, h', heq⟩ := Option.map_eq_some_iff.1 h
    cases heq
    exact .escape (ih h' fun hlater => hpair (hlater.trans (List.suffix_append ['\\', '"'] cs).isInfix))
  | case5 c cs hquote hnewline hescape ih =>
    obtain ⟨⟨v', e', r'⟩, h', heq⟩ := Option.map_eq_some_iff.1 h
    cases heq
    have hrest : Quoted e' := ih h' fun hlater => hpair (hlater.trans (List.suffix_append [c] cs).isInfix)
    have htext : e' ++ r = cs := (Token.literal?_append h').1
    by_cases hc : c = '\\'
    · -- the character behind this backslash is read on its own, so it is neither a quote nor a backslash
      subst hc
      cases hrest with
      | close => exact (hescape r rfl htext.symm).elim
      | escape rest => exact (hpair ⟨[], _, by rw [← htext]; rfl⟩).elim
      | plain _ _ rest => exact .escape rest
    · exact .plain hc hquote hrest

namespace Passed

/-- The parentheses of two texts add up. -/
theorem append {as bs : List Char} {o k o' k' : Nat} (h : Passed as o k) (h' : Passed bs o' k') :
    Passed (as ++ bs) (o + o') (k + k') := by
  induction h with
  | nil => simpa using h'
  | opening _ ih =>
    rw [Nat.add_right_comm]
    exact .opening ih
  | closing _ ih =>
    rw [Nat.add_right_comm]
    exact .closing ih
  | plain hopening hclosing hquote _ ih => exact .plain hopening hclosing hquote ih
  | literal quoted _ ih =>
    rw [List.cons_append, List.append_assoc]
    exact .literal quoted ih

/-- In a text without quotes every parenthesis counts. -/
theorem of_notMem {cs : List Char} (h : '"' ∉ cs) : Passed cs (cs.count '(') (cs.count ')') := by
  induction cs with
  | nil => exact .nil
  | cons c cs ih =>
    rw [List.mem_cons, not_or] at h
    have hrest := ih h.2
    by_cases hopening : c = '('
    · subst hopening
      rw [List.count_cons_self, List.count_cons_of_ne (by decide)]
      exact .opening hrest
    by_cases hclosing : c = ')'
    · subst hclosing
      rw [List.count_cons_self, List.count_cons_of_ne (by decide)]
      exact .closing hrest
    · rw [List.count_cons_of_ne hopening, List.count_cons_of_ne hclosing]
      exact .plain hopening hclosing (Ne.symm h.1) hrest

/-- Blanks in front do not count. -/
theorem dropWhile_isBlank {cs : List Char} {o k : Nat} (h : Passed cs o k) : Passed (cs.dropWhile Text.isBlank) o k := by
  induction h with
  | nil => exact .nil
  | opening rest _ =>
    rw [List.dropWhile_cons_of_neg (by decide)]
    exact .opening rest
  | closing rest _ =>
    rw [List.dropWhile_cons_of_neg (by decide)]
    exact .closing rest
  | @plain c cs o k hopening hclosing hquote rest ih =>
    rw [List.dropWhile_cons]
    split
    · exact ih
    · exact .plain hopening hclosing hquote rest
  | literal quoted rest _ =>
    rw [List.dropWhile_cons_of_neg (by decide)]
    exact .literal quoted rest

/-- The enclosing parenthesis is open in front of everything but the end. -/
theorem lt_of_closesAtEnd {before after : List Char} {o k depth : Nat} (hpassed : Passed before o k) (hdepth : 0 < depth)
    (hafter : after ≠ []) (h : closesAtEnd depth false (before ++ after) = true) : k < depth + o := by
  induction hpassed generalizing depth with
  | nil => exact hdepth
  | @opening cs o k rest ih =>
    rw [List.cons_append, closesAtEnd.eq_def] at h
    have hlater := ih (Nat.succ_pos depth) (by simpa using h)
    omega
  | @closing cs o k rest ih =>
    rw [List.cons_append, closesAtEnd.eq_def] at h
    by_cases hone : depth = 1
    · exact absurd (by simpa [hone] using h) (fun hnil : cs = [] ∧ after = [] => hafter hnil.2)
    · have hpos : 0 < depth - 1 := by omega
      have hlater := ih hpos (by simpa [hone] using h)
      omega
  | plain hopening hclosing hquote rest ih =>
    rw [List.cons_append, closesAtEnd.eq_def] at h
    exact ih hdepth (by simpa [hopening, hclosing, hquote] using h)
  | @literal e cs o k quoted rest ih =>
    rw [List.cons_append, closesAtEnd.eq_def] at h
    have hclosed : closesAtEnd depth true (e ++ cs ++ after) = true := by simpa using h
    rw [List.append_assoc, quoted.closesAtEnd_append] at hclosed
    exact ih hdepth hclosed

end Passed

/-- A text is not wrapped when its parentheses are all closed before a character inside it. -/
theorem isWrapped_eq_false {before after : List Char} {d : Char} {o k : Nat} (hpassed : Passed before o k) (hclosed : o ≤ k)
    (hd : d ≠ '(') : isWrapped (before ++ d :: after) = false := by
  rw [← Bool.not_eq_true]
  intro hwrapped
  cases hpassed with
  | nil =>
    unfold isWrapped at hwrapped
    split at hwrapped
    · rename_i hcs
      exact hd (List.cons.inj hcs).1
    · cases hwrapped
  | opening rest =>
    have hopen := rest.lt_of_closesAtEnd Nat.one_pos (List.cons_ne_nil d after) hwrapped
    omega
  | closing => cases hwrapped
  | plain hopening =>
    unfold isWrapped at hwrapped
    split at hwrapped
    · rename_i hcs
      exact hopening (List.cons.inj hcs).1
    · cases hwrapped
  | literal => cases hwrapped

end Check

/-- The sign of a comparison is no parenthesis and has no blanks. -/
theorem CompareOp.symbol_eq_cons (op : CompareOp) :
    ∃ d ds, op.symbol.toList = d :: ds ∧ d ≠ '(' ∧ ∀ c ∈ d :: ds, Text.isBlank c = false := by
  have hfilled : ∀ c ∈ op.symbol.toList, Text.isBlank c = false := by
    have hall : (op.symbol.toList.all fun c => !Text.isBlank c) = true := by cases op <;> decide
    intro c hc
    simpa using List.all_eq_true.1 hall c hc
  cases op
  all_goals exact ⟨_, _, rfl, by decide, hfilled⟩

namespace Token

/-! ## Tokens and parentheses -/

/-- A token cut off a text keeps to its characters: a comparison covers its own sign, a parenthesis is covered only by the
token that says so, and there are no quotes and no open literals. -/
structure Cut.Faithful (t : Cut) : Prop where
  compare : ∀ op, t.lexeme = .compare op → t.extent = op.symbol.toList
  opening : t.extent.count '(' = [t.lexeme].count .opening
  closing : t.extent.count ')' = [t.lexeme].count .closing
  plain : '"' ∉ t.extent
  closed : t.lexeme ≠ .unterminated

/-- A sign that an equals sign may follow is cut faithfully when both of its readings are. -/
theorem cutPair_faithful {c : Char} {paired alone : Lexeme} (hpaired : Cut.Faithful ⟨paired, [c, '='], []⟩)
    (halone : Cut.Faithful ⟨alone, [c], []⟩) (cs : List Char) : (cutPair c paired alone cs).Faithful := by
  unfold cutPair
  split
  · exact ⟨hpaired.compare, hpaired.opening, hpaired.closing, hpaired.plain, hpaired.closed⟩
  · exact ⟨halone.compare, halone.opening, halone.closing, halone.plain, halone.closed⟩

/-- A word has no parentheses and no quotes. -/
theorem cutWord_faithful {c : Char} (hopening : c ≠ '(') (hclosing : c ≠ ')') (hquote : c ≠ '"') (cs : List Char) :
    (cutWord c cs).Faithful := by
  have hword : ∀ a : Char, c ≠ a → isDelimiter a = true → a ∉ c :: cs.takeWhile fun d => !isDelimiter d := by
    intro a hc ha hmem
    rcases List.mem_cons.1 hmem with rfl | hmem
    · exact hc rfl
    · have hplain := List.mem_takeWhile_imp (p := fun d => !isDelimiter d) hmem
      rw [ha] at hplain
      cases hplain
  unfold cutWord
  refine ⟨?_, ?_, ?_, hword _ hquote (by decide), ?_⟩
  · intro op h
    dsimp only at h
    split at h <;> cases h
  · rw [List.count_eq_zero.2 (hword _ hopening (by decide))]
    dsimp only
    split <;> rfl
  · rw [List.count_eq_zero.2 (hword _ hclosing (by decide))]
    dsimp only
    split <;> rfl
  · dsimp only
    split <;> simp

/-- Outside string literals every token is cut faithfully. -/
theorem cut_faithful {c : Char} (hquote : c ≠ '"') (cs : List Char) : (cut c cs).Faithful := by
  unfold cut
  rw [if_neg hquote]
  split
  · rename_i h
    subst h
    exact cutPair_faithful ⟨(fun op h => by cases h; rfl), rfl, rfl, by simp, by simp⟩
      ⟨(fun op h => by cases h), rfl, rfl, by simp, by simp⟩ cs
  split
  · rename_i h
    subst h
    exact cutPair_faithful ⟨(fun op h => by cases h; rfl), rfl, rfl, by simp, by simp⟩
      ⟨(fun op h => by cases h), rfl, rfl, by simp, by simp⟩ cs
  split
  · rename_i h
    subst h
    exact cutPair_faithful ⟨(fun op h => by cases h; rfl), rfl, rfl, by simp, by simp⟩
      ⟨(fun op h => by cases h; rfl), rfl, rfl, by simp, by simp⟩ cs
  split
  · rename_i h
    subst h
    exact cutPair_faithful ⟨(fun op h => by cases h; rfl), rfl, rfl, by simp, by simp⟩
      ⟨(fun op h => by cases h; rfl), rfl, rfl, by simp, by simp⟩ cs
  split
  · rename_i h
    subst h
    exact ⟨(fun op h => by cases h), rfl, rfl, by simp, by simp⟩
  split
  · rename_i h
    subst h
    exact ⟨(fun op h => by cases h), rfl, rfl, by simp, by simp⟩
  split
  · rename_i hopening hclosing _ op _
    refine ⟨(fun op h => by cases h), ?_, ?_, ?_, by simp⟩
    · simp [hopening]
    · simp [hclosing]
    · simpa using Ne.symm hquote
  · rename_i hopening hclosing _ _
    exact cutWord_faithful hopening hclosing hquote cs

/-- A token that begins with a quote is a string literal: one that is closed, or one that takes the rest of the text. -/
theorem cut_quote (cs : List Char) :
    (∃ v e r, literal? cs = some (v, e, r) ∧ cut '"' cs = ⟨.literal (String.ofList v), '"' :: e, r⟩) ∨
      literal? cs = none ∧ cut '"' cs = ⟨.unterminated, '"' :: cs, []⟩ := by
  unfold cut
  rw [if_pos rfl]
  cases literal? cs with
  | none => exact .inr ⟨rfl, rfl⟩
  | some parts => exact .inl ⟨_, _, _, rfl, rfl⟩

/-- A comparison covers its own sign. -/
theorem extent_of_compare {c : Char} {cs : List Char} {op : CompareOp} (h : (cut c cs).lexeme = .compare op) :
    (cut c cs).extent = op.symbol.toList := by
  by_cases hquote : c = '"'
  · subst hquote
    rcases cut_quote cs with ⟨v, e, r, -, hcut⟩ | ⟨-, hcut⟩
    · rw [hcut] at h
      cases h
    · rw [hcut] at h
      cases h
  · exact (cut_faithful hquote cs).compare op h

/-- Nothing is left behind a string literal that is not closed. -/
theorem rest_of_unterminated {c : Char} {cs : List Char} (h : (cut c cs).lexeme = .unterminated) : (cut c cs).rest = [] := by
  by_cases hquote : c = '"'
  · subst hquote
    rcases cut_quote cs with ⟨v, e, r, -, hcut⟩ | ⟨-, hcut⟩
    · rw [hcut] at h
      cases h
    · rw [hcut]
  · exact absurd h (cut_faithful hquote cs).closed

/-- The check passes over a token as the reader does. -/
theorem passed_cut {c : Char} {cs : List Char} (hlegible : Check.Legible (c :: cs)) (h : (cut c cs).lexeme ≠ .unterminated) :
    Check.Passed (cut c cs).extent ([(cut c cs).lexeme].count .opening) ([(cut c cs).lexeme].count .closing) := by
  by_cases hquote : c = '"'
  · subst hquote
    rcases cut_quote cs with ⟨v, e, r, hliteral, hcut⟩ | ⟨-, hcut⟩
    · have hpair : ¬ ['\\', '\\'] <:+: cs := by
        intro hmem
        exact hlegible List.mem_cons_self (hmem.trans (List.suffix_cons '"' cs).isInfix)
      have hpassed := Check.Passed.literal (Check.quoted_of_literal? hliteral hpair) .nil
      rw [List.append_nil] at hpassed
      rw [hcut]
      exact hpassed
    · exact absurd (congrArg Cut.lexeme hcut) h
  · have hfaithful := cut_faithful hquote cs
    rw [← hfaithful.opening, ← hfaithful.closing]
    exact .of_notMem hfaithful.plain

/-- Where the tokens of a text have a comparison, the text has its sign, and the check has passed over the same parentheses before
it. -/
theorem lexFrom_compare {p : Pos} {cs : List Char} {left right : List Lexeme} {op : CompareOp}
    (h : (lexFrom p cs).1.map Token.lexeme = left ++ .compare op :: right) :
    ∃ before after, cs = before ++ (op.symbol.toList ++ after) ∧
      (Check.Legible cs → Check.Passed before (left.count .opening) (left.count .closing)) := by
  fun_induction lexFrom p cs generalizing left with
  | case1 => simp at h
  | case2 p c cs hspace ih =>
    obtain ⟨before, after, hcs, hpassed⟩ := ih h
    refine ⟨c :: before, after, by rw [hcs, List.cons_append], ?_⟩
    intro hlegible
    refine .plain ?_ ?_ ?_ (hpassed (hlegible.of_infix (List.suffix_cons c cs).isInfix))
    · rintro rfl
      cases hspace
    · rintro rfl
      cases hspace
    · rintro rfl
      cases hspace
  | case3 p c cs hspace t r =>
    rename_i ih
    have htext : c :: cs = t.extent ++ t.rest := (cut_append c cs).symm
    rw [List.map_cons] at h
    cases left with
    | nil =>
      obtain ⟨hlexeme, _⟩ := List.cons.inj h
      refine ⟨[], t.rest, ?_, fun _ => .nil⟩
      have hextent : t.extent = op.symbol.toList := extent_of_compare hlexeme
      rw [List.nil_append, ← hextent, htext]
    | cons l left =>
      obtain ⟨hlexeme, hrest⟩ := List.cons.inj h
      obtain ⟨before, after, hcs, hpassed⟩ := ih hrest
      have hlexeme' : t.lexeme = l := hlexeme
      -- a literal that is not closed would leave no text for the comparison
      have hclosed : t.lexeme ≠ .unterminated := by
        intro hopen
        have hnil : t.rest = [] := rest_of_unterminated hopen
        rw [hnil] at hcs
        obtain ⟨d, ds, hsymbol, -⟩ := op.symbol_eq_cons
        simp [hsymbol] at hcs
      refine ⟨t.extent ++ before, after, by rw [htext, hcs, List.append_assoc], ?_⟩
      intro hlegible
      have hfirst := passed_cut hlegible hclosed
      have hlater := hpassed (hlegible.of_infix (by rw [htext]; exact (List.suffix_append _ _).isInfix))
      have hall := hfirst.append hlater
      rw [← List.count_append, ← List.count_append] at hall
      rwa [← hlexeme']

end Token

/-! ## The text of a condition -/

namespace Text

/-- A character that is no blank stays, and what stands before and behind it is cut at the outer ends. -/
theorem strip_around {d : Char} (hd : isBlank d = false) (before after : List Char) :
    strip (before ++ d :: after) = before.dropWhile isBlank ++ d :: trimRight isBlank after := by
  have hdrop : (before ++ d :: after).dropWhile isBlank = before.dropWhile isBlank ++ d :: after := by
    rw [List.dropWhile_append]
    split
    · rename_i hempty
      rw [List.isEmpty_iff.1 hempty, List.dropWhile_cons_of_neg (by simp [hd]), List.nil_append]
    · rfl
  rw [strip, trim, hdrop, trimRight_append (by simp [trimRight_cons hd]), trimRight_cons hd]

/-- Characters that are no blanks stay in front of a text that is cut at its end. -/
theorem trimRight_append_of_filled {word : List Char} (h : ∀ c ∈ word, isBlank c = false) (cs : List Char) :
    trimRight isBlank (word ++ cs) = word ++ trimRight isBlank cs := by
  induction word with
  | nil => rfl
  | cons c word ih =>
    rw [List.cons_append, trimRight_cons (h c List.mem_cons_self), ih fun d hd => h d (List.mem_cons_of_mem c hd),
      List.cons_append]

end Text

namespace Check

/-- The sign of a comparison is found at the front of a text. -/
theorem hasComparison_symbol (op : CompareOp) (after : List Char) : hasComparison (op.symbol.toList ++ after) = true := by
  cases op <;> simp [CompareOp.symbol, hasComparison]

/-- A comparison is found wherever it stands. -/
theorem hasComparison_append (before : List Char) {cs : List Char} (h : hasComparison cs = true) :
    hasComparison (before ++ cs) = true := by
  induction before with
  | nil => exact h
  | cons c before ih =>
    rw [List.cons_append, hasComparison.eq_def]
    split <;> simp_all

/-- A sign stays where it is when the blanks around a text are cut off. -/
theorem strip_symbol (before after : List Char) (op : CompareOp) :
    ∃ d rest, Text.strip (before ++ (op.symbol.toList ++ after)) = before.dropWhile Text.isBlank ++ d :: rest ∧ d ≠ '(' ∧
      hasComparison (d :: rest) = true := by
  obtain ⟨d, ds, hsymbol, hd, hfilled⟩ := op.symbol_eq_cons
  refine ⟨d, ds ++ Text.trimRight Text.isBlank after, ?_, hd, ?_⟩
  · rw [hsymbol, List.cons_append, Text.strip_around (hfilled d List.mem_cons_self),
      Text.trimRight_append_of_filled fun e he => hfilled e (List.mem_cons_of_mem d he)]
  · rw [← List.cons_append, ← hsymbol]
    exact hasComparison_symbol op _

/-- A condition has a comparison between its blanks. It is not wrapped in parentheses when the check sees the literals that the reader
sees. -/
theorem condition_of_lexemes {cs : List Char} (hnul : '\x00' ∉ cs) {left right : List Lexeme}
    {op : CompareOp} (hlexemes : (Token.lex (String.ofList cs)).1.map Token.lexeme = left ++ .compare op :: right)
    (hleft : Expr.Derives .chain left) :
    Text.strip cs ≠ [] ∧ hasComparison (Text.strip cs) = true ∧ (Legible cs → isWrapped (Text.strip cs) = false) := by
  rw [Token.lex_of_readable (by rwa [String.toList_ofList]), String.toList_ofList] at hlexemes
  obtain ⟨before, after, hcs, hpassed⟩ := Token.lexFrom_compare hlexemes
  obtain ⟨d, rest, hstrip, hd, hcompares⟩ := strip_symbol before after op
  rw [← hcs] at hstrip
  rw [hstrip]
  refine ⟨by simp, hasComparison_append _ hcompares, ?_⟩
  intro hlegible
  exact isWrapped_eq_false (hpassed hlegible).dropWhile_isBlank hleft.count_opening.le hd

end Check

end Stepwise
