import Stepwise.Proofs.ConditionReading
import Stepwise.Proofs.Extents
import Stepwise.Proofs.LeftToRight
import Mathlib.Data.List.Chain

/-!
# Parentheses of conditions

A condition has its parentheses in pairs with something in each, so those that it begins with are all opened and those that it ends
with are all closed. A parenthesis is a token of its own, wherever it stands, unless a string literal is left open before it. Put in
parentheses, a condition that has none around it is the same condition; and when a text in parentheses is a condition, the sign of its
comparison stands between them with no other parenthesis open.
-/

namespace Stepwise

/-! ## Parentheses that belong together -/

/-- The tokens begin with no closing parenthesis, end with no opening one, and have something between an opening one and the next
closing one. -/
structure Tight (ls : List Lexeme) : Prop where
  filled : ls ≠ []
  first : ls.head? ≠ some .closing
  last : ls.getLast? ≠ some .opening
  pairs : ls.IsChain fun a b => a = .opening → b ≠ .closing

theorem tight_singleton {l : Lexeme} (hopening : l ≠ .opening) (hclosing : l ≠ .closing) : Tight [l] :=
  ⟨by simp, by simpa using hclosing, by simpa using hopening, .singleton l⟩

theorem Tight.append {ls ms : List Lexeme} (hl : Tight ls) (hm : Tight ms) : Tight (ls ++ ms) := by
  refine ⟨by simp [hl.filled], ?_, ?_, ?_⟩
  · rw [List.head?_append_of_ne_nil _ hl.filled]
    exact hl.first
  · rw [List.getLast?_append_of_ne_nil _ hm.filled]
    exact hm.last
  · rw [List.isChain_append]
    refine ⟨hl.pairs, hm.pairs, ?_⟩
    rintro a ha b - rfl
    exact absurd ha hl.last

/-- A pair of parentheses around everything encloses something. -/
theorem Tight.wrap {ls : List Lexeme} (h : Tight ls) : Tight (.opening :: (ls ++ [.closing])) := by
  refine ⟨by simp, by simp, by simp [List.getLast?_cons], ?_⟩
  rw [List.isChain_cons, List.isChain_append]
  refine ⟨?_, h.pairs, .singleton _, ?_⟩
  · rintro b hb - rfl
    rw [List.head?_append_of_ne_nil _ h.filled] at hb
    exact h.first hb
  · rintro a ha b - rfl
    exact absurd ha h.last

theorem Expr.Derives.tight {k : Category} {ls : List Lexeme} (h : Derives k ls) : Tight ls := by
  induction h with
  | literal | number | name => exact tight_singleton (by simp) (by simp)
  | neg _ ih => exact (tight_singleton (by simp) (by simp)).append ih
  | group _ ih => exact ih.wrap
  | single _ ih => exact ih
  | append _ op _ ihl ihr => exact ihl.append ((tight_singleton (l := .arith op) (by simp) (by simp)).append ihr)

/-- A phrase has no open string literal. -/
theorem Expr.Derives.unterminated_notMem {k : Category} {ls : List Lexeme} (h : Derives k ls) : Lexeme.unterminated ∉ ls := by
  induction h with
  | literal | number | name => simp
  | neg _ ih => simpa using ih
  | group _ ih => simpa using ih
  | single _ ih => exact ih
  | append _ _ _ ihl ihr => simpa using ⟨ihl, ihr⟩

/-- Parentheses at the beginning are all opened. -/
theorem Tight.eq_opening {ls ms : List Lexeme} (h : Tight (ls ++ ms)) (hrun : ∀ l ∈ ls, l = .opening ∨ l = .closing) :
    ∀ l ∈ ls, l = .opening := by
  have hchain := (List.isChain_append.1 h.pairs).1
  have hfirst : ls.head? ≠ some .closing := by
    cases ls with
    | nil => simp
    | cons l ls => exact h.first
  clear h
  induction ls with
  | nil => simp
  | cons l ls ih =>
    obtain ⟨hnext, hchain⟩ := List.isChain_cons.1 hchain
    have hl : l = .opening := (hrun l List.mem_cons_self).resolve_right fun hclosing => hfirst (congrArg some hclosing)
    have hlater := ih (fun m hm => hrun m (List.mem_cons_of_mem l hm)) hchain fun hclosing => hnext _ hclosing hl rfl
    intro m hm
    rcases List.mem_cons.1 hm with rfl | hm
    · exact hl
    · exact hlater m hm

/-- Parentheses at the end are all closed. -/
theorem Tight.eq_closing {ls ms : List Lexeme} (h : Tight (ls ++ ms)) (hrun : ∀ l ∈ ms, l = .opening ∨ l = .closing) :
    ∀ l ∈ ms, l = .closing := by
  have hchain := (List.isChain_append.1 h.pairs).2.1
  have hlast : ms.getLast? ≠ some .opening := by
    intro hopening
    have hne : ms ≠ [] := by
      rintro rfl
      cases hopening
    exact h.last (by rw [List.getLast?_append_of_ne_nil _ hne, hopening])
  clear h
  induction ms with
  | nil => simp
  | cons l ms ih =>
    obtain ⟨hnext, hchain⟩ := List.isChain_cons.1 hchain
    cases ms with
    | nil =>
      intro m hm
      rw [List.mem_singleton.1 hm]
      exact (hrun l List.mem_cons_self).resolve_left fun hopening => hlast (congrArg some hopening)
    | cons n ms =>
      have hlater := ih (fun m hm => hrun m (List.mem_cons_of_mem l hm)) hchain hlast
      intro m hm
      rcases List.mem_cons.1 hm with rfl | hm
      · refine (hrun m List.mem_cons_self).resolve_left fun hopening => ?_
        exact hnext n rfl hopening (hlater n List.mem_cons_self)
      · exact hlater m hm

namespace Condition

variable {s : Split} {ts : List Token} {layout : Layout}

theorem Forms.tight (h : Forms layout s ts) : Tight (ts.map Token.lexeme) := by
  have hsides : ∀ sides : s.Derives, Tight (s.tokens.map Token.lexeme) := by
    intro sides
    rw [Split.tokens, List.map_append, List.map_cons]
    exact sides.left.tight.append ((tight_singleton (l := .compare s.op) (by simp) (by simp)).append sides.right.tight)
  cases h with
  | bare sides => exact hsides sides
  | wrapped sides opens closes => simpa [opens, closes] using (hsides sides).wrap

theorem Forms.unterminated_notMem (h : Forms layout s ts) : Lexeme.unterminated ∉ ts.map Token.lexeme := by
  have hsides : ∀ sides : s.Derives, Lexeme.unterminated ∉ s.tokens.map Token.lexeme := by
    intro sides
    rw [Split.tokens, List.map_append, List.map_cons, List.mem_append, List.mem_cons]
    rintro (hleft | hsign | hright)
    · exact sides.left.unterminated_notMem hleft
    · cases hsign
    · exact sides.right.unterminated_notMem hright
  cases h with
  | bare sides => exact hsides sides
  | wrapped sides opens closes => simpa [opens, closes] using hsides sides

/-- Before the comparison of a condition one parenthesis at most is left open: the one around the whole. -/
theorem Forms.exists_left (h : Forms layout s ts) : ∃ left right,
    ts.map Token.lexeme = left ++ .compare s.op :: right ∧ left.count .opening ≤ left.count .closing + 1 := by
  cases h with
  | bare sides =>
    refine ⟨s.left.map Token.lexeme, s.right.map Token.lexeme, by simp [Split.tokens], ?_⟩
    exact sides.left.count_opening.le.trans (Nat.le_succ _)
  | wrapped sides opens closes =>
    refine ⟨.opening :: s.left.map Token.lexeme, s.right.map Token.lexeme ++ [.closing], by simp [Split.tokens, opens, closes], ?_⟩
    rw [List.count_cons_self, List.count_cons_of_ne (by simp), sides.left.count_opening]

end Condition

/-! ## What the tokens of a text say -/

namespace Token

/-- What the tokens of a text say. -/
def lexemes (cs : List Char) : List Lexeme := (lexFrom Pos.start cs).1.map Token.lexeme

/-- Tokens say the same wherever the text begins. -/
theorem map_lexeme_lexFrom (p : Pos) (cs : List Char) : (lexFrom p cs).1.map Token.lexeme = lexemes cs := by
  have hmoved : ∀ q : Pos, (lexFrom p cs).1.map Token.lexeme = (lexFrom q cs).1.map Token.lexeme := by
    intro q
    fun_induction lexFrom p cs generalizing q with
    | case1 => rw [lexFrom]
    | case2 p c cs hspace ih => rw [ih (q.next c), lexFrom_space hspace]
    | case3 p c cs hspace t r ih =>
      rw [lexFrom_token (by simpa using hspace), List.map_cons, List.map_cons]
      exact congrArg (t.lexeme :: ·) (ih _)
  exact hmoved Pos.start

/-- A parenthesis. -/
def isParenthesis (c : Char) : Bool := c == '(' || c == ')'

theorem eq_of_isParenthesis {c : Char} (h : isParenthesis c = true) : c = '(' ∨ c = ')' := by
  simpa [isParenthesis] using h

/-- The token of a parenthesis. -/
def parenthesis (c : Char) : Lexeme := if c = '(' then .opening else .closing

theorem eq_of_mem_map_parenthesis {run : List Char} {l : Lexeme} (h : l ∈ run.map parenthesis) : l = .opening ∨ l = .closing := by
  obtain ⟨c, -, rfl⟩ := List.mem_map.1 h
  unfold parenthesis
  split
  · exact Or.inl rfl
  · exact Or.inr rfl

/-- Parentheses in front of a text are tokens of their own. -/
theorem lexemes_append_left {run : List Char} (h : ∀ c ∈ run, isParenthesis c = true) (cs : List Char) :
    lexemes (run ++ cs) = run.map parenthesis ++ lexemes cs := by
  induction run with
  | nil => rfl
  | cons c run ih =>
    have hlater := ih fun d hd => h d (List.mem_cons_of_mem c hd)
    have hfirst : ∀ rest : List Char, lexemes (c :: rest) = parenthesis c :: lexemes rest := by
      intro rest
      rcases eq_of_isParenthesis (h c List.mem_cons_self) with rfl | rfl
      · rw [lexemes, lexFrom_token rfl, List.map_cons, map_lexeme_lexFrom]
        rfl
      · rw [lexemes, lexFrom_token rfl, List.map_cons, map_lexeme_lexFrom]
        rfl
    rw [List.cons_append, hfirst, hlater, List.map_cons, List.cons_append]

/-- A token that is left open stays open when no quote follows. -/
theorem cut_append_unterminated {c : Char} {cs after : List Char} (h : (cut c cs).lexeme = .unterminated) (hquote : '"' ∉ after) :
    (cut c (cs ++ after)).lexeme = .unterminated := by
  by_cases hc : c = '"'
  · subst hc
    rcases cut_quote cs with ⟨v, e, r, -, hcut⟩ | ⟨hopen, -⟩
    · rw [hcut] at h
      cases h
    · rcases cut_quote (cs ++ after) with ⟨v, e, r, hclosed, -⟩ | ⟨-, hcut⟩
      · rw [literal?_append_eq_none hopen hquote] at hclosed
        cases hclosed
      · rw [hcut]
  · exact absurd h (cut_faithful hc cs).closed

/-- A text leaves no token open when none is open with a delimiter and no quotes behind it. -/
theorem lexeme_ne_unterminated_of_append {p : Pos} {cs after : List Char} {d : Char} (hd : isDelimiter d = true) (hsign : d ≠ '=')
    (hquote : '"' ∉ d :: after) (h : ∀ u ∈ (lexFrom p (cs ++ d :: after)).1, u.lexeme ≠ .unterminated) :
    ∀ u ∈ (lexFrom p cs).1, u.lexeme ≠ .unterminated := by
  fun_induction lexFrom p cs with
  | case1 => simp
  | case2 p c cs hspace ih =>
    rw [List.cons_append, lexFrom_space hspace] at h
    exact ih h
  | case3 p c cs hspace t r ih =>
    rw [List.cons_append, lexFrom_token (by simpa using hspace)] at h
    have hclosed : (cut c cs).lexeme ≠ .unterminated := by
      intro hopen
      exact h _ List.mem_cons_self (cut_append_unterminated hopen hquote)
    rw [cut_append_right hclosed hd hsign] at h
    intro u hu
    rcases List.mem_cons.1 hu with rfl | hu
    · exact hclosed
    · exact ih (fun v hv => h v (List.mem_cons_of_mem _ hv)) u hu

/-- Parentheses behind a text are tokens of their own when the text leaves no literal open. -/
theorem lexemes_append_right {run : List Char} (hrun : ∀ c ∈ run, isParenthesis c = true) {cs : List Char}
    (h : Lexeme.unterminated ∉ lexemes (cs ++ run)) : lexemes (cs ++ run) = lexemes cs ++ run.map parenthesis := by
  cases run with
  | nil => simp
  | cons d run =>
    have hnot : ∀ c ∈ d :: run, c ≠ '"' ∧ c ≠ '=' ∧ isDelimiter c = true := by
      intro c hc
      rcases eq_of_isParenthesis (hrun c hc) with rfl | rfl <;> decide
    obtain ⟨-, hsign, hd⟩ := hnot d List.mem_cons_self
    have hclosed : ∀ u ∈ (lexFrom Pos.start (cs ++ d :: run)).1, u.lexeme ≠ .unterminated := by
      intro u hu hopen
      exact h (hopen ▸ List.mem_map_of_mem hu)
    have hinner := lexeme_ne_unterminated_of_append hd hsign (fun hquote => (hnot _ hquote).1 rfl) hclosed
    have hrest := lexemes_append_left hrun []
    rw [List.append_nil] at hrest
    rw [lexemes, lexFrom_append hinner hd hsign, List.map_append, map_lexeme_lexFrom, map_lexeme_lexFrom, hrest]
    simp [lexemes, lexFrom]

/-- A text in parentheses has its own tokens between those of the parentheses, when no literal is left open. -/
theorem lexemes_wrapped {cs : List Char} (h : Lexeme.unterminated ∉ lexemes ('(' :: cs ++ [')'])) :
    lexemes ('(' :: cs ++ [')']) = .opening :: (lexemes cs ++ [.closing]) := by
  have hopening : ∀ c ∈ ['('], isParenthesis c = true := by simp [isParenthesis]
  have hfirst : lexemes ('(' :: cs ++ [')']) = .opening :: lexemes (cs ++ [')']) := lexemes_append_left hopening (cs ++ [')'])
  rw [hfirst, List.mem_cons, not_or] at h
  rw [hfirst, lexemes_append_right (by simp [isParenthesis]) h.2]
  rfl

theorem isSpace_eq_false {c : Char} (h : Text.isBlank c = false) : isSpace c = false := by
  rw [← Bool.not_eq_true] at h ⊢
  intro hspace
  apply h
  simp only [isSpace, Bool.or_eq_true, beq_iff_eq] at hspace
  rcases hspace with ((rfl | rfl) | rfl) | rfl <;> rfl

/-- A text that begins with an opening parenthesis for its first token begins with that character. -/
theorem eq_of_lexemes_head {c : Char} {cs : List Char} (hspace : isSpace c = false) (h : (lexemes (c :: cs)).head? = some .opening) :
    c = '(' := by
  rw [lexemes, lexFrom_token hspace, List.map_cons, List.head?_cons, Option.some_inj] at h
  have hopening : (cut c cs).lexeme = .opening := h
  have hfits := fits_cut_nil hspace cs
  rw [hopening] at hfits
  have hextent : (cut c cs).extent = ['('] := hfits
  have htext := cut_append c cs
  rw [hextent] at htext
  exact (List.cons.inj htext).1.symm

/-- Of parentheses around a text with a NUL character only the first one is read. -/
theorem readable_wrapped {cs : List Char} (h : '\x00' ∈ cs) : readable ('(' :: cs ++ [')']) = '(' :: readable cs := by
  rw [readable_append_right (List.mem_cons_of_mem _ h)]
  rfl

end Token

/-! ## Conditions in parentheses -/

theorem CompareOp.symbol_ne_nil (op : CompareOp) : op.symbol.toList ≠ [] := by
  cases op <;> decide

theorem CompareOp.getLast?_symbol (op : CompareOp) : op.symbol.toList.getLast? ≠ some ')' := by
  cases op <;> decide

namespace Condition

/-- The condition without its columns. -/
def bare (c : Condition) : Condition := ⟨0, c.op, c.left.bare, c.right.bare⟩

/-- Only the part of a text that is readable counts. -/
theorem parse_congr {cs ds : List Char} (h : Token.readable cs = Token.readable ds) :
    parse (String.ofList cs) = parse (String.ofList ds) := by
  rw [parse, parse, Token.lex, Token.lex, String.toList_ofList, String.toList_ofList, h]

/-- What is read as a condition is told by the grammar. -/
theorem forms_of_parse {cs : List Char} {c : Condition} (h : parse (String.ofList cs) = .ok c) :
    ∃ layout s, Forms layout s (Token.lexFrom Pos.start (Token.readable cs)).1 ∧ c.Spells s := by
  obtain ⟨layout, s, hforms, hspells⟩ := exists_forms h
  rw [Token.lex, String.toList_ofList] at hforms
  exact ⟨layout, s, hforms, hspells⟩

/-- The parentheses of a condition belong together, and no string literal is left open. -/
theorem lexemes_of_parse {cs : List Char} {c : Condition} (h : parse (String.ofList cs) = .ok c) :
    Tight (Token.lexemes (Token.readable cs)) ∧ Balanced (Token.lexemes (Token.readable cs)) ∧
      Lexeme.unterminated ∉ Token.lexemes (Token.readable cs) := by
  obtain ⟨layout, s, hforms, -⟩ := forms_of_parse h
  exact ⟨hforms.tight, hforms.balanced, hforms.unterminated_notMem⟩

/-- The parts of a condition in a text that begins at `base`. -/
def Split.shift (base : Pos) (s : Split) : Split :=
  ⟨s.left.map (Token.shift base), s.op, s.pos.shift base, s.right.map (Token.shift base)⟩

theorem Split.tokens_shift (base : Pos) (s : Split) : (s.shift base).tokens = s.tokens.map (Token.shift base) := by
  rw [tokens, tokens, List.map_append, List.map_cons]
  rfl

theorem Split.Derives.shift {s : Split} (h : s.Derives) (base : Pos) : (s.shift base).Derives := by
  refine ⟨?_, ?_⟩
  · rw [Split.shift, Token.map_lexeme_shift]
    exact h.left
  · rw [Split.shift, Token.map_lexeme_shift]
    exact h.right

/-- A condition that is moved keeps its trees up to columns. -/
theorem Spells.exists_shift {c : Condition} {s : Split} (h : c.Spells s) (base : Pos) :
    ∃ c' : Condition, c'.Spells (s.shift base) ∧ c'.bare = c.bare := by
  obtain ⟨l, hl, hbareL⟩ := h.left.exists_bare_eq (Token.map_lexeme_shift base s.left)
  obtain ⟨r, hr, hbareR⟩ := h.right.exists_bare_eq (Token.map_lexeme_shift base s.right)
  refine ⟨⟨(s.pos.shift base).col, s.op, l, r⟩, ⟨rfl, rfl, hl, hr⟩, ?_⟩
  rw [bare, bare, hbareL, hbareR, h.op]

/-- A condition that does not begin with a parenthesis may be put in parentheses. -/
theorem exists_parse_wrapped {cs : List Char} {c : Condition} (hnul : '\x00' ∉ cs) (h : parse (String.ofList cs) = .ok c)
    (hfirst : (Token.lexemes cs).head? ≠ some .opening) :
    ∃ c', parse (String.ofList ('(' :: cs ++ [')'])) = .ok c' ∧ c'.bare = c.bare := by
  obtain ⟨layout, s, hforms, hspells⟩ := exists_forms h
  have hlex : Token.lex (String.ofList cs) = Token.lexFrom Pos.start cs := by
    rw [Token.lex, String.toList_ofList, Token.readable_eq_self hnul]
  have hopen : ∀ u ∈ (Token.lex (String.ofList cs)).1, u.lexeme ≠ .unterminated := by
    intro u hu hunterminated
    exact hforms.unterminated_notMem (hunterminated ▸ List.mem_map_of_mem hu)
  obtain ⟨p, htokens⟩ := Evaluation.lex_wrapped (by rwa [String.toList_ofList]) hopen
  have htext : "(" ++ String.ofList cs ++ ")" = String.ofList ('(' :: cs ++ [')']) := by
    apply String.toList_injective
    simp
  rw [htext] at htokens
  generalize hts : (Token.lex (String.ofList cs)).1 = ts at hforms htokens
  cases hforms with
  | wrapped sides opens closes =>
    rw [Token.lexemes, ← hlex, hts] at hfirst
    simp [opens] at hfirst
  | bare sides =>
    obtain ⟨c', hspells', hbare⟩ := hspells.exists_shift ⟨1, 2⟩
    have hforms' : Forms .wrapped (s.shift ⟨1, 2⟩) (Token.lex (String.ofList ('(' :: cs ++ [')']))).1 := by
      rw [htokens, ← Split.tokens_shift]
      exact .wrapped (sides.shift ⟨1, 2⟩) rfl rfl
    exact ⟨c', ofTokens_eq_ok_iff.2 ⟨_, hforms'.found _, hspells'⟩, hbare⟩

end Condition

namespace Check

/-- Parentheses around a text do not change how its string literals are seen. -/
theorem Legible.wrap {cs : List Char} (h : Legible cs) : Legible ('(' :: cs ++ [')']) := by
  intro hquote hpair
  refine h (by simpa using hquote) ?_
  rw [List.infix_concat_iff, List.infix_cons_iff] at hpair
  rcases hpair with hlast | hfirst | hinner
  · obtain ⟨before, hbefore⟩ := hlast
    have hchar : ('(' :: cs ++ [')']).getLast? = some ')' := List.getLast?_concat
    rw [← hbefore] at hchar
    simp at hchar
  · exact absurd (List.cons_prefix_cons.1 hfirst).1 (by decide)
  · exact hinner

/-- The sign of the comparison stands between the parentheses around a condition, and no other parenthesis is open there. -/
theorem exists_symbol {cs : List Char} {c : Condition} (h : Condition.parse (String.ofList ('(' :: cs ++ [')'])) = .ok c) :
    ∃ before after, ∃ op : CompareOp, cs = before ++ (op.symbol.toList ++ after) ∧
      (Legible cs → ∃ o k, Passed before o k ∧ o ≤ k) := by
  obtain ⟨layout, s, hforms, -⟩ := Condition.forms_of_parse h
  obtain ⟨left, right, hlexemes, hcount⟩ := hforms.exists_left
  obtain ⟨before, after, hread, hpassed⟩ := Token.lexFrom_compare hlexemes
  have hprefix : Token.readable ('(' :: cs ++ [')']) <+: '(' :: cs ++ [')'] := List.takeWhile_prefix _
  obtain ⟨unread, htext⟩ := hprefix
  rw [hread, List.append_assoc, List.append_assoc] at htext
  -- the sign is no opening parenthesis, so it stands behind the first one
  cases before with
  | nil =>
    obtain ⟨d, ds, hsymbol, hd, -⟩ := s.op.symbol_eq_cons
    rw [hsymbol] at htext
    exact absurd (List.cons.inj htext).1 hd
  | cons b before =>
    obtain ⟨rfl, hrest⟩ := List.cons.inj htext
    have hinner : before ++ (s.op.symbol.toList ++ (after ++ unread)) = cs ++ [')'] := hrest
    -- and it is no closing one, so it stands before the last one
    rcases List.eq_nil_or_concat' (after ++ unread) with hnil | ⟨later, last, hlater⟩
    · have hchar := congrArg List.getLast? hinner
      rw [hnil, List.append_nil, List.getLast?_append_of_ne_nil _ s.op.symbol_ne_nil, List.getLast?_concat] at hchar
      exact absurd hchar s.op.getLast?_symbol
    · rw [hlater, ← List.append_assoc, ← List.append_assoc] at hinner
      obtain ⟨hcs, -⟩ := List.append_inj' hinner rfl
      refine ⟨before, later, s.op, by rw [← hcs, List.append_assoc], ?_⟩
      intro hlegible
      have hall := hpassed (hlegible.wrap.of_infix (List.takeWhile_prefix _).isInfix)
      generalize left.count .opening = o at hall hcount
      cases hall with
      | opening rest => exact ⟨_, _, rest, by omega⟩
      | plain hopening => exact absurd rfl hopening

/-- A condition in parentheses has a comparison between them. No second pair is seen when its string literals are legible. -/
theorem condition_of_wrapped {cs : List Char} {c : Condition} (h : Condition.parse (String.ofList ('(' :: cs ++ [')'])) = .ok c) :
    Text.strip cs ≠ [] ∧ hasComparison (Text.strip cs) = true ∧ (Legible cs → isWrapped (Text.strip cs) = false) := by
  obtain ⟨before, after, op, hcs, hpassed⟩ := exists_symbol h
  obtain ⟨d, rest, hstrip, hd, hcompares⟩ := strip_symbol before after op
  rw [← hcs] at hstrip
  rw [hstrip]
  refine ⟨by simp, hasComparison_append _ hcompares, ?_⟩
  intro hlegible
  obtain ⟨o, k, hbefore, hle⟩ := hpassed hlegible
  exact isWrapped_eq_false hbefore.dropWhile_isBlank hle hd

end Check

end Stepwise
