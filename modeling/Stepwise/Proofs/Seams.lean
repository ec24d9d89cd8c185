import Stepwise.Token.Lexer
import Mathlib.Data.List.TakeWhile

/-!
# Tokens of joined texts

A text that follows another one, or stands at another place, has the tokens that it has on its own, as far as it is read: a NUL
character ends what is read. Two things are to be said for that. A place moves with its text, but only the first line of the text goes
on from a column of the text before it. And the seam between two texts cuts no token: what ends a word and is no equals sign belongs to
no token that began before it, unless a string literal was left open.
-/

namespace Stepwise

namespace Pos

/-! ## Places of a text that begins elsewhere -/

/-- The place `p` of a text when the text begins at `base`. -/
def shift (p base : Pos) : Pos :=
  if p.line = 1 then ⟨base.line, base.col + p.col - 1⟩ else ⟨base.line + p.line - 1, p.col⟩

/-- Lines and columns are counted from 1. -/
structure Counted (p : Pos) : Prop where
  line : 1 ≤ p.line
  col : 1 ≤ p.col

theorem counted_start : start.Counted := ⟨Nat.le_refl 1, Nat.le_refl 1⟩

variable {p : Pos}

theorem Counted.next (h : p.Counted) (c : Char) : (p.next c).Counted := by
  unfold Pos.next
  by_cases hc : c = '\n'
  · rw [if_pos hc]
    exact ⟨Nat.le_add_left 1 p.line, Nat.le_refl 1⟩
  · rw [if_neg hc]
    exact ⟨h.line, Nat.le_add_left 1 p.col⟩

theorem Counted.after (h : p.Counted) (cs : List Char) : (p.after cs).Counted := by
  induction cs generalizing p with
  | nil => exact h
  | cons c cs ih => exact ih (h.next c)

@[simp]
theorem shift_start (base : Pos) : start.shift base = base := by
  simp [shift, start]

/-- A character takes a moved place to the moved next place. -/
theorem Counted.shift_next (h : p.Counted) (base : Pos) (c : Char) : (p.next c).shift base = (p.shift base).next c := by
  have hline := h.line
  have hcol := h.col
  unfold shift Pos.next
  by_cases hc : c = '\n'
  · by_cases hfirst : p.line = 1
    · simp [hc, hfirst]
    · have hlater : p.line + 1 ≠ 1 := by omega
      rw [if_pos hc, if_pos hc, if_neg hfirst, if_neg hlater, Pos.mk.injEq]
      exact ⟨by dsimp only; omega, rfl⟩
  · by_cases hfirst : p.line = 1
    · rw [if_neg hc, if_neg hc, if_pos hfirst, if_pos hfirst, Pos.mk.injEq]
      exact ⟨rfl, by dsimp only; omega⟩
    · rw [if_neg hc, if_neg hc, if_neg hfirst, if_neg hfirst]

/-- A piece of text takes a moved place to the moved place after it. -/
theorem Counted.shift_after (h : p.Counted) (base : Pos) (cs : List Char) : (p.after cs).shift base = (p.shift base).after cs := by
  induction cs generalizing p with
  | nil => rfl
  | cons c cs ih => rw [after_cons, ih (h.next c), h.shift_next, after_cons]

/-- Without a line feed a text stays on its line. -/
theorem line_after {cs : List Char} (h : '\n' ∉ cs) (p : Pos) : (p.after cs).line = p.line := by
  induction cs generalizing p with
  | nil => rfl
  | cons c cs ih =>
    rw [List.mem_cons, not_or] at h
    rw [after_cons, ih h.2, next, if_neg (Ne.symm h.1)]

end Pos

namespace Token

/-! ## The part of a text that is read -/

theorem ne_nul_of_notMem {cs : List Char} (h : '\x00' ∉ cs) : ∀ c ∈ cs, (c != '\x00') = true := by
  intro c hc
  have hne : c ≠ '\x00' := fun heq => h (heq ▸ hc)
  simpa using hne

/-- A text without a NUL character is readable to its end. -/
theorem readable_eq_self {cs : List Char} (h : '\x00' ∉ cs) : readable cs = cs :=
  List.takeWhile_eq_self_iff.2 (ne_nul_of_notMem h)

/-- A text without a NUL character is read to its end. -/
theorem lex_of_readable {s : String} (h : '\x00' ∉ s.toList) : lex s = lexFrom Pos.start s.toList := by
  rw [lex, readable_eq_self h]

/-- What follows a NUL character is not read. -/
theorem readable_append_right {cs : List Char} (h : '\x00' ∈ cs) (after : List Char) : readable (cs ++ after) = readable cs := by
  rw [readable, List.takeWhile_append, if_neg, readable]
  intro hall
  have hself := (List.takeWhile_prefix _).eq_of_length hall
  have hnul := List.takeWhile_eq_self_iff.1 hself _ h
  cases hnul

/-- What stands before a text with no NUL character in it is read with the text. -/
theorem readable_append_left {run : List Char} (h : '\x00' ∉ run) (cs : List Char) : readable (run ++ cs) = run ++ readable cs := by
  rw [readable, List.takeWhile_append_of_pos (ne_nul_of_notMem h), readable]

/-! ## Tokens of a text that begins elsewhere -/

/-- The token of a text that begins at `base`. -/
def shift (base : Pos) (t : Token) : Token := ⟨t.lexeme, t.pos.shift base⟩

@[simp]
theorem map_lexeme_shift (base : Pos) (ts : List Token) : (ts.map (shift base)).map lexeme = ts.map lexeme := by
  rw [List.map_map]
  rfl

/-- A blank is skipped. -/
theorem lexFrom_space {c : Char} (h : isSpace c = true) (p : Pos) (cs : List Char) : lexFrom p (c :: cs) = lexFrom (p.next c) cs := by
  rw [lexFrom, if_pos h]

/-- A character that is no blank begins a token. -/
theorem lexFrom_token {c : Char} (h : isSpace c = false) (p : Pos) (cs : List Char) :
    lexFrom p (c :: cs) =
      (⟨(cut c cs).lexeme, p⟩ :: (lexFrom (p.after (cut c cs).extent) (cut c cs).rest).1,
        (lexFrom (p.after (cut c cs).extent) (cut c cs).rest).2) := by
  rw [lexFrom, if_neg (by simp [h])]

/-- A text has the same tokens wherever it begins, at places that move with it. -/
theorem lexFrom_shift {p : Pos} (h : p.Counted) (base : Pos) (cs : List Char) :
    (lexFrom (p.shift base) cs).1 = (lexFrom p cs).1.map (shift base) := by
  fun_induction lexFrom p cs with
  | case1 p => simp [lexFrom]
  | case2 p c cs hspace ih => rw [lexFrom_space hspace, ← h.shift_next, ih (h.next c)]
  | case3 p c cs hspace t r ih =>
    rw [lexFrom_token (by simpa using hspace), ← h.shift_after, ih (h.after _)]
    rfl

/-- The tokens of a text without a line feed are all on the line where it begins. -/
theorem line_of_mem_lexFrom {p : Pos} {cs : List Char} (h : '\n' ∉ cs) {t : Token} (ht : t ∈ (lexFrom p cs).1) :
    t.pos.line = p.line := by
  fun_induction lexFrom p cs with
  | case1 p => simp at ht
  | case2 p c cs hspace ih =>
    rw [List.mem_cons, not_or] at h
    rw [ih h.2 ht, Pos.next, if_neg (Ne.symm h.1)]
  | case3 p c cs hspace cutting r ih =>
    rw [← cut_append c cs, List.mem_append, not_or] at h
    rcases List.mem_cons.1 ht with rfl | ht
    · rfl
    · rw [ih h.2 ht, Pos.line_after h.1]

/-! ## The seam between two texts -/

/-- The same token with more text behind the rest. -/
def Cut.followedBy (t : Cut) (after : List Char) : Cut := ⟨t.lexeme, t.extent, t.rest ++ after⟩

/-- A closed string literal stays closed, whatever follows. -/
theorem literal?_append_right {cs v e r : List Char} (h : literal? cs = some (v, e, r)) (after : List Char) :
    literal? (cs ++ after) = some (v, e, r ++ after) := by
  fun_induction literal? cs generalizing v e r with
  | case1 => cases h
  | case2 cs =>
    cases h
    rfl
  | case3 cs ih =>
    obtain ⟨⟨v', e', r'⟩, h', heq⟩ := Option.map_eq_some_iff.1 h
    cases heq
    simp [literal?, ih h']
  | case4 cs ih =>
    obtain ⟨⟨v', e', r'⟩, h', heq⟩ := Option.map_eq_some_iff.1 h
    cases heq
    simp [literal?, ih h']
  | case5 c cs hquote hnewline hescape ih =>
    obtain ⟨⟨v', e', r'⟩, h', heq⟩ := Option.map_eq_some_iff.1 h
    cases heq
    cases cs with
    | nil => cases h'
    | cons d ds =>
      rw [List.cons_append, literal?, ih h']
      · rfl
      · exact hquote
      · intro es hc hd
        cases hd
        exact hnewline ds hc rfl
      · intro es hc hd
        cases hd
        exact hescape ds hc rfl

/-- Without a quote no string literal is closed. -/
theorem literal?_eq_none {cs : List Char} (h : '"' ∉ cs) : literal? cs = none := by
  fun_induction literal? cs with
  | case1 => rfl
  | case2 => exact absurd List.mem_cons_self h
  | case3 cs ih =>
    rw [ih fun hmem => h (List.mem_cons_of_mem _ (List.mem_cons_of_mem _ hmem))]
    rfl
  | case4 => exact absurd (List.mem_cons_of_mem _ List.mem_cons_self) h
  | case5 c cs _ _ _ ih =>
    rw [ih fun hmem => h (List.mem_cons_of_mem c hmem)]
    rfl

/-- A string literal that is not closed stays open when no quote follows. -/
theorem literal?_append_eq_none {cs after : List Char} (h : literal? cs = none) (hquote : '"' ∉ after) :
    literal? (cs ++ after) = none := by
  fun_induction literal? cs with
  | case1 => exact literal?_eq_none hquote
  | case2 => cases h
  | case3 cs ih => simp [literal?, ih (Option.map_eq_none_iff.1 h)]
  | case4 cs ih => simp [literal?, ih (Option.map_eq_none_iff.1 h)]
  | case5 c cs hclose hnewline hescape ih =>
    cases cs with
    | nil =>
      -- a backslash at the end may make an escape with what follows, but there is no quote behind it either
      exact literal?_eq_none (by simpa using ⟨Ne.symm hclose, hquote⟩)
    | cons d ds =>
      rw [List.cons_append, literal?, ih (Option.map_eq_none_iff.1 h)]
      · rfl
      · exact hclose
      · intro es hc hd
        cases hd
        exact hnewline ds hc rfl
      · intro es hc hd
        cases hd
        exact hescape ds hc rfl

/-- A sign that an equals sign may follow is not changed by another character. -/
theorem cutPair_append_right (c : Char) (paired alone : Lexeme) (cs : List Char) {d : Char} (hd : d ≠ '=') (after : List Char) :
    cutPair c paired alone (cs ++ d :: after) = (cutPair c paired alone cs).followedBy (d :: after) := by
  cases cs with
  | nil =>
    unfold cutPair
    split
    next heq => exact absurd (List.cons.inj heq).1 hd
    · rfl
  | cons e es =>
    by_cases he : e = '='
    · subst he
      rfl
    · unfold cutPair
      split
      next heq => exact absurd (List.cons.inj heq).1 he
      · split
        next heq => exact absurd (List.cons.inj heq).1 he
        · rfl

/-- A word ends where a delimiter follows. -/
theorem cutWord_append_right (c : Char) (cs : List Char) {d : Char} (hd : isDelimiter d = true) (after : List Char) :
    cutWord c (cs ++ d :: after) = (cutWord c cs).followedBy (d :: after) := by
  have htake : (cs ++ d :: after).takeWhile (fun e => !isDelimiter e) = cs.takeWhile fun e => !isDelimiter e := by
    rw [List.takeWhile_append]
    split
    next hall =>
      rw [List.takeWhile_cons_of_neg (by simp [hd]), List.append_nil]
      exact ((List.takeWhile_prefix _).eq_of_length hall).symm
    · rfl
  have hdrop : (cs ++ d :: after).dropWhile (fun e => !isDelimiter e) = cs.dropWhile (fun e => !isDelimiter e) ++ d :: after := by
    rw [List.dropWhile_append]
    split
    next hempty => rw [List.isEmpty_iff.1 hempty, List.dropWhile_cons_of_neg (by simp [hd]), List.nil_append]
    · rfl
  rw [cutWord, cutWord, Cut.followedBy, htake, hdrop]

/-- A token that is not left open ends where it ended when a delimiter follows the text. -/
theorem cut_append_right {c : Char} {cs : List Char} (h : (cut c cs).lexeme ≠ .unterminated) {d : Char} (hd : isDelimiter d = true)
    (hsign : d ≠ '=') (after : List Char) : cut c (cs ++ d :: after) = (cut c cs).followedBy (d :: after) := by
  unfold cut at h ⊢
  by_cases hquote : c = '"'
  · simp only [if_pos hquote] at h ⊢
    cases hliteral : literal? cs with
    | none => simp [hliteral] at h
    | some parts => simp [literal?_append_right hliteral, Cut.followedBy]
  simp only [if_neg hquote]
  by_cases hequals : c = '='
  · simp only [if_pos hequals]
    exact cutPair_append_right c _ _ cs hsign after
  simp only [if_neg hequals]
  by_cases hnot : c = '!'
  · simp only [if_pos hnot]
    exact cutPair_append_right c _ _ cs hsign after
  simp only [if_neg hnot]
  by_cases hless : c = '<'
  · simp only [if_pos hless]
    exact cutPair_append_right c _ _ cs hsign after
  simp only [if_neg hless]
  by_cases hgreater : c = '>'
  · simp only [if_pos hgreater]
    exact cutPair_append_right c _ _ cs hsign after
  simp only [if_neg hgreater]
  by_cases hopening : c = '('
  · simp only [if_pos hopening]
    rfl
  simp only [if_neg hopening]
  by_cases hclosing : c = ')'
  · simp only [if_pos hclosing]
    rfl
  simp only [if_neg hclosing]
  cases arith? c with
  | some op => rfl
  | none => exact cutWord_append_right c cs hd after

/-- The tokens of two texts with a delimiter at the seam are those of the first text, then those of the second where it begins. -/
theorem lexFrom_append {p : Pos} {cs : List Char} (h : ∀ t ∈ (lexFrom p cs).1, t.lexeme ≠ .unterminated) {d : Char}
    (hd : isDelimiter d = true) (hsign : d ≠ '=') (after : List Char) :
    (lexFrom p (cs ++ d :: after)).1 = (lexFrom p cs).1 ++ (lexFrom (p.after cs) (d :: after)).1 := by
  fun_induction lexFrom p cs with
  | case1 p => rfl
  | case2 p c cs hspace ih =>
    rw [List.cons_append, lexFrom_space hspace, ih h]
    rfl
  | case3 p c cs hspace t r ih =>
    have hopen : (cut c cs).lexeme ≠ .unterminated := h _ List.mem_cons_self
    have hlater : ∀ u ∈ (lexFrom (p.after t.extent) t.rest).1, u.lexeme ≠ .unterminated :=
      fun u hu => h u (List.mem_cons_of_mem _ hu)
    rw [List.cons_append, lexFrom_token (by simpa using hspace), cut_append_right hopen hd hsign]
    rw [Cut.followedBy, ih hlater, ← Pos.after_append, cut_append]
    rfl

end Token

end Stepwise
