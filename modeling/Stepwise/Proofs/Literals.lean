import Stepwise.Proofs.Grammar
import Mathlib.Data.List.Infix

/-!
# Which texts have a string literal

A literal has two escapes, for the quote and for the newline, and none for the backslash: a backslash stands for itself unless the
next character makes an escape of it. So a backslash cannot be followed by the letter of the newline, and cannot be the last
character, where the closing quote would follow it. Neither can the text hold a NUL character, which ends what is read. These are all
the limits: every other text is written with its quotes and newlines escaped.
-/

namespace Stepwise

namespace Token

/-- A text that a string literal can denote. -/
structure Denotable (v : List Char) : Prop where
  nul : '\x00' ∉ v
  newline : ¬ ['\\', 'n'] <:+: v
  last : v.getLast? ≠ some '\\'

/-- How a character is written in a literal. -/
def escapeChar (c : Char) : List Char :=
  if c = '"' then ['\\', '"'] else if c = '\n' then ['\\', 'n'] else [c]

/-- How a text is written in a literal: quotes and newlines are escaped, everything else stands as it is. -/
def escape (v : List Char) : List Char := v.flatMap escapeChar

/-! ## Every denotable text is denoted -/

variable {c : Char} {v cs e r : List Char}

/-- A denotable text without its first character is denotable. -/
theorem Denotable.tail (h : Denotable (c :: v)) : Denotable v where
  nul := fun hmem => h.nul (List.mem_cons_of_mem c hmem)
  newline := fun hpart => h.newline (hpart.trans (List.suffix_cons c v).isInfix)
  last := fun hlast => h.last (by rw [List.getLast?_cons, hlast]; rfl)

/-- What follows a backslash in a denotable text is written with a character that makes no escape of it. -/
theorem Denotable.escape_eq_cons (h : Denotable ('\\' :: v)) : ∃ d ds, escape v = d :: ds ∧ d ≠ 'n' ∧ d ≠ '"' := by
  cases v with
  | nil => exact absurd rfl h.last
  | cons a v =>
    have ha : a ≠ 'n' := by
      rintro rfl
      exact h.newline ⟨[], v, rfl⟩
    rw [escape, List.flatMap_cons, escapeChar]
    by_cases hquote : a = '"'
    · rw [if_pos hquote]
      exact ⟨'\\', '"' :: escape v, rfl, by decide, by decide⟩
    · rw [if_neg hquote]
      by_cases hnewline : a = '\n'
      · rw [if_pos hnewline]
        exact ⟨'\\', 'n' :: escape v, rfl, by decide, by decide⟩
      · rw [if_neg hnewline]
        exact ⟨a, escape v, rfl, ha, hquote⟩

/-- A character that begins no escape is read as itself. -/
theorem literal?_cons (hquote : c ≠ '"') (hescape : c = '\\' → ∃ d ds, cs = d :: ds ∧ d ≠ 'n' ∧ d ≠ '"') :
    literal? (c :: cs) = (literal? cs).map fun (v, e, r) => (c :: v, c :: e, r) := by
  rw [literal?]
  · exact hquote
  · rintro ds hc rfl
    obtain ⟨d, _, heq, hn, -⟩ := hescape hc
    exact hn (List.cons.inj heq).1.symm
  · rintro ds hc rfl
    obtain ⟨d, _, heq, -, hq⟩ := hescape hc
    exact hq (List.cons.inj heq).1.symm

/-- A denotable text is read from what is written for it. -/
theorem Denotable.literal?_escape (h : Denotable v) (rest : List Char) :
    literal? (escape v ++ '"' :: rest) = some (v, escape v ++ ['"'], rest) := by
  induction v with
  | nil => rfl
  | cons c v ih =>
    have hrest := ih h.tail
    by_cases hquote : c = '"'
    · subst hquote
      show literal? ('\\' :: '"' :: (escape v ++ '"' :: rest)) = _
      rw [literal?, hrest]
      rfl
    · by_cases hnewline : c = '\n'
      · subst hnewline
        show literal? ('\\' :: 'n' :: (escape v ++ '"' :: rest)) = _
        rw [literal?, hrest]
        rfl
      · have hwritten : escape (c :: v) = c :: escape v := by
          rw [escape, List.flatMap_cons, escapeChar, if_neg hquote, if_neg hnewline]
          rfl
        rw [hwritten, List.cons_append, literal?_cons hquote, hrest]
        · rfl
        · rintro rfl
          obtain ⟨d, ds, heq, hd⟩ := h.escape_eq_cons
          exact ⟨d, ds ++ '"' :: rest, by rw [heq, List.cons_append], hd⟩

/-! ## Nothing else is denoted -/

/-- The first character of what a literal denotes: there is none when the literal is closed at once, and else it was escaped or is the
one that the literal begins with. -/
theorem literal?_head (h : literal? cs = some (v, e, r)) :
    (v = [] ∧ cs.head? = some '"') ∨ ∃ d w, v = d :: w ∧ (d = '\n' ∨ d = '"' ∨ cs.head? = some d) := by
  fun_induction literal? cs with
  | case1 => cases h
  | case2 cs =>
    cases h
    exact Or.inl ⟨rfl, rfl⟩
  | case3 cs ih =>
    obtain ⟨⟨w, _, _⟩, _, heq⟩ := Option.map_eq_some_iff.1 h
    cases heq
    exact Or.inr ⟨'\n', w, rfl, Or.inl rfl⟩
  | case4 cs ih =>
    obtain ⟨⟨w, _, _⟩, _, heq⟩ := Option.map_eq_some_iff.1 h
    cases heq
    exact Or.inr ⟨'"', w, rfl, Or.inr (Or.inl rfl)⟩
  | case5 c cs hquote hnewline hescape ih =>
    obtain ⟨⟨w, _, _⟩, _, heq⟩ := Option.map_eq_some_iff.1 h
    cases heq
    exact Or.inr ⟨c, w, rfl, Or.inr (Or.inr rfl)⟩

/-- A character in front of a denotable text, when a backslash does not become the last character or come before an `n`. -/
theorem Denotable.cons (h : Denotable v) (hnul : c ≠ '\x00') (hescape : c = '\\' → ∃ d w, v = d :: w ∧ d ≠ 'n') :
    Denotable (c :: v) where
  nul := by
    rw [List.mem_cons, not_or]
    exact ⟨hnul.symm, h.nul⟩
  newline := by
    rw [List.infix_cons_iff, not_or]
    refine ⟨?_, h.newline⟩
    intro hfront
    obtain ⟨hc, hnext⟩ := List.cons_prefix_cons.1 hfront
    obtain ⟨d, w, rfl, hd⟩ := hescape hc.symm
    exact hd (List.cons_prefix_cons.1 hnext).1.symm
  last := by
    cases v with
    | nil =>
      intro hlast
      obtain ⟨d, w, hnil, -⟩ := hescape (Option.some.inj hlast)
      cases hnil
    | cons d w =>
      rw [List.getLast?_cons_cons]
      exact h.last

/-- What a literal denotes is denotable. -/
theorem denotable_of_literal? (hnul : '\x00' ∉ cs) (h : literal? cs = some (v, e, r)) : Denotable v := by
  fun_induction literal? cs generalizing v e r with
  | case1 => cases h
  | case2 cs =>
    cases h
    exact ⟨by simp, by simp, by simp⟩
  | case3 cs ih =>
    obtain ⟨⟨w, _, _⟩, hw, heq⟩ := Option.map_eq_some_iff.1 h
    cases heq
    rw [List.mem_cons, List.mem_cons, not_or, not_or] at hnul
    exact (ih hnul.2.2 hw).cons (by decide) fun hc => absurd hc (by decide)
  | case4 cs ih =>
    obtain ⟨⟨w, _, _⟩, hw, heq⟩ := Option.map_eq_some_iff.1 h
    cases heq
    rw [List.mem_cons, List.mem_cons, not_or, not_or] at hnul
    exact (ih hnul.2.2 hw).cons (by decide) fun hc => absurd hc (by decide)
  | case5 c cs hquote hnewline hescape ih =>
    obtain ⟨⟨w, _, _⟩, hw, heq⟩ := Option.map_eq_some_iff.1 h
    cases heq
    rw [List.mem_cons, not_or] at hnul
    refine (ih hnul.2 hw).cons (Ne.symm hnul.1) ?_
    -- a backslash that stands for itself is followed by what makes no escape of it
    intro hc
    rcases literal?_head hw with ⟨-, hhead⟩ | ⟨d, w, rfl, hfirst⟩
    · obtain ⟨ds, hds⟩ := List.head?_eq_some_iff.1 hhead
      exact (hescape ds hc hds).elim
    · refine ⟨d, w, rfl, ?_⟩
      rintro rfl
      rcases hfirst with hfirst | hfirst | hhead
      · cases hfirst
      · cases hfirst
      · obtain ⟨ds, hds⟩ := List.head?_eq_some_iff.1 hhead
        exact hnewline ds hc hds

/-! ## Literals as tokens -/

/-- A text in quotes. -/
def quoted (b : String) : String := "\"" ++ b ++ "\""

theorem toList_quoted (b : String) : (quoted b).toList = '"' :: (b.toList ++ ['"']) := by
  simp [quoted]

/-- The text is one string literal with the given value, and nothing else. -/
def Denotes (text value : String) : Prop :=
  (tokenize text).map Token.lexeme = [.literal value, .finish]

/-- A literal that takes up the whole of what is read is the only token. -/
theorem denotes_of_literal? {b : String} (hnul : '\x00' ∉ b.toList) (h : literal? (b.toList ++ ['"']) = some (v, e, [])) :
    Denotes (quoted b) (String.ofList v) := by
  have hread : '\x00' ∉ (quoted b).toList := by
    rw [toList_quoted]
    simp [hnul]
  have hcut : cut '"' (b.toList ++ ['"']) = ⟨.literal (String.ofList v), '"' :: e, []⟩ := by
    rw [cut, if_pos rfl, h]
  have hlex : (lex (quoted b)).1 = [⟨.literal (String.ofList v), Pos.start⟩] := by
    rw [lex_of_readable hread, toList_quoted, lexFrom_token rfl, hcut, lexFrom]
  rw [Denotes, tokenize, hlex]
  rfl

/-- A text in quotes that is one literal has a value that a literal can denote. -/
theorem denotable_of_denotes {b value : String} (h : Denotes (quoted b) value) : Denotable value.toList := by
  have hread : readable (quoted b).toList = '"' :: readable (b.toList ++ ['"']) := by
    have hquote : '\x00' ∉ ['"'] := by decide
    rw [toList_quoted]
    exact readable_append_left hquote _
  rw [Denotes, tokenize, lex, hread, lexFrom_token rfl, List.map_append, List.map_cons, List.cons_append] at h
  have hfirst : (cut '"' (readable (b.toList ++ ['"']))).lexeme = .literal value := (List.cons.inj h).1
  rcases cut_quote (readable (b.toList ++ ['"'])) with ⟨v, e, r, hclosed, hcut⟩ | ⟨-, hcut⟩
  · rw [hcut] at hfirst
    cases hfirst
    rw [String.toList_ofList]
    refine denotable_of_literal? ?_ hclosed
    intro hnul
    have hkept := List.mem_takeWhile_imp hnul
    cases hkept
  · rw [hcut] at hfirst
    cases hfirst

/-- A denotable text is denoted by what is written for it. -/
theorem denotes_escape {value : String} (h : Denotable value.toList) :
    Denotes (quoted (String.ofList (escape value.toList))) value := by
  have hnul : '\x00' ∉ escape value.toList := by
    rw [escape, List.mem_flatMap]
    rintro ⟨c, hc, hmem⟩
    unfold escapeChar at hmem
    split at hmem
    · simp at hmem
    · split at hmem
      · simp at hmem
      · exact h.nul (List.mem_singleton.1 hmem ▸ hc)
  have hdenotes := denotes_of_literal? (b := String.ofList (escape value.toList)) (by rwa [String.toList_ofList])
    (by rw [String.toList_ofList]; exact h.literal?_escape [])
  rwa [String.ofList_toList] at hdenotes

/-- A text is the value of a string literal exactly when it has no NUL character, no backslash right before an `n` and no backslash at
its end. It is then written with a backslash before each quote, a backslash and an `n` for each newline, and all else unchanged. -/
theorem exists_literal_iff (value : String) :
    ((∃ b, Denotes (quoted b) value) ↔ Denotable value.toList) ∧
    (Denotes (quoted (String.ofList (escape value.toList))) value ↔ Denotable value.toList) := by
  refine ⟨⟨?_, fun h => ⟨_, denotes_escape h⟩⟩, ⟨denotable_of_denotes, denotes_escape⟩⟩
  rintro ⟨b, hb⟩
  exact denotable_of_denotes hb

end Token

end Stepwise
