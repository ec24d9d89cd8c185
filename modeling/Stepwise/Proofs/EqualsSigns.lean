import Stepwise.Proofs.Cutting
import Stepwise.Proofs.Extents

/-!
# The equals sign of an assignment

The equals sign of an assignment is looked for in the characters of a command, before the command is cut into tokens. The search has
rules of its own for what belongs together: a backslash in a string literal takes any next character with it, and two equals signs
are a pair whatever stands before them. So it finds the equals sign that is a token of its own, except in two cases. In a literal, a
quote behind an even number of backslashes is escaped for the tokens and closes the literal for the search. And where a comparison of
two signs is followed by one more equals sign, the search takes the wrong two for a pair.
-/

namespace Stepwise

/-! ## What the search goes over -/

/-- The text before the equals sign that the search finds. -/
def beforeSign? (quoted : Bool) (prev : Char) (cs : List Char) : Option (List Char) :=
  (findAssignment quoted prev cs).map Prod.fst

/-- The search goes over a piece of text: what it finds in the whole is what it finds in the rest. It comes to the piece inside a
string literal or outside, behind the character `prev`, and in the same way to the rest, behind the character `last`. -/
def GoesOver (quoted : Bool) (prev : Char) (piece : List Char) (quoted' : Bool) (last : Char) (rest : List Char) : Prop :=
  beforeSign? quoted prev (piece ++ rest) = (beforeSign? quoted' last rest).map (piece ++ ·)

/-- A sign that makes a comparison with an equals sign behind it. -/
def IsMark (c : Char) : Prop := c = '!' ∨ c = '<' ∨ c = '>'

/-- No comparison goes across: an equals sign at the front of the text does not belong to the character before it. -/
def Free (prev : Char) (cs : List Char) : Prop := IsMark prev → cs.head? ≠ some '='

/-- The characters that the search looks for outside string literals. -/
def signs : List Char := ['"', '=', '!', '<', '>']

/-- The search takes no notice of the character, outside string literals. -/
abbrev Plain (c : Char) : Prop := c ∉ signs

section

variable {quoted quoted' quoted'' : Bool} {prev last last' c : Char} {piece piece' rest : List Char}

theorem goesOver_nil (quoted : Bool) (prev : Char) (rest : List Char) : GoesOver quoted prev [] quoted prev rest := by
  simp [GoesOver]

/-- Two pieces are gone over one after the other. -/
theorem GoesOver.trans (h : GoesOver quoted prev piece quoted' last (piece' ++ rest))
    (h' : GoesOver quoted' last piece' quoted'' last' rest) : GoesOver quoted prev (piece ++ piece') quoted'' last' rest := by
  rw [GoesOver, List.append_assoc, h, h', Option.map_map]
  congr 1
  funext before
  rw [Function.comp_apply, List.append_assoc]

theorem goesOver_escape (prev d : Char) (rest : List Char) : GoesOver true prev ['\\', d] true d rest := by
  rw [GoesOver, List.cons_append, List.singleton_append, beforeSign?, findAssignment_escape, Option.map_map, beforeSign?,
    Option.map_map]
  rfl

theorem goesOver_quote (quoted : Bool) (prev : Char) (rest : List Char) : GoesOver quoted prev ['"'] (!quoted) '"' rest := by
  rw [GoesOver, List.singleton_append, beforeSign?, findAssignment_quote, Option.map_map, beforeSign?, Option.map_map]
  rfl

theorem goesOver_equal (prev : Char) (rest : List Char) : GoesOver false prev ['=', '='] false '=' rest := by
  rw [GoesOver, List.cons_append, List.singleton_append, beforeSign?, findAssignment_equal, Option.map_map, beforeSign?,
    Option.map_map]
  rfl

/-- An equals sign behind a sign of comparison is gone over when no other one follows. -/
theorem goesOver_mark (hmark : IsMark prev) (h : rest.head? ≠ some '=') : GoesOver false prev ['='] false '=' rest := by
  unfold IsMark at hmark
  rw [GoesOver, List.singleton_append, beforeSign?, findAssignment_single prev h, if_pos hmark, Option.map_map, beforeSign?,
    Option.map_map]
  rfl

theorem goesOver_other (h1 : ¬ (c = '\\' ∧ quoted = true)) (h2 : c ≠ '"') (h3 : ¬ (c = '=' ∧ quoted = false)) (prev : Char)
    (rest : List Char) : GoesOver quoted prev [c] quoted c rest := by
  rw [GoesOver, List.singleton_append, beforeSign?, findAssignment_other h1 h2 h3, Option.map_map, beforeSign?, Option.map_map]
  rfl

theorem free_of_not_isMark (h : ¬ IsMark c) (rest : List Char) : Free c rest := by
  intro hmark
  exact absurd hmark h

/-- No comparison goes across behind a plain character. -/
theorem Plain.free (h : Plain c) (rest : List Char) : Free c rest := by
  refine free_of_not_isMark ?_ rest
  rintro (rfl | rfl | rfl)
  all_goals exact h (by decide)

theorem Plain.goesOver (h : Plain c) (prev : Char) (rest : List Char) : GoesOver false prev [c] false c rest := by
  refine goesOver_other (by simp) ?_ ?_ prev rest
  · rintro rfl
    exact h (by decide)
  · rintro ⟨rfl, -⟩
    exact h (by decide)

/-- A plain text is gone over, up to its last character. -/
theorem goesOver_plain (h : ∀ d ∈ c :: piece, Plain d) (prev : Char) (rest : List Char) :
    ∃ last, Free last rest ∧ GoesOver false prev (c :: piece) false last rest := by
  induction piece generalizing c prev with
  | nil => exact ⟨c, (h c List.mem_cons_self).free rest, (h c List.mem_cons_self).goesOver prev rest⟩
  | cons d piece ih =>
    obtain ⟨last, hfree, hlater⟩ := ih (fun e he => h e (List.mem_cons_of_mem c he)) c
    exact ⟨last, hfree, ((h c List.mem_cons_self).goesOver prev _).trans hlater⟩

/-- The search stops at an equals sign that belongs to no comparison. -/
theorem beforeSign?_lone (hfree : Free prev ('=' :: rest)) (h : rest.head? ≠ some '=') :
    beforeSign? false prev ('=' :: rest) = some [] := by
  have hmark : ¬ (prev = '!' ∨ prev = '<' ∨ prev = '>') := fun hmark => hfree hmark rfl
  rw [beforeSign?, findAssignment_single prev h, if_neg hmark]
  rfl

end

/-! ## String literals -/

/-- How many backslashes stand at the end of a text. -/
def backslashes (cs : List Char) : Nat := (cs.reverse.takeWhile (· == '\\')).length

@[simp]
theorem backslashes_concat (cs : List Char) (c : Char) : backslashes (cs ++ [c]) = if c = '\\' then backslashes cs + 1 else 0 := by
  rw [backslashes, List.reverse_append, List.reverse_singleton, List.singleton_append]
  by_cases hc : c = '\\'
  · rw [if_pos hc, List.takeWhile_cons_of_pos (by simpa using hc), List.length_cons, backslashes]
  · rw [if_neg hc, List.takeWhile_cons_of_neg (by simpa using hc), List.length_nil]

/-- Each quote between the first character and the last one stands behind an odd number of backslashes, so that it is escaped whether
a backslash can be escaped or not. -/
def Unambiguous (extent : List Char) : Prop :=
  ∀ i < extent.length - 1, extent[i]? = some '"' → i = 0 ∨ backslashes (extent.take i) % 2 = 1

instance : DecidablePred Unambiguous := fun extent =>
  inferInstanceAs (Decidable (∀ i < extent.length - 1, extent[i]? = some '"' → i = 0 ∨ backslashes (extent.take i) % 2 = 1))

/-- Each quote of the text stands behind an odd number of backslashes, counted from those of `pre` on. -/
def Escaped (pre body : List Char) : Prop :=
  ∀ before after, body = before ++ '"' :: after → backslashes (pre ++ before) % 2 = 1

theorem Escaped.tail {pre body : List Char} {c : Char} (h : Escaped pre (c :: body)) : Escaped (pre ++ [c]) body := by
  intro before after heq
  rw [List.append_assoc, List.singleton_append]
  exact h (c :: before) after (by rw [heq, List.cons_append])

/-- A literal whose quotes are all escaped is gone over. A backslash with an even number of them before it takes the next character
with it, so that the text is cut into pieces of one or two characters, and every quote is the second of two. -/
theorem goesOver_body {pre body : List Char} (hescaped : Escaped pre body) (hend : backslashes (pre ++ body) % 2 = 0) (prev : Char)
    (rest : List Char) :
    (backslashes pre % 2 = 0 → ∃ last, GoesOver true prev body true last rest) ∧
      (backslashes pre % 2 = 1 → ∃ last, GoesOver true prev ('\\' :: body) true last rest) := by
  induction body generalizing pre prev with
  | nil =>
    rw [List.append_nil] at hend
    refine ⟨fun _ => ⟨prev, goesOver_nil _ _ _⟩, ?_⟩
    intro hodd
    omega
  | cons c body ih =>
    have hnext := @ih (pre ++ [c]) hescaped.tail (by rw [List.append_assoc]; exact hend)
    rw [backslashes_concat] at hnext
    refine ⟨?_, ?_⟩
    · intro heven
      by_cases hbackslash : c = '\\'
      · rw [if_pos hbackslash] at hnext
        rw [hbackslash]
        exact (hnext prev).2 (by omega)
      · have hquote : c ≠ '"' := by
          rintro rfl
          have hodd := hescaped [] body rfl
          rw [List.append_nil] at hodd
          omega
        rw [if_neg hbackslash] at hnext
        obtain ⟨last, hlater⟩ := (hnext c).1 rfl
        exact ⟨last, (goesOver_other (by simp [hbackslash]) hquote (by simp) prev _).trans hlater⟩
    · intro hodd
      have heven : (if c = '\\' then backslashes pre + 1 else 0) % 2 = 0 := by
        split <;> omega
      obtain ⟨last, hlater⟩ := (hnext c).1 heven
      exact ⟨last, (goesOver_escape prev c _).trans hlater⟩

/-- In front of other characters, the quotes of an unambiguous literal are escaped. -/
theorem escaped_of_unambiguous {body rest : List Char} (h : Unambiguous ('"' :: (body ++ rest))) (hrest : rest ≠ []) :
    Escaped ['"'] body := by
  intro before after heq
  have hlength : 0 < rest.length := List.length_pos_iff.2 hrest
  have hinside : before.length + 1 < ('"' :: (body ++ rest)).length - 1 := by
    rw [heq, List.length_cons, List.length_append, List.length_append, List.length_cons]
    omega
  have hquote : ('"' :: (body ++ rest))[before.length + 1]? = some '"' := by
    rw [heq, List.getElem?_cons_succ, List.append_assoc, List.getElem?_append_right (Nat.le_refl _), Nat.sub_self]
    rfl
  have htake : ('"' :: (body ++ rest)).take (before.length + 1) = ['"'] ++ before := by
    rw [heq, List.take_succ_cons, List.append_assoc, List.take_left, List.singleton_append]
  rcases h _ hinside hquote with hzero | hodd
  · cases hzero
  · rwa [htake] at hodd

/-- An unambiguous literal is gone over as far as a character behind an even number of backslashes. -/
theorem goesOver_unambiguous {body rest : List Char} (h : Unambiguous ('"' :: (body ++ rest))) (hrest : rest ≠ [])
    (hend : backslashes ('"' :: body) % 2 = 0) (prev : Char) (later : List Char) : ∃ last, GoesOver true prev body true last later :=
  (goesOver_body (escaped_of_unambiguous h hrest) hend prev later).1 rfl

/-- One character of a literal is nothing to find. -/
theorem beforeSign?_singleton (prev d : Char) : beforeSign? true prev [d] = none := by
  by_cases hbackslash : d = '\\'
  · simp [beforeSign?, findAssignment, hbackslash]
  · by_cases hquote : d = '"'
    · simp [beforeSign?, findAssignment, hquote]
    · simp [beforeSign?, findAssignment, hbackslash, hquote]

/-- Nothing is found in an unambiguous literal that is not closed. -/
theorem beforeSign?_open {body : List Char} (h : Unambiguous ('"' :: body)) (prev : Char) : beforeSign? true prev body = none := by
  rcases List.eq_nil_or_concat' body with rfl | ⟨init, d, rfl⟩
  · rfl
  · by_cases hend : backslashes ('"' :: init) % 2 = 0
    · obtain ⟨last, hover⟩ := goesOver_unambiguous h (by simp) hend prev [d]
      rw [hover, beforeSign?_singleton]
      rfl
    · -- the last character is taken by the backslash before it
      rcases List.eq_nil_or_concat' init with rfl | ⟨init, e, rfl⟩
      · exact absurd rfl hend
      · rw [← List.cons_append, backslashes_concat] at hend
        by_cases he : e = '\\'
        · subst he
          rw [if_pos rfl] at hend
          rw [List.append_assoc] at h ⊢
          obtain ⟨last, hover⟩ := goesOver_unambiguous h (by simp) (by omega) prev ['\\', d]
          have hescape : beforeSign? true last ['\\', d] = none := goesOver_escape last d []
          show beforeSign? true prev (init ++ ['\\', d]) = none
          rw [hover, hescape]
          rfl
        · rw [if_neg he] at hend
          exact absurd rfl hend

/-! ## Tokens and the texts before them -/

namespace Pos

/-- Behind a text a place is on a later line, or on the same line as many columns later. -/
theorem line_lt_after_or (p : Pos) (cs : List Char) :
    p.line < (p.after cs).line ∨ (p.line = (p.after cs).line ∧ (p.after cs).col = p.col + cs.length) := by
  induction cs generalizing p with
  | nil => exact Or.inr ⟨rfl, rfl⟩
  | cons c cs ih =>
    have hlater := ih (p.next c)
    rw [after_cons, List.length_cons]
    generalize (p.next c).after cs = q at hlater ⊢
    unfold next at hlater
    split at hlater
    · left
      simp only at hlater
      omega
    · simp only at hlater
      omega

/-- The beginning of a text, which stands at the place `q`, up to the place `p`. -/
def textBefore (p : Pos) : Pos → List Char → List Char
  | _, [] => []
  | q, c :: cs => if q = p then [] else c :: textBefore p (q.next c) cs

/-- A text is told from the place behind it. -/
theorem textBefore_after (q : Pos) (before cs : List Char) : textBefore (q.after before) q (before ++ cs) = before := by
  induction before generalizing q with
  | nil => cases cs <;> simp [textBefore]
  | cons c before ih =>
    have hne : q ≠ q.after (c :: before) := by
      intro heq
      have hlater := line_lt_after_or q (c :: before)
      rw [← heq, List.length_cons] at hlater
      omega
    rw [List.cons_append, textBefore, if_neg hne, after_cons, ih]

end Pos

namespace Token

/-- A token with the text that stands before it. -/
structure Placed extends Cut where
  before : List Char

/-- The tokens of a text that follows the text `before`. -/
def placed (before : List Char) : List Char → List Placed
  | [] => []
  | c :: cs =>
    if isSpace c then placed (before ++ [c]) cs
    else ⟨cut c cs, before⟩ :: placed (before ++ (cut c cs).extent) (cut c cs).rest
termination_by cs => cs.length
decreasing_by
  · simp
  · exact length_cut_rest c cs

namespace Placed

/-- The token as it is read. -/
def token (t : Placed) : Token := ⟨t.lexeme, Pos.start.after t.before⟩

/-- The token is an equals sign that belongs to no comparison. -/
def isLone (t : Placed) : Bool := t.lexeme == .stray '='

/-- The token is a comparison of two signs, `!=`, `<=` or `>=`, with one more equals sign behind it. -/
def isDoubled (t : Placed) : Bool :=
  (t.lexeme == .compare .ne || t.lexeme == .compare .le || t.lexeme == .compare .ge) && t.rest.head? == some '='

end Placed

/-- The offset of the first equals sign of its own in a text that follows the text `before`, counted from the start of `before`. -/
def loneAt? (before cs : List Char) : Option Nat :=
  ((placed before cs).find? Placed.isLone).map fun t => Text.byteLength t.before

/-- The offset of the first token that is an equals sign of its own, in bytes. -/
def loneOffset? (s : String) : Option Nat :=
  ((tokenize s).find? fun t => t.lexeme == .stray '=').map fun t => Text.byteLength (t.pos.textBefore Pos.start s.toList)

variable {c : Char} {cs before : List Char} {prev : Char} {t : Placed}

/-- The tokens are those that are read. -/
theorem map_token_placed (before cs : List Char) :
    (placed before cs).map Placed.token = (lexFrom (Pos.start.after before) cs).1 := by
  fun_induction placed before cs with
  | case1 before => rw [lexFrom]; rfl
  | case2 before c cs hspace ih => rw [ih, lexFrom_space hspace, Pos.after_append]; rfl
  | case3 before c cs hspace ih =>
    rw [List.map_cons, ih, lexFrom_token (by simpa using hspace), Pos.after_append]
    rfl

/-- A token stands in the text, behind the text before it. -/
theorem text_of_mem_placed (ht : t ∈ placed before cs) :
    ∃ between after, t.before = before ++ between ∧ before ++ cs = t.before ++ after := by
  fun_induction placed before cs with
  | case1 before => cases ht
  | case2 before c cs hspace ih =>
    obtain ⟨between, after, hbefore, htext⟩ := ih ht
    rw [List.append_assoc] at hbefore htext
    exact ⟨_, after, hbefore, htext⟩
  | case3 before c cs hspace ih =>
    rcases List.mem_cons.1 ht with rfl | ht
    · exact ⟨[], c :: cs, (List.append_nil before).symm, rfl⟩
    · obtain ⟨between, after, hbefore, htext⟩ := ih ht
      rw [List.append_assoc] at hbefore htext
      rw [cut_append] at htext
      exact ⟨_, after, hbefore, htext⟩

/-- The offset of an equals sign is the length of the text before it. -/
theorem loneOffset?_eq {s : String} (hnul : '\x00' ∉ s.toList) : loneOffset? s = loneAt? [] s.toList := by
  have hread : (lex s).1 = (placed [] s.toList).map Placed.token := by rw [lex_of_readable hnul, map_token_placed, Pos.after_nil]
  have hfind : (tokenize s).find? (fun t => t.lexeme == .stray '=') =
      ((placed [] s.toList).find? Placed.isLone).map Placed.token := by
    rw [tokenize, hread, List.find?_append, List.find?_map]
    exact Option.or_none
  rw [loneOffset?, hfind, Option.map_map, loneAt?]
  refine Option.map_congr ?_
  intro t ht
  obtain ⟨between, after, -, htext⟩ := text_of_mem_placed (List.mem_of_find?_eq_some ht)
  rw [List.nil_append] at htext
  rw [Function.comp_apply, htext, Placed.token, Pos.textBefore_after]

/-! ## The search goes over a token -/

/-- A sign of comparison is gone over by itself. -/
theorem goesOver_sign (hmark : IsMark c) (prev : Char) (rest : List Char) : GoesOver false prev [c] false c rest := by
  rcases hmark with rfl | rfl | rfl
  all_goals exact goesOver_other (by simp) (by decide) (by simp) prev rest

/-- An unambiguous literal is gone over. -/
theorem goesOver_literal {v e r : List Char} (h : literal? cs = some (v, e, r)) (hread : Unambiguous ('"' :: e)) (prev : Char) :
    GoesOver false prev ('"' :: e) false '"' r := by
  obtain ⟨body, rfl, -, hlast⟩ := literal?_closed h
  have hend : backslashes ('"' :: body) % 2 = 0 := by
    rcases List.eq_nil_or_concat' body with rfl | ⟨init, d, rfl⟩
    · rfl
    · rw [← List.cons_append, backslashes_concat, if_neg (by simpa using hlast)]
  obtain ⟨last, hbody⟩ := goesOver_unambiguous hread (by simp) hend '"' ('"' :: r)
  have hclosed : GoesOver true '"' (body ++ ['"']) false '"' r := hbody.trans (goesOver_quote true last r)
  exact (goesOver_quote false prev _).trans hclosed

/-- A sign of comparison is gone over together with an equals sign behind it, when no other one follows. -/
theorem goesOver_cutPair (hmark : IsMark c) (paired alone : Lexeme) (h : ∀ ds, cs = '=' :: ds → ds.head? ≠ some '=') (prev : Char) :
    ∃ last, Free last (cutPair c paired alone cs).rest ∧
      GoesOver false prev (cutPair c paired alone cs).extent false last (cutPair c paired alone cs).rest := by
  unfold cutPair
  split
  · rename_i ds
    have hhead := h ds rfl
    exact ⟨'=', fun _ => hhead, (goesOver_sign hmark prev _).trans (goesOver_mark hmark hhead)⟩
  · rename_i hnot
    refine ⟨c, fun _ hhead => ?_, goesOver_sign hmark prev cs⟩
    obtain ⟨ds, hds⟩ := List.head?_eq_some_iff.1 hhead
    exact hnot ds hds

/-- The operators that end in an equals sign. -/
theorem eq_or_isMark_of_symbol {op : CompareOp} (h : op.symbol.toList = [c, '=']) :
    c = '=' ∨ (IsMark c ∧ (op = .ne ∨ op = .le ∨ op = .ge)) := by
  have hhead : op.symbol.toList.head? = some c := by rw [h]; rfl
  have hlength : op.symbol.toList.length = 2 := by rw [h]; rfl
  cases op with
  | eq =>
    cases hhead
    exact Or.inl rfl
  | ne =>
    cases hhead
    exact Or.inr ⟨Or.inl rfl, Or.inl rfl⟩
  | le =>
    cases hhead
    exact Or.inr ⟨Or.inr (Or.inl rfl), Or.inr (Or.inl rfl)⟩
  | ge =>
    cases hhead
    exact Or.inr ⟨Or.inr (Or.inr rfl), Or.inr (Or.inr rfl)⟩
  | lt => cases hlength
  | gt => cases hlength

/-- A character of a word is plain. -/
theorem plain_of_isDelimiter (h : isDelimiter c = false) : Plain c := by
  intro hc
  have hsigns : signs.all isDelimiter = true := rfl
  rw [List.all_eq_true.1 hsigns c hc] at h
  cases h

/-- A blank is plain. -/
theorem plain_of_isSpace (h : isSpace c = true) : Plain c := by
  intro hc
  have hsigns : signs.all (fun d => !isSpace d) = true := rfl
  have hnot := List.all_eq_true.1 hsigns c hc
  rw [h] at hnot
  cases hnot

/-- A parenthesis or an operator of arithmetic is plain. -/
theorem plain_of_text {l : Lexeme} (hkind : l = .opening ∨ l = .closing ∨ ∃ op, l = .arith op) (htext : l.text.toList = [c]) :
    Plain c := by
  rcases hkind with rfl | rfl | ⟨op, rfl⟩
  · obtain rfl : '(' = c := by simpa [Lexeme.text] using htext
    decide
  · obtain rfl : ')' = c := by simpa [Lexeme.text] using htext
    decide
  · obtain rfl : op.symbol = c := by simpa [Lexeme.text] using htext
    cases op <;> decide

/-- A token that is neither an equals sign of its own nor doubled is gone over when it is unambiguous, and no comparison goes across
its end. -/
theorem exists_goesOver_cut (hspace : isSpace c = false) (hlone : Placed.isLone ⟨cut c cs, before⟩ = false)
    (hdoubled : Placed.isDoubled ⟨cut c cs, before⟩ = false) (hread : Unambiguous (cut c cs).extent) (prev : Char) :
    ∃ last, Free last (cut c cs).rest ∧ GoesOver false prev (cut c cs).extent false last (cut c cs).rest := by
  have hcuts := cuts_cut hspace cs
  generalize cut c cs = t at hcuts hlone hdoubled hread
  cases hcuts with
  | closed quote closes =>
    subst quote
    exact ⟨'"', free_of_not_isMark (by simp [IsMark]) _, goesOver_literal closes hread prev⟩
  | unclosed quote opens =>
    subst quote
    refine ⟨'"', free_of_not_isMark (by simp [IsMark]) _, (goesOver_quote false prev _).trans ?_⟩
    show beforeSign? true '"' (cs ++ []) = none
    rw [List.append_nil, beforeSign?_open hread]
  | pair sign paired single =>
    rcases eq_or_isMark_of_symbol paired with rfl | ⟨hmark, hop⟩
    · revert hlone
      unfold cutPair
      split
      · intro _
        exact ⟨'=', free_of_not_isMark (by simp [IsMark]) _, goesOver_equal prev _⟩
      · intro hlone
        rcases single with ⟨op', rfl, hsymbol⟩ | ⟨rfl, -⟩
        · cases op' <;> cases hsymbol
        · cases hlone
    · refine goesOver_cutPair hmark _ _ ?_ prev
      rintro ds rfl hhead
      rcases hop with rfl | rfl | rfl
      all_goals simp [Placed.isDoubled, cutPair, hhead] at hdoubled
  | sign sign kind text =>
    have hplain := plain_of_text kind text
    exact ⟨c, hplain.free cs, hplain.goesOver prev cs⟩
  | word plain =>
    refine goesOver_plain ?_ prev _
    intro d hd
    rcases List.mem_cons.1 hd with rfl | hd
    · exact plain_of_isDelimiter plain
    · exact plain_of_isDelimiter (by simpa using List.mem_takeWhile_imp hd)

/-- An equals sign of its own has none behind it. -/
theorem eq_of_isLone (hspace : isSpace c = false) (h : Placed.isLone ⟨cut c cs, before⟩ = true) :
    c = '=' ∧ cs.head? ≠ some '=' := by
  have hfits := fits_cut_nil hspace cs
  have hlexeme : (cut c cs).lexeme = .stray '=' := by simpa [Placed.isLone] using h
  rw [hlexeme] at hfits
  obtain ⟨hextent, -, hrest⟩ := hfits
  have htext := cut_append c cs
  rw [hextent] at htext
  obtain ⟨rfl, hcs⟩ := List.cons.inj htext
  exact ⟨rfl, hcs ▸ hrest⟩

theorem isLone_cut (h : cs.head? ≠ some '=') : Placed.isLone ⟨cut '=' cs, before⟩ = true := by
  cases cs with
  | nil => rfl
  | cons d cs =>
    have hd : d ≠ '=' := by simpa using h
    simp [Placed.isLone, cut, cutPair, hd]

/-- What a doubled comparison is made of. -/
theorem eq_of_isDoubled (hspace : isSpace c = false) (h : Placed.isDoubled ⟨cut c cs, before⟩ = true) :
    ∃ ds, IsMark c ∧ cs = '=' :: '=' :: ds ∧ (cut c cs).extent = [c, '='] ∧ (cut c cs).rest = '=' :: ds := by
  have hfits := fits_cut_nil hspace cs
  have htext := cut_append c cs
  simp only [Placed.isDoubled, Bool.and_eq_true, Bool.or_eq_true, beq_iff_eq] at h
  obtain ⟨hlexeme, hhead⟩ := h
  obtain ⟨ds, hds⟩ := List.head?_eq_some_iff.1 hhead
  rw [hds] at htext
  have hextent : ∃ d, IsMark d ∧ (cut c cs).extent = [d, '='] := by
    rcases hlexeme with (hlexeme | hlexeme) | hlexeme
    all_goals rw [hlexeme] at hfits
    · exact ⟨'!', Or.inl rfl, hfits.1⟩
    · exact ⟨'<', Or.inr (Or.inl rfl), hfits.1⟩
    · exact ⟨'>', Or.inr (Or.inr rfl), hfits.1⟩
  obtain ⟨d, hmark, hextent⟩ := hextent
  rw [hextent] at htext
  obtain ⟨rfl, hcs⟩ := List.cons.inj htext
  exact ⟨ds, hmark, hcs.symm, hextent, hds⟩

/-! ## The whole text -/

/-- The offset of the equals sign that the search finds in a text that follows the text `before`, counted from the start of
`before`. -/
def signAt? (before : List Char) (prev : Char) (cs : List Char) : Option Nat :=
  (beforeSign? false prev cs).map fun later => Text.byteLength (before ++ later)

theorem signAt?_append {piece rest : List Char} {last : Char} (h : GoesOver false prev piece false last rest) (before : List Char) :
    signAt? before prev (piece ++ rest) = signAt? (before ++ piece) last rest := by
  rw [signAt?, h, Option.map_map, signAt?]
  congr 1
  funext later
  rw [Function.comp_apply, List.append_assoc]

theorem loneAt?_token (hspace : isSpace c = false) (hlone : Placed.isLone ⟨cut c cs, before⟩ = false) :
    loneAt? before (c :: cs) = loneAt? (before ++ (cut c cs).extent) (cut c cs).rest := by
  rw [loneAt?, placed, if_neg (by simp [hspace]), List.find?_cons_of_neg (by simp [hlone]), loneAt?]

theorem loneAt?_lone (hspace : isSpace c = false) (hlone : Placed.isLone ⟨cut c cs, before⟩ = true) :
    loneAt? before (c :: cs) = some (Text.byteLength before) := by
  rw [loneAt?, placed, if_neg (by simp [hspace]), List.find?_cons_of_pos (by simp [hlone])]
  rfl

/-- What is found behind a text is found behind its end. -/
theorem le_of_signAt? {n : Nat} (h : signAt? before prev cs = some n) : Text.byteLength before ≤ n := by
  obtain ⟨later, -, rfl⟩ := Option.map_eq_some_iff.1 h
  rw [Text.byteLength_append]
  exact Nat.le_add_right _ _

theorem le_of_loneAt? {n : Nat} (h : loneAt? before cs = some n) : Text.byteLength before ≤ n := by
  obtain ⟨t, ht, rfl⟩ := Option.map_eq_some_iff.1 h
  obtain ⟨between, -, hbefore, -⟩ := text_of_mem_placed (List.mem_of_find?_eq_some ht)
  rw [hbefore, Text.byteLength_append]
  exact Nat.le_add_right _ _

/-- When the search is one equals sign ahead of the tokens, in a run of equals signs, they part for good. Both take the signs in pairs,
so that at the end of the run a single sign is left for one of them and none for the other. -/
theorem signAt?_ne_loneAt? (before ds : List Char) : signAt? (before ++ ['=']) '=' ds ≠ loneAt? before ('=' :: ds) := by
  intro heq
  by_cases hhead : ds.head? = some '='
  · obtain ⟨es, rfl⟩ := List.head?_eq_some_iff.1 hhead
    have hlone : loneAt? before ('=' :: '=' :: es) = loneAt? (before ++ ['=', '=']) es := loneAt?_token rfl rfl
    by_cases hnext : es.head? = some '='
    · obtain ⟨fs, rfl⟩ := List.head?_eq_some_iff.1 hnext
      have hsign := signAt?_append (goesOver_equal '=' fs) (before ++ ['='])
      refine signAt?_ne_loneAt? (before ++ ['=', '=']) fs ?_
      rw [← hlone, ← heq]
      simpa using hsign.symm
    · have hsign : signAt? (before ++ ['=']) '=' ('=' :: es) = some (Text.byteLength (before ++ ['='])) := by
        rw [signAt?, beforeSign?_lone (by simp [Free, IsMark]) hnext, Option.map_some, List.append_nil]
      rw [hsign, hlone] at heq
      have hle := le_of_loneAt? heq.symm
      simp only [Text.byteLength_append, Text.byteLength_cons, Text.byteLength_nil] at hle
      have hsize : '='.utf8Size = 1 := rfl
      omega
  · rw [loneAt?_lone rfl (isLone_cut hhead)] at heq
    have hle := le_of_signAt? heq
    rw [Text.byteLength_append] at hle
    have hsize : Text.byteLength ['='] = 1 := rfl
    omega
termination_by ds.length

/-- Over a whole text, the search and the tokens find the same equals sign unless a comparison is doubled before it. -/
theorem signAt?_eq_loneAt?_iff (hfree : Free prev cs)
    (hread : ∀ t ∈ (placed before cs).takeWhile fun t => !t.isLone && !t.isDoubled, Unambiguous t.extent) :
    signAt? before prev cs = loneAt? before cs ↔ ∀ t ∈ (placed before cs).takeWhile fun t => !t.isLone, t.isDoubled = false := by
  fun_induction placed before cs generalizing prev with
  | case1 before =>
    have hnone : signAt? before prev [] = loneAt? before [] := by rw [loneAt?, placed]; rfl
    exact ⟨fun _ => by simp, fun _ => hnone⟩
  | case2 before c cs hspace ih =>
    have hplain := plain_of_isSpace hspace
    have hsign := signAt?_append (hplain.goesOver prev cs) before
    have hlone : loneAt? before (c :: cs) = loneAt? (before ++ [c]) cs := by
      rw [loneAt?, placed, if_pos hspace, loneAt?]
    rw [← List.singleton_append, hsign, List.singleton_append, hlone]
    exact ih (hplain.free cs) hread
  | case3 before c cs hspace ih =>
    have hsolid : isSpace c = false := by simpa using hspace
    by_cases hlone : Placed.isLone ⟨cut c cs, before⟩ = true
    · obtain ⟨rfl, hhead⟩ := eq_of_isLone hsolid hlone
      have hsign : signAt? before prev ('=' :: cs) = some (Text.byteLength before) := by
        rw [signAt?, beforeSign?_lone hfree hhead, Option.map_some, List.append_nil]
      rw [List.takeWhile_cons_of_neg (by simp [hlone]), hsign, loneAt?_lone hsolid hlone]
      simp
    · rw [Bool.not_eq_true] at hlone
      rw [List.takeWhile_cons_of_pos (by simp [hlone]), List.forall_mem_cons]
      by_cases hdoubled : Placed.isDoubled ⟨cut c cs, before⟩ = true
      · -- the search takes the sign of the comparison alone, and both equals signs behind it
        obtain ⟨ds, hmark, rfl, hextent, hrest⟩ := eq_of_isDoubled hsolid hdoubled
        have hover : GoesOver false prev [c, '=', '='] false '=' ds := (goesOver_sign hmark prev _).trans (goesOver_equal c ds)
        have hsign : signAt? before prev (c :: '=' :: '=' :: ds) = signAt? (before ++ [c, '='] ++ ['=']) '=' ds := by
          rw [List.append_assoc]
          exact signAt?_append hover before
        rw [hsign, loneAt?_token hsolid hlone, hextent, hrest]
        exact iff_of_false (signAt?_ne_loneAt? _ ds) (by simp [hdoubled])
      · rw [Bool.not_eq_true] at hdoubled
        rw [List.takeWhile_cons_of_pos (by simp [hlone, hdoubled]), List.forall_mem_cons] at hread
        obtain ⟨last, hlast, hover⟩ := exists_goesOver_cut hsolid hlone hdoubled hread.1 prev
        have hsign := signAt?_append hover before
        rw [cut_append] at hsign
        rw [hsign, loneAt?_token hsolid hlone, ih hlast hread.2]
        simp [hdoubled]

/-- The search for the equals sign of an assignment agrees with the tokens of the command, unless a comparison is doubled. Let the
string literals be unambiguous up to the first equals sign of its own or the first doubled comparison. Then the search finds the first
equals sign of its own, or nothing where there is none, exactly if no comparison before it is doubled. -/
theorem assignment_sign_agrees_iff (text : String) (hnul : '\x00' ∉ text.toList)
    (hread : ∀ t ∈ (placed [] text.toList).takeWhile fun t => !t.isLone && !t.isDoubled, Unambiguous t.extent) :
    assignOffset? text.toList = loneOffset? text ↔
      ∀ t ∈ (placed [] text.toList).takeWhile fun t => !t.isLone, t.isDoubled = false := by
  have hsign : assignOffset? text.toList = signAt? [] ' ' text.toList := by
    rw [assignOffset?, assignment?, signAt?, beforeSign?, Option.map_map]
    rfl
  rw [hsign, loneOffset?_eq hnul]
  exact signAt?_eq_loneAt?_iff (by simp [Free, IsMark]) hread

/-- The equals sign of an assignment behind one in a string literal, behind an escaped quote and behind two comparisons. -/
theorem assignment_sign_agrees_compared :
    loneOffset? "\"A=\\\"\" <= B != C = 1" = some 17 ∧
      assignOffset? "\"A=\\\"\" <= B != C = 1".toList = loneOffset? "\"A=\\\"\" <= B != C = 1" := by
  refine ⟨by decide +kernel, ?_⟩
  exact (assignment_sign_agrees_iff _ (by decide +kernel) (by decide +kernel)).2 (by decide +kernel)

/-- Behind a comparison that ends in an equals sign, the search misses the next one. And behind a literal that is not closed for the
tokens, it finds one that is no token. -/
theorem assignment_sign_disagrees :
    (assignOffset? "A<==1".toList = none ∧ loneOffset? "A<==1" = some 3) ∧
      (assignOffset? "\"\\\\\"=1".toList = some 4 ∧ loneOffset? "\"\\\\\"=1" = none) := by
  decide +kernel

end Token

end Stepwise
