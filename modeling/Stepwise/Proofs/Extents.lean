import Stepwise.Proofs.Seams
import Mathlib.Data.List.Forall2
import Mathlib.Data.List.Induction
import Mathlib.Data.List.TakeWhile

/-!
# No character is lost between tokens

Every token occupies a stretch of the text that was read, and what the token says can be checked on the characters of its stretch.
The stretches follow one another, and a character outside all of them is a blank. The place that a token carries is kept up while
the text is read; here it is counted anew from the characters before its stretch.
-/

namespace Stepwise

namespace Pos

/-- The line of a place is told by the line feeds before it, and its column by the characters since the last one. -/
theorem after_start (cs : List Char) :
    (start.after cs).line = 1 + cs.count '\n' ∧ (start.after cs).col = 1 + (cs.reverse.takeWhile (· != '\n')).length := by
  induction cs using List.reverseRecOn with
  | nil => exact ⟨rfl, rfl⟩
  | append_singleton cs c ih =>
    obtain ⟨hline, hcol⟩ := ih
    rw [after_append, after_cons, after_nil, List.count_append, List.reverse_append, List.reverse_singleton, List.singleton_append]
    unfold next
    by_cases hc : c = '\n'
    · subst hc
      rw [if_pos rfl, List.takeWhile_cons_of_neg (by decide), List.count_singleton_self, hline, Nat.add_assoc]
      exact ⟨rfl, rfl⟩
    · rw [if_neg hc, List.takeWhile_cons_of_pos (by simpa using hc), List.count_singleton, if_neg (by simpa using hc), hline, hcol,
        List.length_cons, Nat.add_assoc]
      exact ⟨rfl, rfl⟩

end Pos

/-- A stretch of a text: the characters from the index `start` on that stand before the index `stop`. -/
structure Extent where
  start : Nat
  stop : Nat
  deriving DecidableEq, Repr

namespace Extent

/-- The index lies in the stretch. -/
def Holds (e : Extent) (i : Nat) : Prop := e.start ≤ i ∧ i < e.stop

/-- The characters of the stretch. -/
def slice (e : Extent) (cs : List Char) : List Char := (cs.take e.stop).drop e.start

end Extent

namespace Token

/-! ## What the characters of a token show -/

/-- No quote closes the text: each one stands right behind a backslash. -/
def Unclosed (cs : List Char) : Prop :=
  ∀ before after, cs = before ++ '"' :: after → before.getLast? = some '\\'

/-- A word with delimiters, or the ends of the text, on both sides: it can be made longer on neither. -/
structure WholeWord (before word after : List Char) : Prop where
  filled : word ≠ []
  plain : ∀ c ∈ word, isDelimiter c = false
  left : ∀ c, before.getLast? = some c → isDelimiter c = true
  right : ∀ c, after.head? = some c → isDelimiter c = true

/-- What a token says fits the characters that it covers, between those before it and those after it. A word, an operator and a
parenthesis cover their own text. A string literal covers everything from its opening quote to the first quote that closes it, and
an unterminated one the whole rest of the text, where no quote closes it. -/
def Fits (before extent after : List Char) (l : Lexeme) : Prop :=
  match l with
  | .name _ => extent = l.text.toList ∧ WholeWord before extent after ∧ extent.head?.any Char.isDigit = false
  | .number _ => extent = l.text.toList ∧ WholeWord before extent after ∧ extent.head?.any Char.isDigit = true
  | .literal _ => ∃ body, extent = '"' :: (body ++ ['"']) ∧ Unclosed body ∧ body.getLast? ≠ some '\\'
  | .unterminated => ∃ body, extent = '"' :: body ∧ Unclosed body ∧ after = []
  | .arith _ => extent = l.text.toList
  | .opening => extent = l.text.toList
  | .closing => extent = l.text.toList
  | .compare _ => extent = l.text.toList ∧ (extent.length = 1 → after.head? ≠ some '=')
  | .stray c => extent = l.text.toList ∧ (c = '=' ∨ c = '!') ∧ after.head? ≠ some '='
  | .finish => extent = [] ∧ after = []

/-- A token occupies a stretch of a text: it stands where the stretch begins, and it says what the characters of the stretch show. -/
structure Occupies (cs : List Char) (t : Token) (e : Extent) : Prop where
  ordered : e.start ≤ e.stop
  inside : e.stop ≤ cs.length
  line : t.pos.line = 1 + (cs.take e.start).count '\n'
  col : t.pos.col = 1 + ((cs.take e.start).reverse.takeWhile (· != '\n')).length
  fits : Fits (cs.take e.start) (e.slice cs) (cs.drop e.stop) t.lexeme

/-- A text without quotes in front of an unclosed one is unclosed. -/
theorem Unclosed.cons {c : Char} {cs : List Char} (h : Unclosed cs) (hc : c ≠ '"') : Unclosed (c :: cs) := by
  intro before after heq
  cases before with
  | nil => exact absurd (List.cons.inj heq).1 hc
  | cons b before =>
    have hlast := h before after (List.cons.inj heq).2
    rw [List.getLast?_cons, hlast]
    rfl

/-- An escaped quote in front of an unclosed text does not close it. -/
theorem Unclosed.escape {cs : List Char} (h : Unclosed cs) : Unclosed ('\\' :: '"' :: cs) := by
  intro before after heq
  cases before with
  | nil => cases (List.cons.inj heq).1
  | cons b before =>
    obtain ⟨rfl, htail⟩ := List.cons.inj heq
    cases before with
    | nil => rfl
    | cons d before =>
      have hlast := h before after (List.cons.inj htail).2
      rw [List.getLast?_cons, List.getLast?_cons, hlast]
      rfl

/-- A literal that is not closed has no quote that closes it. -/
theorem unclosed_of_literal?_eq_none {cs : List Char} (h : literal? cs = none) : Unclosed cs := by
  fun_induction literal? cs with
  | case1 =>
    intro before after heq
    simp at heq
  | case2 => cases h
  | case3 cs ih => exact ((ih (Option.map_eq_none_iff.1 h)).cons (by decide)).cons (by decide)
  | case4 cs ih => exact (ih (Option.map_eq_none_iff.1 h)).escape
  | case5 c cs hquote _ _ ih => exact (ih (Option.map_eq_none_iff.1 h)).cons hquote

/-- A literal is closed by the first quote that does not stand behind a backslash. -/
theorem literal?_closed {cs v e r : List Char} (h : literal? cs = some (v, e, r)) :
    ∃ body, e = body ++ ['"'] ∧ Unclosed body ∧ body.getLast? ≠ some '\\' := by
  -- behind the characters of an escape or behind one other character, the rest of the literal is closed in the same way
  have hlast : ∀ (d : Char) (body : List Char), (body = [] → d ≠ '\\') → body.getLast? ≠ some '\\' →
      (d :: body).getLast? ≠ some '\\' := by
    intro d body hempty hbody heq
    rw [List.getLast?_cons] at heq
    cases hb : body.getLast? with
    | none =>
      rw [hb] at heq
      exact hempty (List.getLast?_eq_none_iff.1 hb) (Option.some.inj heq)
    | some a =>
      rw [hb] at heq
      exact hbody (hb.trans heq)
  fun_induction literal? cs generalizing v e r with
  | case1 => cases h
  | case2 cs =>
    cases h
    refine ⟨[], rfl, ?_, by simp⟩
    intro before after heq
    simp at heq
  | case3 cs ih =>
    obtain ⟨⟨v', e', r'⟩, h', heq⟩ := Option.map_eq_some_iff.1 h
    cases heq
    obtain ⟨body, rfl, hopen, hend⟩ := ih h'
    refine ⟨'\\' :: 'n' :: body, rfl, (hopen.cons (by decide)).cons (by decide), ?_⟩
    exact hlast _ _ (by simp) (hlast _ _ (fun _ => by decide) hend)
  | case4 cs ih =>
    obtain ⟨⟨v', e', r'⟩, h', heq⟩ := Option.map_eq_some_iff.1 h
    cases heq
    obtain ⟨body, rfl, hopen, hend⟩ := ih h'
    refine ⟨'\\' :: '"' :: body, rfl, hopen.escape, ?_⟩
    exact hlast _ _ (by simp) (hlast _ _ (fun _ => by decide) hend)
  | case5 c cs hquote _ hescape ih =>
    obtain ⟨⟨v', e', r'⟩, h', heq⟩ := Option.map_eq_some_iff.1 h
    cases heq
    obtain ⟨body, rfl, hopen, hend⟩ := ih h'
    refine ⟨c :: body, rfl, hopen.cons hquote, hlast c body ?_ hend⟩
    -- a backslash right before the closing quote would have escaped it
    rintro rfl hc
    exact hescape _ hc (literal?_append h').1.symm

/-! ## One token -/

/-- The ways to cut a token off the front of a text that begins with `c`. -/
inductive Cuts (c : Char) (cs : List Char) : Cut → Prop where
  | closed {v e r : List Char} (quote : c = '"') (closes : literal? cs = some (v, e, r)) :
      Cuts c cs ⟨.literal (String.ofList v), c :: e, r⟩
  | unclosed (quote : c = '"') (opens : literal? cs = none) : Cuts c cs ⟨.unterminated, c :: cs, []⟩
  | pair {op : CompareOp} {alone : Lexeme} (sign : isDelimiter c = true) (paired : op.symbol.toList = [c, '='])
      (single : (∃ op', alone = .compare op' ∧ op'.symbol.toList = [c]) ∨ (alone = .stray c ∧ (c = '=' ∨ c = '!'))) :
      Cuts c cs (cutPair c (.compare op) alone cs)
  | sign {l : Lexeme} (sign : isDelimiter c = true) (kind : l = .opening ∨ l = .closing ∨ ∃ op, l = .arith op)
      (text : l.text.toList = [c]) : Cuts c cs ⟨l, [c], cs⟩
  | word (plain : isDelimiter c = false) : Cuts c cs (cutWord c cs)

/-- An operator is written as its symbol. -/
theorem symbol_of_arith? {c : Char} {op : ArithOp} (h : arith? c = some op) : op.symbol = c := by
  unfold arith? at h
  split at h
  all_goals cases h
  all_goals rfl

/-- A token is cut in one of these ways. -/
theorem cuts_cut {c : Char} (hspace : isSpace c = false) (cs : List Char) : Cuts c cs (cut c cs) := by
  unfold cut
  by_cases hquote : c = '"'
  · rw [if_pos hquote]
    split
    · rename_i hliteral
      exact .closed hquote hliteral
    · rename_i hliteral
      exact .unclosed hquote hliteral
  rw [if_neg hquote]
  by_cases hequals : c = '='
  · rw [if_pos hequals]
    subst hequals
    exact .pair rfl rfl (Or.inr ⟨rfl, Or.inl rfl⟩)
  rw [if_neg hequals]
  by_cases hnot : c = '!'
  · rw [if_pos hnot]
    subst hnot
    exact .pair rfl rfl (Or.inr ⟨rfl, Or.inr rfl⟩)
  rw [if_neg hnot]
  by_cases hless : c = '<'
  · rw [if_pos hless]
    subst hless
    exact .pair rfl rfl (Or.inl ⟨.lt, rfl, rfl⟩)
  rw [if_neg hless]
  by_cases hgreater : c = '>'
  · rw [if_pos hgreater]
    subst hgreater
    exact .pair rfl rfl (Or.inl ⟨.gt, rfl, rfl⟩)
  rw [if_neg hgreater]
  by_cases hopening : c = '('
  · rw [if_pos hopening]
    subst hopening
    exact .sign rfl (Or.inl rfl) rfl
  rw [if_neg hopening]
  by_cases hclosing : c = ')'
  · rw [if_pos hclosing]
    subst hclosing
    exact .sign rfl (Or.inr (Or.inl rfl)) rfl
  rw [if_neg hclosing]
  cases harith : arith? c with
  | some op =>
    refine .sign ?_ (Or.inr (Or.inr ⟨op, rfl⟩)) ?_
    · simp [isDelimiter, harith]
    · simp [Lexeme.text, symbol_of_arith? harith]
  | none =>
    refine .word ?_
    simp [isDelimiter, hspace, harith, hquote, hequals, hnot, hless, hgreater, hopening, hclosing]

/-- What is no delimiter is no blank. -/
theorem isSpace_of_isDelimiter {c : Char} (h : isDelimiter c = false) : isSpace c = false := by
  simp only [isDelimiter, Bool.or_eq_false_iff] at h
  exact h.1.1.1.1.1.1.1.1

/-- A character that is no delimiter begins a word. -/
theorem cut_eq_cutWord {c : Char} (h : isDelimiter c = false) (cs : List Char) : cut c cs = cutWord c cs := by
  have hcuts := cuts_cut (isSpace_of_isDelimiter h) cs
  generalize cut c cs = t at hcuts
  cases hcuts with
  | closed quote closes =>
    subst quote
    cases h
  | unclosed quote opens =>
    subst quote
    cases h
  | pair sign paired single =>
    rw [sign] at h
    cases h
  | sign sign kind text =>
    rw [sign] at h
    cases h
  | word plain => rfl

/-- Between two texts a delimiter stands on one side at least, so that no word goes across. -/
def Border (before after : List Char) : Prop :=
  ∀ a b, before.getLast? = some a → after.head? = some b → isDelimiter a = true ∨ isDelimiter b = true

/-- The rest of a word is no word. -/
theorem isDelimiter_of_head?_dropWhile {cs : List Char} {b : Char}
    (h : (cs.dropWhile fun d => !isDelimiter d).head? = some b) : isDelimiter b = true := by
  have hnot := List.head?_dropWhile_not (fun d => !isDelimiter d) cs
  rw [h] at hnot
  simpa using hnot

/-- A token ends at a border. -/
theorem border_cut {c : Char} (hspace : isSpace c = false) (cs : List Char) : Border (cut c cs).extent (cut c cs).rest := by
  have hcuts := cuts_cut hspace cs
  generalize cut c cs = t at hcuts
  intro a b ha hb
  cases hcuts with
  | closed quote closes =>
    obtain ⟨body, rfl, _, _⟩ := literal?_closed closes
    left
    rw [List.getLast?_cons, List.getLast?_concat] at ha
    cases ha
    rfl
  | unclosed quote opens => cases hb
  | pair sign paired single =>
    left
    unfold cutPair at ha
    split at ha
    · cases ha
      rfl
    · cases ha
      exact sign
  | sign sign kind text =>
    left
    cases ha
    exact sign
  | word plain => exact Or.inr (isDelimiter_of_head?_dropWhile hb)

/-- A token fits the characters that are cut off for it, when it begins at a border. -/
theorem fits_cut {c : Char} (hspace : isSpace c = false) {before cs : List Char} (hborder : Border before (c :: cs)) :
    Fits before (cut c cs).extent (cut c cs).rest (cut c cs).lexeme := by
  have hcuts := cuts_cut hspace cs
  generalize cut c cs = t at hcuts
  cases hcuts with
  | closed quote closes =>
    obtain ⟨body, rfl, hopen, hend⟩ := literal?_closed closes
    exact ⟨body, by rw [quote], hopen, hend⟩
  | unclosed quote opens => exact ⟨cs, by rw [quote], unclosed_of_literal?_eq_none opens, rfl⟩
  | pair sign paired single =>
    unfold cutPair
    split
    · exact ⟨paired.symm, fun hlength => by cases hlength⟩
    · rename_i hnot
      have hafter : cs.head? ≠ some '=' := by
        intro hhead
        obtain ⟨rest, hrest⟩ := List.head?_eq_some_iff.1 hhead
        exact hnot rest hrest
      rcases single with ⟨op', rfl, hsymbol⟩ | ⟨rfl, hstray⟩
      · exact ⟨hsymbol.symm, fun _ => hafter⟩
      · exact ⟨by simp [Lexeme.text], hstray, hafter⟩
  | sign sign kind text =>
    rcases kind with rfl | rfl | ⟨op, rfl⟩
    · exact text.symm
    · exact text.symm
    · exact text.symm
  | word plain =>
    have hword : WholeWord before (cutWord c cs).extent (cutWord c cs).rest := by
      refine ⟨by simp [cutWord], ?_, ?_, fun b hb => isDelimiter_of_head?_dropWhile hb⟩
      · intro d hd
        rcases List.mem_cons.1 hd with rfl | hd
        · exact plain
        · simpa using List.mem_takeWhile_imp hd
      · intro a ha
        rcases hborder a c ha rfl with ha | hc
        · exact ha
        · rw [plain] at hc
          cases hc
    by_cases hdigit : c.isDigit = true
    · have hlexeme : (cutWord c cs).lexeme = .number (String.ofList (cutWord c cs).extent) := by simp [cutWord, hdigit]
      rw [hlexeme]
      exact ⟨by simp [Lexeme.text], hword, by simpa [cutWord] using hdigit⟩
    · have hlexeme : (cutWord c cs).lexeme = .name (String.ofList (cutWord c cs).extent) := by simp [cutWord, hdigit]
      rw [hlexeme]
      exact ⟨by simp [Lexeme.text], hword, by simpa [cutWord] using hdigit⟩

/-- At the front of a text a token begins at a border. -/
theorem fits_cut_nil {c : Char} (hspace : isSpace c = false) (cs : List Char) :
    Fits [] (cut c cs).extent (cut c cs).rest (cut c cs).lexeme := by
  refine fits_cut hspace ?_
  intro a b ha _
  cases ha

/-! ## The whole text -/

/-- A token that was cut off behind `before` occupies the stretch of the characters that were cut off. -/
theorem occupies_append {before extent after : List Char} {l : Lexeme} (h : Fits before extent after l) :
    Occupies (before ++ (extent ++ after)) ⟨l, Pos.start.after before⟩ ⟨before.length, before.length + extent.length⟩ := by
  have htake : (before ++ (extent ++ after)).take before.length = before := List.take_left
  have hslice : Extent.slice ⟨before.length, before.length + extent.length⟩ (before ++ (extent ++ after)) = extent := by
    rw [Extent.slice, ← List.append_assoc, ← List.length_append, List.take_left, List.drop_left]
  have hdrop : (before ++ (extent ++ after)).drop (before.length + extent.length) = after := by
    rw [← List.append_assoc, ← List.length_append, List.drop_left]
  obtain ⟨hline, hcol⟩ := Pos.after_start before
  refine ⟨Nat.le_add_right _ _, ?_, ?_, ?_, ?_⟩
  · rw [List.length_append, List.length_append, ← Nat.add_assoc]
    exact Nat.le_add_right _ _
  · rw [htake]
    exact hline
  · rw [htake]
    exact hcol
  · rw [htake, hslice, hdrop]
    exact h

/-- The tokens of a text, from the index `first` on, occupy stretches that follow one another, and outside of them stand only
blanks. -/
structure Layout (cs : List Char) (first : Nat) (tokens : List Token) (extents : List Extent) : Prop where
  occupied : List.Forall₂ (Occupies cs) tokens extents
  disjoint : extents.Pairwise fun a b => a.stop ≤ b.start
  behind : ∀ e ∈ extents, first ≤ e.start
  covered : ∀ i c, first ≤ i → cs[i]? = some c → (∃ e ∈ extents, e.Holds i) ∨ isSpace c = true

variable {cs before : List Char} {first : Nat} {tokens : List Token} {extents : List Extent}

/-- A blank in front of a layout. -/
theorem Layout.blank {c : Char} (h : Layout cs (first + 1) tokens extents) (hc : cs[first]? = some c) (hspace : isSpace c = true) :
    Layout cs first tokens extents := by
  refine ⟨h.occupied, h.disjoint, fun e he => Nat.le_of_succ_le (h.behind e he), ?_⟩
  intro i d hi hd
  rcases Nat.eq_or_lt_of_le hi with rfl | hi
  · rw [hc] at hd
    cases hd
    exact Or.inr hspace
  · exact h.covered i d hi hd

/-- A token in front of a layout. -/
theorem Layout.cons {t : Token} {stop : Nat} (h : Layout cs stop tokens extents) (ht : Occupies cs t ⟨first, stop⟩) :
    Layout cs first (t :: tokens) (⟨first, stop⟩ :: extents) := by
  refine ⟨.cons ht h.occupied, List.pairwise_cons.2 ⟨h.behind, h.disjoint⟩, ?_, ?_⟩
  · intro e he
    rcases List.mem_cons.1 he with rfl | he
    · exact Nat.le_refl _
    · exact Nat.le_trans ht.ordered (h.behind e he)
  · intro i c hi hc
    by_cases hstop : i < stop
    · exact Or.inl ⟨_, List.mem_cons_self, hi, hstop⟩
    · rcases h.covered i c (Nat.le_of_not_lt hstop) hc with ⟨e, he, hheld⟩ | hblank
      · exact Or.inl ⟨e, List.mem_cons_of_mem _ he, hheld⟩
      · exact Or.inr hblank

/-- A text leaves off where it ends. -/
theorem lexFrom_end (p : Pos) (cs : List Char) : (lexFrom p cs).2 = p.after cs := by
  fun_induction lexFrom p cs with
  | case1 p => rfl
  | case2 p c cs hspace ih => exact ih
  | case3 p c cs hspace t r ih =>
    show (lexFrom (p.after t.extent) t.rest).2 = _
    rw [ih, ← Pos.after_append, cut_append]

/-- The mark of the end occupies an empty stretch behind the text. -/
theorem occupies_finish (cs : List Char) : Occupies cs ⟨.finish, Pos.start.after cs⟩ ⟨cs.length, cs.length⟩ := by
  have hend : Occupies (cs ++ ([] ++ [])) ⟨.finish, Pos.start.after cs⟩ ⟨cs.length, cs.length + ([] : List Char).length⟩ :=
    occupies_append ⟨rfl, rfl⟩
  rwa [List.append_nil, List.append_nil] at hend

/-- The tokens of the text behind `before`, with the mark of the end, are laid out from there on. -/
theorem exists_layout {p : Pos} (hp : p = Pos.start.after before) (hborder : Border before cs) :
    ∃ extents, Layout (before ++ cs) before.length ((lexFrom p cs).1 ++ [⟨.finish, (lexFrom p cs).2⟩]) extents := by
  rw [lexFrom_end]
  fun_induction lexFrom p cs generalizing before with
  | case1 p =>
    subst hp
    rw [List.append_nil]
    have hnone : Layout before before.length [] [] :=
      ⟨.nil, List.Pairwise.nil, by simp, fun i c hi hc => by
        rw [List.getElem?_eq_none hi] at hc
        cases hc⟩
    exact ⟨_, hnone.cons (occupies_finish before)⟩
  | case2 p c cs hspace ih =>
    have hlater : Border (before ++ [c]) cs := by
      intro a b ha _
      rw [List.getLast?_concat] at ha
      cases ha
      exact Or.inl (by simp [isDelimiter, hspace])
    obtain ⟨extents, hlayout⟩ := ih (by rw [hp, Pos.after_append, Pos.after_cons, Pos.after_nil]) hlater
    rw [List.append_assoc, List.singleton_append, List.length_append, List.length_singleton] at hlayout
    exact ⟨extents, hlayout.blank (by simp) hspace⟩
  | case3 p c cs hspace t r =>
    rename_i ih
    have hsolid : isSpace c = false := by simpa using hspace
    have htext : t.extent ++ t.rest = c :: cs := cut_append c cs
    have hlater : Border (before ++ t.extent) t.rest := by
      intro a b ha hb
      rw [List.getLast?_append_of_ne_nil _ (cut_extent_ne_nil c cs)] at ha
      exact border_cut hsolid cs a b ha hb
    obtain ⟨extents, hlayout⟩ := ih (by rw [hp, Pos.after_append]) hlater
    have hoccupies := occupies_append (fits_cut hsolid hborder)
    rw [List.append_assoc, htext, List.length_append, ← Pos.after_append, htext] at hlayout
    rw [cut_append, ← hp] at hoccupies
    exact ⟨_, hlayout.cons hoccupies⟩

/-- Only the mark of the end says that the text ends. -/
theorem lexeme_ne_finish {p : Pos} {t : Token} (ht : t ∈ (lexFrom p cs).1) : t.lexeme ≠ .finish := by
  fun_induction lexFrom p cs with
  | case1 p => cases ht
  | case2 p c cs hspace ih => exact ih ht
  | case3 p c cs hspace cutting r ih =>
    rcases List.mem_cons.1 ht with rfl | ht
    · -- a token that is cut off a text covers a character, and the mark of the end covers none
      intro hfinish
      have hfits := fits_cut_nil (by simpa using hspace) cs
      have hlexeme : (cut c cs).lexeme = .finish := hfinish
      rw [hlexeme] at hfits
      exact cut_extent_ne_nil c cs hfits.1
    · exact ih ht

/-- An index lies in one stretch at most. -/
theorem Layout.holds_unique (h : Layout cs first tokens extents) {i j k : Nat} {d e : Extent} (hd : extents[j]? = some d)
    (he : extents[k]? = some e) (hj : d.Holds i) (hk : e.Holds i) : j = k := by
  obtain ⟨hjlt, rfl⟩ := List.getElem?_eq_some_iff.1 hd
  obtain ⟨hklt, rfl⟩ := List.getElem?_eq_some_iff.1 he
  have hpairwise := List.pairwise_iff_getElem.1 h.disjoint
  rcases Nat.lt_trichotomy j k with hlt | heq | hlt
  · have := hpairwise j k hjlt hklt hlt
    have := hj.2
    have := hk.1
    omega
  · exact heq
  · have := hpairwise k j hklt hjlt hlt
    have := hj.1
    have := hk.2
    omega

/-- No character is lost and none is read twice, for every text. Let `s` be the text up to its first NUL character. The tokens of
the text occupy stretches of `s`, in their order and without overlap; every character of `s` lies in exactly one of them, or in none,
and then it is a blank. Each token carries the line and the column of the first character of its stretch, counted from the start of
`s`, and says what the characters of its stretch show. The last token marks the end of `s`, and no other one does. -/
theorem tokenize_occupies_text (text : String) :
    ∃ extents : List Extent,
      List.Forall₂ (Occupies (readable text.toList)) (tokenize text) extents ∧
      extents.Pairwise (fun a b => a.stop ≤ b.start) ∧
      (∀ i c, (readable text.toList)[i]? = some c →
        (∃! k : Nat, ∃ e, extents[k]? = some e ∧ e.Holds i) ∨ (isSpace c = true ∧ ∀ e ∈ extents, ¬ e.Holds i)) ∧
      ∃ ts, tokenize text = ts ++ [⟨.finish, Pos.start.after (readable text.toList)⟩] ∧ ∀ t ∈ ts, t.lexeme ≠ .finish := by
  have hborder : Border [] (readable text.toList) := fun a b ha _ => by cases ha
  obtain ⟨extents, hlayout⟩ := exists_layout (rfl : Pos.start = Pos.start.after []) hborder
  refine ⟨extents, hlayout.occupied, hlayout.disjoint, ?_, (lex text).1, ?_, fun t ht => lexeme_ne_finish ht⟩
  · intro i c hc
    by_cases hheld : ∃ e ∈ extents, e.Holds i
    · left
      obtain ⟨e, he, hi⟩ := hheld
      obtain ⟨k, hk⟩ := List.mem_iff_getElem?.1 he
      refine ⟨k, ⟨e, hk, hi⟩, ?_⟩
      rintro j ⟨d, hj, hd⟩
      exact hlayout.holds_unique hj hk hd hi
    · right
      refine ⟨?_, fun e he hi => hheld ⟨e, he, hi⟩⟩
      rcases hlayout.covered i c (Nat.zero_le i) hc with hcovered | hblank
      · exact absurd hcovered hheld
      · exact hblank
  · rw [tokenize, lex, lexFrom_end]

end Token

end Stepwise
