import Stepwise.Proofs.ExprReading

/-!
# Reading conditions follows the grammar

A condition is two chains with a comparison between them, alone or in one pair of parentheses of its own. The reader finds the parts
by counting parentheses: one scan looks for the end of a pair around everything, another one for the comparisons outside parentheses.
Both scans agree with the grammar, because the parentheses of a chain are balanced and a chain has no comparison.
-/

namespace Stepwise

/-! ## Balanced parentheses -/

/-- Every parenthesis that is closed was opened before, and all of them are closed in the end. -/
structure Balanced (ls : List Lexeme) : Prop where
  total : ls.count .opening = ls.count .closing
  never_below : ∀ n, (ls.take n).count .closing ≤ (ls.take n).count .opening

/-- A token that is no parenthesis is balanced. -/
theorem balanced_singleton {l : Lexeme} (hopening : l ≠ .opening) (hclosing : l ≠ .closing) : Balanced [l] := by
  refine ⟨by simp [hopening, hclosing], fun n => ?_⟩
  cases n <;> simp [hclosing]

theorem Balanced.append {ls ms : List Lexeme} (hl : Balanced ls) (hm : Balanced ms) : Balanced (ls ++ ms) := by
  refine ⟨by rw [List.count_append, List.count_append, hl.total, hm.total], fun n => ?_⟩
  have h1 := hl.never_below n
  have h2 := hm.never_below (n - ls.length)
  rw [List.take_append, List.count_append, List.count_append]
  omega

/-- A pair of parentheses around everything keeps the balance. -/
theorem Balanced.wrap {ls : List Lexeme} (h : Balanced ls) : Balanced (.opening :: (ls ++ [.closing])) := by
  refine ⟨by simp [h.total], fun n => ?_⟩
  cases n with
  | zero => simp
  | succ n =>
    have hlast : ([Lexeme.closing].take (n - ls.length)).count .closing ≤ 1 :=
      (List.take_sublist _ _).count_le _
    have hinner := h.never_below n
    rw [List.take_succ_cons, List.take_append, List.count_cons_of_ne (by simp), List.count_cons_self, List.count_append,
      List.count_append]
    omega

namespace Expr

/-- The parentheses of a phrase are balanced. -/
theorem Derives.balanced {k : Category} {ls : List Lexeme} (h : Derives k ls) : Balanced ls := by
  induction h with
  | literal | number | name => exact balanced_singleton (by simp) (by simp)
  | neg _ ih => exact (balanced_singleton (by simp) (by simp)).append ih
  | group _ ih => exact ih.wrap
  | single _ ih => exact ih
  | append _ op _ ihl ihr => exact ihl.append ((balanced_singleton (l := .arith op) (by simp) (by simp)).append ihr)

/-- A phrase has no comparison. -/
theorem Derives.isCompare_eq_false {k : Category} {ls : List Lexeme} (h : Derives k ls) : ∀ l ∈ ls, l.isCompare = false := by
  induction h with
  | literal | number | name => simp [Lexeme.isCompare]
  | neg _ ih => simpa [Lexeme.isCompare] using ih
  | group _ ih => simpa [Lexeme.isCompare, or_imp, forall_and] using ih
  | single _ ih => exact ih
  | append _ _ _ ihl ihr => simpa [Lexeme.isCompare, or_imp, forall_and] using ⟨ihl, ihr⟩

end Expr

namespace Condition

/-! ## The grammar of conditions -/

/-- The tokens on both sides of a comparison with the comparison itself. -/
def Split.tokens (s : Split) : List Token :=
  s.left ++ ⟨.compare s.op, s.pos⟩ :: s.right

/-- Both sides of the comparison are chains. -/
structure Split.Derives (s : Split) : Prop where
  left : Expr.Derives .chain (s.left.map Token.lexeme)
  right : Expr.Derives .chain (s.right.map Token.lexeme)

/-- The two ways to write a condition. -/
inductive Layout where
  | bare
  | wrapped
  deriving DecidableEq, Repr

/-- How many parentheses a condition has around its comparison. -/
def Layout.parentheses : Layout → Nat
  | bare => 0
  | wrapped => 2

/-- The tokens form a condition: a comparison between two chains, alone or in a pair of parentheses. -/
inductive Forms : Layout → Split → List Token → Prop where
  | bare {s : Split} (sides : s.Derives) : Forms .bare s s.tokens
  | wrapped {s : Split} {o c : Token} (sides : s.Derives) (opens : o.lexeme = .opening) (closes : c.lexeme = .closing) :
      Forms .wrapped s (o :: (s.tokens ++ [c]))

variable {s s' : Split} {ts : List Token} {layout layout' : Layout}

/-- The parentheses of a comparison are balanced. -/
theorem Split.Derives.balanced (h : s.Derives) : Balanced (s.tokens.map Token.lexeme) := by
  rw [Split.tokens, List.map_append, List.map_cons]
  exact h.left.balanced.append ((balanced_singleton (l := .compare s.op) (by simp) (by simp)).append h.right.balanced)

theorem Forms.balanced (h : Forms layout s ts) : Balanced (ts.map Token.lexeme) := by
  cases h with
  | bare sides => exact sides.balanced
  | wrapped sides opens closes => simpa [opens, closes] using sides.balanced.wrap

/-! ## The scan for the comparison -/

/-- Tokens without a comparison are passed, and only the depth changes. -/
theorem splits_append (h : ∀ t ∈ ts, t.lexeme.isCompare = false) (seen : List Token) (depth : Int) (rest : List Token) :
    splits seen depth (ts ++ rest) =
      splits (ts.reverse ++ seen)
        (depth + (ts.map Token.lexeme).count .opening - (ts.map Token.lexeme).count .closing) rest := by
  induction ts generalizing seen depth with
  | nil => simp
  | cons t ts ih =>
    have hlater : ∀ u ∈ ts, u.lexeme.isCompare = false := fun u hu => h u (List.mem_cons_of_mem t hu)
    have hseen : (t :: ts).reverse ++ seen = ts.reverse ++ t :: seen := by simp
    rw [List.cons_append, splits, hseen, List.map_cons]
    split
    next hword =>
      rw [ih hlater, hword, List.count_cons_self, List.count_cons_of_ne (by simp)]
      congr 1
      omega
    next hword =>
      rw [ih hlater, hword, List.count_cons_self, List.count_cons_of_ne (by simp)]
      congr 1
      omega
    next op hword =>
      have hnot := h t List.mem_cons_self
      rw [hword] at hnot
      cases hnot
    next hopening hclosing _ => rw [ih hlater, List.count_cons_of_ne hopening, List.count_cons_of_ne hclosing]

/-- A chain is passed, and the depth after it is the one before it. -/
theorem splits_append_chain (h : Expr.Derives .chain (ts.map Token.lexeme)) (seen : List Token) (depth : Int) (rest : List Token) :
    splits seen depth (ts ++ rest) = splits (ts.reverse ++ seen) depth rest := by
  have hcompare : ∀ t ∈ ts, t.lexeme.isCompare = false :=
    fun t ht => h.isCompare_eq_false _ (List.mem_map_of_mem ht)
  rw [splits_append hcompare, h.balanced.total, Int.add_sub_cancel]

/-- The comparison between two chains is the only one that is found. -/
theorem Split.Derives.splits_tokens (h : s.Derives) : splits [] 0 s.tokens = [s] := by
  have hright : ∀ seen, splits seen 0 s.right = [] := by
    intro seen
    have hpassed := splits_append_chain h.right seen 0 []
    rw [List.append_nil] at hpassed
    rw [hpassed, splits]
  rw [Split.tokens, splits_append_chain h.left, List.append_nil, splits]
  simp only [if_true, List.reverse_reverse, hright]

/-- In parentheses no comparison is found. -/
theorem Split.Derives.splits_wrapped (h : s.Derives) {o c : Token} (opens : o.lexeme = .opening) (closes : c.lexeme = .closing) :
    splits [] 0 (o :: (s.tokens ++ [c])) = [] := by
  rw [splits]
  simp only [opens, Split.tokens, List.append_assoc, List.cons_append]
  rw [splits_append_chain h.left, splits]
  simp only [Int.zero_add, Int.one_ne_zero, if_false]
  rw [splits_append_chain h.right, splits]
  simp only [closes]
  rw [splits]

/-- What is found is a way to cut the tokens at a comparison. -/
theorem tokens_of_mem_splits {seen : List Token} {depth : Int} (h : s ∈ splits seen depth ts) : s.tokens = seen.reverse ++ ts := by
  induction ts generalizing seen depth with
  | nil =>
    rw [splits] at h
    cases h
  | cons t ts ih =>
    have hseen : (t :: seen).reverse ++ ts = seen.reverse ++ t :: ts := by simp
    rw [splits] at h
    split at h
    · rw [ih h, hseen]
    · rw [ih h, hseen]
    next op hword =>
      by_cases hdepth : depth = 0
      · rw [if_pos hdepth] at h
        rcases List.mem_cons.1 h with rfl | h
        · rw [Split.tokens, ← hword]
        · rw [ih h, hseen]
      · rw [if_neg hdepth] at h
        rw [ih h, hseen]
    · rw [ih h, hseen]

/-! ## The scan for a pair around everything -/

/-- The scan goes on as long as more parentheses are open than closed. -/
theorem closingIndex?_append {depth : Nat}
    (h : ∀ n, ((ts.map Token.lexeme).take n).count .closing < depth + ((ts.map Token.lexeme).take n).count .opening)
    (rest : List Token) :
    closingIndex? depth (ts ++ rest) =
      (closingIndex? (depth + (ts.map Token.lexeme).count .opening - (ts.map Token.lexeme).count .closing) rest).map
        (· + ts.length) := by
  induction ts generalizing depth with
  | nil => simp
  | cons t ts ih =>
    have hlater := fun n => h (n + 1)
    simp only [List.map_cons, List.take_succ_cons] at hlater
    rw [List.cons_append, closingIndex?, List.map_cons]
    -- in each case the scan goes on with the depth after the token
    have hgo : ∀ d : Nat, (∀ n, ((ts.map Token.lexeme).take n).count .closing < d + ((ts.map Token.lexeme).take n).count .opening) →
        d + (ts.map Token.lexeme).count .opening - (ts.map Token.lexeme).count .closing =
          depth + (t.lexeme :: ts.map Token.lexeme).count .opening - (t.lexeme :: ts.map Token.lexeme).count .closing →
        (closingIndex? d (ts ++ rest)).map (· + 1) =
          (closingIndex? (depth + (t.lexeme :: ts.map Token.lexeme).count .opening -
            (t.lexeme :: ts.map Token.lexeme).count .closing) rest).map (· + (t :: ts).length) := by
      intro d hd hdepth
      rw [ih hd, hdepth, Option.map_map]
      rfl
    split
    next hword =>
      rw [hword] at hlater
      simp only [List.count_cons_self, List.count_cons_of_ne (show Lexeme.opening ≠ .closing by simp)] at hlater
      refine hgo _ (fun n => ?_) ?_
      · have := hlater n
        omega
      · rw [hword, List.count_cons_self, List.count_cons_of_ne (by simp)]
        omega
    next hword =>
      rw [hword] at hlater
      simp only [List.count_cons_self, List.count_cons_of_ne (show Lexeme.closing ≠ .opening by simp)] at hlater
      have hopen := hlater 0
      simp only [List.take_zero, List.count_nil] at hopen
      rw [if_neg (by omega)]
      refine hgo _ (fun n => ?_) ?_
      · have := hlater n
        omega
      · rw [hword, List.count_cons_self, List.count_cons_of_ne (by simp)]
        omega
    next hopening hclosing =>
      simp only [List.count_cons_of_ne hopening, List.count_cons_of_ne hclosing] at hlater
      refine hgo _ hlater ?_
      rw [List.count_cons_of_ne hopening, List.count_cons_of_ne hclosing]

/-- A balanced list of tokens before the closing parenthesis is passed. -/
theorem closingIndex?_balanced (h : Balanced (ts.map Token.lexeme)) {c : Token} (closes : c.lexeme = .closing) (rest : List Token) :
    closingIndex? 1 (ts ++ c :: rest) = some ts.length := by
  rw [closingIndex?_append fun n => by have := h.never_below n; omega, h.total, Nat.add_sub_cancel, closingIndex?]
  simp [closes]

/-- Where the innermost open parenthesis is closed there is a closing one. -/
theorem lexeme_of_closingIndex? {depth n : Nat} (h : closingIndex? depth ts = some n) :
    ∃ t, ts[n]? = some t ∧ t.lexeme = .closing := by
  induction ts generalizing depth n with
  | nil =>
    rw [closingIndex?] at h
    cases h
  | cons t ts ih =>
    have hlater : ∀ {d : Nat}, (closingIndex? d ts).map (· + 1) = some n → ∃ u, (t :: ts)[n]? = some u ∧ u.lexeme = .closing := by
      intro d hd
      obtain ⟨m, hm, rfl⟩ := Option.map_eq_some_iff.1 hd
      exact ih hm
    rw [closingIndex?] at h
    split at h
    · exact hlater h
    next closes =>
      by_cases hdepth : depth ≤ 1
      · rw [if_pos hdepth] at h
        obtain rfl := Option.some.inj h
        exact ⟨t, rfl, closes⟩
      · rw [if_neg hdepth] at h
        exact hlater h
    · exact hlater h

/-- A phrase that begins with an opening parenthesis closes it before anything follows. -/
theorem group_of_opening {k : Expr.Category} {e : Expr} {o : Token} (h : Expr.Reads k e (o :: ts)) (opens : o.lexeme = .opening) :
    ∃ inner c rest, Expr.Derives .chain (inner.map Token.lexeme) ∧ c.lexeme = .closing ∧ ts = inner ++ c :: rest := by
  generalize htokens : o :: ts = us at h
  induction h generalizing ts with
  | literal word | number word | name word | neg word =>
    obtain ⟨rfl, _⟩ := List.cons.inj htokens
    rw [opens] at word
    cases word
  | @group t u x inner _ hinner closes =>
    obtain ⟨rfl, rfl⟩ := List.cons.inj htokens
    exact ⟨inner, u, [], hinner.derives, closes, rfl⟩
  | single _ ih => exact ih htokens
  | @append t op l r ls rs hleft _ _ ihl _ =>
    cases ls with
    | nil => exact absurd rfl hleft.ne_nil
    | cons l ls =>
      obtain ⟨rfl, rfl⟩ := List.cons.inj htokens
      obtain ⟨inner, c, rest, hinner, closes, rfl⟩ := ihl rfl
      exact ⟨inner, c, rest ++ t :: rs, hinner, closes, by simp⟩

/-- A pair of parentheses around balanced tokens is dropped. -/
theorem unwrap_balanced (h : Balanced (ts.map Token.lexeme)) {o c : Token} (opens : o.lexeme = .opening)
    (closes : c.lexeme = .closing) (stop : Nat) : unwrap stop (o :: (ts ++ [c])) = (ts, c.col) := by
  obtain ⟨lexeme, p⟩ := o
  obtain rfl : lexeme = .opening := opens
  simp [unwrap, closingIndex?_balanced h closes]

/-- A comparison that stands alone is left as it is, even when it begins and ends with parentheses. -/
theorem Split.Derives.unwrap_tokens (h : s.Derives) (stop : Nat) : unwrap stop s.tokens = (s.tokens, stop) := by
  obtain ⟨l, hl⟩ := Expr.exists_reads h.left rfl
  unfold unwrap
  split
  next p us hus =>
    split
    next last hlast =>
      rw [if_neg]
      -- the first parenthesis belongs to the left side, so it is closed before the comparison
      intro hindex
      cases hleft : s.left with
      | nil => exact absurd hleft hl.ne_nil
      | cons o left =>
        rw [Split.tokens, hleft, List.cons_append] at hus
        obtain ⟨rfl, rfl⟩ := List.cons.inj hus
        rw [hleft] at hl
        obtain ⟨inner, c, rest, hinner, closes, rfl⟩ := group_of_opening hl rfl
        rw [List.append_assoc, List.cons_append, closingIndex?_balanced hinner.balanced closes] at hindex
        simp at hindex
    · rfl
  · rfl

/-- Dropping a pair of parentheses leaves the tokens between them; without such a pair nothing is dropped. -/
theorem unwrap_cases (stop : Nat) (ts : List Token) :
    (unwrap stop ts).1 = ts ∨ ∃ o c, o.lexeme = .opening ∧ c.lexeme = .closing ∧ ts = o :: ((unwrap stop ts).1 ++ [c]) := by
  unfold unwrap
  split
  next p us =>
    split
    next last hlast =>
      by_cases hindex : closingIndex? 1 us = some (us.length - 1)
      · rw [if_pos hindex]
        obtain ⟨c, hc, closes⟩ := lexeme_of_closingIndex? hindex
        rw [← List.getLast?_eq_getElem?, hlast] at hc
        obtain rfl := Option.some.inj hc
        obtain ⟨init, rfl⟩ := List.getLast?_eq_some_iff.1 hlast
        exact Or.inr ⟨⟨.opening, p⟩, last, rfl, closes, by simp⟩
      · rw [if_neg hindex]
        exact Or.inl rfl
    · exact Or.inl rfl
  · exact Or.inl rfl

/-! ## What the reader answers -/

/-- A side of a comparison is read as an expression. -/
theorem side_eq_ok_iff {stop : Nat} {empty : Malformation} {e : Expr} : side stop empty ts = .ok e ↔ Expr.Reads .chain e ts := by
  unfold side
  split
  next hempty =>
    rw [List.isEmpty_iff.1 hempty]
    constructor
    · intro h
      cases h
    · intro h
      exact absurd rfl h.ne_nil
  · exact Expr.ofTokens_eq_ok_iff_reads

/-- The condition is the comparison with the trees of its sides. -/
structure Spells (c : Condition) (s : Split) : Prop where
  op : c.op = s.op
  col : c.col = s.pos.col
  left : Expr.Reads .chain c.left s.left
  right : Expr.Reads .chain c.right s.right

/-- The reader needs exactly one comparison in what is left after a pair of parentheses is dropped, and reads its sides. -/
theorem ofTokens_eq_ok_iff {stop : Nat} {c : Condition} :
    ofTokens stop ts = .ok c ↔ ∃ s, splits [] 0 (unwrap stop ts).1 = [s] ∧ c.Spells s := by
  unfold ofTokens
  by_cases hempty : ts = []
  · subst hempty
    simp [unwrap, splits]
  rw [if_neg (by simpa using hempty)]
  dsimp only
  constructor
  · intro h
    split at h
    · cases h
    next s hs =>
      split at h
      · cases h
      next left hleft =>
        split at h
        · cases h
        next right hright =>
          cases h
          exact ⟨s, hs, rfl, rfl, side_eq_ok_iff.1 hleft, side_eq_ok_iff.1 hright⟩
    · cases h
  · rintro ⟨s, hs, hop, hcol, hleft, hright⟩
    simp only [hs]
    rw [side_eq_ok_iff.2 hleft]
    simp only
    rw [side_eq_ok_iff.2 hright]
    simp only [← hop, ← hcol]

/-- The reader finds the comparison of a condition. -/
theorem Forms.found (h : Forms layout s ts) (stop : Nat) : splits [] 0 (unwrap stop ts).1 = [s] := by
  cases h with
  | bare sides => rw [sides.unwrap_tokens, sides.splits_tokens]
  | wrapped sides opens closes => rw [unwrap_balanced sides.balanced opens closes, sides.splits_tokens]

theorem Forms.length_eq (h : Forms layout s ts) : ts.length = s.tokens.length + layout.parentheses := by
  cases h with
  | bare => rfl
  | wrapped => simp [Layout.parentheses]

/-- A condition is written in one way and has one comparison. -/
theorem Forms.unique (h : Forms layout s ts) (h' : Forms layout' s' ts) : layout = layout' ∧ s = s' := by
  have hfound := h.found 0
  rw [h'.found 0] at hfound
  obtain ⟨rfl, _⟩ := List.cons.inj hfound
  have hlength := h.length_eq
  rw [h'.length_eq] at hlength
  refine ⟨?_, rfl⟩
  cases layout <;> cases layout' <;> simp [Layout.parentheses] at hlength ⊢

/-- The tokens of a condition are read, with the trees of its sides. -/
theorem Forms.exists_ok (h : Forms layout s ts) (stop : Nat) : ∃ c, ofTokens stop ts = .ok c ∧ c.Spells s := by
  have sides : s.Derives := by cases h <;> assumption
  obtain ⟨l, hl⟩ := Expr.exists_reads sides.left rfl
  obtain ⟨r, hr⟩ := Expr.exists_reads sides.right rfl
  have hspells : Spells ⟨s.pos.col, s.op, l, r⟩ s := ⟨rfl, rfl, hl, hr⟩
  exact ⟨_, ofTokens_eq_ok_iff.2 ⟨s, h.found stop, hspells⟩, hspells⟩

/-- Tokens that are read form a condition. -/
theorem exists_forms {stop : Nat} {c : Condition} (h : ofTokens stop ts = .ok c) : ∃ layout s, Forms layout s ts ∧ c.Spells s := by
  obtain ⟨s, hs, hspells⟩ := ofTokens_eq_ok_iff.1 h
  have hsides : s.Derives := ⟨hspells.left.derives, hspells.right.derives⟩
  have hbody : s.tokens = (unwrap stop ts).1 := tokens_of_mem_splits (hs ▸ List.mem_cons_self)
  rcases unwrap_cases stop ts with hbare | ⟨o, c, opens, closes, hwrapped⟩
  · rw [hbare] at hbody
    subst hbody
    exact ⟨.bare, s, .bare hsides, hspells⟩
  · rw [← hbody] at hwrapped
    subst hwrapped
    exact ⟨.wrapped, s, .wrapped hsides opens closes, hspells⟩

/-- A text is read as the condition that the sides of its comparison spell. -/
theorem parse_of_forms {text : String} {c : Condition} (hforms : Forms layout s (Token.lex text).1) (h : c.Spells s) :
    parse text = .ok c :=
  ofTokens_eq_ok_iff.2 ⟨s, hforms.found _, h⟩

/-- A text is read as the condition that its tokens spell. -/
theorem parse_of_spells {text : String} {c : Condition} (htokens : (Token.lex text).1 = s.tokens) (h : c.Spells s) :
    parse text = .ok c := by
  have hforms : Forms .bare s (Token.lex text).1 := by
    rw [htokens]
    exact .bare ⟨h.left.derives, h.right.derives⟩
  exact parse_of_forms hforms h

/-- A second pair of parentheses hides the comparison. -/
theorem ofTokens_doubly_wrapped (h : Forms .wrapped s ts) {o c : Token} (opens : o.lexeme = .opening)
    (closes : c.lexeme = .closing) (stop : Nat) : ofTokens stop (o :: (ts ++ [c])) = .error ⟨1, .noComparison⟩ := by
  have hnone : splits [] 0 ts = [] := by
    cases h with
    | wrapped sides opens' closes' => exact sides.splits_wrapped opens' closes'
  unfold ofTokens
  rw [if_neg (by simp), unwrap_balanced h.balanced opens closes]
  simp only [hnone]

/-- Reading accepts exactly the conditions of the grammar: a comparison between two chains, alone or in one pair of parentheses.
There is one way to see a text as a condition, and the answer is its comparison with the trees of its two sides. Parentheses at both
ends that are no pair stay, those of a second pair hide the comparison, and they are balanced in every text that is read. -/
theorem parse_accepts_exactly_grammar (text : String) :
    ((∃ c, parse text = .ok c) ↔ ∃ layout s, Forms layout s (Token.lex text).1) ∧
    (∀ layout layout' s s', Forms layout s (Token.lex text).1 → Forms layout' s' (Token.lex text).1 → layout = layout' ∧ s = s') ∧
    (∀ c layout s, parse text = .ok c → Forms layout s (Token.lex text).1 →
      c.op = s.op ∧ c.col = s.pos.col ∧
      ∀ stop, Expr.ofTokens stop s.left = .ok c.left ∧ Expr.ofTokens stop s.right = .ok c.right) ∧
    (∀ s stop, Forms .bare s (Token.lex text).1 → unwrap stop (Token.lex text).1 = ((Token.lex text).1, stop)) ∧
    (∀ s ts o c, Forms .wrapped s ts → o.lexeme = .opening → c.lexeme = .closing →
      (Token.lex text).1 = o :: (ts ++ [c]) → parse text = .error ⟨1, .noComparison⟩) ∧
    (¬ Balanced ((Token.lex text).1.map Token.lexeme) → ∃ m, parse text = .error m) := by
  refine ⟨⟨?_, ?_⟩, ?_, ?_, ?_, ?_, ?_⟩
  · rintro ⟨c, hc⟩
    obtain ⟨layout, s, hforms, _⟩ := exists_forms hc
    exact ⟨layout, s, hforms⟩
  · rintro ⟨layout, s, hforms⟩
    obtain ⟨c, hc, _⟩ := hforms.exists_ok (Token.lex text).2.col
    exact ⟨c, hc⟩
  · intro layout layout' s s' h h'
    exact h.unique h'
  · intro c layout s hc hforms
    obtain ⟨layout', s', hforms', hspells⟩ := exists_forms hc
    obtain ⟨-, rfl⟩ := hforms.unique hforms'
    exact ⟨hspells.op, hspells.col, fun stop =>
      ⟨Expr.ofTokens_eq_ok_iff_reads.2 hspells.left, Expr.ofTokens_eq_ok_iff_reads.2 hspells.right⟩⟩
  · intro s stop hforms
    generalize (Token.lex text).1 = ts at hforms
    cases hforms with
    | bare sides => exact sides.unwrap_tokens stop
  · intro s ts o c hforms opens closes htokens
    rw [parse, htokens]
    exact ofTokens_doubly_wrapped hforms opens closes _
  · intro hunbalanced
    cases hparse : parse text with
    | error m => exact ⟨m, rfl⟩
    | ok c =>
      obtain ⟨layout, s, hforms, _⟩ := exists_forms hparse
      exact absurd hforms.balanced hunbalanced

end Condition

end Stepwise
