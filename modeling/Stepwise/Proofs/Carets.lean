import Stepwise.Proofs.Columns
import Stepwise.Proofs.ConditionReading
import Stepwise.Proofs.Extents
import Stepwise.Proofs.LeftToRight

/-!
# Carets

A text that cannot be read or evaluated fails at the column of one of its tokens, of its end, or of its beginning. The report of a
failed step shows the line of the step and a caret under it. Where the column of the text counts everything before the text, the caret
stands under the place in the text that failed; else it stands to the left by what is not counted.
-/

namespace Stepwise

/-! ## The columns of what cannot be read -/

/-- The column of one of the tokens, or of their end. -/
def Within (stop : Nat) (ts : List Token) (c : Nat) : Prop := c = stop ∨ ∃ t ∈ ts, t.col = c

section

variable {stop c : Nat} {ts us : List Token}

theorem Within.mono (h : Within stop ts c) (hsub : ∀ t ∈ ts, t ∈ us) : Within stop us c := by
  rcases h with h | ⟨t, ht, hcol⟩
  · exact Or.inl h
  · exact Or.inr ⟨t, hsub t ht, hcol⟩

theorem within_of_mem {t : Token} (ht : t ∈ ts) : Within stop ts t.col := Or.inr ⟨t, ht, rfl⟩

end

namespace Expr

theorem within_missing (stop : Nat) (prev : Option Token) (ts : List Token) : Within stop (prev.toList ++ ts) (missing stop prev).col := by
  unfold missing
  split
  · rename_i op p
    exact within_of_mem (t := ⟨.arith op, p⟩) (List.mem_append_left _ (List.mem_singleton_self _))
  · exact Or.inl rfl

theorem within_headCol (stop : Nat) (ts : List Token) : Within stop ts (headCol stop ts) := by
  cases ts with
  | nil => exact Or.inl rfl
  | cons t ts => exact within_of_mem List.mem_cons_self

/-- What is left after a chain was read stood behind it. -/
theorem mem_of_mem_rest {stop : Nat} {prev : Option Token} {ts : List Token} {r : Parsed ts} (h : parseChain stop prev ts = .ok r) :
    ∀ t ∈ r.rest, t ∈ ts := by
  intro t ht
  obtain ⟨us, hus, -⟩ := ChainGives.reads ⟨r, h, rfl, rfl⟩
  rw [hus]
  exact List.mem_append_right us ht

/-- What is left after an operand was read stood behind it. -/
theorem mem_of_mem_operand_rest {stop : Nat} {prev : Option Token} {ts : List Token} {r : Parsed ts}
    (h : parseOperand stop prev ts = .ok r) : ∀ t ∈ r.rest, t ∈ ts := by
  intro t ht
  obtain ⟨us, hus, -⟩ := OperandGives.reads ⟨r, h, rfl, rfl⟩
  rw [hus]
  exact List.mem_append_right us ht

mutual

/-- An operand that cannot be read fails at one of its tokens, at the token before it, or at the end. -/
theorem within_parseOperand {stop : Nat} {prev : Option Token} {ts : List Token} {m : Malformed}
    (h : parseOperand stop prev ts = .error m) : Within stop (prev.toList ++ ts) m.col := by
  match ts with
  | [] =>
    rw [parseOperand.eq_def] at h
    obtain rfl := Except.error.inj h
    exact within_missing stop prev []
  | t :: ts =>
    have hinner : ∀ {c}, Within stop ((some t).toList ++ ts) c → Within stop (prev.toList ++ t :: ts) c := by
      intro c hc
      exact hc.mono fun u hu => List.mem_append_right _ hu
    rw [parseOperand.eq_def] at h
    dsimp only at h
    split at h
    · split at h
      · rename_i e he
        obtain rfl := Except.error.inj h
        exact hinner (within_parseOperand he)
      · cases h
    · cases h
    · cases h
    · cases h
    · split at h
      · rename_i p hhead
        obtain rfl := Except.error.inj h
        exact hinner (within_of_mem (t := ⟨.closing, p⟩) (List.mem_append_right _ (List.mem_of_head? hhead)))
      · split at h
        · rename_i e he
          obtain rfl := Except.error.inj h
          exact hinner (within_parseChain he)
        · rename_i r hr
          split at h
          · cases h
          · obtain rfl := Except.error.inj h
            refine (within_headCol stop _).mono ?_
            intro u hu
            exact List.mem_append_right _ (List.mem_cons_of_mem t (mem_of_mem_rest hr u hu))
    · obtain rfl := Except.error.inj h
      exact within_of_mem (List.mem_append_right _ List.mem_cons_self)
termination_by (ts.length, 0)

/-- A chain fails at one of its tokens, at the token before it, or at the end. -/
theorem within_parseChain {stop : Nat} {prev : Option Token} {ts : List Token} {m : Malformed}
    (h : parseChain stop prev ts = .error m) : Within stop (prev.toList ++ ts) m.col := by
  rw [parseChain.eq_def] at h
  split at h
  · rename_i e he
    obtain rfl := Except.error.inj h
    exact within_parseOperand he
  · rename_i r hr
    split at h
    · rename_i e he
      obtain rfl := Except.error.inj h
      have hshorter := r.shorter
      exact (within_parseTail he).mono fun u hu => List.mem_append_right _ (mem_of_mem_operand_rest hr u hu)
    · cases h
termination_by (ts.length, 1)

/-- What follows an operand fails at one of its tokens or at the end. -/
theorem within_parseTail {stop : Nat} {left : Expr} {ts : List Token} {m : Malformed} (h : parseTail stop left ts = .error m) :
    Within stop ts m.col := by
  by_cases hop : ∃ op p us, ts = ⟨.arith op, p⟩ :: us
  · obtain ⟨op, p, us, hts⟩ := hop
    have hlength : us.length < ts.length := hts ▸ Nat.lt_succ_self us.length
    rw [hts, parseTail.eq_def] at h
    rw [hts]
    dsimp only at h
    split at h
    · rename_i e he
      obtain rfl := Except.error.inj h
      exact within_parseOperand he
    · rename_i r hr
      split at h
      · rename_i e he
        obtain rfl := Except.error.inj h
        have hshorter := Nat.lt_trans r.shorter hlength
        exact (within_parseTail he).mono fun u hu => List.mem_cons_of_mem _ (mem_of_mem_operand_rest hr u hu)
      · cases h
  · rw [parseTail.eq_def] at h
    split at h
    · exact absurd ⟨_, _, _, rfl⟩ hop
    · cases h
termination_by (ts.length, 0)

end

/-- Tokens that are no expression fail at one of them or at their end. -/
theorem within_ofTokens {stop : Nat} {ts : List Token} {m : Malformed} (h : ofTokens stop ts = .error m) : Within stop ts m.col := by
  unfold ofTokens at h
  split at h
  · rename_i e he
    obtain rfl := Except.error.inj h
    exact within_parseChain he
  · rename_i r hr
    split at h
    · cases h
    · rename_i t us hrest
      obtain rfl := Except.error.inj h
      exact within_of_mem (mem_of_mem_rest hr t (hrest ▸ List.mem_cons_self))

/-- An evaluation fails at one of the tokens of the expression. -/
theorem Reads.within_eval {k : Category} {e : Expr} {ts : List Token} {env : Env} {f : EvalError} (h : Reads k e ts)
    (hf : e.eval env = .error f) (stop : Nat) : Within stop ts f.col := by
  obtain ⟨t, ht, hcol⟩ := h.spells.1.culprit hf
  exact Or.inr ⟨t, List.mem_of_getElem? ht, hcol⟩

end Expr

namespace Condition

variable {stop : Nat} {ts : List Token}

/-- Without a pair of parentheses around them the tokens end at one of them or where they ended before. -/
theorem unwrap_within (stop : Nat) (ts : List Token) :
    Within stop ts (unwrap stop ts).2 ∧ ∀ t ∈ (unwrap stop ts).1, t ∈ ts := by
  unfold unwrap
  split
  · split
    · rename_i us _ last hlast
      split
      · refine ⟨within_of_mem (List.mem_cons_of_mem _ (List.mem_of_getLast? hlast)), ?_⟩
        intro t ht
        exact List.mem_cons_of_mem _ (List.dropLast_subset us ht)
      · exact ⟨Or.inl rfl, fun t ht => ht⟩
    · exact ⟨Or.inl rfl, fun t ht => ht⟩
  · exact ⟨Or.inl rfl, fun t ht => ht⟩

theorem within_side {empty : Malformation} {m : Malformed} (h : side stop empty ts = .error m) : Within stop ts m.col := by
  unfold side at h
  split at h
  · obtain rfl := Except.error.inj h
    exact Or.inl rfl
  · exact Expr.within_ofTokens h

/-- Tokens that are no condition fail at one of them, at their end, or as a whole at the first column. -/
theorem within_ofTokens {m : Malformed} (h : ofTokens stop ts = .error m) : m.col = 1 ∨ Within stop ts m.col := by
  unfold ofTokens at h
  split at h
  · obtain rfl := Except.error.inj h
    exact Or.inl rfl
  obtain ⟨hend, hsub⟩ := unwrap_within stop ts
  -- a comparison that was found and the tokens on its sides are among all the tokens
  have htokens : ∀ s ∈ splits [] 0 (unwrap stop ts).1, ∀ t ∈ s.tokens, t ∈ ts := by
    intro s hs t ht
    rw [tokens_of_mem_splits hs] at ht
    exact hsub t ht
  have hop : ∀ s : Split, ⟨.compare s.op, s.pos⟩ ∈ s.tokens := fun s => List.mem_append_right _ List.mem_cons_self
  dsimp only at h
  split at h
  · obtain rfl := Except.error.inj h
    exact Or.inl rfl
  · rename_i s hs
    have hmem : ∀ t ∈ s.tokens, t ∈ ts := htokens s (hs ▸ List.mem_cons_self)
    right
    split at h
    · rename_i e he
      obtain rfl := Except.error.inj h
      rcases within_side he with hcol | ⟨t, ht, hcol⟩
      · exact Or.inr ⟨_, hmem _ (hop s), hcol.symm⟩
      · exact Or.inr ⟨t, hmem t (List.mem_append_left _ ht), hcol⟩
    · split at h
      · rename_i e he
        obtain rfl := Except.error.inj h
        rcases within_side he with hcol | ⟨t, ht, hcol⟩
        · rw [hcol]
          exact hend
        · exact Or.inr ⟨t, hmem t (List.mem_append_right _ (List.mem_cons_of_mem _ ht)), hcol⟩
      · cases h
  · rename_i s s' rest hs
    obtain rfl := Except.error.inj h
    exact Or.inr (Or.inr ⟨_, htokens s' (hs ▸ List.mem_cons_of_mem _ List.mem_cons_self) _ (hop s'), rfl⟩)

end Condition

/-! ## The columns of failed evaluations -/

/-- The column of a token of the text, of the end of the text, or of its beginning. -/
def Token.Marks (s : String) (c : Nat) : Prop := c = 1 ∨ ∃ t ∈ Token.tokenize s, t.col = c

section

variable {s : String} {c : Nat}

theorem marks_of_within (h : Within (Token.lex s).2.col (Token.lex s).1 c) : Token.Marks s c := by
  rcases h with h | ⟨t, ht, hcol⟩
  · exact Or.inr ⟨⟨.finish, (Token.lex s).2⟩, List.mem_append_right _ List.mem_cons_self, h.symm⟩
  · exact Or.inr ⟨t, List.mem_append_left _ ht, hcol⟩

/-- A text that has no value fails at one of its tokens, at its end or at its beginning. -/
theorem marks_of_evaluate {env : Env} {f : EvalError} (h : evaluate s env = .error f) : Token.Marks s f.col := by
  unfold evaluate at h
  split at h
  · rename_i m hm
    obtain rfl := Except.error.inj h
    unfold Expr.parse at hm
    dsimp only at hm
    split at hm
    · obtain rfl := Except.error.inj hm
      exact Or.inl rfl
    · exact marks_of_within (Expr.within_ofTokens hm)
  · rename_i e he
    exact marks_of_within ((Evaluation.reads_of_parse he).within_eval h _)

/-- So does a text that cannot be decided. -/
theorem marks_of_evaluateCondition {env : Env} {f : EvalError} (h : evaluateCondition s env = .error f) : Token.Marks s f.col := by
  unfold evaluateCondition at h
  split at h
  · rename_i m hm
    obtain rfl := Except.error.inj h
    rcases Condition.within_ofTokens hm with hone | hwithin
    · exact Or.inl hone
    · exact marks_of_within hwithin
  · rename_i cond hcond
    obtain ⟨split, hsplits, hspells⟩ := Condition.ofTokens_eq_ok_iff.1 hcond
    have hmem : ∀ t ∈ split.tokens, t ∈ (Token.lex s).1 := by
      intro t ht
      rw [Condition.tokens_of_mem_splits (hsplits ▸ List.mem_cons_self)] at ht
      exact (Condition.unwrap_within _ _).2 t ht
    refine marks_of_within ?_
    unfold Condition.eval at h
    split at h
    · rename_i g hg
      obtain rfl := Except.error.inj h
      exact (hspells.left.within_eval hg _).mono fun t ht => hmem t (List.mem_append_left _ ht)
    · split at h
      · rename_i g hg
        obtain rfl := Except.error.inj h
        exact (hspells.right.within_eval hg _).mono fun t ht => hmem t (List.mem_append_right _ (List.mem_cons_of_mem _ ht))
      · split at h
        · cases h
        · obtain rfl := Except.error.inj h
          refine Or.inr ⟨⟨.compare split.op, split.pos⟩, hmem _ (List.mem_append_right _ List.mem_cons_self), ?_⟩
          exact hspells.col.symm

/-- On one line, the column of a token is told by the characters before the stretch that the token occupies. -/
theorem Token.Marks.exists_extent (h : Token.Marks s c) (hline : '\n' ∉ s.toList) :
    c = 1 ∨ ∃ t ∈ Token.tokenize s, ∃ e, Token.Occupies (Token.readable s.toList) t e ∧ c = e.start + 1 := by
  rcases h with h | ⟨t, ht, hcol⟩
  · exact Or.inl h
  · right
    have hlayout : ∃ extents, Token.Layout (Token.readable s.toList) 0 (Token.tokenize s) extents :=
      Token.exists_layout (show Pos.start = Pos.start.after [] from rfl) fun a b ha _ => by cases ha
    obtain ⟨extents, hlayout⟩ := hlayout
    obtain ⟨⟨n, hn⟩, rfl⟩ := List.mem_iff_get.1 ht
    obtain ⟨hlength, hall⟩ := List.forall₂_iff_get.1 hlayout.occupied
    have hoccupies := hall n hn (hlength ▸ hn)
    refine ⟨_, ht, _, hoccupies, ?_⟩
    rw [← hcol, Token.col, hoccupies.col, List.takeWhile_eq_self_iff.2, List.length_reverse, List.length_take,
      Nat.min_eq_left (hoccupies.ordered.trans hoccupies.inside), Nat.add_comm]
    intro d hd
    have hmem : d ∈ s.toList := (List.takeWhile_prefix _).subset (List.mem_of_mem_take (List.mem_reverse.1 hd))
    simp only [bne_iff_ne, ne_eq]
    rintro rfl
    exact hline hmem

theorem Token.Marks.inside (h : Token.Marks s c) (hline : '\n' ∉ s.toList) : 1 ≤ c ∧ c ≤ s.length + 1 := by
  rcases h.exists_extent hline with rfl | ⟨t, -, e, hoccupies, rfl⟩
  · exact ⟨Nat.le_refl 1, Nat.le_add_left 1 _⟩
  · have hreadable : (Token.readable s.toList).length ≤ s.toList.length := (List.takeWhile_prefix _).length_le
    rw [String.length_toList] at hreadable
    exact ⟨Nat.le_add_left 1 _, Nat.succ_le_succ ((hoccupies.ordered.trans hoccupies.inside).trans hreadable)⟩

end

/-! ## The report of a failed step -/

/-- The report ends with the line behind a margin, and under it a caret below the character at the given column of the line. -/
def CaretUnder (report : String) (line : List Char) (col : Nat) : Prop :=
  ∃ head margin, '\n' ∉ margin ∧ report.toList =
    head ++ '\n' :: (margin ++ line) ++ '\n' :: (List.replicate (margin.length + (col - 1)) ' ' ++ ['^'])

/-- What stands before the line in a report. -/
def margin (number : Nat) : String := "  " ++ toString number ++ " | "

theorem lineFeed_notMem_margin (number : Nat) : '\n' ∉ (margin number).toList := by
  have hdigits : '\n' ∉ (toString number).toList := by
    intro hmem
    have hdigit : '\n'.isDigit = true :=
      Nat.isDigit_of_mem_toDigits (b := 10) (by decide) (by decide) (by simpa using hmem)
    cases hdigit
  simp only [margin, String.toList_append, List.mem_append, not_or]
  exact ⟨⟨by decide, hdigits⟩, by decide⟩

/-- The report of a fault with a place in a line ends with the line and the caret. -/
theorem faultReport_eq (label message : String) {line : String} {number col : Nat} (hline : line ≠ "") (hnumber : 0 < number)
    (hcol : 0 < col) : ∃ head, faultReport label ⟨number, col⟩ message line =
      head ++ ("\n" ++ margin number ++ line ++
        ("\n" ++ String.ofList (List.replicate ((margin number).length + (col - 1)) ' ') ++ "^")) := by
  have hspaces : (((margin number).length : Int) + (col : Int) - 1).toNat = (margin number).length + (col - 1) := by omega
  have hline' : line ≠ "" ∧ (0 : Int) < number := ⟨hline, Int.natCast_pos.2 hnumber⟩
  have hcol' : (0 : Int) < col := Int.natCast_pos.2 hcol
  rw [faultReport, if_neg (fun h => hline h.2)]
  dsimp only
  rw [if_pos hcol', if_pos hline', ← hspaces]
  exact ⟨_, rfl⟩

theorem caretUnder_faultReport (label message : String) {line : String} {number col : Nat} (hline : line ≠ "") (hnumber : 0 < number)
    (hcol : 0 < col) : CaretUnder (faultReport label ⟨number, col⟩ message line) line.toList col := by
  obtain ⟨head, hreport⟩ := faultReport_eq label message hline hnumber hcol
  refine ⟨head.toList, (margin number).toList, lineFeed_notMem_margin number, ?_⟩
  rw [hreport, String.length_toList]
  simp [List.append_assoc]

/-! ## Columns and carets of loaded texts -/

/-- Where a line of the listing and what it evaluates stand in the text. -/
structure Entry.Shows (text : String) (e : Entry) (x : Excerpt) : Prop where
  line : ∃ n, x.line = n + 1 ∧ (splitLines text.toList)[n]? = some e.text.toList
  /-- The text stands on the line, to the right of its column by what the column does not count. -/
  stands : StandsAt e.text.toList x.text.toList (x.col + e.overlooked)
  /-- Where nothing is cut off before the command, the text stands at its column only if that counts everything. -/
  exactly : e.skipped = 0 → (StandsAt e.text.toList x.text.toList x.col ↔ e.overlooked = 0)
  /-- Only before the assignment of a step something is cut off. -/
  skipped : e.skipped ≠ 0 → e.path = [] ∧ ∃ left right, assignment? e.command = some (left, right)
  /-- The column of a condition counts everything, and so does every column on a line whose only blanks are spaces. -/
  branch : ∀ place cond block, e.node = .branch place cond block → e.overlooked = 0
  spaces : (∀ c ∈ e.text.toList, Text.isBlank c = true → c = ' ') → e.overlooked = 0

/-- Where the report of a failed step points: at the column `c` of the text `x` of the line `e`. -/
structure Failure.PointsAt (f : Failure) (env : Env) (e : Entry) (x : Excerpt) (c : Nat) : Prop where
  excerpt : e.node.excerpt? = some x
  cause : ∃ fault, f.fault = .evaluation fault ∧
    (evaluate x.text env = .error ⟨c, fault⟩ ∨ evaluateCondition x.text env = .error ⟨c, fault⟩)
  /-- A token begins at the column, or the text begins or ends there. -/
  token : c = 1 ∨ ∃ t ∈ Token.tokenize x.text, ∃ extent, Token.Occupies (Token.readable x.text.toList) t extent ∧ c = extent.start + 1
  inside : 1 ≤ c ∧ c ≤ x.text.length + 1
  span : f.span = ⟨x.line, (x.col + (c - 1) : Nat)⟩
  /-- The caret stands under the line at the column of the text and the column in the text taken together, and what it is meant to
  show stands to the right of that by what is not counted. -/
  caret : CaretUnder f.report e.text.toList (x.col + (c - 1))
  shown : StandsAt e.text.toList (x.text.toList.drop (c - 1)) (x.col + (c - 1) + e.overlooked)

namespace Session

variable {text : String} {p : Program} {e : Entry} {x : Excerpt}

/-- In an accepted text, whatever is evaluated has a text, apart from the condition of a branch. -/
theorem text_ne_empty (hp : p.Regular) (he : e ∈ p.listing) (hx : e.node.excerpt? = some x)
    (hbranch : ∀ place cond block, e.node ≠ .branch place cond block) : x.text ≠ "" := by
  cases hn : e.node with
  | branch place cond block => exact absurd hn (hbranch place cond block)
  | act place a =>
    rw [hn] at hx
    cases a with
    | print value =>
      obtain rfl := Option.some.inj hx
      exact hp.printed e he place value hn
    | assign name value =>
      obtain rfl := Option.some.inj hx
      exact hp.assigned e he place name value hn
    | start | stop | read | jump | unknown => cases hx

theorem shows_of_listing (hcheck : Check.problem? text = none) (hparse : Program.parse text = .ok p) (hp : p.Regular)
    (he : e ∈ p.listing) (hx : e.node.excerpt? = some x) : e.Shows text x := by
  have hchecked := Entry.checked_of_problem? hcheck hparse he
  refine ⟨?_, hchecked.placed.standsAt hx, ?_, hchecked.assignment_of_skipped, fun _ _ _ hn => hchecked.overlooked_branch hn,
    hchecked.overlooked_spaces⟩
  · obtain ⟨n, hn, hline⟩ := Program.exists_line_of_listing hparse he
    obtain ⟨-, -, -, -, hsame, -⟩ := Form.excerpt?_eq_some (hchecked.placed.excerpt ▸ hx)
    exact ⟨n, hsame.trans hn, hline⟩
  · intro hskipped
    by_cases hbranch : ∃ place cond block, e.node = .branch place cond block
    · obtain ⟨place, cond, block, hn⟩ := hbranch
      have hzero := hchecked.overlooked_branch hn
      have hstands := hchecked.placed.standsAt hx
      rw [hzero, Nat.add_zero] at hstands
      exact ⟨fun _ => hzero, fun _ => hstands⟩
    · have hne := text_ne_empty hp he hx fun place cond block hn => hbranch ⟨place, cond, block, hn⟩
      exact hchecked.placed.standsAt_col_iff hx hne hskipped

end Session

namespace State

variable {p : Program} {st : State} {f : Focus} {l : Located}

/-- In a regular program an execution fails with the evaluation of what the node evaluates, at the place of that and the column of the
failure taken together. -/
theorem exists_excerpt_of_exec (hp : p.Regular) (h : st.Control p) (hf : st.focus? p = some f) (hx : st.exec p f = .error l) :
    ∃ x err, f.node.excerpt? = some x ∧ l = ⟨Span.shift ⟨0, err.col⟩ x.span, .evaluation err.fault⟩ ∧
      (evaluate x.text st.vars = .error err ∨ evaluateCondition x.text st.vars = .error err) := by
  obtain ⟨fault, hfault, -⟩ := exec_eq_error hp h hf hx
  cases fails_of_exec hx with
  | @value place a e _ node uses fails =>
    unfold valueOf at fails
    split at fails
    · cases fails
    · rename_i err herr
      obtain rfl := Except.error.inj fails
      refine ⟨e, err, ?_, rfl, Or.inl herr⟩
      rw [node]
      rcases uses with rfl | ⟨name, rfl⟩
      · rfl
      · rfl
  | test node fails =>
    unfold test at fails
    split at fails
    · cases fails
    · rename_i err herr
      obtain rfl := Except.error.inj fails
      exact ⟨_, err, by rw [node]; rfl, rfl, Or.inr herr⟩
  | malformed | missing | refused | unknown => cases hfault

end State

namespace Session

variable {text : String} {s t : Session} {f : Failure}

/-- A failed step points at what it evaluates. -/
theorem exists_pointsAt (hparse : Program.parse text = .ok s.program) (hp : s.program.Regular) (h : s.now.Control s.program)
    (hstep : s.step = (t, some f)) : ∃ e ∈ s.program.listing, ∃ x c, f.PointsAt s.now.vars e x c := by
  obtain ⟨focus, l, -, hfocus, hx, -, rfl⟩ := failed_of_step hstep
  obtain ⟨x, ⟨c, fault⟩, hexcerpt, rfl, hcause⟩ := State.exists_excerpt_of_exec hp h hfocus hx
  obtain ⟨e, he, hnode, -⟩ := h.focus_mem_listing hfocus
  rw [← hnode] at hexcerpt
  have hplaced := Program.placed_listing hparse e he
  obtain ⟨n, hn, hline⟩ := Program.exists_line_of_listing hparse he
  obtain ⟨lead, arg, -, -, hsame, hcol⟩ := Form.excerpt?_eq_some (hplaced.excerpt ▸ hexcerpt)
  have hstands := hplaced.standsAt hexcerpt
  -- the text stands on one line, so columns in it are counted from its beginning
  have hbreak : '\n' ∉ x.text.toList := by
    intro hmem
    obtain ⟨before, after, heq, -⟩ := hstands
    refine (tidy_of_mem_splitLines (List.mem_of_getElem? hline)).1 ?_
    rw [heq]
    exact List.mem_append_left _ (List.mem_append_right _ hmem)
  have hmarks : Token.Marks x.text c := by
    rcases hcause with hvalue | htest
    · exact marks_of_evaluate hvalue
    · exact marks_of_evaluateCondition htest
  obtain ⟨hpos, hle⟩ := hmarks.inside hbreak
  have hfilled : e.text ≠ "" := by simpa using (Program.written_mem_sourceLines hparse he).2
  have hspan : Span.shift ⟨0, c⟩ x.span = ⟨x.line, (x.col + (c - 1) : Nat)⟩ := by
    have hc : (0 : Int) < c := Int.natCast_pos.2 hpos
    have hsum : (x.col : Int) + c - 1 = (x.col + (c - 1) : Nat) := by omega
    rw [Span.shift, if_pos hc, Excerpt.span]
    exact congrArg (Span.mk x.line) hsum
  refine ⟨e, he, x, c, hexcerpt, ⟨fault, rfl, hcause⟩, hmarks.exists_extent hbreak, ⟨hpos, hle⟩, hspan, ?_, ?_⟩
  · rw [Failure.report, hspan]
    have hsource : focus.node.source = e.text := by rw [← hnode]; rfl
    rw [hsource]
    refine caretUnder_faultReport _ _ hfilled ?_ ?_
    · omega
    · have := hplaced.positive
      omega
  · have hsplit : StandsAt e.text.toList (x.text.toList.take (c - 1) ++ x.text.toList.drop (c - 1)) (x.col + e.overlooked) := by
      rwa [List.take_append_drop]
    have hright := hsplit.right
    have hlength : (x.text.toList.take (c - 1)).length = c - 1 := by
      rw [List.length_take, String.length_toList]
      omega
    rw [hlength] at hright
    rwa [Nat.add_right_comm]

/-- Columns and carets of a text that loads. Every expression and every condition stands on the line that it names, to the right of its
column by what the column does not count, which is nothing for a condition and on a line whose only blanks are spaces. A failed step,
after any calls, points at a token of the text that it evaluates, and its caret stands to the left of that token by the same number of
characters, so under it where everything is counted. -/
theorem columns_and_carets (h : load text = .ok s) :
    (∀ e ∈ s.program.listing, ∀ x, e.node.excerpt? = some x → e.Shows text x) ∧
    ∀ (calls : List Call) (t : Session) (f : Failure), (s.run calls).step = (t, some f) →
      ∃ e ∈ s.program.listing, ∃ x c, f.PointsAt (s.run calls).now.vars e x c := by
  have hcheck : Check.problem? text = none := by
    unfold load at h
    split at h
    · cases h
    · assumption
  obtain ⟨p, rfl, hparse, hp⟩ := parse_of_load h
  refine ⟨fun e he x hx => shows_of_listing hcheck hparse hp he hx, ?_⟩
  intro calls t f hstep
  have hcontrol := (Throughout.run (State.control_kept p) calls).1
  have hprogram : ((ofProgram p).run calls).program = p := program_run (ofProgram p) calls
  have hread : Program.parse text = .ok ((ofProgram p).run calls).program := by rwa [hprogram]
  have hpoints := exists_pointsAt hread (by rwa [hprogram]) (by rwa [hprogram]) hstep
  rwa [hprogram] at hpoints

/-- A text that prints a variable that has no value, behind a no-break space. -/
def unboundText : String := "step-1: start\nstep-2: print \u00a0X\nstep-3: stop"

/-- A text of which something computable holds once it is loaded is loaded. -/
theorem exists_load {text : String} {p : Session → Bool} (h : (load text).toOption.any p = true) :
    ∃ s, load text = .ok s ∧ p s = true := by
  cases hload : load text with
  | error e =>
    rw [hload] at h
    cases h
  | ok s =>
    rw [hload] at h
    exact ⟨s, rfl, h⟩

/-- The expression that a node prints. -/
def printed? : Node → Option Excerpt
  | .act _ (.print x) => some x
  | _ => none

theorem eq_of_printed? {n : Node} {x : Excerpt} (h : printed? n = some x) : ∃ place, n = .act place (.print x) := by
  unfold printed? at h
  split at h
  · obtain rfl := Option.some.inj h
    exact ⟨_, rfl⟩
  · cases h

/-- After its first step the text stands before a step that cannot print its expression. -/
theorem unboundText_prints : ∃ s, load unboundText = .ok s ∧ ∃ f place x, (s.run [.step]).canStep = true ∧
    (s.run [.step]).focus? = some f ∧ f.node = .act place (.print x) ∧ x.text = "X" ∧ (s.run [.step]).now.vars.get? "X" = none := by
  have hfacts : (load unboundText).toOption.any (fun s => (s.run [.step]).canStep && ((s.run [.step]).now.vars.get? "X").isNone &&
      (s.run [.step]).focus?.any fun f => (printed? f.node).any fun x => x.text == "X") = true := by decide +kernel
  obtain ⟨s, hload, hs⟩ := exists_load hfacts
  simp only [Bool.and_eq_true, Option.isNone_iff_eq_none] at hs
  obtain ⟨⟨hcan, hvars⟩, hfocus⟩ := hs
  obtain ⟨f, hf, hprinted⟩ := (Option.any_eq_true _ _).1 hfocus
  obtain ⟨x, hx, htext⟩ := (Option.any_eq_true _ _).1 hprinted
  obtain ⟨place, hnode⟩ := eq_of_printed? hx
  exact ⟨s, hload, f, place, x, hcan, hf, hnode, by simpa using htext, hvars⟩

/-- The second step of that text fails, and its report points at the variable. -/
theorem columns_and_carets_unbound : ∃ s, load unboundText = .ok s ∧ ∃ t f, (s.run [.step]).step = (t, some f) ∧
    ∃ e ∈ s.program.listing, ∃ x c, e.Shows unboundText x ∧ f.PointsAt (s.run [.step]).now.vars e x c := by
  obtain ⟨s, hload, focus, place, x, hcan, hfocus, hnode, htext, hvars⟩ := unboundText_prints
  obtain ⟨hshows, hpoints⟩ := columns_and_carets hload
  have hexec : (s.run [.step]).now.exec (s.run [.step]).program focus =
      .error ⟨Span.shift ⟨0, 1⟩ x.span, .evaluation (.unknownVariable "X")⟩ := by
    have hvalue := Evaluation.evaluate_unbound (s := "X") (p := ⟨1, 1⟩) (by decide +kernel) hvars
    rw [State.exec, hnode]
    simp only [State.execAction, State.valueOf, htext, hvalue]
    rfl
  have hstep := step_of_exec_error hcan hfocus hexec
  obtain ⟨e, he, y, c, hpointsAt⟩ := hpoints _ _ _ hstep
  exact ⟨s, hload, _, _, hstep, e, he, y, c, hshows e he y hpointsAt.excerpt, hpointsAt⟩

/-- A text with a no-break space before an assignment and one before an expression. -/
def hiddenBlankText : String := "step-1: start\nstep-2: \u00a0X = 1\nstep-3: print \u00a0X\nstep-4: stop"

/-- The columns of that text are wrong in both places: neither the value of the assignment nor the expression that is printed stands at
its column, but each stands one character to the right of it. -/
theorem columns_of_hidden_blanks :
    ∃ s, load hiddenBlankText = .ok s ∧ ∀ step ∈ [1, 2], ∃ e ∈ s.program.listing, ∃ x, e.step = step ∧ e.node.excerpt? = some x ∧
      ¬ StandsAt e.text.toList x.text.toList x.col ∧ StandsAt e.text.toList x.text.toList (x.col + 1) := by
  have hfound : (load hiddenBlankText).toOption.any (fun s => [1, 2].all fun step => s.program.listing.any fun e =>
      e.node.excerpt?.any fun x => e.step == step && !decide (StandsAt e.text.toList x.text.toList x.col) &&
        decide (StandsAt e.text.toList x.text.toList (x.col + 1))) = true := by decide +kernel
  obtain ⟨s, hload, hs⟩ := exists_load hfound
  refine ⟨s, hload, ?_⟩
  intro step hstep
  obtain ⟨e, he, hany⟩ := List.any_eq_true.1 (List.all_eq_true.1 hs step hstep)
  obtain ⟨x, hx, hcols⟩ := (Option.any_eq_true _ _).1 hany
  simp only [Bool.and_eq_true, beq_iff_eq, Bool.not_eq_true', decide_eq_false_iff_not, decide_eq_true_eq] at hcols
  exact ⟨e, he, x, hcols.1.1, hx, hcols.1.2, hcols.2⟩

end Session

end Stepwise
