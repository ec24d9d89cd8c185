import Stepwise.Expr.Eval
import Stepwise.Proofs.ExprReading
import Stepwise.Proofs.Seams

/-!
# Evaluation from left to right

An expression, an operator and an operand written one after the other evaluate in that order: the expression, the operand, then
the operator on the two values, and the first failure is the answer. So a chain is a fold to the left, whatever its operators are.
The law is about the texts themselves. It needs that a text inside another one keeps its tokens and its tree up to the places of the
tokens, and that the value of a tree and the cause of its failure do not depend on these places.
-/

namespace Stepwise

namespace Expr

/-! ## Columns do not matter for the outcome -/

/-- Among the tokens of an expression, the position of the one where its evaluation fails. -/
def culprit (env : Env) : Expr → Nat
  | neg _ e =>
    match e.eval env with
    | .error _ => e.culprit env + 1
    | .ok _ => 0
  | binary _ _ l r =>
    match l.eval env with
    | .error _ => l.culprit env
    | .ok _ =>
      match r.eval env with
      | .error _ => l.yield.length + 1 + r.culprit env
      | .ok _ => l.yield.length
  | group _ e => e.culprit env + 1
  | _ => 0

variable {env : Env} {e e' : Expr} {ts us : List Token} {f : EvalError}

/-- An evaluation fails at the column of its culprit. -/
theorem Spells.culprit (h : e.Spells ts) (hf : e.eval env = .error f) :
    ∃ t, ts[e.culprit env]? = some t ∧ t.col = f.col := by
  induction h generalizing f with
  | text => cases hf
  | @number t s word =>
    rw [eval] at hf
    split at hf
    · cases hf
    · cases hf
      exact ⟨t, rfl, rfl⟩
  | @name t s word =>
    rw [eval] at hf
    split at hf
    · cases hf
    · cases hf
      exact ⟨t, rfl, rfl⟩
  | @neg t e ts word _ ih =>
    rw [eval] at hf
    rw [Expr.culprit]
    cases he : e.eval env with
    | error g =>
      rw [he] at hf
      cases hf
      obtain ⟨u, hu, hcol⟩ := ih he
      exact ⟨u, by simpa using hu, hcol⟩
    | ok v =>
      rw [he] at hf
      cases v with
      | int n => cases hf
      | str s =>
        cases hf
        exact ⟨t, rfl, rfl⟩
  | @binary t op l r ls rs hl word hr ihl ihr =>
    have hlength : l.yield.length = ls.length := by rw [hl.yield, List.length_map]
    rw [eval] at hf
    rw [Expr.culprit, hlength]
    cases hleft : l.eval env with
    | error g =>
      rw [hleft] at hf
      cases hf
      obtain ⟨u, hu, hcol⟩ := ihl hleft
      refine ⟨u, ?_, hcol⟩
      rw [List.getElem?_append_left (List.getElem?_eq_some_iff.1 hu).1]
      exact hu
    | ok a =>
      rw [hleft] at hf
      cases hright : r.eval env with
      | error g =>
        rw [hright] at hf
        cases hf
        obtain ⟨u, hu, hcol⟩ := ihr hright
        refine ⟨u, ?_, hcol⟩
        dsimp only
        rw [List.getElem?_append_right (by omega), show ls.length + 1 + r.culprit env - ls.length = r.culprit env + 1 by omega]
        exact hu
      | ok b =>
        rw [hright] at hf
        dsimp only at hf
        split at hf
        · cases hf
          exact ⟨t, by simp, rfl⟩
        · cases hf
  | @group t u e ts opens _ closes ih =>
    rw [eval] at hf
    obtain ⟨v, hv, hcol⟩ := ih hf
    refine ⟨v, ?_, hcol⟩
    rw [Expr.culprit, List.getElem?_cons_succ, List.getElem?_append_left (List.getElem?_eq_some_iff.1 hv).1]
    exact hv

/-- The value of an expression and the cause of its failure do not depend on its columns. -/
theorem eval_bare (env : Env) (e : Expr) : e.bare.eval env = (e.eval env).mapError fun f => ⟨0, f.fault⟩ := by
  induction e with
  | text => rfl
  | number c s =>
    rw [bare, eval, eval]
    cases numberValue? s <;> rfl
  | name c n =>
    rw [bare, eval, eval]
    cases env.get? n <;> rfl
  | neg c e ih =>
    rw [bare, eval, eval, ih]
    cases e.eval env with
    | error => rfl
    | ok v => cases v <;> rfl
  | binary c o l r ihl ihr =>
    rw [bare, eval, eval, ihl, ihr]
    cases l.eval env with
    | error => rfl
    | ok a =>
      cases r.eval env with
      | error => rfl
      | ok b => cases h : o.apply a b <;> simp [Except.mapError, h]
  | group c e ih =>
    rw [bare, eval, eval, ih]

@[simp]
theorem yield_bare (e : Expr) : e.bare.yield = e.yield := by
  induction e with
  | text | number | name => rfl
  | neg c e ih => rw [bare, yield, yield, ih]
  | binary c o l r ihl ihr => rw [bare, yield, yield, ihl, ihr]
  | group c e ih => rw [bare, yield, yield, ih]

/-- The culprit does not depend on the columns either. -/
theorem culprit_bare (env : Env) (e : Expr) : e.bare.culprit env = e.culprit env := by
  induction e with
  | text | number | name => rfl
  | neg c e ih =>
    rw [bare, Expr.culprit, Expr.culprit, eval_bare, ih]
    cases e.eval env <;> rfl
  | binary c o l r ihl ihr =>
    rw [bare, Expr.culprit, Expr.culprit, eval_bare, eval_bare, ihl, ihr, yield_bare]
    cases l.eval env with
    | error => rfl
    | ok => cases r.eval env <;> rfl
  | group c e ih => rw [bare, Expr.culprit, Expr.culprit, ih]

/-- Two trees that differ in their columns have the same value, or fail for the same cause at the same token. -/
theorem eval_of_bare_eq (h : e'.bare = e.bare) (hspells : e.Spells ts) (hspells' : e'.Spells us) (env : Env) :
    (∃ v, e.eval env = .ok v ∧ e'.eval env = .ok v) ∨
      ∃ t u fault, ts[e.culprit env]? = some t ∧ us[e.culprit env]? = some u ∧ e.eval env = .error ⟨t.col, fault⟩ ∧
        e'.eval env = .error ⟨u.col, fault⟩ := by
  have hbare := eval_bare env e'
  rw [h, eval_bare] at hbare
  cases he : e.eval env with
  | ok v =>
    rw [he] at hbare
    cases he' : e'.eval env with
    | ok w =>
      rw [he'] at hbare
      cases hbare
      exact Or.inl ⟨v, rfl, rfl⟩
    | error g =>
      rw [he'] at hbare
      cases hbare
  | error f =>
    rw [he] at hbare
    cases he' : e'.eval env with
    | ok w =>
      rw [he'] at hbare
      cases hbare
    | error g =>
      rw [he'] at hbare
      obtain ⟨t, ht, hcol⟩ := hspells.culprit he
      obtain ⟨u, hu, hcol'⟩ := hspells'.culprit he'
      rw [← culprit_bare, h, culprit_bare] at hu
      have hfault : f.fault = g.fault := by simpa [Except.mapError] using hbare
      refine Or.inr ⟨t, u, f.fault, ht, hu, ?_, ?_⟩
      · rw [hcol]
      · rw [hcol', hfault]

/-- Tokens that say the same read as the same tree up to its columns. -/
theorem Reads.exists_bare_eq {k : Category} (h : Reads k e ts) (hus : us.map Token.lexeme = ts.map Token.lexeme) :
    ∃ e', Reads k e' us ∧ e'.bare = e.bare := by
  obtain ⟨hspells, hshaped, hoperand⟩ := h.spells
  obtain ⟨e', hspells', hbare⟩ := exists_spells (hspells.yield.trans hus.symm)
  have hshaped' : e'.Shaped := by
    rw [← shaped_bare, hbare, shaped_bare]
    exact hshaped
  obtain ⟨hchain, hsingle⟩ := hspells'.reads hshaped'
  refine ⟨e', ?_, hbare⟩
  cases k with
  | chain => exact hchain
  | operand =>
    apply hsingle
    rw [← isOperation_bare, hbare, isOperation_bare]
    exact hoperand rfl

/-- A tree has no open string literal. -/
theorem unterminated_notMem_yield (e : Expr) : Lexeme.unterminated ∉ e.yield := by
  induction e with
  | text | number | name => simp [yield]
  | neg c e ih => simpa [yield] using ih
  | binary c o l r ihl ihr => simpa [yield] using ⟨ihl, ihr⟩
  | group c e ih => simpa [yield] using ih

end Expr

namespace Evaluation

/-! ## Texts of expressions and operands -/

/-- The text has no NUL character and is read as an expression. -/
def IsExpr (s : String) : Prop :=
  '\x00' ∉ s.toList ∧ ∃ e, Expr.parse s = .ok e

/-- The text has no NUL character and is read as an expression that is a single operand. -/
def IsOperand (s : String) : Prop :=
  '\x00' ∉ s.toList ∧ ∃ e, Expr.parse s = .ok e ∧ e.isOperation = false

/-- The place in a text where its evaluation fails: that of the culprit among its tokens. -/
def failurePlace (s : String) (env : Env) : Pos :=
  match Expr.parse s with
  | .ok e => ((Token.lex s).1[e.culprit env]?.map Token.pos).getD Pos.start
  | .error m => ⟨1, m.col⟩

/-- What a text evaluates to when it begins at `base`: the place of a failure moves with the text. -/
def evaluateFrom (base : Pos) (s : String) (env : Env) : Except EvalError Value :=
  (evaluate s env).mapError fun f => ⟨((failurePlace s env).shift base).col, f.fault⟩

/-- An expression, an operator and an operand, one after the other. -/
def joined (s : String) (op : ArithOp) (t : String) : String :=
  s ++ " " ++ op.symbol.toString ++ " " ++ t

/-- Where the operator stands behind an expression. -/
def operatorPlace (s : String) : Pos := Pos.start.after (s ++ " ").toList

/-- Where the operand begins behind an expression and an operator. -/
def operandPlace (s : String) (op : ArithOp) : Pos := Pos.start.after (s ++ " " ++ op.symbol.toString ++ " ").toList

/-- A chain of operands behind a first expression. -/
def chainText (first : String) (links : List (ArithOp × String)) : String :=
  links.foldl (fun s link => joined s link.1 link.2) first

variable {s t : String} {op : ArithOp} {env : Env} {x y : Expr}

/-- The tokens of a text that is read form a chain with the tree that is read. -/
theorem reads_of_parse (h : Expr.parse s = .ok x) : Expr.Reads .chain x (Token.lex s).1 :=
  Expr.ofTokens_eq_ok_iff_reads.1 (Expr.parse_eq_ok_iff.1 h)

/-- A tree that is no operation is read off the tokens of an operand. -/
theorem reads_operand_of_parse (h : Expr.parse s = .ok x) (hoperand : x.isOperation = false) :
    Expr.Reads .operand x (Token.lex s).1 := by
  obtain ⟨hspells, hnested, _⟩ := (reads_of_parse h).spells
  exact (hspells.reads hnested).2 hoperand

/-- No token of a text that is read is left open. -/
theorem lexeme_ne_unterminated (h : Expr.parse s = .ok x) : ∀ u ∈ (Token.lex s).1, u.lexeme ≠ .unterminated := by
  intro u hu hopen
  apply x.unterminated_notMem_yield
  rw [(reads_of_parse h).spells.1.yield, ← hopen]
  exact List.mem_map_of_mem hu

/-! ## The tokens of composed texts -/

/-- The sign of an operator is neither a blank nor a NUL character. -/
theorem symbol_ne (op : ArithOp) : Token.isSpace op.symbol = false ∧ op.symbol ≠ '\x00' := by
  cases op <;> exact ⟨rfl, by decide⟩

/-- The sign of an operator is a token of its own. -/
theorem cut_symbol (op : ArithOp) (cs : List Char) : Token.cut op.symbol cs = ⟨.arith op, [op.symbol], cs⟩ := by
  cases op <;> rfl

theorem toList_joined (s : String) (op : ArithOp) (t : String) :
    (joined s op t).toList = s.toList ++ ' ' :: op.symbol :: ' ' :: t.toList := by
  simp [joined]

theorem nul_notMem_joined (hs : '\x00' ∉ s.toList) (ht : '\x00' ∉ t.toList) (op : ArithOp) :
    '\x00' ∉ (joined s op t).toList := by
  rw [toList_joined]
  simp [hs, ht, (symbol_ne op).2.symm]

/-- The tokens of an expression, an operator and an operand one after the other. -/
theorem lex_joined (hs : '\x00' ∉ s.toList) (ht : '\x00' ∉ t.toList) (hx : Expr.parse s = .ok x) (op : ArithOp) :
    (Token.lex (joined s op t)).1 =
      (Token.lex s).1 ++ ⟨.arith op, operatorPlace s⟩ :: (Token.lex t).1.map (Token.shift (operandPlace s op)) := by
  have hopen := lexeme_ne_unterminated hx
  have hoperator : (Pos.start.after s.toList).next ' ' = operatorPlace s := by simp [operatorPlace]
  have hoperand : ((operatorPlace s).after [op.symbol]).next ' ' = operandPlace s op := by simp [operatorPlace, operandPlace]
  rw [Token.lex_of_readable hs] at hopen ⊢
  rw [Token.lex_of_readable (nul_notMem_joined hs ht op), Token.lex_of_readable ht, toList_joined,
    Token.lexFrom_append hopen (by decide) (by decide), Token.lexFrom_space rfl, Token.lexFrom_token (symbol_ne op).1,
    cut_symbol, Token.lexFrom_space rfl, hoperator, hoperand]
  have hmoved := Token.lexFrom_shift Pos.counted_start (operandPlace s op) t.toList
  rw [Pos.shift_start] at hmoved
  rw [hmoved]

/-- The tokens of a text in parentheses, when the text leaves none of them open. -/
theorem lex_wrapped (hs : '\x00' ∉ s.toList) (hopen : ∀ u ∈ (Token.lex s).1, u.lexeme ≠ .unterminated) : ∃ p,
    (Token.lex ("(" ++ s ++ ")")).1 =
      ⟨.opening, Pos.start⟩ :: ((Token.lex s).1.map (Token.shift ⟨1, 2⟩) ++ [⟨.closing, p⟩]) := by
  have htext : ("(" ++ s ++ ")").toList = '(' :: (s.toList ++ [')']) := by simp
  have hnul : '\x00' ∉ ("(" ++ s ++ ")").toList := by
    rw [htext]
    simp [hs]
  have hmoved := Token.lexFrom_shift Pos.counted_start ⟨1, 2⟩ s.toList
  rw [Pos.shift_start] at hmoved
  rw [Token.lex_of_readable hs] at hopen ⊢
  have hopen' : ∀ u ∈ (Token.lexFrom ⟨1, 2⟩ s.toList).1, u.lexeme ≠ .unterminated := by
    intro u hu
    rw [hmoved] at hu
    obtain ⟨v, hv, rfl⟩ := List.mem_map.1 hu
    exact hopen v hv
  have hinner := Token.lexFrom_append hopen' (d := ')') (by decide) (by decide) []
  refine ⟨Pos.after ⟨1, 2⟩ s.toList, ?_⟩
  rw [Token.lex_of_readable hnul, htext, Token.lexFrom_token rfl]
  have hcut : Token.cut '(' (s.toList ++ [')']) = ⟨.opening, ['('], s.toList ++ [')']⟩ := rfl
  have hlast : (Token.lexFrom (Pos.after ⟨1, 2⟩ s.toList) [')']).1 = [⟨.closing, Pos.after ⟨1, 2⟩ s.toList⟩] := by
    rw [Token.lexFrom_token rfl]
    have hcut : Token.cut ')' [] = ⟨.closing, [')'], []⟩ := rfl
    rw [hcut, Token.lexFrom]
  rw [hlast, hmoved] at hinner
  rw [hcut]
  exact congrArg _ hinner

/-! ## Evaluation of composed texts -/

/-- A text that is read evaluates to the value of its tree. -/
theorem evaluate_of_parse (h : Expr.parse s = .ok x) (env : Env) : evaluate s env = x.eval env := by
  rw [evaluate, h]

/-- A text that is one name cannot be evaluated where the name has no value. -/
theorem evaluate_unbound {word : String} {p : Pos} (h : (Token.lex s).1 = [⟨.name word, p⟩]) (hnone : env.get? word = none) :
    evaluate s env = .error ⟨p.col, .unknownVariable word⟩ := by
  rw [evaluate_of_parse (Expr.parse_name h), Expr.eval, hnone]

theorem failurePlace_of_parse (h : Expr.parse s = .ok x) (env : Env) :
    failurePlace s env = ((Token.lex s).1[x.culprit env]?.map Token.pos).getD Pos.start := by
  rw [failurePlace, h]

/-- The tree of a text that begins elsewhere evaluates like the text, and fails where the text fails there. -/
theorem eval_eq_evaluateFrom {base : Pos} {y' : Expr} (h : Expr.parse t = .ok y) (hbare : y'.bare = y.bare)
    (hspells : y'.Spells ((Token.lex t).1.map (Token.shift base))) (env : Env) : y'.eval env = evaluateFrom base t env := by
  rw [evaluateFrom, failurePlace_of_parse h, evaluate_of_parse h]
  rcases Expr.eval_of_bare_eq hbare (reads_of_parse h).spells.1 hspells env with
    ⟨v, hv, hv'⟩ | ⟨u, u', fault, hu, hu', hf, hf'⟩
  · rw [hv, hv']
    rfl
  · rw [List.getElem?_map, hu] at hu'
    obtain rfl := Option.some.inj hu'
    rw [hf, hf', hu]
    rfl

/-- An evaluation fails at the column of its place, which is the place of a token. -/
theorem failurePlace_col (h : Expr.parse s = .ok x) {f : EvalError} (hf : evaluate s env = .error f) :
    (failurePlace s env).col = f.col ∧ ∃ u ∈ (Token.lex s).1, u.pos = failurePlace s env := by
  rw [evaluate_of_parse h] at hf
  obtain ⟨u, hu, hcol⟩ := (reads_of_parse h).spells.1.culprit hf
  have hplace : failurePlace s env = u.pos := by
    rw [failurePlace_of_parse h, hu]
    rfl
  rw [hplace]
  exact ⟨hcol, u, List.mem_of_getElem? hu, rfl⟩

/-- The tree of an expression, an operator and an operand. -/
theorem parse_joined (hs : '\x00' ∉ s.toList) (ht : '\x00' ∉ t.toList) (hx : Expr.parse s = .ok x) (hy : Expr.parse t = .ok y)
    (hoperand : y.isOperation = false) (op : ArithOp) :
    ∃ y', Expr.parse (joined s op t) = .ok (.binary (operatorPlace s).col op x y') ∧
      ∀ env, y'.eval env = evaluateFrom (operandPlace s op) t env := by
  obtain ⟨y', hreads, hbare⟩ := (reads_operand_of_parse hy hoperand).exists_bare_eq
    (Token.map_lexeme_shift (operandPlace s op) (Token.lex t).1)
  refine ⟨y', Expr.parse_of_reads ?_, fun env => eval_eq_evaluateFrom hy hbare hreads.spells.1 env⟩
  rw [lex_joined hs ht hx op]
  exact Expr.Reads.append (t := ⟨.arith op, operatorPlace s⟩) (reads_of_parse hx) rfl hreads

/-- An expression, an operator and an operand are evaluated in this order. -/
theorem evaluate_joined (hs : IsExpr s) (ht : IsOperand t) (op : ArithOp) (env : Env) :
    evaluate (joined s op t) env = (do
      let a ← evaluate s env
      let b ← evaluateFrom (operandPlace s op) t env
      (op.apply a b).mapError fun fault => ⟨(operatorPlace s).col, fault⟩) := by
  obtain ⟨hs, x, hx⟩ := hs
  obtain ⟨ht, y, hy, hoperand⟩ := ht
  obtain ⟨y', hparse, heval⟩ := parse_joined hs ht hx hy hoperand op
  rw [evaluate_of_parse hparse, evaluate_of_parse hx, ← heval, Expr.eval]
  cases x.eval env with
  | error f => rfl
  | ok a =>
    cases y'.eval env with
    | error f => rfl
    | ok b =>
      dsimp only
      cases h : op.apply a b <;> simp [h, bind, Except.bind, Except.mapError]

/-- Such a text is an expression again. -/
theorem IsExpr.joined (hs : IsExpr s) (ht : IsOperand t) (op : ArithOp) : IsExpr (joined s op t) := by
  obtain ⟨hs, x, hx⟩ := hs
  obtain ⟨ht, y, hy, hoperand⟩ := ht
  obtain ⟨y', hparse, _⟩ := parse_joined hs ht hx hy hoperand op
  exact ⟨nul_notMem_joined hs ht op, _, hparse⟩

/-- Parentheses around an expression only move it. -/
theorem evaluate_wrapped (hs : IsExpr s) (env : Env) : evaluate ("(" ++ s ++ ")") env = evaluateFrom ⟨1, 2⟩ s env := by
  obtain ⟨hs, x, hx⟩ := hs
  obtain ⟨p, htokens⟩ := lex_wrapped hs (lexeme_ne_unterminated hx)
  obtain ⟨x', hreads, hbare⟩ := (reads_of_parse hx).exists_bare_eq (Token.map_lexeme_shift ⟨1, 2⟩ (Token.lex s).1)
  have hparse : Expr.parse ("(" ++ s ++ ")") = .ok (.group 1 x') := by
    apply Expr.parse_of_reads
    rw [htokens]
    exact .single (Expr.Reads.group (t := ⟨.opening, Pos.start⟩) (u := ⟨.closing, p⟩) rfl hreads rfl)
  rw [evaluate_of_parse hparse, Expr.eval, eval_eq_evaluateFrom hx hbare hreads.spells.1]

/-- A failure in a text on one line moves by the columns before the text. -/
theorem evaluateFrom_of_oneLine (hs : IsExpr s) (hline : '\n' ∉ s.toList) (base : Pos) (env : Env) :
    evaluateFrom base s env = (evaluate s env).mapError fun f => ⟨base.col + f.col - 1, f.fault⟩ := by
  obtain ⟨hnul, x, hx⟩ := hs
  rw [evaluateFrom]
  cases hf : evaluate s env with
  | ok v => rfl
  | error f =>
    obtain ⟨hcol, u, hu, hplace⟩ := failurePlace_col hx hf
    rw [Token.lex_of_readable hnul] at hu
    have hfirst : (failurePlace s env).line = 1 := by
      rw [← hplace, Token.line_of_mem_lexFrom hline hu]
      rfl
    simp only [Except.mapError, Pos.shift, if_pos hfirst, hcol]

/-! ## Chains -/

/-- What a text evaluates to, with the cause of a failure but not its place. -/
def outcome (s : String) (env : Env) : Except EvalFault Value :=
  (evaluate s env).mapError EvalError.fault

/-- One more operand in a chain: it is evaluated after the value so far. -/
def extend (env : Env) (a : Value) (link : ArithOp × String) : Except EvalFault Value := do
  let b ← outcome link.2 env
  link.1.apply a b

/-- The outcome of an expression, an operator and an operand. -/
theorem outcome_joined (hs : IsExpr s) (ht : IsOperand t) (op : ArithOp) (env : Env) :
    outcome (joined s op t) env = (do
      let a ← outcome s env
      extend env a (op, t)) := by
  rw [outcome, outcome, evaluate_joined hs ht, evaluateFrom]
  unfold extend outcome
  cases evaluate s env with
  | error f => rfl
  | ok a =>
    cases evaluate t env with
    | error f => rfl
    | ok b =>
      show ((op.apply a b).mapError _).mapError _ = op.apply a b
      cases op.apply a b <;> rfl

/-- A chain is a fold to the left over its operands. -/
theorem outcome_chainText (hs : IsExpr s) {links : List (ArithOp × String)} (hlinks : ∀ link ∈ links, IsOperand link.2) (env : Env) :
    outcome (chainText s links) env = (do
      let a ← outcome s env
      links.foldlM (extend env) a) := by
  induction links generalizing s with
  | nil =>
    rw [chainText, List.foldl_nil]
    cases outcome s env <;> rfl
  | cons link links ih =>
    have hlink := hlinks link List.mem_cons_self
    have hlater : ∀ l ∈ links, IsOperand l.2 := fun l hl => hlinks l (List.mem_cons_of_mem link hl)
    rw [chainText, List.foldl_cons, ← chainText, ih (hs.joined hlink link.1) hlater, outcome_joined hs hlink]
    cases outcome s env with
    | error f => rfl
    | ok a => rfl

/-- A failure of what a chain begins with is the answer of the whole chain. -/
theorem evaluate_chainText_of_error {f : EvalError} (hs : IsExpr s) {links : List (ArithOp × String)}
    (hlinks : ∀ link ∈ links, IsOperand link.2) (hf : evaluate s env = .error f) :
    evaluate (chainText s links) env = .error f := by
  induction links generalizing s with
  | nil => exact hf
  | cons link links ih =>
    have hlink := hlinks link List.mem_cons_self
    refine ih (hs.joined hlink link.1) (fun l hl => hlinks l (List.mem_cons_of_mem link hl)) ?_
    rw [evaluate_joined hs hlink, hf]
    rfl

/-- The beginning of a chain is an expression. -/
theorem IsExpr.chainText (hs : IsExpr s) {links : List (ArithOp × String)} (hlinks : ∀ link ∈ links, IsOperand link.2) :
    IsExpr (chainText s links) := by
  induction links generalizing s with
  | nil => exact hs
  | cons link links ih =>
    exact ih (hs.joined (hlinks link List.mem_cons_self) link.1) fun l hl => hlinks l (List.mem_cons_of_mem link hl)

/-! ## A sum over two lines -/

theorem lex_broken_sum :
    (Token.lex "1 +\nB").1 = [⟨.number "1", ⟨1, 1⟩⟩, ⟨.arith .add, ⟨1, 3⟩⟩, ⟨.name "B", ⟨2, 1⟩⟩] := by
  decide +kernel

/-- A sum over two lines. -/
theorem parse_broken_sum : Expr.parse "1 +\nB" = .ok (.binary 3 .add (.number 1 "1") (.name 1 "B")) := by
  apply Expr.parse_of_reads
  rw [lex_broken_sum]
  exact Expr.Reads.append (t := ⟨.arith .add, ⟨1, 3⟩⟩) (.single (.number (t := ⟨.number "1", ⟨1, 1⟩⟩) rfl)) rfl
    (.name (t := ⟨.name "B", ⟨2, 1⟩⟩) rfl)

theorem evaluate_broken_sum : evaluate "1 +\nB" Env.empty = .error ⟨1, .unknownVariable "B"⟩ := by
  rw [evaluate_of_parse parse_broken_sum]
  rfl

/-- It fails on its second line, so a parenthesis before it does not move the failure. -/
theorem evaluateFrom_broken_sum : evaluateFrom ⟨1, 2⟩ "1 +\nB" Env.empty = .error ⟨1, .unknownVariable "B"⟩ := by
  rw [evaluateFrom, evaluate_broken_sum, failurePlace_of_parse parse_broken_sum, lex_broken_sum]
  rfl

theorem lex_wrapped_sum : (Token.lex "(1 +\nB)").1 =
    [⟨.opening, ⟨1, 1⟩⟩, ⟨.number "1", ⟨1, 2⟩⟩, ⟨.arith .add, ⟨1, 4⟩⟩, ⟨.name "B", ⟨2, 1⟩⟩, ⟨.closing, ⟨2, 2⟩⟩] := by
  decide +kernel

/-- The same sum in parentheses. -/
theorem parse_wrapped_sum : Expr.parse "(1 +\nB)" = .ok (.group 1 (.binary 4 .add (.number 2 "1") (.name 1 "B"))) := by
  have hsum : Expr.Reads .chain (.binary 4 .add (.number 2 "1") (.name 1 "B"))
      [⟨.number "1", ⟨1, 2⟩⟩, ⟨.arith .add, ⟨1, 4⟩⟩, ⟨.name "B", ⟨2, 1⟩⟩] :=
    .append (t := ⟨.arith .add, ⟨1, 4⟩⟩) (.single (.number (t := ⟨.number "1", ⟨1, 2⟩⟩) rfl)) rfl
      (.name (t := ⟨.name "B", ⟨2, 1⟩⟩) rfl)
  apply Expr.parse_of_reads
  rw [lex_wrapped_sum]
  exact .single (.group (t := ⟨.opening, ⟨1, 1⟩⟩) (u := ⟨.closing, ⟨2, 2⟩⟩) rfl hsum rfl)

/-- Parentheses do not always move a failure to the right: one on a later line keeps its column. -/
theorem wrapped_failure_keeps_column : ¬ ∀ (s : String) (env : Env) (f : EvalError), IsExpr s → evaluate s env = .error f →
    evaluate ("(" ++ s ++ ")") env = .error ⟨f.col + 1, f.fault⟩ := by
  intro h
  have hexpr : IsExpr "1 +\nB" := ⟨by decide, _, parse_broken_sum⟩
  have hwrapped : evaluate ("(" ++ "1 +\nB" ++ ")") Env.empty = .error ⟨1, .unknownVariable "B"⟩ := by
    rw [evaluate_wrapped hexpr, evaluateFrom_broken_sum]
  have hmoved := h _ _ _ hexpr evaluate_broken_sum
  rw [hwrapped] at hmoved
  cases hmoved

/-! ## The order of evaluation -/

/-- An expression, an operator and an operand are evaluated in this order, and the first failure is the answer. Parentheses around
an expression only move it. A failure moves with its text: by the columns before the text when it is on the first line, else not at
all. A chain is a fold to the left, and the failure of the shortest beginning that fails is that of the chain. -/
theorem evaluate_left_to_right :
    (∀ (s t : String) (op : ArithOp) (env : Env), IsExpr s → IsOperand t →
      evaluate (joined s op t) env = (do
        let a ← evaluate s env
        let b ← evaluateFrom (operandPlace s op) t env
        (op.apply a b).mapError fun fault => ⟨(operatorPlace s).col, fault⟩)) ∧
    (∀ (s : String) (env : Env), IsExpr s → evaluate ("(" ++ s ++ ")") env = evaluateFrom ⟨1, 2⟩ s env) ∧
    (∀ (s : String) (env : Env) (f : EvalError), IsExpr s → evaluate s env = .error f →
      (failurePlace s env).col = f.col ∧ ∃ u ∈ (Token.lex s).1, u.pos = failurePlace s env) ∧
    (∀ (s : String) (base : Pos) (env : Env), IsExpr s → '\n' ∉ s.toList →
      evaluateFrom base s env = (evaluate s env).mapError fun f => ⟨base.col + f.col - 1, f.fault⟩) ∧
    ∀ (s : String) (links : List (ArithOp × String)) (env : Env), IsExpr s → (∀ link ∈ links, IsOperand link.2) →
      outcome (chainText s links) env = (do
        let a ← outcome s env
        links.foldlM (extend env) a) ∧
      ∀ n f, evaluate (chainText s (links.take n)) env = .error f → evaluate (chainText s links) env = .error f := by
  refine ⟨?_, ?_, ?_, ?_, ?_⟩
  · intro s t op env hs ht
    exact evaluate_joined hs ht op env
  · intro s env hs
    exact evaluate_wrapped hs env
  · intro s env f hs hf
    obtain ⟨_, x, hx⟩ := hs
    exact failurePlace_col hx hf
  · intro s base env hs hline
    exact evaluateFrom_of_oneLine hs hline base env
  · intro s links env hs hlinks
    refine ⟨outcome_chainText hs hlinks env, fun n f hf => ?_⟩
    have hfirst : ∀ link ∈ links.take n, IsOperand link.2 := fun link hlink => hlinks link (List.mem_of_mem_take hlink)
    have hlater : ∀ link ∈ links.drop n, IsOperand link.2 := fun link hlink => hlinks link (List.mem_of_mem_drop hlink)
    have hwhole : chainText s links = chainText (chainText s (links.take n)) (links.drop n) := by
      rw [chainText, chainText, chainText, ← List.foldl_append, List.take_append_drop]
    rw [hwhole]
    exact evaluate_chainText_of_error (hs.chainText hfirst) hlater hf

/-- A chain with a value, a chain whose second operand fails, and a sum over two lines, in parentheses and as an operand. -/
theorem evaluate_left_to_right_broken_line :
    outcome (chainText "3" [(.add, "4"), (.mul, "2")]) Env.empty = .ok (.int 14) ∧
    evaluate (chainText "3" [(.add, "C"), (.mul, "(1 +\nB)")]) Env.empty = .error ⟨5, .unknownVariable "C"⟩ ∧
    evaluate ("(" ++ "1 +\nB" ++ ")") Env.empty = .error ⟨1, .unknownVariable "B"⟩ ∧
    evaluate (joined "3" .mul "(1 +\nB)") Env.empty = .error ⟨1, .unknownVariable "B"⟩ := by
  obtain ⟨hjoined, hwrapped, -, honeLine, hchain⟩ := evaluate_left_to_right
  have hthree : Expr.parse "3" = .ok (.number 1 "3") := Expr.parse_number (p := ⟨1, 1⟩) (by decide +kernel)
  have hfour : Expr.parse "4" = .ok (.number 1 "4") := Expr.parse_number (p := ⟨1, 1⟩) (by decide +kernel)
  have htwo : Expr.parse "2" = .ok (.number 1 "2") := Expr.parse_number (p := ⟨1, 1⟩) (by decide +kernel)
  have hname : Expr.parse "C" = .ok (.name 1 "C") := Expr.parse_name (p := ⟨1, 1⟩) (by decide +kernel)
  have hsum : evaluate "(1 +\nB)" Env.empty = .error ⟨1, .unknownVariable "B"⟩ := by
    rw [evaluate_of_parse parse_wrapped_sum]
    rfl
  have hfirst : IsExpr "3" := ⟨by decide, _, hthree⟩
  have hlast : IsOperand "(1 +\nB)" := ⟨by decide, _, parse_wrapped_sum, rfl⟩
  refine ⟨?_, ?_, ?_, ?_⟩
  · have hlinks : ∀ link ∈ [(ArithOp.add, "4"), (ArithOp.mul, "2")], IsOperand link.2 := by
      rw [List.forall_mem_cons, List.forall_mem_singleton]
      exact ⟨⟨by decide, _, hfour, rfl⟩, ⟨by decide, _, htwo, rfl⟩⟩
    rw [(hchain "3" _ Env.empty hfirst hlinks).1]
    simp only [List.foldlM_cons, List.foldlM_nil, extend, outcome, evaluate_of_parse hthree, evaluate_of_parse hfour,
      evaluate_of_parse htwo]
    rfl
  · have hlinks : ∀ link ∈ [(ArithOp.add, "C"), (ArithOp.mul, "(1 +\nB)")], IsOperand link.2 := by
      rw [List.forall_mem_cons, List.forall_mem_singleton]
      exact ⟨⟨by decide, _, hname, rfl⟩, hlast⟩
    -- the chain fails at its second operand, and what follows does not matter
    apply (hchain "3" _ Env.empty hfirst hlinks).2 1
    have hsecond : evaluate (joined "3" .add "C") Env.empty = .error ⟨5, .unknownVariable "C"⟩ := by
      rw [hjoined "3" "C" .add Env.empty hfirst ⟨by decide, _, hname, rfl⟩, honeLine "C" _ _ ⟨by decide, _, hname⟩ (by decide),
        evaluate_of_parse hthree, evaluate_of_parse hname]
      rfl
    exact hsecond
  · rw [hwrapped "1 +\nB" Env.empty ⟨by decide, _, parse_broken_sum⟩, evaluateFrom_broken_sum]
  · rw [hjoined "3" "(1 +\nB)" .mul Env.empty hfirst hlast, evaluateFrom, hsum, failurePlace_of_parse parse_wrapped_sum,
      lex_wrapped_sum, evaluate_of_parse hthree]
    rfl

end Evaluation

end Stepwise
