import Stepwise.Expr.Parser
import Stepwise.Proofs.Grammar

/-!
# Reading expressions follows the grammar

`Reads` is the grammar with its trees: the tokens form a phrase, and the tree is that of the phrase, each node with the column of its
own token. The reader answers with a tree exactly when the tokens read as a chain, and then with that tree: it never takes more or
less than the phrase, because a chain goes on exactly as long as operators follow.

The trees of the grammar are those where an operation stands neither to the right of an operation nor under a minus. Among these
there is only one for a list of tokens. The rule on the minus cannot be left out (`two_trees_of_negated_sum`): without it, the minus
of `-a+b` may stand above the sum as well as above its first operand.
-/

namespace Stepwise.Expr

/-! ## Trees and tokens -/

/-- What the tokens of an expression say, in their order. -/
def yield : Expr → List Lexeme
  | text _ v => [.literal v]
  | number _ s => [.number s]
  | name _ s => [.name s]
  | neg _ e => .arith .sub :: e.yield
  | binary _ o l r => l.yield ++ .arith o :: r.yield
  | group _ e => .opening :: (e.yield ++ [.closing])

/-- The expression without its columns. -/
def bare : Expr → Expr
  | text _ v => text 0 v
  | number _ s => number 0 s
  | name _ s => name 0 s
  | neg _ e => neg 0 e.bare
  | binary _ o l r => binary 0 o l.bare r.bare
  | group _ e => group 0 e.bare

/-- The expression is an operation with two operands. -/
def isOperation : Expr → Bool
  | binary .. => true
  | _ => false

/-- What stands to the right of this node's operator is no operation. -/
def operandOnRight : Expr → Bool
  | binary _ _ _ r => !r.isOperation
  | _ => true

/-- What stands under this node's minus is no operation. -/
def operandUnderMinus : Expr → Bool
  | neg _ e => !e.isOperation
  | _ => true

/-- Chains are nested to the left: the right operand of an operation is never an operation. -/
def LeftNested (e : Expr) : Prop := ∀ n ∈ e.nodes, n.operandOnRight = true

/-- A minus takes one operand: what it negates is never an operation. -/
def MinusOnOperands (e : Expr) : Prop := ∀ n ∈ e.nodes, n.operandUnderMinus = true

/-- The shape of the trees of the grammar: operations are operands only on the left of an operation and in parentheses. -/
def Shaped (e : Expr) : Prop := ∀ n ∈ e.nodes, n.operandOnRight = true ∧ n.operandUnderMinus = true

/-- The expression spells out the tokens in their order, and each node has the column of its own token: the operator of an operation,
the minus of a negation, the opening parenthesis of a group. -/
inductive Spells : Expr → List Token → Prop where
  | text {t : Token} {v : String} (word : t.lexeme = .literal v) : Spells (.text t.col v) [t]
  | number {t : Token} {s : String} (word : t.lexeme = .number s) : Spells (.number t.col s) [t]
  | name {t : Token} {s : String} (word : t.lexeme = .name s) : Spells (.name t.col s) [t]
  | neg {t : Token} {e : Expr} {ts : List Token} (word : t.lexeme = .arith .sub) (inner : Spells e ts) :
      Spells (.neg t.col e) (t :: ts)
  | binary {t : Token} {op : ArithOp} {l r : Expr} {ls rs : List Token} (left : Spells l ls) (word : t.lexeme = .arith op)
      (right : Spells r rs) : Spells (.binary t.col op l r) (ls ++ t :: rs)
  | group {t u : Token} {e : Expr} {ts : List Token} (opens : t.lexeme = .opening) (inner : Spells e ts)
      (closes : u.lexeme = .closing) : Spells (.group t.col e) (t :: (ts ++ [u]))

/-- The tokens form a phrase of the grammar whose tree is the expression, with the columns of the nodes' own tokens. -/
inductive Reads : Category → Expr → List Token → Prop where
  | literal {t : Token} {v : String} (word : t.lexeme = .literal v) : Reads .operand (.text t.col v) [t]
  | number {t : Token} {s : String} (word : t.lexeme = .number s) : Reads .operand (.number t.col s) [t]
  | name {t : Token} {s : String} (word : t.lexeme = .name s) : Reads .operand (.name t.col s) [t]
  | neg {t : Token} {e : Expr} {ts : List Token} (word : t.lexeme = .arith .sub) (inner : Reads .operand e ts) :
      Reads .operand (.neg t.col e) (t :: ts)
  | group {t u : Token} {e : Expr} {ts : List Token} (opens : t.lexeme = .opening) (inner : Reads .chain e ts)
      (closes : u.lexeme = .closing) : Reads .operand (.group t.col e) (t :: (ts ++ [u]))
  | single {e : Expr} {ts : List Token} (only : Reads .operand e ts) : Reads .chain e ts
  | append {t : Token} {op : ArithOp} {l r : Expr} {ls rs : List Token} (left : Reads .chain l ls)
      (word : t.lexeme = .arith op) (right : Reads .operand r rs) : Reads .chain (.binary t.col op l r) (ls ++ t :: rs)

variable {k : Category} {e e' : Expr} {ts us rest : List Token} {t : Token} {stop : Nat} {prev : Option Token}

/-- An expression yields what the tokens that it spells out say. -/
theorem Spells.yield (h : e.Spells ts) : e.yield = ts.map Token.lexeme := by
  induction h with
  | text word => simp [Expr.yield, word]
  | number word => simp [Expr.yield, word]
  | name word => simp [Expr.yield, word]
  | neg word _ ih => simp [Expr.yield, word, ih]
  | binary _ word _ ihl ihr => simp [Expr.yield, word, ihl, ihr]
  | group opens _ closes ih => simp [Expr.yield, opens, closes, ih]

/-- An expression that yields what tokens say spells them out once it has their columns. -/
theorem exists_spells (h : e.yield = ts.map Token.lexeme) : ∃ e' : Expr, e'.Spells ts ∧ e'.bare = e.bare := by
  induction e generalizing ts with
  | text c v =>
    obtain ⟨t, rfl, hword⟩ := List.map_eq_singleton_iff.1 h.symm
    exact ⟨_, .text hword, rfl⟩
  | number c s =>
    obtain ⟨t, rfl, hword⟩ := List.map_eq_singleton_iff.1 h.symm
    exact ⟨_, .number hword, rfl⟩
  | name c s =>
    obtain ⟨t, rfl, hword⟩ := List.map_eq_singleton_iff.1 h.symm
    exact ⟨_, .name hword, rfl⟩
  | neg c e ih =>
    obtain ⟨t, us, rfl, hword, hrest⟩ := List.map_eq_cons_iff.1 h.symm
    obtain ⟨e', hspells, hbare⟩ := ih hrest.symm
    exact ⟨_, .neg hword hspells, by simp [bare, hbare]⟩
  | binary c o l r ihl ihr =>
    obtain ⟨ls, us, rfl, hls, hus⟩ := List.map_eq_append_iff.1 h.symm
    obtain ⟨t, rs, rfl, hword, hrs⟩ := List.map_eq_cons_iff.1 hus
    obtain ⟨l', hl, hbareL⟩ := ihl hls.symm
    obtain ⟨r', hr, hbareR⟩ := ihr hrs.symm
    exact ⟨_, .binary hl hword hr, by simp [bare, hbareL, hbareR]⟩
  | group c e ih =>
    obtain ⟨t, us, rfl, hopens, hus⟩ := List.map_eq_cons_iff.1 h.symm
    obtain ⟨ms, ns, rfl, hms, hns⟩ := List.map_eq_append_iff.1 hus
    obtain ⟨u, rfl, hcloses⟩ := List.map_eq_singleton_iff.1 hns
    obtain ⟨e', hspells, hbare⟩ := ih hms.symm
    exact ⟨_, .group hopens hspells hcloses, by simp [bare, hbare]⟩

/-! ## The trees of the grammar -/

theorem shaped_iff : e.Shaped ↔ e.LeftNested ∧ e.MinusOnOperands := forall₂_and

@[simp]
theorem shaped_neg (c : Nat) (e : Expr) : (neg c e).Shaped ↔ e.isOperation = false ∧ e.Shaped := by
  simp [Shaped, nodes, operandOnRight, operandUnderMinus]

@[simp]
theorem shaped_binary (c : Nat) (o : ArithOp) (l r : Expr) :
    (binary c o l r).Shaped ↔ r.isOperation = false ∧ l.Shaped ∧ r.Shaped := by
  rw [Shaped, nodes, List.forall_mem_cons, List.forall_mem_append]
  refine and_congr ?_ Iff.rfl
  simp [operandOnRight, operandUnderMinus]

@[simp]
theorem shaped_group (c : Nat) (e : Expr) : (group c e).Shaped ↔ e.Shaped := by
  simp [Shaped, nodes, operandOnRight, operandUnderMinus]

@[simp]
theorem isOperation_bare (e : Expr) : e.bare.isOperation = e.isOperation := by
  cases e <;> rfl

/-- The shape of an expression does not depend on its columns. -/
theorem shaped_bare (e : Expr) : e.bare.Shaped ↔ e.Shaped := by
  induction e with
  | text | number | name => simp [bare, Shaped, nodes, operandOnRight, operandUnderMinus]
  | neg c e ih => simp [bare, ih]
  | binary c o l r ihl ihr => simp [bare, ihl, ihr]
  | group c e ih => simp [bare, ih]

/-- The tree of a phrase spells out its tokens and has the shape of the grammar; that of an operand is no operation. -/
theorem Reads.spells (h : Reads k e ts) : e.Spells ts ∧ e.Shaped ∧ (k = .operand → e.isOperation = false) := by
  induction h with
  | literal word => exact ⟨.text word, by simp [Shaped, nodes, operandOnRight, operandUnderMinus], fun _ => rfl⟩
  | number word => exact ⟨.number word, by simp [Shaped, nodes, operandOnRight, operandUnderMinus], fun _ => rfl⟩
  | name word => exact ⟨.name word, by simp [Shaped, nodes, operandOnRight, operandUnderMinus], fun _ => rfl⟩
  | neg word _ ih => exact ⟨.neg word ih.1, (shaped_neg _ _).2 ⟨ih.2.2 rfl, ih.2.1⟩, fun _ => rfl⟩
  | group opens _ closes ih => exact ⟨.group opens ih.1 closes, (shaped_group _ _).2 ih.2.1, fun _ => rfl⟩
  | single _ ih => exact ⟨ih.1, ih.2.1, fun h => by cases h⟩
  | append _ word _ ihl ihr =>
    exact ⟨.binary ihl.1 word ihr.1, (shaped_binary _ _ _ _).2 ⟨ihr.2.2 rfl, ihl.2.1, ihr.2.1⟩, fun h => by cases h⟩

/-- A tree with the shape of the grammar is the tree of the tokens that it spells out. -/
theorem Spells.reads (h : e.Spells ts) (hshaped : e.Shaped) :
    Reads .chain e ts ∧ (e.isOperation = false → Reads .operand e ts) := by
  have hboth : ∀ {e : Expr} {ts : List Token}, Reads .operand e ts →
      Reads .chain e ts ∧ (e.isOperation = false → Reads .operand e ts) := fun h => ⟨.single h, fun _ => h⟩
  induction h with
  | text word => exact hboth (.literal word)
  | number word => exact hboth (.number word)
  | name word => exact hboth (.name word)
  | neg word _ ih =>
    obtain ⟨hoperand, hinner⟩ := (shaped_neg _ _).1 hshaped
    exact hboth (.neg word ((ih hinner).2 hoperand))
  | group opens _ closes ih => exact hboth (.group opens (ih ((shaped_group _ _).1 hshaped)).1 closes)
  | binary _ word _ ihl ihr =>
    obtain ⟨hoperand, hleft, hright⟩ := (shaped_binary _ _ _ _).1 hshaped
    exact ⟨.append (ihl hleft).1 word ((ihr hright).2 hoperand), fun h => by cases h⟩

/-- What tokens form that read as a phrase. -/
theorem Reads.derives (h : Reads k e ts) : Derives k (ts.map Token.lexeme) := by
  induction h with
  | literal word => simpa [word] using Derives.literal _
  | number word => simpa [word] using Derives.number _
  | name word => simpa [word] using Derives.name _
  | neg word _ ih => simpa [word] using Derives.neg ih
  | group opens _ closes ih => simpa [opens, closes] using Derives.group ih
  | single _ ih => exact .single ih
  | append _ word _ ihl ihr => simpa [word] using Derives.append ihl _ ihr

/-- Tokens that form a phrase have a tree. -/
theorem exists_reads {ls : List Lexeme} (h : Derives k ls) (hts : ts.map Token.lexeme = ls) : ∃ e, Reads k e ts := by
  induction h generalizing ts with
  | literal =>
    obtain ⟨t, rfl, hword⟩ := List.map_eq_singleton_iff.1 hts
    exact ⟨_, .literal hword⟩
  | number =>
    obtain ⟨t, rfl, hword⟩ := List.map_eq_singleton_iff.1 hts
    exact ⟨_, .number hword⟩
  | name =>
    obtain ⟨t, rfl, hword⟩ := List.map_eq_singleton_iff.1 hts
    exact ⟨_, .name hword⟩
  | neg _ ih =>
    obtain ⟨t, us, rfl, hword, hus⟩ := List.map_eq_cons_iff.1 hts
    obtain ⟨e, he⟩ := ih hus
    exact ⟨_, .neg hword he⟩
  | group _ ih =>
    obtain ⟨t, us, rfl, hopens, hus⟩ := List.map_eq_cons_iff.1 hts
    obtain ⟨ms, ns, rfl, hms, hns⟩ := List.map_eq_append_iff.1 hus
    obtain ⟨u, rfl, hcloses⟩ := List.map_eq_singleton_iff.1 hns
    obtain ⟨e, he⟩ := ih hms
    exact ⟨_, .group hopens he hcloses⟩
  | single _ ih =>
    obtain ⟨e, he⟩ := ih hts
    exact ⟨e, .single he⟩
  | append _ op _ ihl ihr =>
    obtain ⟨ls, us, rfl, hls, hus⟩ := List.map_eq_append_iff.1 hts
    obtain ⟨t, rs, rfl, hword, hrs⟩ := List.map_eq_cons_iff.1 hus
    obtain ⟨l, hl⟩ := ihl hls
    obtain ⟨r, hr⟩ := ihr hrs
    exact ⟨_, .append hl hword hr⟩

/-! ## What the reader answers -/

/-- Reading an operand answers with the expression and the rest. -/
def OperandGives (stop : Nat) (prev : Option Token) (ts : List Token) (e : Expr) (rest : List Token) : Prop :=
  ∃ r, parseOperand stop prev ts = .ok r ∧ r.expr = e ∧ r.rest = rest

/-- Reading a chain answers with the expression and the rest. -/
def ChainGives (stop : Nat) (prev : Option Token) (ts : List Token) (e : Expr) (rest : List Token) : Prop :=
  ∃ r, parseChain stop prev ts = .ok r ∧ r.expr = e ∧ r.rest = rest

/-- Reading what follows `left` answers with the expression and the rest. -/
def TailGives (stop : Nat) (left : Expr) (ts : List Token) (e : Expr) (rest : List Token) : Prop :=
  ∃ h, parseTail stop left ts = .ok (e, ⟨rest, h⟩)

/-- What an operand can be by its first token. -/
inductive OperandBegins (stop : Nat) (t : Token) (ts : List Token) : Expr → List Token → Prop where
  | literal {v : String} (word : t.lexeme = .literal v) : OperandBegins stop t ts (.text t.col v) ts
  | number {s : String} (word : t.lexeme = .number s) : OperandBegins stop t ts (.number t.col s) ts
  | name {s : String} (word : t.lexeme = .name s) : OperandBegins stop t ts (.name t.col s) ts
  | neg {x : Expr} {rest : List Token} (word : t.lexeme = .arith .sub) (inner : OperandGives stop (some t) ts x rest) :
      OperandBegins stop t ts (.neg t.col x) rest
  | group {x : Expr} {u : Token} {rest : List Token} (opens : t.lexeme = .opening)
      (filled : ∀ v ∈ ts.head?, v.lexeme ≠ .closing) (inner : ChainGives stop (some t) ts x (u :: rest))
      (closes : u.lexeme = .closing) : OperandBegins stop t ts (.group t.col x) rest

/-- No operand is read off no tokens. -/
theorem not_operandGives_nil : ¬ OperandGives stop prev [] e rest := by
  rintro ⟨r, hr, -⟩
  rw [parseOperand.eq_def] at hr
  cases hr

/-- The first token decides what operand is read. -/
theorem operandGives_cons_iff : OperandGives stop prev (t :: ts) e rest ↔ OperandBegins stop t ts e rest := by
  constructor
  · rintro ⟨r, hr, rfl, rfl⟩
    rw [parseOperand.eq_def] at hr
    dsimp only at hr
    split at hr
    next word =>
      split at hr
      · cases hr
      next q hq =>
        cases hr
        exact .neg word ⟨q, hq, rfl, rfl⟩
    next v word =>
      cases hr
      exact .literal word
    next s word =>
      cases hr
      exact .number word
    next s word =>
      cases hr
      exact .name word
    next opens =>
      split at hr
      · cases hr
      next hhead =>
        split at hr
        · cases hr
        next q hq =>
          split at hr
          next p rest hrest =>
            cases hr
            refine .group opens ?_ ⟨q, hq, rfl, hrest⟩ rfl
            rintro ⟨lexeme, p⟩ hv rfl
            exact hhead p hv
          · cases hr
    · cases hr
  · intro h
    rw [OperandGives, parseOperand.eq_def]
    cases h with
    | literal word => simp [word]
    | number word => simp [word]
    | name word => simp [word]
    | neg word inner =>
      obtain ⟨r, hr, rfl, rfl⟩ := inner
      simp [word, hr]
    | @group x u rest opens filled inner closes =>
      obtain ⟨r, hr, rfl, hrest⟩ := inner
      simp only [opens, hr]
      split
      next p hp => exact absurd rfl (filled _ hp)
      · split
        next p us hus =>
          cases hrest.symm.trans hus
          exact ⟨_, rfl, rfl, rfl⟩
        next hno =>
          obtain ⟨lexeme, p⟩ := u
          obtain rfl : lexeme = .closing := closes
          exact absurd hrest (hno p rest)

/-- A chain is an operand and what follows it. -/
theorem chainGives_iff :
    ChainGives stop prev ts e rest ↔ ∃ x mid, OperandGives stop prev ts x mid ∧ TailGives stop x mid e rest := by
  constructor
  · rintro ⟨r, hr, rfl, rfl⟩
    rw [parseChain.eq_def] at hr
    split at hr
    · cases hr
    next q hq =>
      split at hr
      · cases hr
      next x mid hle hx =>
        cases hr
        exact ⟨_, _, ⟨q, hq, rfl, rfl⟩, hle, hx⟩
  · rintro ⟨x, mid, ⟨r, hr, rfl, rfl⟩, hle, htail⟩
    rw [ChainGives, parseChain.eq_def]
    simp [hr, htail]

/-- What follows an expression is taken in as long as it begins with an operator. -/
theorem tailGives_cons_iff {left : Expr} {op : ArithOp} (word : t.lexeme = .arith op) :
    TailGives stop left (t :: ts) e rest ↔
      ∃ r mid, OperandGives stop (some t) ts r mid ∧ TailGives stop (.binary t.col op left r) mid e rest := by
  obtain ⟨lexeme, p⟩ := t
  obtain rfl : lexeme = .arith op := word
  constructor
  · rintro ⟨hle, h⟩
    rw [parseTail.eq_def] at h
    dsimp only at h
    split at h
    · cases h
    next q hq =>
      split at h
      · cases h
      next x mid hmid hx =>
        cases h
        exact ⟨_, _, ⟨q, hq, rfl, rfl⟩, hmid, hx⟩
  · rintro ⟨_, _, ⟨q, hq, rfl, rfl⟩, hmid, htail⟩
    refine ⟨Nat.le_succ_of_le (hmid.trans (Nat.le_of_lt q.shorter)), ?_⟩
    rw [parseTail.eq_def]
    simp only [hq]
    rw [show parseTail stop (.binary p.col op left q.expr) q.rest = _ from htail]

/-- Nothing else that follows is taken in. -/
theorem tailGives_iff_of_head {left : Expr} (h : ∀ v ∈ ts.head?, ∀ op, v.lexeme ≠ .arith op) :
    TailGives stop left ts e rest ↔ e = left ∧ rest = ts := by
  simp only [TailGives]
  rw [parseTail.eq_def]
  split
  next op p us => exact absurd rfl (h _ rfl op)
  · constructor
    · rintro ⟨hle, h⟩
      cases h
      exact ⟨rfl, rfl⟩
    · rintro ⟨rfl, rfl⟩
      exact ⟨Nat.le_refl _, rfl⟩

/-! ## What is read is a phrase -/

theorem OperandGives.shorter (h : OperandGives stop prev ts e rest) : rest.length < ts.length := by
  obtain ⟨r, -, -, rfl⟩ := h
  exact r.shorter

mutual

/-- The tokens taken for an operand read as one. -/
theorem OperandGives.reads {prev : Option Token} {ts rest : List Token} {e : Expr} (h : OperandGives stop prev ts e rest) :
    ∃ us, ts = us ++ rest ∧ Reads .operand e us := by
  match ts with
  | [] => exact absurd h not_operandGives_nil
  | t :: ts =>
    cases operandGives_cons_iff.1 h with
    | literal word => exact ⟨[t], rfl, .literal word⟩
    | number word => exact ⟨[t], rfl, .number word⟩
    | name word => exact ⟨[t], rfl, .name word⟩
    | neg word inner =>
      obtain ⟨us, rfl, hus⟩ := inner.reads
      exact ⟨t :: us, rfl, .neg word hus⟩
    | @group x u _ opens _ inner closes =>
      obtain ⟨us, rfl, hus⟩ := inner.reads
      exact ⟨t :: (us ++ [u]), by simp, .group opens hus closes⟩
termination_by (ts.length, 0)

/-- The tokens taken for a chain read as one. -/
theorem ChainGives.reads {prev : Option Token} {ts rest : List Token} {e : Expr} (h : ChainGives stop prev ts e rest) :
    ∃ us, ts = us ++ rest ∧ Reads .chain e us := by
  obtain ⟨x, mid, hx, htail⟩ := chainGives_iff.1 h
  have hshorter := hx.shorter
  obtain ⟨ls, rfl, hls⟩ := hx.reads
  obtain ⟨us, rfl, hus⟩ := htail.reads (.single hls)
  exact ⟨ls ++ us, by simp, hus⟩
termination_by (ts.length, 1)

/-- The tokens taken after a chain go on with it. -/
theorem TailGives.reads {left e : Expr} {ts rest ls : List Token} (h : TailGives stop left ts e rest)
    (hleft : Reads .chain left ls) : ∃ us, ts = us ++ rest ∧ Reads .chain e (ls ++ us) := by
  by_cases hop : ∃ t us op, ts = t :: us ∧ t.lexeme = .arith op
  · obtain ⟨t, us, op, rfl, word⟩ := hop
    obtain ⟨r, mid, hr, htail⟩ := (tailGives_cons_iff word).1 h
    have hshorter := hr.shorter
    obtain ⟨rs, rfl, hrs⟩ := hr.reads
    obtain ⟨ms, rfl, hms⟩ := htail.reads (.append hleft word hrs)
    exact ⟨t :: (rs ++ ms), by simp, by simpa using hms⟩
  · have hhead : ∀ v ∈ ts.head?, ∀ op, v.lexeme ≠ .arith op := by
      intro v hv op word
      obtain ⟨us, rfl⟩ := List.head?_eq_some_iff.1 hv
      exact hop ⟨v, us, op, rfl, word⟩
    obtain ⟨rfl, rfl⟩ := (tailGives_iff_of_head hhead).1 h
    exact ⟨[], rfl, by simpa using hleft⟩
termination_by (ts.length, 0)

end

/-! ## Every phrase is read -/

/-- A phrase does not begin with a closing parenthesis. -/
theorem Reads.head_ne_closing (h : Reads k e ts) : ∀ v ∈ (ts ++ rest).head?, v.lexeme ≠ .closing := by
  induction h generalizing rest with
  | literal word | number word | name word | neg word => simp [word]
  | group opens => simp [opens]
  | single _ ih => exact ih
  | append _ _ _ ihl _ =>
    rw [List.append_assoc]
    exact ihl

/-- A phrase has tokens. -/
theorem Reads.ne_nil (h : Reads k e ts) : ts ≠ [] := by
  induction h with
  | single _ ih => exact ih
  | _ => simp

/-- The reader takes the tokens of a phrase off the front, whatever follows an operand; a chain is taken with all that goes on with it. -/
def Taken (stop : Nat) : Category → Expr → List Token → Prop
  | .operand, e, ts => ∀ prev rest, OperandGives stop prev (ts ++ rest) e rest
  | .chain, e, ts => ∀ prev rest e' rest', TailGives stop e rest e' rest' → ChainGives stop prev (ts ++ rest) e' rest'

/-- The reader takes every phrase. -/
theorem Reads.taken (h : Reads k e ts) : Taken stop k e ts := by
  induction h with
  | literal word => exact fun _ _ => operandGives_cons_iff.2 (.literal word)
  | number word => exact fun _ _ => operandGives_cons_iff.2 (.number word)
  | name word => exact fun _ _ => operandGives_cons_iff.2 (.name word)
  | neg word _ ih =>
    intro prev rest
    exact operandGives_cons_iff.2 (.neg word (ih _ rest))
  | @group t u e ts opens hinner closes ih =>
    intro prev rest
    -- the chain inside ends at the parenthesis, which is no operator
    have hend : TailGives stop e (u :: rest) e (u :: rest) :=
      (tailGives_iff_of_head (by simp [closes])).2 ⟨rfl, rfl⟩
    have hchain := ih (some t) (u :: rest) e (u :: rest) hend
    rw [List.cons_append, List.append_assoc]
    exact operandGives_cons_iff.2 (.group opens hinner.head_ne_closing hchain closes)
  | single _ ih =>
    intro prev rest e' rest' htail
    exact chainGives_iff.2 ⟨_, _, ih prev rest, htail⟩
  | append _ word _ ihl ihr =>
    intro prev rest e' rest' htail
    rw [List.append_assoc]
    exact ihl _ _ _ _ ((tailGives_cons_iff word).2 ⟨_, _, ihr _ rest, htail⟩)

/-- The reader answers with the tree of the tokens, and with none when they read as no chain. -/
theorem ofTokens_eq_ok_iff_reads : ofTokens stop ts = .ok e ↔ Reads .chain e ts := by
  constructor
  · intro h
    unfold ofTokens at h
    split at h
    · cases h
    next r hr =>
      split at h
      next hrest =>
        cases h
        obtain ⟨us, hus, hreads⟩ := ChainGives.reads ⟨r, hr, rfl, hrest⟩
        simpa [hus] using hreads
      · cases h
  · intro h
    have hend : TailGives stop e [] e [] := (tailGives_iff_of_head (by simp)).2 ⟨rfl, rfl⟩
    have hchain : ChainGives stop none (ts ++ []) e [] := h.taken none [] e [] hend
    rw [List.append_nil] at hchain
    obtain ⟨r, hr, rfl, hrest⟩ := hchain
    simp [ofTokens, hr, hrest]

/-- The tree that is read has the shape of the grammar and spells out the tokens, and each such tree is read. -/
theorem ofTokens_eq_ok_iff_spells : ofTokens stop ts = .ok e ↔ e.Spells ts ∧ e.Shaped := by
  rw [ofTokens_eq_ok_iff_reads]
  exact ⟨fun h => ⟨h.spells.1, h.spells.2.1⟩, fun h => (h.1.reads h.2).1⟩

/-- Reading a text is reading all of its tokens. -/
theorem parse_eq_ok_iff {s : String} : parse s = .ok e ↔ ofTokens (Token.lex s).2.col (Token.lex s).1 = .ok e := by
  simp only [parse]
  split
  next hempty =>
    -- no tokens are no chain
    rw [List.isEmpty_iff.1 hempty, ofTokens_eq_ok_iff_reads]
    constructor
    · intro h
      cases h
    · intro h
      exact absurd rfl h.ne_nil
  · exact Iff.rfl

/-- A text whose tokens form a chain is read as its tree. -/
theorem parse_of_reads {s : String} (h : Reads .chain e (Token.lex s).1) : parse s = .ok e :=
  parse_eq_ok_iff.2 (ofTokens_eq_ok_iff_reads.2 h)

/-- A text with one number for its only token is read as that number. -/
theorem parse_number {s word : String} {p : Pos} (h : (Token.lex s).1 = [⟨.number word, p⟩]) : parse s = .ok (.number p.col word) := by
  apply parse_of_reads
  rw [h]
  exact .single (.number (t := ⟨.number word, p⟩) rfl)

/-- A text with one name for its only token is read as that name. -/
theorem parse_name {s word : String} {p : Pos} (h : (Token.lex s).1 = [⟨.name word, p⟩]) : parse s = .ok (.name p.col word) := by
  apply parse_of_reads
  rw [h]
  exact .single (.name (t := ⟨.name word, p⟩) rfl)

/-- Reading accepts exactly the token lists of the grammar. The tree spells out the tokens, each node with the column of its own token;
chains are nested to the left, and a minus takes one operand. No other tree of that kind has the same tokens, and no other shape says
the same. -/
theorem ofTokens_accepts_exactly_grammar :
    (∀ (stop : Nat) (ts : List Token),
      ((∃ e, ofTokens stop ts = .ok e) ↔ Derives .chain (ts.map Token.lexeme)) ∧
      ∀ e, ofTokens stop ts = .ok e →
        e.yield = ts.map Token.lexeme ∧ e.LeftNested ∧ e.MinusOnOperands ∧ e.Spells ts ∧
        ∀ e' : Expr, e'.yield = ts.map Token.lexeme → e'.LeftNested → e'.MinusOnOperands →
          e'.bare = e.bare ∧ (e'.Spells ts → e' = e)) ∧
    ∀ (s : String) (e : Expr), parse s = .ok e ↔ ofTokens (Token.lex s).2.col (Token.lex s).1 = .ok e := by
  refine ⟨fun stop ts => ⟨⟨?_, ?_⟩, ?_⟩, fun s e => parse_eq_ok_iff⟩
  · rintro ⟨e, he⟩
    exact (ofTokens_eq_ok_iff_reads.1 he).derives
  · intro hderives
    obtain ⟨e, he⟩ := exists_reads hderives rfl
    exact ⟨e, ofTokens_eq_ok_iff_reads.2 he⟩
  · intro e he
    obtain ⟨hspells, hshaped⟩ := ofTokens_eq_ok_iff_spells.1 he
    -- both of two such trees are the answer
    have hunique : ∀ e' : Expr, e'.Spells ts → e'.Shaped → e' = e := by
      intro e' hspells' hshaped'
      have he' : ofTokens stop ts = .ok e' := ofTokens_eq_ok_iff_spells.2 ⟨hspells', hshaped'⟩
      rw [he] at he'
      cases he'
      rfl
    obtain ⟨hnested, hminus⟩ := shaped_iff.1 hshaped
    refine ⟨hspells.yield, hnested, hminus, hspells, ?_⟩
    intro e' hyield hnested' hminus'
    have hshaped' := shaped_iff.2 ⟨hnested', hminus'⟩
    refine ⟨?_, fun h => hunique e' h hshaped'⟩
    obtain ⟨x, hx, hbare⟩ := exists_spells hyield
    have hshapedX : x.Shaped := by
      rw [← shaped_bare, hbare, shaped_bare]
      exact hshaped'
    rw [← hbare, hunique x hx hshapedX]

/-- The tree that is read off `-a+b`: the minus takes the first operand. -/
def sumOfNegated : Expr := binary 3 .add (neg 1 (name 2 "a")) (name 4 "b")

/-- A second tree with the tokens of `-a+b`: the minus takes the sum. -/
def negatedSum : Expr := neg 1 (binary 3 .add (name 2 "a") (name 4 "b"))

/-- Left nesting does not tell a tree from its tokens: the two trees of `-a+b` have the same tokens, the columns of these tokens, and
no operation to the right of an operation. Only one of them is read. -/
theorem two_trees_of_negated_sum :
    parse "-a+b" = .ok sumOfNegated ∧ sumOfNegated.bare ≠ negatedSum.bare ∧
    ∀ e ∈ [sumOfNegated, negatedSum],
      e.yield = (Token.lex "-a+b").1.map Token.lexeme ∧ e.Spells (Token.lex "-a+b").1 ∧ e.LeftNested := by
  have htokens : (Token.lex "-a+b").1 =
      [⟨.arith .sub, ⟨1, 1⟩⟩, ⟨.name "a", ⟨1, 2⟩⟩, ⟨.arith .add, ⟨1, 3⟩⟩, ⟨.name "b", ⟨1, 4⟩⟩] := by decide +kernel
  have ha : Reads .operand (name 2 "a") [⟨.name "a", ⟨1, 2⟩⟩] := .name (t := ⟨.name "a", ⟨1, 2⟩⟩) rfl
  have hb : Reads .operand (name 4 "b") [⟨.name "b", ⟨1, 4⟩⟩] := .name (t := ⟨.name "b", ⟨1, 4⟩⟩) rfl
  have hread : Reads .chain sumOfNegated (Token.lex "-a+b").1 := by
    rw [htokens]
    exact .append (t := ⟨.arith .add, ⟨1, 3⟩⟩) (.single (.neg (t := ⟨.arith .sub, ⟨1, 1⟩⟩) rfl ha)) rfl hb
  have hsecond : negatedSum.Spells (Token.lex "-a+b").1 := by
    rw [htokens]
    exact .neg (t := ⟨.arith .sub, ⟨1, 1⟩⟩) rfl (.binary (t := ⟨.arith .add, ⟨1, 3⟩⟩) ha.spells.1 rfl hb.spells.1)
  refine ⟨parse_of_reads hread, by decide, ?_⟩
  intro e he
  rw [List.mem_cons, List.mem_singleton] at he
  rcases he with rfl | rfl
  · obtain ⟨hspells, hshaped, -⟩ := hread.spells
    exact ⟨hspells.yield, hspells, (shaped_iff.1 hshaped).1⟩
  · refine ⟨hsecond.yield, hsecond, ?_⟩
    simp [LeftNested, negatedSum, nodes, operandOnRight, isOperation]

end Stepwise.Expr
