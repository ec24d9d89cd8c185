import Stepwise.Proofs.ConditionReading
import Stepwise.Proofs.Division

/-!
# Kinds of results

Values carry their kinds while an expression is evaluated: a sum with a string is a string, and every other operator refuses one. So
a string is never lost on its way up. When an expression has a value, the leaves tell its kind, and above a leaf that is a string
there are only sums. A condition compares integers alone, so no string takes part in what a program decides.
-/

namespace Stepwise

/-- What stands above an operand: an operator with a second operand, or the sign of a negation. -/
inductive Operator where
  | negation
  | arith (op : ArithOp)
  deriving DecidableEq, Repr

/-- A leaf of an expression, with the operators between it and the root, the one at the root first. -/
structure Leaf where
  above : List Operator
  node : Expr
  deriving DecidableEq, Repr

namespace Leaf

/-- The leaf in an expression that has the operator at its root. -/
def under (o : Operator) (l : Leaf) : Leaf := ⟨o :: l.above, l.node⟩

/-- The leaf is a string literal or a variable that is bound to a string. -/
def isString (env : Env) (l : Leaf) : Bool :=
  match l.node with
  | .text _ _ => true
  | .name _ id => (env.get? id).any fun v => v.kind == .string
  | _ => false

/-- Only sums stand between the leaf and the root. -/
def Summed (l : Leaf) : Prop := ∀ o ∈ l.above, o = .arith .add

@[simp]
theorem isString_under (env : Env) (o : Operator) (l : Leaf) : (l.under o).isString env = l.isString env := rfl

theorem Summed.under {l : Leaf} (h : l.Summed) : (l.under (.arith .add)).Summed := by
  intro o ho
  rcases List.mem_cons.1 ho with rfl | ho
  · rfl
  · exact h o ho

end Leaf

/-- The kind of a result is a string exactly when an operand is one, and then the operator is the sum. -/
theorem ArithOp.kind_of_apply {op : ArithOp} {x y v : Value} (h : op.apply x y = .ok v) :
    (v.kind = .string ↔ x.kind = .string ∨ y.kind = .string) ∧ (v.kind = .string → op = .add) := by
  cases x with
  | int a =>
    cases y with
    | int b =>
      obtain ⟨n, rfl⟩ : ∃ n, v = .int n := by
        cases op with
        | add | sub | mul =>
          cases h
          exact ⟨_, rfl⟩
        | div | mod =>
          simp only [apply] at h
          split at h
          · cases h
          · cases h
            exact ⟨_, rfl⟩
      simp [Value.kind]
    | str t =>
      cases op with
      | add =>
        cases h
        simp [Value.kind]
      | sub | mul | div | mod => cases h
  | str s =>
    cases op with
    | add =>
      cases h
      simp [Value.kind]
    | sub | mul | div | mod => cases h

namespace Expr

/-- The leaves of an expression from left to right. -/
def leaves : Expr → List Leaf
  | neg _ e => e.leaves.map (Leaf.under .negation)
  | binary _ op l r => (l.leaves ++ r.leaves).map (Leaf.under (.arith op))
  | group _ e => e.leaves
  | e => [⟨[], e⟩]

variable {env : Env} {e : Expr} {v : Value}

/-- One of the leaves is a string. -/
def HasString (env : Env) (e : Expr) : Prop := ∃ l ∈ e.leaves, l.isString env = true

theorem hasString_neg (c : Nat) : (neg c e).HasString env ↔ e.HasString env := by
  simp [HasString, leaves]

theorem hasString_binary (c : Nat) (op : ArithOp) (l r : Expr) :
    (binary c op l r).HasString env ↔ l.HasString env ∨ r.HasString env := by
  simp [HasString, leaves, or_and_right, exists_or]

/-- An expression that has a value has a string exactly when one of its leaves is a string. -/
theorem kind_eq_string_iff (h : e.eval env = .ok v) : v.kind = .string ↔ e.HasString env := by
  induction e generalizing v with
  | text c s =>
    cases h
    simp [HasString, leaves, Leaf.isString, Value.kind]
  | number c s =>
    rw [eval] at h
    split at h
    · cases h
      simp [HasString, leaves, Leaf.isString, Value.kind]
    · cases h
  | name c id =>
    rw [eval] at h
    split at h
    · rename_i w hw
      cases h
      simp [HasString, leaves, Leaf.isString, hw]
    · cases h
  | neg c e ih =>
    obtain ⟨n, hn⟩ := eval_neg_eq_ok h
    rw [eval, hn] at h
    cases h
    rw [hasString_neg, ← ih hn]
    simp [Value.kind]
  | binary c op l r ihl ihr =>
    obtain ⟨x, y, hl, hr, happly⟩ := eval_binary_eq_ok.1 h
    rw [hasString_binary, ← ihl hl, ← ihr hr]
    exact (ArithOp.kind_of_apply happly).1
  | group c e ih => exact ih h

/-- In an expression that has a value, only sums stand above a leaf that is a string. -/
theorem summed_of_mem_leaves (h : e.eval env = .ok v) {l : Leaf} (hl : l ∈ e.leaves) (hstring : l.isString env = true) :
    l.Summed := by
  induction e generalizing v l with
  | text | number | name =>
    obtain rfl := List.mem_singleton.1 hl
    intro o ho
    cases ho
  | neg c e ih =>
    -- what is negated is an integer, so it has no string among its leaves
    obtain ⟨n, hn⟩ := eval_neg_eq_ok h
    obtain ⟨k, hk, rfl⟩ := List.mem_map.1 hl
    have hkind : (Value.int n).kind = .string := (kind_eq_string_iff hn).2 ⟨k, hk, hstring⟩
    cases hkind
  | binary c op left right ihl ihr =>
    obtain ⟨x, y, hleft, hright, happly⟩ := eval_binary_eq_ok.1 h
    obtain ⟨k, hk, rfl⟩ := List.mem_map.1 hl
    obtain rfl : op = .add :=
      (ArithOp.kind_of_apply happly).2 ((kind_eq_string_iff h).2 ⟨_, hl, hstring⟩)
    rcases List.mem_append.1 hk with hk | hk
    · exact (ihl hleft hk hstring).under
    · exact (ihr hright hk hstring).under
  | group c e ih => exact ih h hl hstring

end Expr

/-- Both sides of a condition that has an answer are integers. -/
theorem Condition.eval_eq_ok {c : Condition} {env : Env} {b : Bool} (h : c.eval env = .ok b) :
    ∃ m n, c.left.eval env = .ok (.int m) ∧ c.right.eval env = .ok (.int n) ∧ b = c.op.holds m n := by
  unfold eval at h
  cases hl : c.left.eval env with
  | error f => simp [hl] at h
  | ok x =>
    cases hr : c.right.eval env with
    | error f => simp [hl, hr] at h
    | ok y =>
      cases x with
      | int m =>
        cases y with
        | int n =>
          simp only [hl, hr, Except.ok.injEq] at h
          exact ⟨m, n, rfl, rfl, h.symm⟩
        | str t => simp [hl, hr] at h
      | str s => simp [hl, hr] at h

/-- No leaf of an expression whose value is an integer is a string. -/
theorem Expr.isString_eq_false {env : Env} {e : Expr} {n : Int64} (h : e.eval env = .ok (.int n)) :
    ∀ l ∈ e.leaves, l.isString env = false := by
  intro l hl
  rw [← Bool.not_eq_true]
  intro hstring
  have hkind : (Value.int n).kind = .string := (kind_eq_string_iff h).2 ⟨l, hl, hstring⟩
  cases hkind

/-- The leaves decide the kind of a result. When an expression has a value, the value is a string exactly when one of the leaves is a
string literal or a variable with a string, and every operator above such a leaf is a sum. So a condition that has an answer has no
such leaf on either side. -/
theorem leaves_decide_kind (env : Env) :
    (∀ (e : Expr) (v : Value), e.eval env = .ok v →
      (v.kind = .string ↔ ∃ l ∈ e.leaves, l.isString env = true) ∧
      ∀ l ∈ e.leaves, l.isString env = true → ∀ o ∈ l.above, o = .arith .add) ∧
    ∀ (text : String) (b : Bool), evaluateCondition text env = .ok b →
      ∃ c, Condition.parse text = .ok c ∧ ∀ l ∈ c.left.leaves ++ c.right.leaves, l.isString env = false := by
  refine ⟨?_, ?_⟩
  · intro e v h
    refine ⟨Expr.kind_eq_string_iff h, ?_⟩
    intro l hl hstring
    exact Expr.summed_of_mem_leaves h hl hstring
  · intro text b h
    rw [evaluateCondition] at h
    cases hparse : Condition.parse text with
    | error m =>
      rw [hparse] at h
      cases h
    | ok c =>
      rw [hparse] at h
      obtain ⟨m, n, hleft, hright, -⟩ := Condition.eval_eq_ok h
      refine ⟨c, rfl, ?_⟩
      intro l hl
      rcases List.mem_append.1 hl with hl | hl
      · exact Expr.isString_eq_false hleft l hl
      · exact Expr.isString_eq_false hright l hl

/-- A number added to the sum of a literal and a variable is a string, and a comparison of a number with a variable that is bound to a
number has no string in it. -/
theorem leaves_decide_kind_sum :
    (∃ l ∈ (Expr.binary 3 .add (.number 1 "1") (.group 5 (.binary 10 .add (.text 6 "a") (.name 12 "X")))).leaves,
      l.isString (.single "X" (.str "b")) = true) ∧
    ∃ c, Condition.parse "X < 2" = .ok c ∧
      ∀ l ∈ c.left.leaves ++ c.right.leaves, l.isString (.single "X" (.int 1)) = false := by
  have hparse : Condition.parse "X < 2" = .ok ⟨3, .lt, .name 1 "X", .number 5 "2"⟩ := by
    refine Condition.parse_of_spells (s := ⟨[⟨.name "X", ⟨1, 1⟩⟩], .lt, ⟨1, 3⟩, [⟨.number "2", ⟨1, 5⟩⟩]⟩) (by decide +kernel) ?_
    refine ⟨rfl, rfl, .single ?_, .single ?_⟩
    · exact .name (t := ⟨.name "X", ⟨1, 1⟩⟩) rfl
    · exact .number (t := ⟨.number "2", ⟨1, 5⟩⟩) rfl
  have hanswer : evaluateCondition "X < 2" (.single "X" (.int 1)) = .ok true := by
    rw [evaluateCondition, hparse]
    decide +kernel
  refine ⟨?_, ?_⟩
  · exact ((leaves_decide_kind (.single "X" (.str "b"))).1 _ (.str "1ab") (by decide +kernel)).1.1 rfl
  · exact (leaves_decide_kind (.single "X" (.int 1))).2 "X < 2" true hanswer

end Stepwise
