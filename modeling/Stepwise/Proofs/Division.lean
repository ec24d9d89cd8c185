import Stepwise.Expr.Eval
import Mathlib.Data.Rat.Floor

/-!
# Division and remainder

Division is the machine's quotient, which is rounded toward zero, with one taken off where that is not the floor. The remainder is
the machine's, so it goes with the quotient rounded toward zero: the two fit together only where nothing was taken off. A divisor
that is zero is a failure of the operator, so that no division is ever made by zero.
-/

namespace Stepwise

/-! ## Quotients of integers -/

/-- The quotient rounded toward zero is not the floor: the divisor does not divide, and the signs differ. -/
def RoundedUp (x y : Int) : Prop := ¬ y ∣ x ∧ ¬ (x < 0 ↔ y < 0)

instance (x y : Int) : Decidable (RoundedUp x y) := inferInstanceAs (Decidable (_ ∧ _))

/-- The floor is the quotient rounded toward zero, or one less. -/
theorem fdiv_eq_tdiv_sub {x y : Int} (hy : y ≠ 0) : x.fdiv y = if RoundedUp x y then x.tdiv y - 1 else x.tdiv y := by
  have hsign : y.sign = if 0 ≤ y then 1 else -1 := by
    by_cases h : 0 ≤ y
    · rw [if_pos h, Int.sign_eq_one_of_pos (by omega)]
    · rw [if_neg h, Int.sign_eq_neg_one_of_neg (by omega)]
  rw [Int.fdiv_eq_tdiv, hsign]
  by_cases hdvd : y ∣ x
  · simp [RoundedUp, hdvd]
  · by_cases hx : 0 ≤ x <;> by_cases hy' : 0 ≤ y <;> simp [RoundedUp, hdvd, hx, hy', Int.not_lt.2, Int.not_le.1]

/-- Floored division is the floor of the fraction. -/
theorem fdiv_eq_floor (x y : Int) : x.fdiv y = ⌊(x : ℚ) / y⌋ := by
  obtain ⟨n, rfl | rfl⟩ := y.eq_nat_or_neg
  · rw [Int.fdiv_eq_ediv_of_nonneg x (Int.natCast_nonneg n), Int.cast_natCast, Rat.floor_intCast_div_natCast]
  · -- a fraction stays the same when both of its parts change their sign
    have hfraction : (x : ℚ) / ((-n : Int) : ℚ) = ((-x : Int) : ℚ) / n := by
      push_cast
      rw [div_neg, neg_div]
    rw [hfraction, Rat.floor_intCast_div_natCast, ← Int.neg_fdiv_neg, Int.neg_neg,
      Int.fdiv_eq_ediv_of_nonneg _ (Int.natCast_nonneg n)]

/-- A divisor that does not divide is at least two, so it halves what it divides. -/
theorem natAbs_tdiv_le {x y : Int} (h : ¬ y ∣ x) : 2 * (x.tdiv y).natAbs ≤ x.natAbs := by
  by_cases hy : y = 0
  · simp [hy]
  · have hone : y.natAbs ≠ 1 := fun hone => h (Int.natAbs_dvd.1 (by simp [hone]))
    have htwo : 2 ≤ y.natAbs := by omega
    have hle : x.natAbs / y.natAbs ≤ x.natAbs / 2 := Nat.div_le_div_left htwo (by decide)
    have heq : (x.tdiv y).natAbs = x.natAbs / y.natAbs := Int.natAbs_tdiv x y
    omega

/-! ## Quotients of 64-bit integers -/

variable {a b : Int64}

/-- The machine's quotient is the quotient rounded toward zero, reduced to 64 bits. -/
theorem div_eq_ofInt (a b : Int64) : a / b = Int64.ofInt (a.toInt.tdiv b.toInt) := by
  rw [← Int64.toInt_inj, Int64.toInt_div, Int64.toInt_ofInt]

theorem mod_eq_ofInt (a b : Int64) : a % b = Int64.ofInt (a.toInt.tmod b.toInt) := by
  rw [← Int64.toInt_mod, Int64.ofInt_toInt]

theorem toInt_ne_zero (hb : b ≠ 0) : b.toInt ≠ 0 := by
  intro h
  exact hb (Int64.toInt_inj.1 (h.trans Int64.toInt_zero.symm))

theorem lt_zero_iff (c : Int64) : c < 0 ↔ c.toInt < 0 := by
  rw [Int64.lt_iff_toInt_lt, Int64.toInt_zero]

/-- One is taken off exactly where the machine's quotient is not the floor. -/
theorem takenOff_iff : (a % b ≠ 0 ∧ decide (a < 0) ≠ decide (b < 0)) ↔ RoundedUp a.toInt b.toInt := by
  have hrest : a % b = 0 ↔ b.toInt ∣ a.toInt := by
    rw [Int.dvd_iff_tmod_eq_zero, ← Int64.toInt_mod, ← Int64.toInt_zero, Int64.toInt_inj]
  rw [RoundedUp, Ne, hrest, ← lt_zero_iff a, ← lt_zero_iff b, Ne, decide_eq_decide]

/-- Division is the floored quotient, reduced to 64 bits. -/
theorem floorDiv_eq_ofInt (hb : b ≠ 0) : floorDiv a b = Int64.ofInt (a.toInt.fdiv b.toInt) := by
  rw [floorDiv, fdiv_eq_tdiv_sub (toInt_ne_zero hb), div_eq_ofInt]
  by_cases h : RoundedUp a.toInt b.toInt
  · rw [if_pos (takenOff_iff.2 h), if_pos h, Int64.ofInt_sub]
    rfl
  · rw [if_neg (fun htaken => h (takenOff_iff.1 htaken)), if_neg h]

/-- The quotient of two 64-bit integers has 64 bits, but for one pair. -/
theorem tdiv_fits (h : a ≠ Int64.minValue ∨ b ≠ -1) : (a / b).toInt = a.toInt.tdiv b.toInt := by
  rcases h with h | h
  · exact Int64.toInt_div_of_ne_left a b h
  · exact Int64.toInt_div_of_ne_right a b h

/-- Where the machine's quotient is not the floor, it lies in the middle of the 64-bit range. -/
theorem toInt_div_of_roundedUp (h : RoundedUp a.toInt b.toInt) :
    (a / b).toInt = a.toInt.tdiv b.toInt ∧ -2 ^ 62 ≤ a.toInt.tdiv b.toInt ∧ a.toInt.tdiv b.toInt ≤ 2 ^ 62 := by
  have hfits : a ≠ Int64.minValue ∨ b ≠ -1 := by
    right
    rintro rfl
    exact h.1 (Int.neg_dvd.2 (Int.one_dvd _))
  have hhalf := natAbs_tdiv_le h.1
  have hlow := a.le_toInt
  have hhigh := a.toInt_lt
  exact ⟨tdiv_fits hfits, by omega, by omega⟩

/-- Taking one off does not leave the 64-bit range. -/
theorem toInt_div_sub_one (h : RoundedUp a.toInt b.toInt) : (a / b - 1).toInt = (a / b).toInt - 1 := by
  obtain ⟨hdiv, hlow, hhigh⟩ := toInt_div_of_roundedUp h
  have hone : Int64.toInt 1 = 1 := rfl
  rw [Int64.toInt_sub, hone, hdiv]
  exact Int.bmod_eq_of_le (by omega) (by omega)

/-- Division is exact, but for one pair. -/
theorem toInt_floorDiv (hb : b ≠ 0) (h : a ≠ Int64.minValue ∨ b ≠ -1) : (floorDiv a b).toInt = a.toInt.fdiv b.toInt := by
  rw [floorDiv, fdiv_eq_tdiv_sub (toInt_ne_zero hb)]
  by_cases hup : RoundedUp a.toInt b.toInt
  · rw [if_pos (takenOff_iff.2 hup), if_pos hup, toInt_div_sub_one hup, tdiv_fits h]
  · rw [if_neg (fun htaken => hup (takenOff_iff.1 htaken)), if_neg hup, tdiv_fits h]

/-- Quotient and remainder of integers make up the dividend, with the divisor taken off where the quotient had one taken off. -/
theorem fdiv_mul_add_tmod {x y : Int} (hy : y ≠ 0) : x.fdiv y * y + x.tmod y = if RoundedUp x y then x - y else x := by
  have hwhole := Int.mul_tdiv_add_tmod x y
  rw [fdiv_eq_tdiv_sub hy]
  by_cases h : RoundedUp x y
  · rw [if_pos h, if_pos h, Int.sub_mul, Int.one_mul, Int.mul_comm]
    omega
  · rw [if_neg h, if_neg h, Int.mul_comm]
    exact hwhole

/-- In 64 bits they do the same. -/
theorem floorDiv_mul_add_mod (hb : b ≠ 0) :
    floorDiv a b * b + a % b = if RoundedUp a.toInt b.toInt then a - b else a := by
  have hsum : floorDiv a b * b + a % b =
      Int64.ofInt (a.toInt.fdiv b.toInt * b.toInt + a.toInt.tmod b.toInt) := by
    rw [Int64.ofInt_add, Int64.ofInt_mul, Int64.ofInt_toInt, ← floorDiv_eq_ofInt hb, ← mod_eq_ofInt]
  rw [hsum, fdiv_mul_add_tmod (toInt_ne_zero hb)]
  by_cases h : RoundedUp a.toInt b.toInt
  · rw [if_pos h, if_pos h, Int64.ofInt_sub, Int64.ofInt_toInt, Int64.ofInt_toInt]
  · rw [if_neg h, if_neg h, Int64.ofInt_toInt]

/-- What a quotient and a remainder of 64-bit integers are to the two that they were made from. -/
structure Divided (a b q r : Int64) : Prop where
  /-- The quotient is the floor of the fraction, reduced to 64 bits. -/
  floor : q = Int64.ofInt ⌊(a.toInt : ℚ) / b.toInt⌋
  exact : a ≠ Int64.minValue ∨ b ≠ -1 → q.toInt = ⌊(a.toInt : ℚ) / b.toInt⌋
  /-- The one quotient that does not have 64 bits comes out as its own dividend. -/
  overflow : a = Int64.minValue → b = -1 → q = Int64.minValue
  /-- Where one is taken off the machine's quotient, the difference is in range. -/
  corrected : q = a / b ∨ q = a / b - 1 ∧ q.toInt = (a / b).toInt - 1
  remainder : r.toInt = a.toInt.tmod b.toInt
  small : r.toInt.natAbs < b.toInt.natAbs
  sign : r = 0 ∨ r.toInt.sign = a.toInt.sign
  /-- The two make up the dividend exactly where nothing was taken off. -/
  joint : q * b + r = if b.toInt ∣ a.toInt ∨ (a < 0 ↔ b < 0) then a else a - b

theorem floorDiv_cases (a b : Int64) : floorDiv a b = a / b ∨ floorDiv a b = a / b - 1 ∧ (floorDiv a b).toInt = (a / b).toInt - 1 := by
  by_cases h : RoundedUp a.toInt b.toInt
  · have heq : floorDiv a b = a / b - 1 := if_pos (takenOff_iff.2 h)
    exact .inr ⟨heq, by rw [heq, toInt_div_sub_one h]⟩
  · exact .inl (if_neg (fun htaken => h (takenOff_iff.1 htaken)))

theorem sign_mod (a b : Int64) : a % b = 0 ∨ (a % b).toInt.sign = a.toInt.sign := by
  by_cases h : a.toInt.tmod b.toInt = 0
  · left
    rw [mod_eq_ofInt, h]
    rfl
  · right
    rw [Int64.toInt_mod, Int.sign_tmod, if_neg (fun hdvd => h (Int.dvd_iff_tmod_eq_zero.1 hdvd))]

theorem divided (hb : b ≠ 0) : Divided a b (floorDiv a b) (a % b) where
  floor := by rw [floorDiv_eq_ofInt hb, fdiv_eq_floor]
  exact h := by rw [toInt_floorDiv hb h, fdiv_eq_floor]
  overflow := by
    rintro rfl rfl
    decide
  corrected := floorDiv_cases a b
  remainder := Int64.toInt_mod a b
  small := by
    rw [Int64.toInt_mod, Int.natAbs_tmod]
    exact Nat.mod_lt _ (Int.natAbs_pos.2 (toInt_ne_zero hb))
  sign := sign_mod a b
  joint := by
    have hflip : RoundedUp a.toInt b.toInt ↔ ¬ (b.toInt ∣ a.toInt ∨ (a < 0 ↔ b < 0)) := by
      rw [RoundedUp, lt_zero_iff a, lt_zero_iff b, not_or]
    rw [floorDiv_mul_add_mod hb]
    by_cases h : b.toInt ∣ a.toInt ∨ (a < 0 ↔ b < 0)
    · rw [if_pos h, if_neg (fun hup => hflip.1 hup h)]
    · rw [if_neg h, if_pos (hflip.2 h)]

/-! ## No division by zero -/

/-- The quotient as arithmetic has it, which asks for a proof that the divisor is not zero. -/
def quotient (a b : Int64) (_ : b ≠ 0) : Int64 := Int64.ofInt ⌊(a.toInt : ℚ) / b.toInt⌋

/-- The remainder of the quotient rounded toward zero, which asks for the same proof. -/
def remainder (a b : Int64) (_ : b ≠ 0) : Int64 := Int64.ofInt (a.toInt.tmod b.toInt)

/-- What an operator answers a zero divisor. -/
def ArithOp.zeroFault? : ArithOp → Option EvalFault
  | .div => some .divisionByZero
  | .mod => some .moduloByZero
  | _ => none

/-- An operator whose quotients and remainders are only those of arithmetic. -/
def ArithOp.applyGuarded (op : ArithOp) (left right : Value) : Except EvalFault Value :=
  match op, left, right with
  | .div, .int a, .int b => if h : b = 0 then .error .divisionByZero else .ok (.int (quotient a b h))
  | .mod, .int a, .int b => if h : b = 0 then .error .moduloByZero else .ok (.int (remainder a b h))
  | op, l, r => op.apply l r

theorem ArithOp.applyGuarded_eq (op : ArithOp) (x y : Value) : op.applyGuarded x y = op.apply x y := by
  cases x with
  | str s => cases op <;> rfl
  | int a =>
    cases y with
    | str s => cases op <;> rfl
    | int b =>
      cases op with
      | add | sub | mul => rfl
      | div =>
        by_cases hb : b = 0
        · simp only [applyGuarded, apply, dif_pos hb, if_pos hb]
        · simp only [applyGuarded, apply, dif_neg hb, if_neg hb, quotient, (divided hb).floor]
      | mod =>
        by_cases hb : b = 0
        · simp only [applyGuarded, apply, dif_pos hb, if_pos hb]
        · simp only [applyGuarded, apply, dif_neg hb, if_neg hb, remainder, mod_eq_ofInt]

theorem ArithOp.zeroFault?_eq_some {op : ArithOp} {f : EvalFault} (h : op.zeroFault? = some f) :
    op = .div ∧ f = .divisionByZero ∨ op = .mod ∧ f = .moduloByZero := by
  cases op <;> simp only [zeroFault?, Option.some.injEq, reduceCtorEq] at h
  · exact .inl ⟨rfl, h.symm⟩
  · exact .inr ⟨rfl, h.symm⟩

/-- An operator answers with its failure of a zero divisor exactly when it is given one. -/
theorem ArithOp.apply_eq_zeroFault {op op' : ArithOp} {f : EvalFault} {x y : Value} (hf : op.zeroFault? = some f) :
    op'.apply x y = .error f ↔ op' = op ∧ (∃ a, x = .int a) ∧ y = .int 0 := by
  rcases zeroFault?_eq_some hf with ⟨rfl, rfl⟩ | ⟨rfl, rfl⟩ <;> cases x <;> cases y <;> cases op' <;> simp [apply]
  all_goals split <;> simp

namespace Expr

variable {env : Env} {e : Expr}

/-- Evaluation with the operators of another arithmetic. -/
def evalWith (apply : ArithOp → Value → Value → Except EvalFault Value) (env : Env) : Expr → Except EvalError Value
  | text _ s => .ok (.str s)
  | number c s =>
    match numberValue? s with
    | some n => .ok (.int n)
    | none => .error ⟨c, .invalidNumber s⟩
  | name c n =>
    match env.get? n with
    | some v => .ok v
    | none => .error ⟨c, .unknownVariable n⟩
  | neg c e =>
    match e.evalWith apply env with
    | .error f => .error f
    | .ok (.int n) => .ok (.int (-n))
    | .ok (.str _) => .error ⟨c, .negatedString⟩
  | binary c o l r =>
    match l.evalWith apply env with
    | .error f => .error f
    | .ok a =>
      match r.evalWith apply env with
      | .error f => .error f
      | .ok b =>
        match apply o a b with
        | .error f => .error ⟨c, f⟩
        | .ok v => .ok v
  | group _ e => e.evalWith apply env

theorem evalWith_apply (env : Env) (e : Expr) : e.evalWith ArithOp.apply env = e.eval env := by
  induction e with
  | text c s => rfl
  | number c s => rfl
  | name c n => rfl
  | neg c e ih =>
    rw [evalWith, ih]
    cases he : e.eval env with
    | error f => simp [eval, he]
    | ok v => cases v <;> simp [eval, he]
  | binary c o l r ihl ihr =>
    rw [evalWith, ihl, ihr]
    cases hl : l.eval env with
    | error f => simp [eval, hl]
    | ok a =>
      cases hr : r.eval env with
      | error f => simp [eval, hl, hr]
      | ok b => cases ha : o.apply a b <;> simp [eval, hl, hr, ha]
  | group c e ih => rw [evalWith, eval, ih]

/-- Evaluation needs only the quotients and remainders that arithmetic has. -/
theorem evalWith_applyGuarded (env : Env) (e : Expr) : e.evalWith ArithOp.applyGuarded env = e.eval env := by
  have hsame : ArithOp.applyGuarded = ArithOp.apply := by
    funext op x y
    exact op.applyGuarded_eq x y
  rw [hsame, evalWith_apply]

/-- An operation has a value exactly when its sides have values and the operator has one for them. -/
theorem eval_binary_eq_ok {c : Nat} {op : ArithOp} {l r : Expr} {v : Value} :
    (binary c op l r).eval env = .ok v ↔ ∃ x y, l.eval env = .ok x ∧ r.eval env = .ok y ∧ op.apply x y = .ok v := by
  rw [eval]
  cases l.eval env with
  | error f => simp
  | ok x =>
    cases r.eval env with
    | error f => simp
    | ok y => cases h : op.apply x y <;> simp [h]

/-- An operation fails as its left side does, or as its right side does after the left one had a value, or by itself. -/
theorem eval_binary_eq_error {c : Nat} {op : ArithOp} {l r : Expr} {f : EvalError} :
    (binary c op l r).eval env = .error f ↔
      l.eval env = .error f ∨ ∃ x, l.eval env = .ok x ∧ (r.eval env = .error f ∨
        ∃ y, r.eval env = .ok y ∧ ∃ g, op.apply x y = .error g ∧ f = ⟨c, g⟩) := by
  rw [eval]
  cases l.eval env with
  | error f => simp
  | ok x =>
    cases r.eval env with
    | error f => simp
    | ok y => cases h : op.apply x y <;> simp [h, eq_comm]

theorem eval_neg_eq_ok {c : Nat} {v : Value} (h : (neg c e).eval env = .ok v) : ∃ n, e.eval env = .ok (.int n) := by
  rw [eval] at h
  rcases he : e.eval env with f | x
  · simp [he] at h
  · cases x with
    | int n => exact ⟨n, rfl⟩
    | str s => simp [he] at h

/-- Every node of an expression that has a value has one. -/
theorem exists_eval_of_mem_nodes {v : Value} (h : e.eval env = .ok v) : ∀ n ∈ e.nodes, ∃ w, n.eval env = .ok w := by
  -- the node itself has the value at hand, and its parts had theirs before it
  induction e generalizing v with
  | text c s => simpa [nodes] using ⟨v, h⟩
  | number c s => simpa [nodes] using ⟨v, h⟩
  | name c s => simpa [nodes] using ⟨v, h⟩
  | neg c e ih =>
    obtain ⟨m, hm⟩ := eval_neg_eq_ok h
    intro n hn
    rcases List.mem_cons.1 hn with rfl | hn
    · exact ⟨v, h⟩
    · exact ih hm n hn
  | binary c op l r ihl ihr =>
    obtain ⟨x, y, hl, hr, -⟩ := eval_binary_eq_ok.1 h
    intro n hn
    rcases List.mem_cons.1 hn with rfl | hn
    · exact ⟨v, h⟩
    · rcases List.mem_append.1 hn with hn | hn
      · exact ihl hl n hn
      · exact ihr hr n hn
  | group c e ih =>
    intro n hn
    rcases List.mem_cons.1 hn with rfl | hn
    · exact ⟨v, h⟩
    · exact ih h n hn

/-- A zero divisor that is reached is the failure of its own operation. -/
theorem eval_zero_divisor {c : Nat} {op : ArithOp} {l r : Expr} {f : EvalFault} {a : Int64} (hf : op.zeroFault? = some f)
    (hl : l.eval env = .ok (.int a)) (hr : r.eval env = .ok (.int 0)) : (binary c op l r).eval env = .error ⟨c, f⟩ := by
  have happly : op.apply (.int a) (.int 0) = .error f := (ArithOp.apply_eq_zeroFault hf).2 ⟨rfl, ⟨a, rfl⟩, rfl⟩
  exact eval_binary_eq_error.2 (.inr ⟨.int a, hl, .inr ⟨.int 0, hr, f, happly, rfl⟩⟩)

/-- A failure of a zero divisor comes from an operation at its column that was given one. -/
theorem exists_zero_divisor {c : Nat} {op : ArithOp} {f : EvalFault} (hf : op.zeroFault? = some f)
    (h : e.eval env = .error ⟨c, f⟩) :
    ∃ l r a, binary c op l r ∈ e.nodes ∧ l.eval env = .ok (.int a) ∧ r.eval env = .ok (.int 0) := by
  -- the other failures are those of a leaf or of a negation
  have hother : ∀ g : EvalFault, g ≠ .divisionByZero → g ≠ .moduloByZero → g ≠ f := by
    rcases ArithOp.zeroFault?_eq_some hf with ⟨-, rfl⟩ | ⟨-, rfl⟩
    · exact fun g hdiv _ => hdiv
    · exact fun g _ hmod => hmod
  induction e with
  | text c' s => simp [eval] at h
  | number c' s => cases hn : numberValue? s <;> simp [eval, hn, hother] at h
  | name c' n => cases hn : env.get? n <;> simp [eval, hn, hother] at h
  | neg c' e ih =>
    rw [eval] at h
    rcases he : e.eval env with g | x
    · simp only [he, Except.error.injEq] at h
      obtain ⟨l, r, a, hmem, hl, hr⟩ := ih (h ▸ he)
      exact ⟨l, r, a, List.mem_cons_of_mem _ hmem, hl, hr⟩
    · cases x <;> simp [he, hother] at h
  | binary c' op' l r ihl ihr =>
    rcases eval_binary_eq_error.1 h with hl | ⟨x, hx, hr | ⟨y, hy, g, happly, heq⟩⟩
    · obtain ⟨l', r', a, hmem, hl', hr'⟩ := ihl hl
      exact ⟨l', r', a, List.mem_cons_of_mem _ (List.mem_append_left _ hmem), hl', hr'⟩
    · obtain ⟨l', r', a, hmem, hl', hr'⟩ := ihr hr
      exact ⟨l', r', a, List.mem_cons_of_mem _ (List.mem_append_right _ hmem), hl', hr'⟩
    · obtain ⟨rfl, rfl⟩ := EvalError.mk.injEq .. ▸ heq
      obtain ⟨rfl, ⟨a, rfl⟩, rfl⟩ := (ArithOp.apply_eq_zeroFault hf).1 happly
      exact ⟨l, r, a, List.mem_cons_self, hx, hy⟩
  | group c' e ih =>
    obtain ⟨l, r, a, hmem, hl, hr⟩ := ih h
    exact ⟨l, r, a, List.mem_cons_of_mem _ hmem, hl, hr⟩

/-- In an expression that has a value, every quotient and remainder was taken of integers, by one that is not zero. -/
theorem divisor_ne_zero {c : Nat} {op : ArithOp} {l r : Expr} {f : EvalFault} {v : Value} (hf : op.zeroFault? = some f)
    (h : e.eval env = .ok v) (hmem : binary c op l r ∈ e.nodes) :
    ∃ a b, l.eval env = .ok (.int a) ∧ r.eval env = .ok (.int b) ∧ b ≠ 0 := by
  obtain ⟨w, hw⟩ := exists_eval_of_mem_nodes h _ hmem
  obtain ⟨x, y, hl, hr, happly⟩ := eval_binary_eq_ok.1 hw
  obtain ⟨a, b, rfl, rfl⟩ : ∃ a b, x = .int a ∧ y = .int b := by
    cases op <;> cases x <;> cases y <;> simp_all [ArithOp.apply, ArithOp.zeroFault?]
  refine ⟨a, b, hl, hr, ?_⟩
  rintro rfl
  rw [(ArithOp.apply_eq_zeroFault hf).2 ⟨rfl, ⟨a, rfl⟩, rfl⟩] at happly
  cases happly

end Expr

/-- Division and remainder over the whole 64-bit range. By a divisor other than zero the two have values, which are the floor and
the remainder of the quotient rounded toward zero. Evaluation never takes one of zero: it can be done with quotients and remainders
that ask for a proof of that; a zero divisor is the failure of its operation and of every expression around it, and nothing else
is. -/
theorem division_and_remainder (env : Env) :
    (∀ (l r : Expr) (a b : Int64), l.eval env = .ok (.int a) → r.eval env = .ok (.int b) → b ≠ 0 → ∃ q m, ∀ c,
      (Expr.binary c .div l r).eval env = .ok (.int q) ∧ (Expr.binary c .mod l r).eval env = .ok (.int m) ∧ Divided a b q m) ∧
    ∀ e : Expr, e.eval env = e.evalWith ArithOp.applyGuarded env ∧
      ∀ (op : ArithOp) (f : EvalFault), op.zeroFault? = some f →
        (∀ c l r a, l.eval env = .ok (.int a) → r.eval env = .ok (.int 0) →
          (Expr.binary c op l r).eval env = .error ⟨c, f⟩ ∧
          (Expr.binary c op l r ∈ e.nodes → ∃ g, e.eval env = .error g)) ∧
        (∀ c, e.eval env = .error ⟨c, f⟩ →
          ∃ l r a, Expr.binary c op l r ∈ e.nodes ∧ l.eval env = .ok (.int a) ∧ r.eval env = .ok (.int 0)) := by
  refine ⟨?_, ?_⟩
  · intro l r a b hl hr hb
    refine ⟨floorDiv a b, a % b, ?_⟩
    intro c
    have hdiv : ArithOp.div.apply (.int a) (.int b) = .ok (.int (floorDiv a b)) := if_neg hb
    have hmod : ArithOp.mod.apply (.int a) (.int b) = .ok (.int (a % b)) := if_neg hb
    exact ⟨Expr.eval_binary_eq_ok.2 ⟨_, _, hl, hr, hdiv⟩, Expr.eval_binary_eq_ok.2 ⟨_, _, hl, hr, hmod⟩, divided hb⟩
  · intro e
    refine ⟨(Expr.evalWith_applyGuarded env e).symm, ?_⟩
    intro op f hf
    refine ⟨?_, fun c h => Expr.exists_zero_divisor hf h⟩
    intro c l r a hl hr
    refine ⟨Expr.eval_zero_divisor hf hl hr, ?_⟩
    intro hmem
    rcases he : e.eval env with g | v
    · exact ⟨g, rfl⟩
    · -- a value would give this operation a divisor other than zero
      obtain ⟨a', b, -, hb, hne⟩ := Expr.divisor_ne_zero hf he hmem
      have hzero : b = 0 := by simpa [hr] using hb.symm
      exact absurd hzero hne

/-- The lowest integer divided by `-1`, `-7` divided by `2`, and a remainder of zero inside a negation. -/
theorem division_and_remainder_lowest :
    (∃ q m, ∀ c, (Expr.binary c .div (.name 1 "X") (.neg 5 (.number 6 "1"))).eval (.single "X" (.int Int64.minValue)) = .ok (.int q) ∧
      (Expr.binary c .mod (.name 1 "X") (.neg 5 (.number 6 "1"))).eval (.single "X" (.int Int64.minValue)) = .ok (.int m) ∧
      Divided Int64.minValue (-1) q m) ∧
    (∃ q m, ∀ c, (Expr.binary c .div (.neg 1 (.number 2 "7")) (.number 6 "2")).eval .empty = .ok (.int q) ∧
      (Expr.binary c .mod (.neg 1 (.number 2 "7")) (.number 6 "2")).eval .empty = .ok (.int m) ∧ Divided (-7) 2 q m) ∧
    ∃ g, (Expr.neg 1 (.binary 4 .mod (.number 2 "7") (.number 6 "0"))).eval .empty = .error g := by
  refine ⟨?_, ?_, ?_⟩
  · exact (division_and_remainder (.single "X" (.int Int64.minValue))).1 _ _ _ _ (by decide +kernel) (by decide +kernel) (by decide)
  · exact (division_and_remainder .empty).1 _ _ _ _ (by decide +kernel) (by decide +kernel) (by decide)
  · obtain ⟨hzero, -⟩ := ((division_and_remainder .empty).2 _).2 .mod .moduloByZero rfl
    exact (hzero 4 (.number 2 "7") (.number 6 "0") 7 (by decide +kernel) (by decide +kernel)).2
      (List.mem_cons_of_mem _ List.mem_cons_self)

end Stepwise
