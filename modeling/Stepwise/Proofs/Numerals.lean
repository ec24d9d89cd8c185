import Stepwise.Proofs.Characters
import Stepwise.Proofs.Extents
import Stepwise.Proofs.Journal
import Stepwise.Proofs.LeftToRight

/-!
# Printed integers are read back

An integer is printed as its digits, with a minus sign before them when it is negative. There are two readers for that text. Input
is read with its sign, so that every printed integer is accepted. An expression has the sign for an operator of its own, and the
digits behind it have to be in range without it: this leaves out the lowest integer, whose digits are those of the first number that
is too great.
-/

namespace Stepwise

open Text (digits)

/-! ## The text of an integer -/

/-- An integer is printed as the digits of its size, behind a minus sign when it is negative. -/
theorem Value.toList_text_int (n : Int64) :
    (int n).text.toList = if n.toInt < 0 then '-' :: digits n.toInt.natAbs else digits n.toInt.natAbs := by
  have htext : (int n).text = toString n.toInt := rfl
  rw [htext, Int.toString_eq_repr, Int.repr_eq_if]
  by_cases hneg : n.toInt < 0
  · have hsize : (-n.toInt).toNat = n.toInt.natAbs := by omega
    rw [if_neg (by omega), if_pos hneg, hsize, String.toList_append]
    rfl
  · have hsize : n.toInt.toNat = n.toInt.natAbs := by omega
    rw [if_pos (by omega), if_neg hneg, hsize]
    rfl

/-- The size of an integer is in range without its sign, unless the integer is the lowest one. -/
theorem natAbs_toInt_le_iff (n : Int64) : n.toInt.natAbs ≤ Text.greatestInt64 ↔ n ≠ Int64.minValue := by
  have hlow := n.le_toInt
  have hhigh := n.toInt_lt
  have hmin := Int64.toInt_minValue
  rw [Ne, ← Int64.toInt_inj, hmin]
  unfold Text.greatestInt64
  omega

/-- A printed integer has no blanks around it. -/
theorem strip_text_int (n : Int64) : Text.strip (Value.int n).text.toList = (Value.int n).text.toList := by
  have hfilled : (Value.int n).text.toList ≠ [] := by
    rw [Value.toList_text_int]
    split
    · simp
    · exact Text.digits_ne_nil _
  have hsolid : ∀ c ∈ (Value.int n).text.toList, Text.isBlank c = false := by
    intro c hc
    rw [Value.toList_text_int] at hc
    split at hc
    · rcases List.mem_cons.1 hc with rfl | hc
      · rfl
      · exact Text.isBlank_of_mem_digits hc
    · exact Text.isBlank_of_mem_digits hc
  exact Text.strip_eq_self (List.head?_eq_some_head hfilled) (hsolid _ (List.head_mem hfilled))
    (List.getLast?_eq_some_getLast hfilled) (hsolid _ (List.getLast_mem hfilled))

/-! ## Input -/

/-- A printed integer is read with its sign. -/
theorem readInt?_text_int (n : Int64) : Text.readInt? (Value.int n).text.toList = some n := by
  have hlow := n.le_toInt
  have hhigh := n.toInt_lt
  rw [Value.toList_text_int]
  by_cases hneg : n.toInt < 0
  · have hsize : Text.numeralValue (digits n.toInt.natAbs) ≤ Text.greatestInt64 + 1 := by
      rw [Text.numeralValue_digits]
      unfold Text.greatestInt64
      omega
    have hsigned : -(n.toInt.natAbs : Int) = n.toInt := by omega
    rw [if_pos hneg, Text.readInt?, if_pos ⟨Text.isNumeral_digits _, hsize⟩, Text.numeralValue_digits, hsigned, Int64.ofInt_toInt]
  · have hsize : n.toInt.natAbs ≤ Text.greatestInt64 := by
      unfold Text.greatestInt64
      omega
    have hunsigned : (n.toInt.natAbs : Int) = n.toInt := by omega
    rw [if_neg hneg, Text.readInt?_digits hsize, hunsigned, Int64.ofInt_toInt]

/-- A read that waits is answered with the printed integer, and binds it. -/
theorem Session.supply_text_int {s : Session} {w : Pending} (h : s.now.pending = some w) (n : Int64) :
    ∃ t, s.supply (Value.int n).text = (t, none) ∧ t.now.pending = none ∧ t.now.vars = s.now.vars.insert w.name (.int n) := by
  refine ⟨{ s with now := (s.now.echo (Value.int n).text).answer w n }, ?_, ?_, ?_⟩
  · rw [supply, h, strip_text_int, readInt?_text_int]
  · exact (State.moved_pass _ 1).pending
  · obtain ⟨pc, frames, sub, hmoved⟩ := State.moved_pass
      ({ s.now.echo (Value.int n).text with vars := s.now.vars.insert w.name (.int n), pending := none }.record w.label ""
        (Env.single w.name (.int n))) 1
    exact congrArg State.vars hmoved

/-! ## Expressions -/

namespace Evaluation

/-- A digit is part of a word. -/
theorem isDelimiter_of_isDigit {c : Char} (h : c.isDigit = true) : Token.isDelimiter c = false := by
  have hother : ∀ d : Char, d.isDigit = false → (c == d) = false := by
    intro d hd
    rw [beq_eq_false_iff_ne]
    rintro rfl
    rw [h] at hd
    cases hd
  have harith : (Token.arith? c).isSome = false := by
    rw [← Bool.not_eq_true, Option.isSome_iff_exists]
    rintro ⟨op, hop⟩
    obtain rfl := Token.symbol_of_arith? hop
    cases op <;> cases h
  simp [Token.isDelimiter, Token.isSpace, harith, hother]

/-- Digits are one token. -/
theorem lexFrom_digits (p : Pos) (k : Nat) : (Token.lexFrom p (digits k)).1 = [⟨.number (toString k), p⟩] := by
  have hplain : ∀ c ∈ digits k, Token.isDelimiter c = false := fun c hc => isDelimiter_of_isDigit (Text.isDigit_of_mem_digits hc)
  have htext : String.ofList (digits k) = toString k := String.ofList_toList
  cases hdigits : digits k with
  | nil => exact absurd hdigits (Text.digits_ne_nil k)
  | cons c ds =>
    rw [hdigits] at hplain htext
    have hfirst : c.isDigit = true := Text.isDigit_of_mem_digits (hdigits ▸ List.mem_cons_self)
    have hword : ∀ d ∈ ds, (!Token.isDelimiter d) = true := by
      intro d hd
      rw [hplain d (List.mem_cons_of_mem c hd)]
      rfl
    have hcut : Token.cut c ds = ⟨.number (toString k), c :: ds, []⟩ := by
      rw [Token.cut_eq_cutWord (hplain c List.mem_cons_self), Token.cutWord, List.takeWhile_eq_self_iff.2 hword,
        List.dropWhile_eq_nil_iff.2 hword, htext, if_pos hfirst]
    rw [Token.lexFrom_token (Token.isSpace_of_isDelimiter (hplain c List.mem_cons_self)), hcut, Token.lexFrom]

/-- The value of digits is the number that they denote, when it is in range. -/
theorem numberValue?_toString (k : Nat) :
    numberValue? (toString k) = if k ≤ Text.greatestInt64 then some (Int64.ofInt k) else none := by
  have hall : (toString k).toList.takeWhile Char.isDigit = digits k :=
    List.takeWhile_eq_self_iff.2 fun c hc => Text.isDigit_of_mem_digits hc
  rw [numberValue?, hall, Text.readInt?_digits_eq]

/-- A printed integer is all read: it has no NUL character. -/
theorem nul_notMem_text_int (n : Int64) : '\x00' ∉ (Value.int n).text.toList := by
  have hdigits : ∀ k, '\x00' ∉ digits k := by
    intro k hk
    cases Text.isDigit_of_mem_digits hk
  rw [Value.toList_text_int]
  split
  · rw [List.mem_cons, not_or]
    exact ⟨by decide, hdigits _⟩
  · exact hdigits _

/-- A printed integer is read as a number, or as the negation of one. -/
theorem parse_text_int (n : Int64) :
    Expr.parse (Value.int n).text = .ok (if n.toInt < 0 then .neg 1 (.number 2 (toString n.toInt.natAbs))
      else .number 1 (toString n.toInt.natAbs)) := by
  have hlex := Token.lex_of_readable (nul_notMem_text_int n)
  rw [Value.toList_text_int] at hlex
  by_cases hneg : n.toInt < 0
  · have htokens : (Token.lex (Value.int n).text).1 =
        [⟨.arith .sub, ⟨1, 1⟩⟩, ⟨.number (toString n.toInt.natAbs), ⟨1, 2⟩⟩] := by
      rw [hlex, if_pos hneg, Token.lexFrom_token rfl]
      exact congrArg _ (lexFrom_digits ⟨1, 2⟩ _)
    rw [if_pos hneg]
    apply Expr.parse_of_reads
    rw [htokens]
    exact .single (.neg (t := ⟨.arith .sub, ⟨1, 1⟩⟩) rfl (.number (t := ⟨.number _, ⟨1, 2⟩⟩) rfl))
  · rw [if_neg hneg]
    exact Expr.parse_number (p := ⟨1, 1⟩) (by rw [hlex, if_neg hneg]; exact lexFrom_digits _ _)

/-- A printed integer evaluates to the integer when its size is in range without the sign. -/
theorem evaluate_text_int {n : Int64} (h : n ≠ Int64.minValue) (env : Env) : evaluate (Value.int n).text env = .ok (.int n) := by
  have hvalue : numberValue? (toString n.toInt.natAbs) = some (Int64.ofInt n.toInt.natAbs) := by
    rw [numberValue?_toString, if_pos ((natAbs_toInt_le_iff n).2 h)]
  rw [evaluate_of_parse (parse_text_int n)]
  by_cases hneg : n.toInt < 0
  · have hsigned : -Int64.ofInt n.toInt.natAbs = n := by
      rw [← Int64.ofInt_neg, show -(n.toInt.natAbs : Int) = n.toInt by omega, Int64.ofInt_toInt]
    rw [if_pos hneg, Expr.eval, Expr.eval, hvalue]
    exact congrArg (Except.ok ∘ Value.int) hsigned
  · have hunsigned : Int64.ofInt n.toInt.natAbs = n := by
      rw [show (n.toInt.natAbs : Int) = n.toInt by omega, Int64.ofInt_toInt]
    rw [if_neg hneg, Expr.eval, hvalue]
    exact congrArg (Except.ok ∘ Value.int) hunsigned

/-- The digits of the lowest integer are out of range before the sign is applied to them. -/
theorem evaluate_lowest (env : Env) :
    evaluate (Value.int Int64.minValue).text env = .error ⟨2, .invalidNumber "9223372036854775808"⟩ := by
  have hsize : Int64.minValue.toInt.natAbs = 9223372036854775808 := by
    rw [Int64.toInt_minValue]
    rfl
  have hvalue : numberValue? (toString 9223372036854775808) = none := by
    rw [numberValue?_toString, if_neg (by decide)]
  have hdigits : toString 9223372036854775808 = "9223372036854775808" := by decide +kernel
  rw [evaluate_of_parse (parse_text_int _), if_pos (by rw [Int64.toInt_minValue]; decide), hsize, Expr.eval, Expr.eval, hvalue, hdigits]

/-- Not every printed integer is read back as an expression. -/
theorem lowest_not_read_back : ¬ ∀ (n : Int64) (env : Env), evaluate (Value.int n).text env = .ok (.int n) := by
  intro h
  have hread := h Int64.minValue Env.empty
  rw [evaluate_lowest] at hread
  cases hread

/-- Every integer that is printed is accepted as input: the read that waits for it is answered and binds the integer to its name.
As an expression it evaluates to the integer in every environment, with the one exception of the lowest integer, whose digits are no
number. -/
theorem printed_integers_read_back (n : Int64) :
    (∀ (s : Session) (w : Pending), s.now.pending = some w → ∃ t, s.supply (Value.int n).text = (t, none) ∧
      t.now.pending = none ∧ t.now.vars = s.now.vars.insert w.name (.int n)) ∧
    ∀ env : Env, evaluate (Value.int n).text env =
      if n = Int64.minValue then .error ⟨2, .invalidNumber "9223372036854775808"⟩ else .ok (.int n) := by
  refine ⟨?_, ?_⟩
  · intro s w hw
    exact Session.supply_text_int hw n
  · intro env
    by_cases h : n = Int64.minValue
    · rw [if_pos h, h, evaluate_lowest]
    · rw [if_neg h, evaluate_text_int h]

/-- The session of a program whose only step is a read, after that step. -/
def waitingSession : Session :=
  (Session.ofProgram ⟨[⟨1, .act ⟨1, 9, "step-1: read N"⟩ (.read "N")⟩], "step-1: read N"⟩).step.1

/-- The lowest integer is accepted as input. -/
theorem printed_integers_read_back_lowest :
    waitingSession.now.pending = some ⟨"N", "1"⟩ ∧
      ∃ t, waitingSession.supply (Value.int Int64.minValue).text = (t, none) ∧ t.now.pending = none ∧
        t.now.vars = Env.single "N" (.int Int64.minValue) :=
  ⟨by decide +kernel, (printed_integers_read_back Int64.minValue).1 waitingSession ⟨"N", "1"⟩ (by decide +kernel)⟩

end Evaluation

end Stepwise
