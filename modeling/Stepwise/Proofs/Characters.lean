import Stepwise.Text.Blank
import Stepwise.Text.Bytes
import Stepwise.Text.Decimal

/-!
# Letters, digits and blanks

Facts on the characters of a text that do not depend on what the text is for: letters and digits are no blanks, small letters are no
capital ones, and a number is read back from the digits that it is written with.
-/

namespace Stepwise.Text

/-- The size of a string is the length of its text in bytes. -/
theorem utf8ByteSize_ofList (cs : List Char) : (String.ofList cs).utf8ByteSize = byteLength cs := by
  induction cs with
  | nil => rfl
  | cons c cs ih =>
    rw [String.ofList_cons, String.utf8ByteSize_append, String.utf8ByteSize_singleton, ih]
    rfl

/-! ## Letters and digits -/

/-- A character between two others has its number between theirs. -/
theorem toNat_between {c low high : Char} (hlow : low.val ≤ c.val) (hhigh : c.val ≤ high.val) :
    low.toNat ≤ c.toNat ∧ c.toNat ≤ high.toNat :=
  ⟨UInt32.le_iff_toNat_le.1 hlow, UInt32.le_iff_toNat_le.1 hhigh⟩

/-- Letters and digits lie between the zero and the small z. -/
theorem toNat_of_isAlphanum {c : Char} (h : c.isAlphanum = true) : '0'.toNat ≤ c.toNat ∧ c.toNat ≤ 'z'.toNat := by
  have hcases : ((c.isUpper || c.isLower) || c.isDigit) = true := h
  rw [Bool.or_eq_true, Bool.or_eq_true] at hcases
  rcases hcases with (hupper | hlower) | hdigit
  · obtain ⟨hlow, hhigh⟩ : 'A'.val ≤ c.val ∧ c.val ≤ 'Z'.val := of_decide_eq_true hupper
    have hbetween := toNat_between hlow hhigh
    exact ⟨Nat.le_trans (by decide) hbetween.1, Nat.le_trans hbetween.2 (by decide)⟩
  · have hboth : (decide ('a'.val ≤ c.val) && decide (c.val ≤ 'z'.val)) = true := hlower
    rw [Bool.and_eq_true, decide_eq_true_eq, decide_eq_true_eq] at hboth
    have hbetween := toNat_between hboth.1 hboth.2
    exact ⟨Nat.le_trans (by decide) hbetween.1, hbetween.2⟩
  · have hboth : (decide ('0'.val ≤ c.val) && decide (c.val ≤ '9'.val)) = true := hdigit
    rw [Bool.and_eq_true, decide_eq_true_eq, decide_eq_true_eq] at hboth
    have hbetween := toNat_between hboth.1 hboth.2
    exact ⟨hbetween.1, Nat.le_trans hbetween.2 (by decide)⟩

/-- No blank lies between the space and the end of ASCII. -/
theorem toNat_of_isBlank {c : Char} (h : isBlank c = true) : c.toNat ≤ 32 ∨ 133 ≤ c.toNat := by
  obtain ⟨r, hr, hlo, hhi⟩ := inRanges_iff.1 h
  have hout : ∀ r ∈ blankRanges, r.2 ≤ 32 ∨ 133 ≤ r.1 := by decide
  rcases hout r hr with h | h
  · exact Or.inl (Nat.le_trans hhi h)
  · exact Or.inr (Nat.le_trans h hlo)

/-- A letter or a digit is no blank. -/
theorem isBlank_of_isAlphanum {c : Char} (h : c.isAlphanum = true) : isBlank c = false := by
  cases hb : isBlank c with
  | false => rfl
  | true =>
    have hblank := toNat_of_isBlank hb
    have hletter := toNat_of_isAlphanum h
    have hzero : '0'.toNat = 48 := rfl
    have hz : 'z'.toNat = 122 := rfl
    omega

/-- A digit is no blank. -/
theorem isBlank_of_isDigit {c : Char} (h : c.isDigit = true) : isBlank c = false :=
  isBlank_of_isAlphanum (by simp [Char.isAlphanum, h])

/-- Neither a blank nor a capital letter is a small letter. -/
theorem isLower_eq_false {c : Char} (h : isBlank c = true ∨ c.isUpper = true) : c.isLower = false := by
  have hval : c.val.toNat = c.toNat := rfl
  have hout : c.toNat < 97 ∨ 122 < c.toNat := by
    rcases h with h | h
    · have := toNat_of_isBlank h
      omega
    · have hupper : c.val ≥ 'A'.val ∧ c.val ≤ 'Z'.val := of_decide_eq_true h
      have hle := UInt32.le_iff_toNat_le.1 hupper.2
      have : 'Z'.val.toNat = 90 := rfl
      omega
  cases hlower : c.isLower with
  | false => rfl
  | true =>
    have hboth : (decide (c.val ≥ 'a'.val) && decide (c.val ≤ 'z'.val)) = true := hlower
    rw [Bool.and_eq_true, decide_eq_true_eq, decide_eq_true_eq, ge_iff_le, UInt32.le_iff_toNat_le,
      UInt32.le_iff_toNat_le, hval] at hboth
    have : 'a'.val.toNat = 97 := rfl
    have : 'z'.val.toNat = 122 := rfl
    omega

/-- A capital letter is no small one. -/
theorem ne_of_isUpper {c w : Char} (hc : c.isUpper = true) (hw : w.isLower = true) : w ≠ c := by
  rintro rfl
  rw [isLower_eq_false (Or.inr hc)] at hw
  cases hw

/-- What is no blank is no ASCII blank, and no indentation. -/
theorem isAsciiBlank_eq_false {c : Char} (h : isBlank c = false) : isAsciiBlank c = false := by
  rw [← Bool.not_eq_true] at h ⊢
  exact fun hascii => h (isBlank_of_isAsciiBlank hascii)

theorem isIndent_eq_false {c : Char} (h : isBlank c = false) : isIndent c = false := by
  rw [← Bool.not_eq_true] at h ⊢
  exact fun hindent => h (isBlank_of_isAsciiBlank (isAsciiBlank_of_isIndent hindent))

/-! ## Numbers as they are written -/

/-- The digits of a number. -/
def digits (n : Nat) : List Char := (toString n).toList

/-- The digits of a number are digits. -/
theorem isDigit_of_mem_digits {n : Nat} {c : Char} (h : c ∈ digits n) : c.isDigit = true := by
  simp only [digits, Nat.toString_eq_repr, Nat.toList_repr] at h
  exact Nat.isDigit_of_mem_toDigits (by decide) (by decide) h

/-- The digits of a number are no blanks. -/
theorem isBlank_of_mem_digits {n : Nat} {c : Char} (h : c ∈ digits n) : isBlank c = false :=
  isBlank_of_isDigit (isDigit_of_mem_digits h)

/-- A number has a digit. -/
theorem digits_ne_nil (n : Nat) : digits n ≠ [] := by
  simp [digits]

/-- The digits of a number are a numeral. -/
theorem isNumeral_digits (n : Nat) : isNumeral (digits n) = true := by
  rw [isNumeral, Bool.and_eq_true, Bool.not_eq_true', List.isEmpty_eq_false_iff, List.all_eq_true]
  exact ⟨digits_ne_nil n, fun c hc => isDigit_of_mem_digits hc⟩

/-- A numeral is read back as the number. -/
theorem numeralValue_digits (n : Nat) : numeralValue (digits n) = n := by
  simp [digits, numeralValue]

/-- A numeral within bounds is read back as the number. -/
theorem readNumeral?_digits {n : Nat} (h : n ≤ greatestInt64) : readNumeral? (digits n) = some n := by
  rw [readNumeral?, numeralValue_digits, if_pos ⟨isNumeral_digits n, h⟩]

/-- Digits are read as the number when it is within bounds, and as no number when it is not. -/
theorem readInt?_digits_eq (n : Nat) :
    readInt? (digits n) = if n ≤ greatestInt64 then some (Int64.ofInt n) else none := by
  have hsign : ∀ c ds, digits n = c :: ds → c.isDigit = true := by
    intro c ds hdigits
    exact isDigit_of_mem_digits (hdigits ▸ List.mem_cons_self)
  unfold readInt?
  split
  · rename_i ds hdigits
    cases hsign _ _ hdigits
  · rename_i ds hdigits
    cases hsign _ _ hdigits
  · by_cases h : n ≤ greatestInt64
    · rw [readNumeral?_digits h, if_pos h]
      rfl
    · rw [readNumeral?, numeralValue_digits, if_neg fun hboth => h hboth.2, if_neg h]
      rfl

/-- A number is read from its digits. -/
theorem readInt?_digits {n : Nat} (h : n ≤ greatestInt64) : readInt? (digits n) = some (Int64.ofInt n) := by
  rw [readInt?_digits_eq, if_pos h]

end Stepwise.Text
