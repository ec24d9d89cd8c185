import Stepwise.Proofs.Characters
import Stepwise.Proofs.Cutting
import Stepwise.Check.Rules

/-!
# Commands that pass the check

A command without an issue has one of seven forms. The reader sees it as it is written when it stands in a block, and without
the blanks around it when it is a step; `Passes` holds both texts side by side, so that what the reader makes of the command
is looked at once for both.
-/

namespace Stepwise

/-- The name of a variable: a capital letter followed by letters and digits, in at most 42 bytes. -/
def IsVariable (name : String) : Prop :=
  (∃ c cs, name.toList = c :: cs ∧ c.isUpper = true ∧ ∀ d ∈ cs, d.isAlphanum = true) ∧ name.utf8ByteSize ≤ 42

/-- The name of a variable is not empty. -/
theorem IsVariable.ne_empty {name : String} (h : IsVariable name) : name ≠ "" := by
  rintro rfl
  obtain ⟨⟨c, cs, hname, _⟩, _⟩ := h
  cases hname

namespace Form

/-! ## The form of a command -/

theorem ofText_read (arg : List Char) : ofText ("read ".toList ++ arg) = .read arg := by
  simp [ofText, Text.after?]

theorem ofText_print (arg : List Char) : ofText ("print ".toList ++ arg) = .print arg := by
  simp [ofText, Text.after?]

theorem ofText_jump (arg : List Char) : ofText ("goto ".toList ++ arg) = .jump arg := by
  simp [ofText, Text.after?]

theorem ofText_branch (arg : List Char) : ofText ("if ".toList ++ arg) = .branch arg := by
  simp [ofText, Text.after?]

/-- A text that does not begin with a small letter begins with no keyword. -/
theorem ofText_assign {c : Char} {cs left right : List Char} (hc : c.isLower = false)
    (h : assignment? (c :: cs) = some (left, right)) : ofText (c :: cs) = .assign left right := by
  have hne : ∀ w : Char, w.isLower = true → w ≠ c := by
    rintro w hw rfl
    rw [hc] at hw
    cases hw
  simp [ofText, Text.after?, hne, (hne _ _).symm, h]

end Form

namespace Check

/-! ## Chains of checks -/

/-- One step of a chain of checks: when it ends in `none`, the check found nothing and neither did the rest. -/
theorem issue_step_none {c : Prop} [Decidable c] {a : Issue} {r : Option Issue} (h : (if c then some a else r) = none) :
    ¬ c ∧ r = none := by
  by_cases hc : c
  · rw [if_pos hc] at h
    cases h
  · rw [if_neg hc] at h
    exact ⟨hc, h⟩

/-- An `if` without an issue begins with the word, a space and a parenthesis. -/
theorem startsWith_of_ifIssue_none {c : List Char} (h : ifIssue c = none) : ∃ rest, c = "if (".toList ++ rest := by
  unfold ifIssue at h
  obtain ⟨_, h⟩ := issue_step_none h
  obtain ⟨_, h⟩ := issue_step_none h
  obtain ⟨_, h⟩ := issue_step_none h
  obtain ⟨_, h⟩ := issue_step_none h
  obtain ⟨_, h⟩ := issue_step_none h
  obtain ⟨hstart, _⟩ := issue_step_none h
  exact Text.startsWith_iff.1 (by simpa using hstart)

/-- An assignment without an issue has a name and a value. -/
theorem assignIssue_eq_none {left right : List Char} (h : assignIssue left right = none) :
    nameIssue (Text.strip left) = none ∧ Text.strip right ≠ [] := by
  unfold assignIssue at h
  obtain ⟨hvalue, h⟩ := issue_step_none h
  obtain ⟨_, hname⟩ := issue_step_none h
  exact ⟨hname, hvalue⟩

/-- A jump in its exact form is the words and a number. -/
theorem gotoDigits?_eq_some {c digits : List Char} (h : gotoDigits? c = some digits) :
    c = "goto step-".toList ++ digits ∧ Text.isNumeral digits = true := by
  unfold gotoDigits? at h
  split at h
  · rename_i ds hds
    split at h
    · rename_i hnum
      obtain rfl := Option.some.inj h
      exact ⟨Text.after?_eq_some_iff.1 hds, hnum⟩
    · cases h
  · cases h

/-- A name without an issue is the name of a variable. -/
theorem isVariable_of_nameIssue_none {name : List Char} (h : nameIssue name = none) : IsVariable (String.ofList name) := by
  unfold nameIssue at h
  obtain ⟨hname, h⟩ := issue_step_none h
  obtain ⟨hsize, _⟩ := issue_step_none h
  cases name with
  | nil => exact absurd rfl hname
  | cons c cs =>
    have hparts : c.isUpper = true ∧ ∀ d ∈ cs, d.isAlphanum = true := by simpa [isName] using hname
    refine ⟨⟨c, cs, String.toList_ofList, hparts⟩, ?_⟩
    rw [Text.utf8ByteSize_ofList]
    exact Nat.le_of_not_lt hsize

/-! ## The forms of a command that passes -/

/-- `c` is a command that passes the check and `d` the same command as the reader sees it, one case for each form. `top` says
whether the command is a step and `first` whether it is the first one. -/
inductive Passes (top first : Bool) : List Char → List Char → Prop where
  | start (step : top = true) (begins : first = true) : Passes top first "start".toList "start".toList
  | stop (step : top = true) : Passes top first "stop".toList "stop".toList
  | read {arg arg' : List Char} (same : Text.strip arg' = Text.strip arg) (name : nameIssue (Text.strip arg) = none) :
      Passes top first ("read ".toList ++ arg) ("read ".toList ++ arg')
  | print {arg arg' : List Char} (same : Text.strip arg' = Text.strip arg) (value : Text.strip arg ≠ []) :
      Passes top first ("print ".toList ++ arg) ("print ".toList ++ arg')
  | jump {digits : List Char} (numeral : Text.isNumeral digits = true) :
      Passes top first ("goto step-".toList ++ digits) ("goto step-".toList ++ digits)
  | branch {rest rest' : List Char} : Passes top first ("if (".toList ++ rest) ("if (".toList ++ rest')
  | assign {c d left right left' right' : List Char} (sign : assignment? c = some (left, right))
      (sign' : assignment? d = some (left', right')) (sameLeft : Text.strip left' = Text.strip left)
      (sameRight : Text.strip right' = Text.strip right) (name : nameIssue (Text.strip left) = none)
      (value : Text.strip right ≠ []) : Passes top first c d

/-- A command without an issue has one of the forms. -/
theorem passes_of_contentIssue_none {top first : Bool} {c : List Char} (h : contentIssue top first c = none) :
    Passes top first c c := by
  unfold contentIssue at h
  by_cases hstart : c = "start".toList
  · rw [if_pos hstart] at h
    obtain ⟨htop, h⟩ := issue_step_none h
    obtain ⟨hfirst, _⟩ := issue_step_none h
    rw [hstart]
    exact .start (by simpa using htop) (by simpa using hfirst)
  rw [if_neg hstart] at h
  obtain ⟨_, h⟩ := issue_step_none h
  by_cases hstop : c = "stop".toList
  · rw [if_pos hstop] at h
    obtain ⟨htop, _⟩ := issue_step_none h
    rw [hstop]
    exact .stop (by simpa using htop)
  rw [if_neg hstop] at h
  obtain ⟨_, h⟩ := issue_step_none h
  obtain ⟨_, h⟩ := issue_step_none h
  cases hread : Text.after? "read ".toList c with
  | some arg =>
    rw [hread] at h
    rw [Text.after?_eq_some_iff.1 hread]
    exact .read rfl h
  | none =>
    rw [hread] at h
    obtain ⟨_, h⟩ := issue_step_none h
    cases hprint : Text.after? "print ".toList c with
    | some arg =>
      rw [hprint] at h
      rw [Text.after?_eq_some_iff.1 hprint]
      exact .print rfl (issue_step_none h).1
    | none =>
      rw [hprint] at h
      by_cases hgoto : c = "goto".toList ∨ Text.startsWith "goto ".toList c = true
      · simp only [if_pos hgoto] at h
        obtain ⟨hdigits, _⟩ := issue_step_none h
        obtain ⟨digits, hd⟩ : ∃ digits, gotoDigits? c = some digits := by
          simpa [Option.ne_none_iff_exists'] using hdigits
        obtain ⟨rfl, hnum⟩ := gotoDigits?_eq_some hd
        exact .jump hnum
      · simp only [if_neg hgoto] at h
        by_cases hif : isIf c = true
        · rw [if_pos hif] at h
          obtain ⟨rest, rfl⟩ := startsWith_of_ifIssue_none h
          exact .branch
        · rw [if_neg hif] at h
          cases hsign : assignment? c with
          | some parts =>
            obtain ⟨left, right⟩ := parts
            rw [hsign] at h
            obtain ⟨hname, hvalue⟩ := assignIssue_eq_none h
            exact .assign hsign hsign rfl rfl hname hvalue
          | none =>
            rw [hsign] at h
            cases h
variable {top first : Bool} {c d : List Char}

/-- A number is not changed by cutting off blanks. -/
theorem trimRight_numeral {digits : List Char} (h : Text.isNumeral digits = true) :
    Text.strip digits ≠ [] ∧ Text.trimRight Text.isBlank digits = digits := by
  simp only [Text.isNumeral, Bool.and_eq_true, Bool.not_eq_true', List.isEmpty_eq_false_iff, List.all_eq_true] at h
  obtain ⟨hne, hall⟩ := h
  constructor
  · cases digits with
    | nil => exact absurd rfl hne
    | cons e es =>
      rw [Text.strip_cons (Text.isBlank_of_isDigit (hall e List.mem_cons_self))]
      exact List.cons_ne_nil _ _
  · have hlast := List.getLast?_eq_some_getLast hne
    exact Text.trimRight_of_last hlast (Text.isBlank_of_isDigit (hall _ (List.getLast_mem hne)))

/-- A command stays the same for the reader when the blanks around it are cut off. -/
theorem Passes.strip (h : Passes top first c d) : Passes top first c (Text.strip d) := by
  cases h with
  | start step begins =>
    have hs : Text.strip "start".toList = "start".toList := by decide
    rw [hs]
    exact .start step begins
  | stop step =>
    have hs : Text.strip "stop".toList = "stop".toList := by decide
    rw [hs]
    exact .stop step
  | read same name =>
    rename_i arg arg'
    have hne : Text.strip arg' ≠ [] := by
      intro hnil
      rw [← same, hnil] at name
      cases name
    have hs := Text.strip_append (show Text.isBlank 'r' = false by decide) "ead ".toList hne
    exact hs ▸ .read ((Text.strip_trimRight arg').trans same) name
  | print same value =>
    rename_i arg arg'
    have hs := Text.strip_append (show Text.isBlank 'p' = false by decide) "rint ".toList (same ▸ value)
    exact hs ▸ .print ((Text.strip_trimRight arg').trans same) value
  | jump numeral =>
    rename_i digits
    obtain ⟨hne, hsame⟩ := trimRight_numeral numeral
    have hs : Text.strip ("goto step-".toList ++ digits) = "goto step-".toList ++ Text.trimRight Text.isBlank digits :=
      Text.strip_append (show Text.isBlank 'g' = false by decide) "oto step-".toList hne
    rw [hs, hsame]
    exact .jump numeral
  | branch =>
    rename_i rest rest'
    have hpar : Text.isBlank '(' = false := by decide
    have hne : Text.strip ('(' :: rest') ≠ [] := by
      rw [Text.strip_cons hpar]
      exact List.cons_ne_nil _ _
    have hs := Text.strip_append (show Text.isBlank 'i' = false by decide) "f ".toList hne
    rw [Text.trimRight_cons hpar] at hs
    exact hs ▸ .branch
  | assign sign sign' sameLeft sameRight name value =>
    rename_i left right left' right'
    have hleft : Text.strip (left'.dropWhile Text.isBlank) = Text.strip left' := by
      simp only [Text.strip, Text.trim, List.dropWhile_idempotent]
    exact .assign sign (assignment?_strip sign') (hleft.trans sameLeft) ((Text.strip_trimRight right').trans sameRight) name
      value

/-! ## What the reader makes of a command that passes -/

/-- The command of an assignment that passes begins with no small letter. -/
theorem assignment_head {left right : List Char} (sign : assignment? d = some (left, right))
    (name : nameIssue (Text.strip left) = none) : ∃ e es, d = e :: es ∧ e.isLower = false := by
  rw [(findAssignment_eq_some sign).1]
  cases hl : Text.strip left with
  | nil =>
    rw [hl] at name
    cases name
  | cons u us =>
    have hu : u.isUpper = true := by
      rw [hl] at name
      obtain ⟨⟨e, es, he, hupper, _⟩, _⟩ := isVariable_of_nameIssue_none name
      rw [String.toList_ofList] at he
      exact (List.cons.inj he).1 ▸ hupper
    obtain ⟨tail, htail⟩ := Text.dropWhile_of_strip_eq_cons hl
    cases left with
    | nil => cases htail
    | cons e es =>
      refine ⟨e, es ++ '=' :: right, rfl, Text.isLower_eq_false ?_⟩
      cases hb : Text.isBlank e with
      | true => exact Or.inl rfl
      | false =>
        rw [List.dropWhile_cons_of_neg (by simp [hb])] at htail
        exact Or.inr ((List.cons.inj htail).1 ▸ hu)

/-- No assignment begins with a word in small letters. -/
theorem after?_assignment {left right : List Char} (sign : assignment? d = some (left, right))
    (name : nameIssue (Text.strip left) = none) {w : Char} (hw : w.isLower = true) (ws : List Char) :
    Text.after? (w :: ws) d = none := by
  obtain ⟨e, es, rfl, he⟩ := assignment_head sign name
  rw [Text.after?, if_neg]
  rintro rfl
  rw [he] at hw
  cases hw

/-- The reader and the check agree on which commands are branches. -/
theorem Passes.isIf_iff (h : Passes top first c d) : isIf c = true ↔ ∃ arg, Text.after? "if ".toList d = some arg := by
  cases h with
  | start => simp [isIf, Text.startsWith, Text.after?]
  | stop => simp [isIf, Text.startsWith, Text.after?]
  | read => simp [isIf, Text.startsWith, Text.after?]
  | print => simp [isIf, Text.startsWith, Text.after?]
  | jump => simp [isIf, Text.startsWith, Text.after?]
  | branch => simp [isIf, Text.startsWith, Text.after?]
  | assign sign sign' sameLeft sameRight name value =>
    have hc := after?_assignment sign name (w := 'i') rfl
    have hd := after?_assignment sign' (sameLeft ▸ name) (w := 'i') rfl
    have hne : c ≠ ['i', 'f'] := by
      rintro rfl
      have hf := hc ['f']
      simp [Text.after?] at hf
    simp [isIf, Text.startsWith, hne, hc, hd]

/-- A command that begins with `stop` is just that. -/
theorem Passes.eq_stop (h : Passes top first c d) (hstop : Text.startsWith "stop".toList c = true) : c = "stop".toList := by
  cases h with
  | stop => rfl
  | start => cases hstop
  | read => cases hstop
  | print => cases hstop
  | jump => cases hstop
  | branch => cases hstop
  | assign sign sign' sameLeft sameRight name value =>
    have hc := after?_assignment sign name (w := 's') rfl
    simp [Text.startsWith, hc] at hstop

/-- A command that is no branch for the reader is none for the check. -/
theorem Passes.isIf_eq_false (h : Passes top first c d) (hnone : Text.after? "if ".toList d = none) : isIf c = false := by
  cases hif : isIf c with
  | false => rfl
  | true =>
    obtain ⟨arg, harg⟩ := h.isIf_iff.1 hif
    rw [hnone] at harg
    cases harg

/-- What an action says that was read from the command `c`: a start is the first step and a stop a step, names are names of
variables, expressions are not empty, a jump has the number that is written, and nothing is unknown. -/
def Promises (top first : Bool) (c : List Char) : Action → Prop
  | .start => c = "start".toList ∧ top = true ∧ first = true
  | .stop => c = "stop".toList ∧ top = true
  | .print e => e.text ≠ ""
  | .read name => IsVariable name
  | .assign name e => IsVariable name ∧ e.text ≠ ""
  | .jump target _ => ∃ digits, gotoDigits? c = some digits ∧ target = Text.readNumeral? digits
  | .unknown _ => False

/-- The reader makes an action of a command that passes and is no branch, and the action binds the name that the check
counts. -/
theorem Passes.promises (h : Passes top first c d) (hif : isIf c = false) (line col : Nat) :
    Promises top first c (Program.action line col d) ∧ (Program.action line col d).name? = nameOf? c := by
  cases h with
  | start step begins => exact ⟨⟨rfl, step, begins⟩, rfl⟩
  | stop step => exact ⟨⟨rfl, step⟩, rfl⟩
  | read same name =>
    simp only [Program.action, nameOf?, Form.ofText_read, Promises, same, Action.name?]
    exact ⟨isVariable_of_nameIssue_none name, trivial⟩
  | print same value =>
    simp only [Program.action, nameOf?, Form.ofText_print, Promises, Program.excerpt, same, Action.name?]
    exact ⟨by simpa using value, trivial⟩
  | jump numeral =>
    rename_i digits
    have hform : Form.ofText ("goto step-".toList ++ digits) = .jump ("step-".toList ++ digits) :=
      Form.ofText_jump ("step-".toList ++ digits)
    simp only [Program.action, nameOf?, hform, Promises, Action.name?]
    refine ⟨⟨digits, ?_, ?_⟩, trivial⟩
    · simp only [gotoDigits?, Text.after?_append, numeral, if_true]
    · simp [Program.jumpTarget?, Text.after?, Text.isAsciiBlank]
  | branch => simp [isIf, Text.startsWith, Text.after?] at hif
  | assign sign sign' sameLeft sameRight name value =>
    obtain ⟨e, es, rfl, he⟩ := assignment_head sign name
    obtain ⟨e', es', rfl, he'⟩ := assignment_head sign' (sameLeft ▸ name)
    simp only [Program.action, nameOf?, Form.ofText_assign he sign, Form.ofText_assign he' sign', Promises, Program.excerpt,
      sameLeft, sameRight, Action.name?]
    exact ⟨⟨isVariable_of_nameIssue_none name, by simpa using value⟩, trivial⟩

/-- A branch binds no name. -/
theorem Passes.nameOf?_of_isIf (h : Passes top first c c) (hif : isIf c = true) : nameOf? c = none := by
  obtain ⟨arg, harg⟩ := h.isIf_iff.1 hif
  rw [Text.after?_eq_some_iff.1 harg, nameOf?, Form.ofText_branch]

end Check

end Stepwise
