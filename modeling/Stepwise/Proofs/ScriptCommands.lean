import Stepwise.Proofs.Reading
import Stepwise.Proofs.Script

/-!
# The commands of a script

What the check and the reader make of each command of a script as it is written: the check finds nothing wrong with it, and both
see its form, its name, its target and its texts.
-/

namespace Stepwise

namespace Script

/-! ## Lines without blanks around them -/

/-- A text in one line without blanks around it. -/
structure Tidy (cs : List Char) : Prop where
  oneLine : ∀ c ∈ cs, c ≠ '\t' ∧ c ≠ '\r' ∧ c ≠ '\n'
  first : ∃ c rest, cs = c :: rest ∧ Text.isBlank c = false
  last : ∃ c, cs.getLast? = some c ∧ Text.isBlank c = false

/-- A tidy text has no blanks to cut off. -/
theorem Tidy.strip {cs : List Char} (h : Tidy cs) : Text.strip cs = cs := by
  obtain ⟨c, rest, rfl, hc⟩ := h.first
  obtain ⟨d, hlast, hd⟩ := h.last
  exact Text.strip_eq_self rfl hc hlast hd

/-- A word of the language stands in one line. The check of its characters is a computation, for words that are given. -/
theorem oneLine_of_all {cs : List Char} (h : (cs.all fun c => c != '\t' && c != '\r' && c != '\n') = true) :
    ∀ c ∈ cs, c ≠ '\t' ∧ c ≠ '\r' ∧ c ≠ '\n' := by
  intro c hc
  have hchar := List.all_eq_true.1 h c hc
  rw [Bool.and_eq_true, Bool.and_eq_true, bne_iff_ne, bne_iff_ne, bne_iff_ne, and_assoc] at hchar
  exact hchar

/-- A word in front of a text leaves it tidy: the text needs no more to begin with something. -/
theorem tidy_append {c : Char} {w cs : List Char} (hc : Text.isBlank c = false)
    (hword : ∀ d ∈ c :: w, d ≠ '\t' ∧ d ≠ '\r' ∧ d ≠ '\n') (hcs : ∀ d ∈ cs, d ≠ '\t' ∧ d ≠ '\r' ∧ d ≠ '\n')
    (hlast : ∃ d, cs.getLast? = some d ∧ Text.isBlank d = false) : Tidy (c :: w ++ cs) where
  oneLine := by
    intro d hd
    rcases List.mem_append.1 hd with hd | hd
    · exact hword d hd
    · exact hcs d hd
  first := ⟨c, w ++ cs, rfl, hc⟩
  last := by
    obtain ⟨d, hd, hblank⟩ := hlast
    refine ⟨d, ?_, hblank⟩
    rw [List.getLast?_append, hd, Option.some_or]

/-- An expression is tidy. -/
theorem Phrase.tidy (e : Phrase) : Tidy e.text.toList := ⟨e.oneLine, e.first, e.last⟩

/-- Letters and Text.digits stand in one line. -/
theorem oneLine_of_isAlphanum {c : Char} (h : c.isAlphanum = true) : c ≠ '\t' ∧ c ≠ '\r' ∧ c ≠ '\n' := by
  refine ⟨?_, ?_, ?_⟩
  all_goals
    rintro rfl
    cases h

/-- A name begins with a capital letter and consists of letters and Text.digits. -/
theorem Variable.chars (v : Variable) :
    ∃ c cs, v.name.toList = c :: cs ∧ c.isUpper = true ∧ ∀ d ∈ c :: cs, d.isAlphanum = true := by
  obtain ⟨c, cs, hname, hupper, hrest⟩ := v.valid.1
  refine ⟨c, cs, hname, hupper, ?_⟩
  intro d hd
  rcases List.mem_cons.1 hd with rfl | hd
  · have hfirst : ((d.isUpper || d.isLower) || d.isDigit) = true := by rw [hupper, Bool.true_or, Bool.true_or]
    exact hfirst
  · exact hrest d hd

/-- A name begins with no small letter, and so not as a word of the language does. -/
theorem Variable.head_ne (v : Variable) : ∃ c cs, v.name.toList = c :: cs ∧ ∀ w : Char, w.isLower = true → w ≠ c := by
  obtain ⟨c, cs, hname, hupper, _⟩ := v.valid.1
  exact ⟨c, cs, hname, fun w hw => Text.ne_of_isUpper hupper hw⟩

/-- A name is tidy. -/
theorem Variable.tidy (v : Variable) : Tidy v.name.toList := by
  obtain ⟨c, cs, hname, _, hall⟩ := v.chars
  rw [hname]
  refine ⟨fun d hd => oneLine_of_isAlphanum (hall d hd), ⟨c, cs, rfl, ?_⟩, ?_⟩
  · exact Text.isBlank_of_isAlphanum (hall c List.mem_cons_self)
  · have hne : c :: cs ≠ [] := List.cons_ne_nil c cs
    exact ⟨_, List.getLast?_eq_some_getLast hne, Text.isBlank_of_isAlphanum (hall _ (List.getLast_mem hne))⟩

/-- The Text.digits of a number are tidy. -/
theorem tidy_digits (n : Nat) : Tidy (Text.digits n) := by
  have hfilled : ∀ c ∈ Text.digits n, Text.isBlank c = false := fun c hc => Text.isBlank_of_mem_digits hc
  refine ⟨?_, ?_, ?_⟩
  · intro c hc
    have hdigit := Text.isDigit_of_mem_digits hc
    refine ⟨?_, ?_, ?_⟩
    all_goals
      rintro rfl
      cases hdigit
  · obtain ⟨c, cs, hcs⟩ := List.exists_cons_of_ne_nil (Text.digits_ne_nil n)
    exact ⟨c, cs, hcs, hfilled c (by simp [hcs])⟩
  · exact ⟨_, List.getLast?_eq_some_getLast (Text.digits_ne_nil n), hfilled _ (List.getLast_mem (Text.digits_ne_nil n))⟩

/-! ## The characters of a command -/

theorem Order.toList_print (value : Phrase) : (print value).text.toList = "print ".toList ++ value.text.toList := by
  rw [Order.text, String.toList_append]

theorem Order.toList_read (name : Variable) : (read name).text.toList = "read ".toList ++ name.name.toList := by
  rw [Order.text, String.toList_append]

theorem Order.toList_assign (name : Variable) (value : Phrase) :
    (assign name value).text.toList = name.name.toList ++ (' ' :: '=' :: ' ' :: value.text.toList) := by
  rw [Order.text, String.toList_append, String.toList_append, List.append_assoc]
  rfl

theorem Order.toList_jump (target : Nat) : (jump target).text.toList = "goto step-".toList ++ Text.digits target := by
  rw [Order.text, String.toList_append]
  rfl

theorem Command.toList_branch (c : Comparison) :
    (branch c).text.toList = "if (".toList ++ (c.text.toList ++ "):".toList) := by
  rw [Command.text, String.toList_append, String.toList_append, List.append_assoc]

/-- A command between the first and the last step is written tidily. -/
theorem Order.tidy (o : Order) : Tidy o.text.toList := by
  cases o with
  | print value =>
    rw [Order.toList_print]
    exact tidy_append (c := 'p') (w := "rint ".toList) (by decide) (oneLine_of_all (by decide)) value.oneLine value.last
  | read name =>
    rw [Order.toList_read]
    exact tidy_append (c := 'r') (w := "ead ".toList) (by decide) (oneLine_of_all (by decide)) name.tidy.oneLine
      name.tidy.last
  | assign name value =>
    obtain ⟨c, cs, hname, hblank⟩ := name.tidy.first
    have hword := name.tidy.oneLine
    rw [hname] at hword
    rw [Order.toList_assign, hname]
    refine tidy_append hblank hword ?_ ?_
    · intro d hd
      rw [List.mem_cons, List.mem_cons, List.mem_cons] at hd
      rcases hd with rfl | rfl | rfl | hd
      · decide
      · decide
      · decide
      · exact value.oneLine d hd
    · obtain ⟨d, hd, hlast⟩ := value.last
      refine ⟨d, ?_, hlast⟩
      simp [List.getLast?_cons, hd]
  | jump target =>
    rw [Order.toList_jump]
    exact tidy_append (c := 'g') (w := "oto step-".toList) (by decide) (oneLine_of_all (by decide))
      (tidy_digits target).oneLine (tidy_digits target).last

/-- Every command is written tidily. -/
theorem Command.tidy (c : Command) : Tidy c.text.toList := by
  cases c with
  | start => exact ⟨oneLine_of_all (by decide), ⟨'s', "tart".toList, rfl, by decide⟩, ⟨'t', by decide, by decide⟩⟩
  | stop => exact ⟨oneLine_of_all (by decide), ⟨'s', "top".toList, rfl, by decide⟩, ⟨'p', by decide, by decide⟩⟩
  | order o => exact o.tidy
  | branch c =>
    have hend : ∀ d ∈ "):".toList, d ≠ '\t' ∧ d ≠ '\r' ∧ d ≠ '\n' := oneLine_of_all (by decide)
    rw [Command.toList_branch]
    refine tidy_append (c := 'i') (w := "f (".toList) (by decide) (oneLine_of_all (by decide)) ?_ ?_
    · intro d hd
      rcases List.mem_append.1 hd with hd | hd
      · exact c.oneLine d hd
      · exact hend d hd
    · refine ⟨':', ?_, by decide⟩
      rw [List.getLast?_append]
      rfl

/-! ## What the check makes of a command -/

/-- The equals sign of an assignment is the first one behind its name. -/
theorem findAssignment_name {name : List Char} (hname : ∀ c ∈ name, c.isAlphanum = true) (value : List Char) (prev : Char) :
    findAssignment false prev (name ++ (' ' :: '=' :: ' ' :: value)) = some (name ++ [' '], ' ' :: value) := by
  induction name generalizing prev with
  | nil =>
    rw [List.nil_append, findAssignment_other (by decide) (by decide) (by decide), findAssignment_single ' ' (by simp),
      if_neg (by decide)]
    rfl
  | cons c name ih =>
    have hc := hname c List.mem_cons_self
    have hquote : c ≠ '"' := by
      rintro rfl
      cases hc
    have hsign : c ≠ '=' := by
      rintro rfl
      cases hc
    rw [List.cons_append, findAssignment_other (by simp) hquote (by simp [hsign]),
      ih fun d hd => hname d (List.mem_cons_of_mem c hd)]
    rfl

/-- An assignment is cut at its equals sign. -/
theorem Order.assignment?_assign (name : Variable) (value : Phrase) :
    assignment? (assign name value).text.toList = some (name.name.toList ++ [' '], ' ' :: value.text.toList) := by
  obtain ⟨c, cs, hname, _, hall⟩ := name.chars
  rw [Order.toList_assign, hname]
  exact findAssignment_name hall value.text.toList ' '

/-- The name of an assignment, without the space before its equals sign. -/
theorem Variable.strip_append_space (v : Variable) : Text.strip (v.name.toList ++ [' ']) = v.name.toList := by
  rw [Text.strip_append_blank (by decide), v.tidy.strip]

/-- The value of an assignment, without the space behind its equals sign. -/
theorem Phrase.strip_cons_space (e : Phrase) : Text.strip (' ' :: e.text.toList) = e.text.toList := by
  rw [Text.strip_cons_blank (by decide), e.tidy.strip]

/-- The check accepts a name. -/
theorem Variable.nameIssue_eq_none (v : Variable) : Check.nameIssue v.name.toList = none := by
  obtain ⟨c, cs, hname, hupper, hall⟩ := v.chars
  have hform : Check.isName v.name.toList = true := by
    rw [hname, Check.isName, Bool.and_eq_true, List.all_eq_true]
    exact ⟨hupper, fun d hd => hall d (List.mem_cons_of_mem c hd)⟩
  have hshort : ¬ maxNameLength < Text.byteLength v.name.toList := by
    rw [← Text.utf8ByteSize_ofList, String.ofList_toList]
    exact Nat.not_lt.2 v.valid.2
  rw [Check.nameIssue, hform, if_neg (by simp), if_neg hshort]

/-- No command looks like a misspelled one. -/
theorem Order.typo?_eq_none (o : Order) : Check.typo? o.text.toList = none := by
  cases o with
  | print value =>
    rw [Order.toList_print]
    simp [Check.typo?, Check.spacedTarget?, Check.bareTarget?, Check.joined, Check.joinedRead, Text.startsWith, Text.after?]
  | read name =>
    rw [Order.toList_read]
    simp [Check.typo?, Check.spacedTarget?, Check.bareTarget?, Check.joined, Check.joinedRead, Text.startsWith, Text.after?]
  | assign name value =>
    obtain ⟨c, cs, hname, hne⟩ := name.head_ne
    rw [Order.toList_assign, hname]
    simp [Check.typo?, Check.spacedTarget?, Check.bareTarget?, Check.joined, Check.joinedRead, Text.startsWith, Text.after?,
      hne, (hne _ _).symm]
  | jump target =>
    rw [Order.toList_jump]
    simp [Check.typo?, Check.spacedTarget?, Check.bareTarget?, Check.joined, Check.joinedRead, Text.startsWith, Text.after?,
      Text.isAsciiBlank, Text.isNumeral]

theorem Command.typo?_eq_none (c : Command) : Check.typo? c.text.toList = none := by
  cases c with
  | start => decide
  | stop => decide
  | order o => exact o.typo?_eq_none
  | branch c =>
    rw [Command.toList_branch]
    simp [Check.typo?, Check.spacedTarget?, Check.bareTarget?, Check.joined, Check.joinedRead, Text.startsWith, Text.after?]

/-- A condition in its parentheses has no blanks around it. -/
theorem strip_parenthesized (cs : List Char) : Text.strip ('(' :: cs ++ [')']) = '(' :: cs ++ [')'] :=
  Text.strip_eq_self rfl (by decide) List.getLast?_concat (by decide)

/-- Neither has a condition with its colon. -/
theorem strip_parenthesized_colon (cs : List Char) :
    Text.strip ('(' :: cs ++ [')'] ++ [':']) = '(' :: cs ++ [')'] ++ [':'] :=
  Text.strip_eq_self rfl (by decide) List.getLast?_concat (by decide)

/-- A text with a colon behind it ends with the colon. -/
theorem endsWith_colon (cs : List Char) : Text.endsWith ':' (cs ++ [':']) = true := by
  rw [Text.endsWith, List.getLast?_concat, beq_self_eq_true]

/-- The check accepts a branch exactly when its condition has a comparison and no second pair of parentheses around it. -/
theorem ifIssue_eq_none_iff {cs : List Char} : Check.ifIssue ("if (".toList ++ (cs ++ "):".toList)) = none ↔
    Text.strip cs ≠ [] ∧ Check.isWrapped (Text.strip cs) = false ∧ Check.hasComparison (Text.strip cs) = true := by
  have hnoSpace : ¬ Text.startsWith "if(".toList ("if (".toList ++ (cs ++ "):".toList)) = true := by
    simp [Text.startsWith, Text.after?]
  have hspace : Text.startsWith "if (".toList ("if (".toList ++ (cs ++ "):".toList)) = true :=
    Text.startsWith_iff.2 ⟨_, rfl⟩
  have hafter : Text.after? "if".toList ("if (".toList ++ (cs ++ "):".toList)) = some (' ' :: ('(' :: cs ++ [')'] ++ [':'])) := by
    rw [Text.after?_eq_some_iff]
    simp
  have hrest : Text.strip (' ' :: ('(' :: cs ++ [')'] ++ [':'])) = '(' :: cs ++ [')'] ++ [':'] := by
    rw [Text.strip_cons_blank (by decide), strip_parenthesized_colon]
  have hbody : Text.strip (Text.dropLast? ':' ('(' :: cs ++ [')'] ++ [':'])) = '(' :: cs ++ [')'] := by
    rw [Text.dropLast?, if_pos (endsWith_colon _), List.dropLast_concat, strip_parenthesized]
  have hlast : ('(' :: cs ++ [')']).getLast? = some ')' := List.getLast?_concat
  have hinside : Check.inside ('(' :: cs ++ [')']) = cs := by
    rw [Check.inside, List.cons_append, List.drop_one, List.tail_cons, List.dropLast_concat]
  unfold Check.ifIssue
  simp only [hafter, Option.getD_some, hrest, hbody, hinside, endsWith_colon, hspace, Bool.not_true, List.dropLast_concat, hlast,
    Bool.false_eq_true, if_false, ne_eq, not_true_eq_false, or_false]
  rw [if_neg hnoSpace, if_neg (by simp), if_neg (by simp)]
  by_cases hempty : Text.strip cs = []
  · simp [hempty]
  · rw [if_neg hempty]
    cases Check.isWrapped (Text.strip cs) <;> cases Check.hasComparison (Text.strip cs) <;> simp [hempty]

/-- The check accepts the equals sign of an assignment. -/
theorem assignIssue_eq_none (name : Variable) (value : Phrase) :
    Check.assignIssue (name.name.toList ++ [' ']) (' ' :: value.text.toList) = none := by
  obtain ⟨c, cs, hvalue, hc⟩ := value.first
  obtain ⟨d, hlast, hd⟩ := name.tidy.last
  have hne : ∀ e, Text.isBlank e = false → e ≠ ' ' := by
    rintro e he rfl
    cases he
  have hleft : Check.endsWithOneSpace (name.name.toList ++ [' ']) = true := by
    simp [Check.endsWithOneSpace, Text.endsWith, hlast, hne d hd]
  have hright : Check.beginsWithOneSpace (' ' :: value.text.toList) = true := by
    simp [Check.beginsWithOneSpace, hvalue, hne c hc]
  unfold Check.assignIssue
  rw [value.strip_cons_space, name.strip_append_space, if_neg (by simp [hvalue]), if_neg (by simp [hleft, hright]),
    name.nameIssue_eq_none]

/-- The check finds nothing wrong with a command, as a step or in a block. -/
theorem Order.contentIssue_eq_none (o : Order) (top first : Bool) : Check.contentIssue top first o.text.toList = none := by
  cases o with
  | print value =>
    obtain ⟨c, cs, htext, _⟩ := value.first
    have hfilled : Text.strip value.text.toList ≠ [] := by
      rw [value.tidy.strip, htext]
      exact List.cons_ne_nil c cs
    rw [Order.toList_print]
    simp [Check.contentIssue, Text.startsWith, Text.after?, hfilled]
  | read name =>
    rw [Order.toList_read]
    simp [Check.contentIssue, Text.startsWith, Text.after?, name.tidy.strip, name.nameIssue_eq_none]
  | assign name value =>
    obtain ⟨c, cs, hname, hne⟩ := name.head_ne
    have hsign := Order.assignment?_assign name value
    have hissue := assignIssue_eq_none name value
    rw [Order.toList_assign, hname] at hsign ⊢
    rw [hname] at hissue
    rw [List.cons_append] at hsign ⊢
    simpa [Check.contentIssue, Check.isIf, Text.startsWith, Text.after?, hne, (hne _ _).symm, hsign] using hissue
  | jump target =>
    rw [Order.toList_jump]
    simp [Check.contentIssue, Text.startsWith, Text.after?, Check.gotoDigits?, Text.isNumeral_digits]

/-- The check finds nothing wrong with a branch. -/
theorem Comparison.ifIssue_eq_none (c : Comparison) : Check.ifIssue (Command.branch c).text.toList = none := by
  obtain ⟨left, op, right, hlexemes, hleft, _⟩ := c.compares
  rw [← String.ofList_toList (s := c.text)] at hlexemes
  obtain ⟨hfilled, hcompares, hopen⟩ := Check.condition_of_lexemes c.noNul hlexemes hleft
  rw [Command.toList_branch, Script.ifIssue_eq_none_iff]
  exact ⟨hfilled, hopen fun hquote => absurd hquote c.noQuote, hcompares⟩

/-- Where a command may stand: a start is the first step, a stop some step. -/
def Command.Fits (top first : Bool) : Command → Prop
  | start => top = true ∧ first = true
  | stop => top = true
  | _ => True

/-- The check finds nothing wrong with a command that stands where it may. -/
theorem Command.contentIssue_eq_none {c : Command} {top first : Bool} (h : c.Fits top first) :
    Check.contentIssue top first c.text.toList = none := by
  cases c with
  | start =>
    obtain ⟨rfl, rfl⟩ := h
    decide
  | stop =>
    cases h
    cases first <;> decide
  | order o => exact o.contentIssue_eq_none top first
  | branch c =>
    have hissue := c.ifIssue_eq_none
    rw [Command.toList_branch] at hissue ⊢
    simp [Check.contentIssue, Check.isIf, Text.startsWith, Text.after?]
    exact hissue

/-- The command is a branch. -/
def Command.isBranch : Command → Bool
  | branch _ => true
  | _ => false

/-- The check sees which commands are branches. -/
theorem Command.isIf_eq (c : Command) : Check.isIf c.text.toList = c.isBranch := by
  cases c with
  | start => decide
  | stop => decide
  | branch c =>
    rw [Command.toList_branch]
    simp [Check.isIf, Text.startsWith, Text.after?, isBranch]
  | order o =>
    cases o with
    | print value =>
      rw [Command.text, Order.toList_print]
      simp [Check.isIf, Text.startsWith, Text.after?, isBranch]
    | read name =>
      rw [Command.text, Order.toList_read]
      simp [Check.isIf, Text.startsWith, Text.after?, isBranch]
    | assign name value =>
      obtain ⟨c, cs, hname, hne⟩ := name.head_ne
      rw [Command.text, Order.toList_assign, hname]
      simp [Check.isIf, Text.startsWith, Text.after?, isBranch, hne, (hne _ _).symm]
    | jump target =>
      rw [Command.text, Order.toList_jump]
      simp [Check.isIf, Text.startsWith, Text.after?, isBranch]

/-! ## What the reader makes of a command -/

/-- The form of a command, with the texts around its words. -/
def Command.form : Command → Form
  | start => .start
  | stop => .stop
  | order (.print value) => .print value.text.toList
  | order (.read name) => .read name.name.toList
  | order (.assign name value) => .assign (name.name.toList ++ [' ']) (' ' :: value.text.toList)
  | order (.jump target) => .jump ("step-".toList ++ Text.digits target)
  | branch c => .branch ('(' :: c.text.toList ++ [')'] ++ [':'])

/-- The reader sees the form of a command. -/
theorem Command.ofText_eq (c : Command) : Form.ofText c.text.toList = c.form := by
  cases c with
  | start => decide
  | stop => decide
  | branch c =>
    rw [Command.toList_branch]
    simp [Form.ofText, Text.after?, form]
  | order o =>
    cases o with
    | print value =>
      rw [Command.text, Order.toList_print]
      exact Form.ofText_print _
    | read name =>
      rw [Command.text, Order.toList_read]
      exact Form.ofText_read _
    | assign name value =>
      obtain ⟨c, cs, hname, hupper, _⟩ := name.chars
      have hsign := Order.assignment?_assign name value
      rw [Command.text]
      rw [Order.toList_assign, hname, List.cons_append] at hsign ⊢
      rw [Form.ofText_assign (Text.isLower_eq_false (Or.inr hupper)) hsign, form, hname]
    | jump target =>
      rw [Command.text, Order.toList_jump]
      exact Form.ofText_jump _

/-- The check sees the name that a command binds. -/
theorem Command.nameOf?_eq (c : Command) : Check.nameOf? c.text.toList = c.name? := by
  rw [Check.nameOf?, c.ofText_eq]
  cases c with
  | start => rfl
  | stop => rfl
  | branch c => rfl
  | order o =>
    cases o with
    | print value => rfl
    | read name => simp [form, name?, name.tidy.strip]
    | assign name value => simp [form, name?, name.strip_append_space]
    | jump target => rfl

/-- The check sees the target of a jump. -/
theorem Command.gotoDigits?_eq (c : Command) : Check.gotoDigits? c.text.toList = c.target?.map Text.digits := by
  -- a text with a target has the form of a jump
  have hform : ∀ ds, Check.gotoDigits? c.text.toList = some ds → c.form = .jump ("step-".toList ++ ds) := by
    intro ds hds
    rw [← c.ofText_eq, (Check.gotoDigits?_eq_some hds).1]
    exact Form.ofText_jump _
  have hnone : (∀ arg, c.form ≠ .jump arg) → Check.gotoDigits? c.text.toList = none := by
    intro hother
    rw [Option.eq_none_iff_forall_ne_some]
    exact fun ds hds => hother _ (hform ds hds)
  cases c with
  | start => exact hnone (by simp [form])
  | stop => exact hnone (by simp [form])
  | branch c => exact hnone (by simp [form])
  | order o =>
    cases o with
    | print value => exact hnone (by simp [form])
    | read name => exact hnone (by simp [form])
    | assign name value => exact hnone (by simp [form])
    | jump target =>
      rw [Command.text, Order.toList_jump, Check.gotoDigits?, Text.after?_append]
      simp [Text.isNumeral_digits, target?]

/-- The reader sees a command and its texts. -/
theorem Order.action_unplaced {o : Order} (h : ∀ k, (Command.order o).target? = some k → k ≤ Text.greatestInt64)
    (line col : Nat) : (Program.action line col o.text.toList).unplaced = o.action := by
  have hform : Form.ofText o.text.toList = (Command.order o).form := (Command.order o).ofText_eq
  rw [Program.action, hform]
  cases o with
  | print value =>
    simp [Command.form, Action.unplaced, Excerpt.unplaced, Program.excerpt, Order.action, value.tidy.strip]
  | read name => simp [Command.form, Action.unplaced, Order.action, name.tidy.strip]
  | assign name value =>
    simp [Command.form, Action.unplaced, Excerpt.unplaced, Program.excerpt, Order.action, name.strip_append_space,
      value.strip_cons_space]
  | jump target =>
    have htarget : Program.jumpTarget? (Order.jump target).text.toList = some target := by
      have hgoto : Text.after? "goto".toList ("goto step-".toList ++ Text.digits target) =
          some (' ' :: ("step-".toList ++ Text.digits target)) := Text.after?_eq_some_iff.2 rfl
      have hblank : (' ' :: ("step-".toList ++ Text.digits target)).dropWhile Text.isAsciiBlank =
          "step-".toList ++ Text.digits target := rfl
      rw [Order.toList_jump, Program.jumpTarget?, hgoto]
      simp only [hblank, Text.after?_append, Text.readNumeral?_digits (h target rfl)]
      rfl
    simp [Command.form, Action.unplaced, Order.action, htarget]

/-- The reader sees the condition of a branch. -/
theorem Comparison.condition_unplaced (c : Comparison) (line col : Nat) :
    (Program.condition line col ('(' :: c.text.toList ++ [')'] ++ [':'])).unplaced = c.condition := by
  have htext : String.ofList ('(' :: c.text.toList ++ [')']) = "(" ++ c.text ++ ")" := by
    apply String.toList_injective
    simp
  simp only [Program.condition, strip_parenthesized_colon, endsWith_colon, if_true, List.dropLast_concat,
    strip_parenthesized, Excerpt.unplaced, htext, condition]

end Script

end Stepwise
