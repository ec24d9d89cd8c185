import Stepwise.Proofs.Commands
import Stepwise.Proofs.Parentheses
import Stepwise.Proofs.ScriptCommands

/-!
# Proposed branch lines

A branch whose condition is not in parentheses, or whose colon is missing or misplaced, is answered with a line to write instead. The
line has the condition in one pair of parentheses. For a misplaced colon these are the ones that stand there. For a condition that
does not both begin and end with a parenthesis, all parentheses at its ends are cut off first, whether they belong together or not:
the proposed line keeps the condition only when there are none, since those that are cut off at one end are missing at the other.
-/

namespace Stepwise.Check

/-! ## Parentheses at the ends -/

/-- The parentheses that a text begins with. -/
def leading (cs : List Char) : List Char := cs.takeWhile Token.isParenthesis

/-- The parentheses that a text ends with, apart from those that it begins with. -/
def trailing (cs : List Char) : List Char := (cs.dropWhile Token.isParenthesis).rtakeWhile Token.isParenthesis

theorem leading_append_trailing (cs : List Char) : leading cs ++ (trimParentheses cs ++ trailing cs) = cs := by
  have htrim : trimParentheses cs = (cs.dropWhile Token.isParenthesis).rdropWhile Token.isParenthesis := rfl
  rw [htrim, trailing, List.rdropWhile_append_rtakeWhile, leading, List.takeWhile_append_dropWhile]

theorem isParenthesis_of_mem_leading (cs : List Char) : ∀ c ∈ leading cs, Token.isParenthesis c = true :=
  fun _ hc => List.mem_takeWhile_imp hc

theorem isParenthesis_of_mem_trailing (cs : List Char) : ∀ c ∈ trailing cs, Token.isParenthesis c = true :=
  fun _ hc => List.mem_rtakeWhile_imp hc

theorem nul_notMem_of_isParenthesis {run : List Char} (h : ∀ c ∈ run, Token.isParenthesis c = true) : '\x00' ∉ run := by
  intro hnul
  cases h _ hnul

/-- A NUL character is not cut off. -/
theorem nul_mem_trimParentheses {cs : List Char} (h : '\x00' ∈ cs) : '\x00' ∈ trimParentheses cs := by
  rw [← leading_append_trailing cs, List.mem_append, List.mem_append] at h
  rcases h with hleading | hinner | htrailing
  · exact absurd hleading (nul_notMem_of_isParenthesis (isParenthesis_of_mem_leading cs))
  · exact hinner
  · exact absurd htrailing (nul_notMem_of_isParenthesis (isParenthesis_of_mem_trailing cs))

theorem parenthesis_eq_opening {c : Char} (h : Token.parenthesis c = .opening) : c = '(' := by
  unfold Token.parenthesis at h
  split at h
  · assumption
  · cases h

theorem parenthesis_eq_closing {c : Char} (hc : Token.isParenthesis c = true) (h : Token.parenthesis c = .closing) : c = ')' := by
  rcases Token.eq_of_isParenthesis hc with rfl | rfl
  · cases h
  · rfl

/-- A run of one parenthesis has its token as often as it is long, and no other. -/
theorem count_map_parenthesis {run : List Char} {d : Char} (h : ∀ c ∈ run, c = d) (l : Lexeme) :
    (run.map Token.parenthesis).count l = if Token.parenthesis d = l then run.length else 0 := by
  have hrun : run.map Token.parenthesis = List.replicate run.length (Token.parenthesis d) := by
    rw [List.eq_replicate_iff.2 ⟨rfl, h⟩, List.map_replicate, List.length_replicate]
  rw [hrun, List.count_replicate]
  simp

theorem mem_of_mem_trimParentheses {cs : List Char} {c : Char} (h : c ∈ trimParentheses cs) : c ∈ cs := by
  rw [← leading_append_trailing cs]
  exact List.mem_append_right _ (List.mem_append_left _ h)

/-- A condition begins with opening parentheses only. -/
theorem eq_opening_of_mem_leading {cs : List Char} {c : Condition} (h : Condition.parse (String.ofList cs) = .ok c) :
    Token.lexemes (Token.readable cs) = (leading cs).map Token.parenthesis ++
      Token.lexemes (Token.readable (trimParentheses cs ++ trailing cs)) ∧ ∀ d ∈ leading cs, d = '(' := by
  have hrun := isParenthesis_of_mem_leading cs
  have hlexemes := Token.lexemes_append_left hrun (Token.readable (trimParentheses cs ++ trailing cs))
  rw [← Token.readable_append_left (nul_notMem_of_isParenthesis hrun), leading_append_trailing] at hlexemes
  refine ⟨hlexemes, ?_⟩
  obtain ⟨htight, -⟩ := Condition.lexemes_of_parse h
  rw [hlexemes] at htight
  intro d hd
  have hall := htight.eq_opening fun l hl => Token.eq_of_mem_map_parenthesis hl
  exact parenthesis_eq_opening (hall _ (List.mem_map_of_mem hd))

/-- A condition without NUL characters ends with closing parentheses only. -/
theorem eq_closing_of_mem_trailing {cs : List Char} {c : Condition} (hnul : '\x00' ∉ cs)
    (h : Condition.parse (String.ofList cs) = .ok c) :
    Token.lexemes cs = (leading cs).map Token.parenthesis ++
      (Token.lexemes (trimParentheses cs) ++ (trailing cs).map Token.parenthesis) ∧ ∀ d ∈ trailing cs, d = ')' := by
  obtain ⟨hlexemes, -⟩ := eq_opening_of_mem_leading h
  obtain ⟨htight, -, hopen⟩ := Condition.lexemes_of_parse h
  have hnul' : '\x00' ∉ trimParentheses cs ++ trailing cs := by
    intro hmem
    refine hnul ?_
    rw [← leading_append_trailing cs]
    exact List.mem_append_right _ hmem
  have hrun := isParenthesis_of_mem_trailing cs
  rw [Token.readable_eq_self hnul, Token.readable_eq_self hnul'] at hlexemes
  rw [Token.readable_eq_self hnul, hlexemes] at htight hopen
  rw [List.mem_append, not_or] at hopen
  rw [Token.lexemes_append_right hrun hopen.2] at hlexemes htight
  refine ⟨hlexemes, ?_⟩
  intro d hd
  rw [← List.append_assoc] at htight
  have hall := htight.eq_closing fun l hl => Token.eq_of_mem_map_parenthesis hl
  exact parenthesis_eq_closing (hrun d hd) (hall _ (List.mem_map_of_mem hd))

/-- When the parentheses that are cut off can be replaced by one pair, as many were cut off at one end as at the other. -/
theorem length_leading_eq_trailing {cs : List Char} {c c' : Condition} (hnul : '\x00' ∉ cs)
    (h : Condition.parse (String.ofList cs) = .ok c)
    (h' : Condition.parse (String.ofList ('(' :: trimParentheses cs ++ [')'])) = .ok c') :
    (leading cs).length = (trailing cs).length := by
  obtain ⟨-, hopening⟩ := eq_opening_of_mem_leading h
  obtain ⟨hlexemes, hclosing⟩ := eq_closing_of_mem_trailing hnul h
  obtain ⟨-, hbalanced, -⟩ := Condition.lexemes_of_parse h
  obtain ⟨-, hbalanced', hopen⟩ := Condition.lexemes_of_parse h'
  have hnul' : '\x00' ∉ '(' :: trimParentheses cs ++ [')'] := by
    simpa using fun hmem => hnul (mem_of_mem_trimParentheses hmem)
  rw [Token.readable_eq_self hnul'] at hbalanced' hopen
  have htotal := hbalanced.total
  have htotal' := hbalanced'.total
  rw [Token.readable_eq_self hnul, hlexemes] at htotal
  rw [Token.lexemes_wrapped hopen] at htotal'
  have hparts : (leading cs).length + (Token.lexemes (trimParentheses cs)).count .opening =
      (Token.lexemes (trimParentheses cs)).count .closing + (trailing cs).length := by
    simpa [count_map_parenthesis hopening, count_map_parenthesis hclosing, Token.parenthesis] using htotal
  have hinner : (Token.lexemes (trimParentheses cs)).count .opening = (Token.lexemes (trimParentheses cs)).count .closing := by
    simpa using htotal'
  omega

/-- Where a NUL character ends the text, one parenthesis was cut off at its beginning. -/
theorem length_leading_eq_one {cs : List Char} {c c' : Condition} (hnul : '\x00' ∈ cs)
    (h : Condition.parse (String.ofList cs) = .ok c)
    (h' : Condition.parse (String.ofList ('(' :: trimParentheses cs ++ [')'])) = .ok c') : (leading cs).length = 1 := by
  obtain ⟨hlexemes, hopening⟩ := eq_opening_of_mem_leading h
  obtain ⟨-, hbalanced, -⟩ := Condition.lexemes_of_parse h
  obtain ⟨-, hbalanced', -⟩ := Condition.lexemes_of_parse h'
  have hinner := nul_mem_trimParentheses hnul
  have hfirst : ∀ d ∈ ['('], Token.isParenthesis d = true := by simp [Token.isParenthesis]
  have hlexemes' := Token.lexemes_append_left hfirst (Token.readable (trimParentheses cs))
  have htotal := hbalanced.total
  have htotal' := hbalanced'.total
  rw [hlexemes, Token.readable_append_right hinner] at htotal
  rw [Token.readable_wrapped hinner, ← List.singleton_append, hlexemes'] at htotal'
  have hbefore : (leading cs).length + (Token.lexemes (Token.readable (trimParentheses cs))).count .opening =
      (Token.lexemes (Token.readable (trimParentheses cs))).count .closing := by
    simpa [count_map_parenthesis hopening, Token.parenthesis] using htotal
  have hone : (Token.lexemes (Token.readable (trimParentheses cs))).count .opening + 1 =
      (Token.lexemes (Token.readable (trimParentheses cs))).count .closing := by
    simpa [Token.parenthesis] using htotal'
  omega

theorem leading_eq_nil {cs : List Char} (h : ∀ d ∈ leading cs, d = '(') (hfirst : cs.head? ≠ some '(') : leading cs = [] := by
  cases hleading : leading cs with
  | nil => rfl
  | cons d run =>
    have hd := h d (hleading ▸ List.mem_cons_self)
    have hcs := leading_append_trailing cs
    rw [hleading, hd] at hcs
    exact absurd (congrArg List.head? hcs.symm) hfirst

theorem trailing_eq_nil {cs : List Char} (h : ∀ d ∈ trailing cs, d = ')') (hlast : cs.getLast? ≠ some ')') : trailing cs = [] := by
  rcases List.eq_nil_or_concat' (trailing cs) with hnil | ⟨run, d, htrailing⟩
  · exact hnil
  · have hd := h d (by rw [htrailing]; exact List.mem_append_right _ (List.mem_singleton_self d))
    have hcs := leading_append_trailing cs
    rw [htrailing, hd, ← List.append_assoc, ← List.append_assoc] at hcs
    refine absurd ?_ hlast
    rw [← hcs, List.getLast?_concat]

/-- Without parentheses at its ends a text begins and ends with none. -/
theorem ends_of_nil {cs : List Char} (hleading : leading cs = []) (htrailing : trailing cs = []) :
    cs.head? ≠ some '(' ∧ cs.getLast? ≠ some ')' := by
  have hdrop : cs.dropWhile Token.isParenthesis = cs := by
    have hcs := List.takeWhile_append_dropWhile (p := Token.isParenthesis) (l := cs)
    rwa [show cs.takeWhile Token.isParenthesis = [] from hleading, List.nil_append] at hcs
  constructor
  · intro hfirst
    obtain ⟨rest, rfl⟩ := List.head?_eq_some_iff.1 hfirst
    rw [leading, List.takeWhile_cons_of_pos rfl] at hleading
    cases hleading
  · intro hlast
    obtain ⟨rest, rfl⟩ := List.getLast?_eq_some_iff.1 hlast
    rw [trailing, hdrop, List.rtakeWhile_concat_pos _ _ _ rfl] at htrailing
    simp at htrailing

/-! ## Proposals -/

/-- The line that is proposed for a branch whose condition is not in parentheses or whose colon is not in its place. -/
def proposal? : Issue → Option String
  | .wrapCondition condition => some ("if (" ++ condition ++ "):")
  | .ifNeedsColon condition => some ("if " ++ condition ++ ":")
  | .colonNotAfterCondition condition => some ("if " ++ condition ++ ":")
  | _ => none

/-- The condition of a branch as it is written: without the word `if`, a colon at the end, and the blanks around it. -/
def written (c : List Char) : List Char :=
  Text.strip (Text.dropLast? ':' (Text.strip ((Text.after? "if".toList c).getD c)))

/-- The condition that is read off the line of a branch. -/
def conditionOf? (line : String) : Option (Except Malformed Condition) :=
  match Form.ofText line.toList with
  | .branch arg => some (Condition.parse (Program.condition 1 1 arg).text)
  | _ => none

/-- The line passes the check, and the condition that is read off it has the given operator and trees up to columns. -/
structure Keeps (line : String) (condition : Condition) : Prop where
  accepted : ifIssue line.toList = none
  same : ∃ c, conditionOf? line = some (.ok c) ∧ c.bare = condition.bare

theorem append_quoted (reason first condition last : String) : reason ++ "; write '" ++ (first ++ condition ++ last) ++ "'" =
    reason ++ ("; write '" ++ first) ++ condition ++ (last ++ "'") := by
  simp only [String.append_assoc]

/-- The message of an issue with a proposal ends with the proposed line. -/
theorem message_of_proposal? {issue : Issue} {line : String} (h : proposal? issue = some line) :
    ∃ reason, issue.message = reason ++ "; write '" ++ line ++ "'" := by
  cases issue with
  | wrapCondition condition =>
    obtain rfl := Option.some.inj h
    refine ⟨"wrap the condition in parentheses", ?_⟩
    change "wrap the condition in parentheses; write 'if (" ++ condition ++ "):'" = _
    rw [append_quoted]
    simp only [String.reduceAppend]
  | ifNeedsColon condition =>
    obtain rfl := Option.some.inj h
    refine ⟨"the 'if' line must end with ':'", ?_⟩
    change "the 'if' line must end with ':'; write 'if " ++ condition ++ ":'" = _
    rw [append_quoted]
    simp only [String.reduceAppend]
  | colonNotAfterCondition condition =>
    obtain rfl := Option.some.inj h
    refine ⟨"put ':' directly after ')'", ?_⟩
    change "put ':' directly after ')'; write 'if " ++ condition ++ ":'" = _
    rw [append_quoted]
    simp only [String.reduceAppend]
  | _ => cases h

/-- What a proposal is made of. -/
theorem proposal_cases {c : List Char} {issue : Issue} {line : String} (hissue : ifIssue c = some issue)
    (hline : proposal? issue = some line) :
    (issue = .wrapCondition (String.ofList (trimParentheses (written c))) ∧
      ((written c).head? ≠ some '(' ∨ (written c).getLast? ≠ some ')')) ∨
    ((∀ condition, issue ≠ .wrapCondition condition) ∧ line = "if " ++ String.ofList (written c) ++ ":" ∧
      (written c).head? = some '(' ∧ (written c).getLast? = some ')') := by
  have hnone : ∀ other, proposal? other = none → issue ≠ other := by
    rintro other hother rfl
    rw [hother] at hline
    cases hline
  unfold ifIssue at hissue
  split at hissue
  · exact absurd (Option.some.inj hissue).symm (hnone _ rfl)
  dsimp only at hissue
  split at hissue
  · exact absurd (Option.some.inj hissue).symm (hnone _ rfl)
  split at hissue
  · rename_i hends
    exact Or.inl ⟨(Option.some.inj hissue).symm, hends⟩
  rename_i hends
  rw [not_or, not_not, not_not] at hends
  have hcolon : ∀ issue', issue' = issue → (∀ condition, issue' ≠ .wrapCondition condition) →
      proposal? issue' = some ("if " ++ String.ofList (written c) ++ ":") →
      (∀ condition, issue ≠ .wrapCondition condition) ∧ line = "if " ++ String.ofList (written c) ++ ":" ∧
        (written c).head? = some '(' ∧ (written c).getLast? = some ')' := by
    rintro _ rfl hwrap hproposal
    exact ⟨hwrap, Option.some.inj (hline.symm.trans hproposal), hends⟩
  split at hissue
  · exact Or.inr (hcolon _ (Option.some.inj hissue) (by simp) rfl)
  split at hissue
  · exact Or.inr (hcolon _ (Option.some.inj hissue) (by simp) rfl)
  split at hissue
  · exact absurd (Option.some.inj hissue).symm (hnone _ rfl)
  split at hissue
  · exact absurd (Option.some.inj hissue).symm (hnone _ rfl)
  split at hissue
  · exact absurd (Option.some.inj hissue).symm (hnone _ rfl)
  split at hissue
  · exact absurd (Option.some.inj hissue).symm (hnone _ rfl)
  · cases hissue

/-- The condition of a proposed line stands in its parentheses. -/
theorem conditionOf?_wrapped (cs : List Char) :
    conditionOf? ("if (" ++ String.ofList cs ++ "):") = some (Condition.parse (String.ofList ('(' :: cs ++ [')']))) := by
  have htext : ("if (" ++ String.ofList cs ++ "):").toList = "if ".toList ++ ('(' :: cs ++ [')'] ++ [':']) := by simp
  rw [conditionOf?, htext, Form.ofText_branch]
  simp only [Program.condition, Script.strip_parenthesized_colon, Script.endsWith_colon, if_true, List.dropLast_concat,
    Script.strip_parenthesized]

/-- A line with a condition in parentheses keeps a condition when the parentheses make it that condition again and no second pair is
seen between them. -/
theorem keeps_iff {cs : List Char} {condition : Condition} : Keeps ("if (" ++ String.ofList cs ++ "):") condition ↔
    isWrapped (Text.strip cs) = false ∧
      ∃ c, Condition.parse (String.ofList ('(' :: cs ++ [')'])) = .ok c ∧ c.bare = condition.bare := by
  have htext : ("if (" ++ String.ofList cs ++ "):").toList = "if (".toList ++ (cs ++ "):".toList) := by simp
  constructor
  · rintro ⟨haccepted, c, hc, hbare⟩
    rw [htext, Script.ifIssue_eq_none_iff] at haccepted
    rw [conditionOf?_wrapped] at hc
    exact ⟨haccepted.2.1, c, Option.some.inj hc, hbare⟩
  · rintro ⟨hopen, c, hc, hbare⟩
    obtain ⟨hfilled, hcompares, -⟩ := condition_of_wrapped hc
    refine ⟨?_, c, ?_, hbare⟩
    · rw [htext, Script.ifIssue_eq_none_iff]
      exact ⟨hfilled, hopen, hcompares⟩
    · rw [conditionOf?_wrapped, hc]

/-- A text that begins and ends with the parentheses of a pair has the rest between them. -/
theorem wrapped_inside {cs : List Char} (hfirst : cs.head? = some '(') (hlast : cs.getLast? = some ')') :
    '(' :: inside cs ++ [')'] = cs := by
  obtain ⟨rest, rfl⟩ := List.head?_eq_some_iff.1 hfirst
  cases rest with
  | nil => exact absurd hlast (by decide)
  | cons d rest =>
    rw [List.getLast?_cons_cons] at hlast
    obtain ⟨inner, hinner⟩ := List.getLast?_eq_some_iff.1 hlast
    rw [inside, List.drop_one, List.tail_cons, hinner, List.dropLast_concat, List.cons_append]

/-- A proposed colon keeps the condition unless a second pair of parentheses is seen around it. -/
theorem keeps_colon_iff {cs : List Char} {condition : Condition} (hfirst : cs.head? = some '(') (hlast : cs.getLast? = some ')')
    (h : Condition.parse (String.ofList cs) = .ok condition) :
    Keeps ("if " ++ String.ofList cs ++ ":") condition ↔ isWrapped (Text.strip (inside cs)) = false := by
  have hcs := wrapped_inside hfirst hlast
  have hline : "if " ++ String.ofList cs ++ ":" = "if (" ++ String.ofList (inside cs) ++ "):" := by
    have hcolon : cs ++ [':'] = '(' :: (inside cs ++ [')', ':']) := by
      conv_lhs => rw [← hcs]
      simp
    apply String.toList_injective
    simp [hcolon]
  rw [hline, keeps_iff, hcs]
  exact and_iff_left ⟨condition, h, rfl⟩

/-- Around a condition without NUL characters, the proposed parentheses keep it exactly when none were there. -/
theorem keeps_wrap_iff {cs : List Char} {condition : Condition} (hnul : '\x00' ∉ cs) (hstrip : Text.strip cs = cs)
    (h : Condition.parse (String.ofList cs) = .ok condition) (hends : cs.head? ≠ some '(' ∨ cs.getLast? ≠ some ')') :
    Keeps ("if (" ++ String.ofList (trimParentheses cs) ++ "):") condition ↔ cs.head? ≠ some '(' ∧ cs.getLast? ≠ some ')' := by
  obtain ⟨-, hopening⟩ := eq_opening_of_mem_leading h
  obtain ⟨-, hclosing⟩ := eq_closing_of_mem_trailing hnul h
  rw [keeps_iff]
  constructor
  · rintro ⟨-, c, hc, -⟩
    have hlength := length_leading_eq_trailing hnul h hc
    rcases hends with hfirst | hlast
    · have hleading := leading_eq_nil hopening hfirst
      rw [hleading, List.length_nil] at hlength
      exact ends_of_nil hleading (List.length_eq_zero_iff.1 hlength.symm)
    · have htrailing := trailing_eq_nil hclosing hlast
      rw [htrailing, List.length_nil] at hlength
      exact ends_of_nil (List.length_eq_zero_iff.1 hlength) htrailing
  · rintro ⟨hfirst, hlast⟩
    have htrim := leading_append_trailing cs
    rw [leading_eq_nil hopening hfirst, trailing_eq_nil hclosing hlast, List.nil_append, List.append_nil] at htrim
    rw [htrim]
    refine ⟨?_, Condition.exists_parse_wrapped hnul h ?_⟩
    · rw [hstrip]
      unfold isWrapped
      split
      · exact absurd rfl hfirst
      · rfl
    · cases cs with
      | nil => simp [Token.lexemes, Token.lexFrom]
      | cons c cs =>
        intro hopen
        have hspace := Token.isSpace_eq_false (Text.isBlank_head_strip hstrip)
        exact hfirst (congrArg some (Token.eq_of_lexemes_head hspace hopen))

/-- Where a NUL character ends a condition, the proposed parentheses keep it when one opening parenthesis was there. -/
theorem keeps_wrap_nul_iff {cs : List Char} {condition : Condition} (hnul : '\x00' ∈ cs)
    (h : Condition.parse (String.ofList cs) = .ok condition) :
    Keeps ("if (" ++ String.ofList (trimParentheses cs) ++ "):") condition ↔
      leading cs = ['('] ∧ isWrapped (Text.strip (trimParentheses cs)) = false := by
  obtain ⟨-, hopening⟩ := eq_opening_of_mem_leading h
  have hinner := nul_mem_trimParentheses hnul
  rw [keeps_iff, and_comm]
  refine and_congr_left fun _ => ?_
  constructor
  · rintro ⟨c, hc, -⟩
    have hlength := length_leading_eq_one hnul h hc
    rw [List.eq_replicate_iff.2 ⟨hlength, hopening⟩]
    rfl
  · intro hleading
    have hreadable : Token.readable ('(' :: trimParentheses cs ++ [')']) = Token.readable cs := by
      have hcs := congrArg Token.readable (leading_append_trailing cs)
      rw [hleading, Token.readable_append_left (by decide), Token.readable_append_right hinner] at hcs
      rw [Token.readable_wrapped hinner, ← hcs]
      rfl
    exact ⟨condition, by rw [Condition.parse_congr hreadable, h], rfl⟩

/-- A line that is proposed for a branch is the end of the message. When the condition as it is written can be read, a proposed colon
keeps it unless the check sees a second pair of parentheses around it, which takes a string literal with two backslashes in a row. The
proposed parentheses keep it exactly when it neither begins nor ends with one. A NUL character ends what is read of a condition, and
then they keep it when one opening parenthesis was cut off and put back. -/
theorem proposals_keep_conditions {c : List Char} {issue : Issue} {line : String} {condition : Condition}
    (hissue : ifIssue c = some issue) (hline : proposal? issue = some line)
    (hcondition : Condition.parse (String.ofList (written c)) = .ok condition) :
    (∃ reason, issue.message = reason ++ "; write '" ++ line ++ "'") ∧
    ((∃ inner, issue = .wrapCondition inner) →
      ('\x00' ∉ written c → (Keeps line condition ↔ (written c).head? ≠ some '(' ∧ (written c).getLast? ≠ some ')')) ∧
      ('\x00' ∈ written c → (Keeps line condition ↔
        leading (written c) = ['('] ∧ isWrapped (Text.strip (trimParentheses (written c))) = false))) ∧
    ((∀ inner, issue ≠ .wrapCondition inner) →
      (Keeps line condition ↔ isWrapped (Text.strip (inside (written c))) = false) ∧
      (Legible (written c) → Keeps line condition)) := by
  refine ⟨message_of_proposal? hline, ?_, ?_⟩
  · rintro ⟨inner, rfl⟩
    rcases proposal_cases hissue hline with ⟨hwrap, hends⟩ | ⟨hcolon, -⟩
    · obtain rfl := Issue.wrapCondition.inj hwrap
      obtain rfl := Option.some.inj hline
      exact ⟨fun hnul => keeps_wrap_iff hnul (Text.strip_strip _) hcondition hends,
        fun hnul => keeps_wrap_nul_iff hnul hcondition⟩
    · exact absurd rfl (hcolon inner)
  · intro hcolon
    rcases proposal_cases hissue hline with ⟨hwrap, -⟩ | ⟨-, rfl, hfirst, hlast⟩
    · exact absurd hwrap (hcolon _)
    · have hkeeps := keeps_colon_iff hfirst hlast hcondition
      refine ⟨hkeeps, fun hlegible => hkeeps.2 ?_⟩
      have hcs := wrapped_inside hfirst hlast
      rw [← hcs] at hcondition
      refine (condition_of_wrapped hcondition).2.2 (hlegible.of_infix ?_)
      exact ⟨['('], [')'], hcs⟩

/-- A comparison without parentheses is proposed in parentheses. -/
theorem proposals_keep_conditions_names :
    ifIssue "if A < B".toList = some (.wrapCondition "A < B") ∧ Keeps "if (A < B):" ⟨3, .lt, .name 1 "A", .name 5 "B"⟩ := by
  have hissue : ifIssue "if A < B".toList = some (.wrapCondition "A < B") := by decide
  have hwritten : written "if A < B".toList = "A < B".toList := by decide
  have hcondition : Condition.parse (String.ofList "A < B".toList) = .ok ⟨3, .lt, .name 1 "A", .name 5 "B"⟩ := by
    refine Condition.parse_of_spells (s := ⟨[⟨.name "A", ⟨1, 1⟩⟩], .lt, ⟨1, 3⟩, [⟨.name "B", ⟨1, 5⟩⟩]⟩) (by decide +kernel) ?_
    refine ⟨rfl, rfl, .single ?_, .single ?_⟩
    · exact .name (t := ⟨.name "A", ⟨1, 1⟩⟩) rfl
    · exact .name (t := ⟨.name "B", ⟨1, 5⟩⟩) rfl
  obtain ⟨-, hwrap, -⟩ := proposals_keep_conditions hissue rfl (by rw [hwritten]; exact hcondition)
  obtain ⟨hkeeps, -⟩ := hwrap ⟨_, rfl⟩
  rw [hwritten] at hkeeps
  exact ⟨hissue, (hkeeps (by decide)).2 ⟨by decide, by decide⟩⟩

/-- A condition that begins with a parenthesis and does not end with one loses it, and the proposed line cannot be read. -/
theorem proposals_lose_parentheses :
    ifIssue "if (A) < B:".toList = some (.wrapCondition "A) < B") ∧
      Condition.parse (String.ofList (written "if (A) < B:".toList)) = .ok ⟨5, .lt, .group 1 (.name 2 "A"), .name 7 "B"⟩ ∧
      (∃ m, conditionOf? "if (A) < B):" = some (.error m)) ∧
      ¬ Keeps "if (A) < B):" ⟨5, .lt, .group 1 (.name 2 "A"), .name 7 "B"⟩ := by
  have hwritten : written "if (A) < B:".toList = "(A) < B".toList := by decide
  have hunread : ∃ m, conditionOf? "if (A) < B):" = some (.error m) := by
    rw [show conditionOf? "if (A) < B):" = some (Condition.parse (String.ofList "(A) < B)".toList)) from
      conditionOf?_wrapped "A) < B".toList]
    cases hparse : Condition.parse (String.ofList "(A) < B)".toList) with
    | error m => exact ⟨m, rfl⟩
    | ok c =>
      have htotal := (Condition.lexemes_of_parse hparse).2.1.total
      exact absurd htotal (by decide +kernel)
  refine ⟨by decide, ?_, hunread, ?_⟩
  · rw [hwritten]
    refine Condition.parse_of_spells
      (s := ⟨[⟨.opening, ⟨1, 1⟩⟩, ⟨.name "A", ⟨1, 2⟩⟩, ⟨.closing, ⟨1, 3⟩⟩], .lt, ⟨1, 5⟩, [⟨.name "B", ⟨1, 7⟩⟩]⟩) (by decide +kernel) ?_
    refine ⟨rfl, rfl, .single ?_, .single ?_⟩
    · exact .group (t := ⟨.opening, ⟨1, 1⟩⟩) (u := ⟨.closing, ⟨1, 3⟩⟩) rfl (.single (.name (t := ⟨.name "A", ⟨1, 2⟩⟩) rfl)) rfl
    · exact .name (t := ⟨.name "B", ⟨1, 7⟩⟩) rfl
  · rintro ⟨-, c, hc, -⟩
    obtain ⟨m, hm⟩ := hunread
    rw [hm] at hc
    cases hc

end Stepwise.Check
