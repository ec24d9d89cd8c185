import Stepwise.Proofs.Commands
import Stepwise.Proofs.Lines

/-!
# Lines of an accepted text

The check cuts a text into lines and makes a statement of each; the reader starts again from the same lines. A `Mark` is a line
of an accepted text together with its statement and with what the check found out about the two, so that later proofs can
follow both at once.
-/

namespace Stepwise

namespace Check

/-! ## The lines that the check looks at -/

/-- Cutting off the empty lines at both ends leaves what stands between them. -/
theorem trimEmpty_between (ls : List Line) :
    ∃ before after, ls = before ++ trimEmpty ls ++ after ∧ ∀ l ∈ before ++ after, l.text = [] := by
  refine ⟨ls.takeWhile fun l => l.text.isEmpty,
    (((ls.dropWhile fun l => l.text.isEmpty).reverse.takeWhile fun l => l.text.isEmpty)).reverse, ?_, ?_⟩
  · rw [List.append_assoc, trimEmpty, ← List.reverse_append, List.takeWhile_append_dropWhile, List.reverse_reverse,
      List.takeWhile_append_dropWhile]
  · intro l hl
    rcases List.mem_append.1 hl with hl | hl
    · simpa using List.mem_takeWhile_imp hl
    · simpa using List.mem_takeWhile_imp (List.mem_reverse.1 hl)

/-- A text that can be cut into lines: empty lines, the lines, and empty lines again; none of the lines is empty or has a
tab. -/
theorem load_eq_ok {s : String} {ls : List Line} (h : load s = .ok ls) :
    (∃ before after, sourceLines s = before ++ ls ++ after ∧ ∀ l ∈ before ++ after, l.text = []) ∧
      ∀ l ∈ ls, l.text ≠ [] ∧ '\t' ∉ l.text := by
  unfold load at h
  split at h
  · cases h
  · split at h
    · cases h
    · rename_i htab
      simp only at h
      split at h
      · cases h
      · rename_i hfind
        obtain rfl := Except.ok.inj h
        have hnotab : '\t' ∉ s.toList := by
          unfold tabLine? at htab
          split at htab
          · cases htab
          · rename_i hc
            simpa using hc
        refine ⟨trimEmpty_between _, fun l hl => ⟨?_, fun ht => ?_⟩⟩
        · have := List.find?_eq_none.1 hfind l hl
          simpa using this
        · obtain ⟨before, after, hsource, _⟩ := trimEmpty_between (sourceLines s)
          have hmem : l ∈ sourceLines s := by
            rw [hsource]
            exact List.mem_append_left _ (List.mem_append_right _ hl)
          rcases mem_of_mem_sourceLines hmem ht with ht | ht
          · exact hnotab ht
          · exact absurd ht (by decide)
/-- A line of an accepted text and the statement that the check makes of it; `first` is the line of the first step. -/
structure Mark (first : Nat) where
  line : Line
  statement : Statement
  filled : line.text ≠ []
  noTab : '\t' ∉ line.text
  read : Check.statement line = .ok statement
  passes : Passes statement.head.isSome (statement.head.isSome && statement.line == first) statement.content
    statement.content

/-- The statements of lines belong to the lines one by one. -/
theorem statements_eq_ok {ls : List Line} {ss : List Statement} (h : statements ls = .ok ss) :
    List.Forall₂ (fun l s => statement l = .ok s) ls ss := by
  induction ls generalizing ss with
  | nil =>
    obtain rfl := Except.ok.inj h
    exact List.Forall₂.nil
  | cons l ls ih =>
    unfold statements at h
    split at h
    · cases h
    · rename_i s hs
      split at h
      · cases h
      · split at h
        · cases h
        · rename_i rest hrest
          obtain rfl := Except.ok.inj h
          exact List.Forall₂.cons hs (ih hrest)

/-- Contents without a problem are commands without an issue. -/
theorem contents_eq_none {first : Nat} {ss : List Statement} (h : contents first ss = none) :
    ∀ s ∈ ss, contentIssue s.head.isSome (s.head.isSome && s.line == first) s.content = none := by
  induction ss with
  | nil => intro s hs; cases hs
  | cons t ts ih =>
    unfold contents at h
    split at h
    · cases h
    · rename_i hissue
      intro s hs
      rcases List.mem_cons.1 hs with rfl | hs
      · exact hissue
      · exact ih h s hs

/-- The lines and statements of an accepted text, side by side. -/
theorem exists_marks {first : Nat} {ls : List Line} {ss : List Statement} (hread : statements ls = .ok ss)
    (hlines : ∀ l ∈ ls, l.text ≠ [] ∧ '\t' ∉ l.text) (hcontents : contents first ss = none) :
    ∃ ms : List (Mark first), ms.map Mark.line = ls ∧ ms.map Mark.statement = ss := by
  have hissues := contents_eq_none hcontents
  clear hcontents
  have hpairs := statements_eq_ok hread
  clear hread
  induction hpairs with
  | nil => exact ⟨[], rfl, rfl⟩
  | cons hs hrest ih =>
    rename_i l s ls ss
    obtain ⟨ms, rfl, rfl⟩ := ih (fun l hl => hlines l (List.mem_cons_of_mem _ hl))
      (fun s hs => hissues s (List.mem_cons_of_mem _ hs))
    obtain ⟨hfilled, htab⟩ := hlines l List.mem_cons_self
    exact ⟨⟨l, s, hfilled, htab, hs, passes_of_contentIssue_none (hissues s List.mem_cons_self)⟩ :: ms, rfl, rfl⟩

/-! ## What a statement knows about its line -/

/-- A line in the exact form of a step, taken apart. -/
theorem exactStep?_eq_some {cs digits content : List Char} (h : exactStep? cs = some (digits, content)) :
    Text.isNumeral digits = true ∧
      Program.header? cs = some ⟨digits, 5 + digits.length + 1 + 1 + 1, Text.strip content⟩ := by
  unfold exactStep? at h
  split at h
  · cases h
  · rename_i rest hrest
    simp only at h
    split at h
    · rename_i c tail hdrop
      split at h
      · cases h
      · rename_i hc
        obtain ⟨rfl, rfl⟩ := Prod.mk.inj (Option.some.inj h)
        simp only [Bool.or_eq_true, not_or, Bool.not_eq_true] at hc
        constructor
        · simp only [Text.isNumeral, hc.1, Bool.not_false, Bool.true_and, List.all_eq_true]
          exact fun d hd => List.mem_takeWhile_imp hd
        · -- after the colon the reader drops the one blank that the check asks for
          have hbody : Program.body? (' ' :: c :: tail) = some (1, c :: tail) := by
            simp [Program.body?, hc.2, show Text.isAsciiBlank ' ' = true from rfl]
          simp only [Program.header?, hrest, hdrop, hc.1, Bool.false_eq_true, if_false, hbody, Option.map_some]
    · cases h

variable {first : Nat} {m : Mark first}

/-- The statement of a line has the number of the line. -/
theorem Mark.statement_line (m : Mark first) : m.statement.line = m.line.number := by
  have h := m.read
  unfold Check.statement at h
  split at h
  · rw [← Except.ok.inj h]
  · split at h
    · rw [← Except.ok.inj h]
    · cases h

/-- A step begins its line; the reader finds the number that the check found, and the command without the blanks around it. -/
theorem Mark.of_head {h : Head} (hm : m.statement.head = some h) :
    isIndented m.line.text = false ∧ Text.isNumeral h.digits = true ∧ h.number = stepNumber h.digits ∧
      Program.header? m.line.text = some ⟨h.digits, 5 + h.digits.length + 1 + 1 + 1, Text.strip m.statement.content⟩ := by
  have hr := m.read
  unfold Check.statement at hr
  split at hr
  · rw [← Except.ok.inj hr] at hm
    cases hm
  · rename_i hind
    split at hr
    · rename_i digits content hx
      obtain ⟨hnum, hhead⟩ := exactStep?_eq_some hx
      rw [← Except.ok.inj hr] at hm ⊢
      obtain rfl := Option.some.inj hm
      exact ⟨by simpa using hind, hnum, rfl, hhead⟩
    · cases hr

/-- Without tabs, the indentation of a line is spaces. -/
theorem dropWhile_space {cs : List Char} (h : '\t' ∉ cs) : cs.dropWhile (· == ' ') = cs.dropWhile Text.isIndent := by
  induction cs with
  | nil => rfl
  | cons c cs ih =>
    rw [List.mem_cons, not_or] at h
    obtain ⟨hc, hcs⟩ := h
    have hsame : (c == ' ') = Text.isIndent c := by simp [Text.isIndent, Ne.symm hc]
    simp only [List.dropWhile_cons, hsame, ih hcs]

/-- A line of a block is indented; the check and the reader see the same command after its indentation. -/
theorem Mark.of_head_none (hm : m.statement.head = none) :
    m.statement.indent = indentation m.line.text ∧ m.statement.content = m.line.text.dropWhile Text.isIndent := by
  have hr := m.read
  unfold Check.statement at hr
  split at hr
  · rw [← Except.ok.inj hr]
    exact ⟨rfl, dropWhile_space m.noTab⟩
  · split at hr
    · rw [← Except.ok.inj hr] at hm
      cases hm
    · cases hr

end Check

end Stepwise
