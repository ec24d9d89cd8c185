import Stepwise.Check.Rules
import Stepwise.Proofs.ScriptLines

/-!
# Writing a script and reading it back

The check accepts the text of every script, and the reader finds the script in it. The reader's part is `parse_text`; this module
goes through the rules of the check one by one, over the statements that the lines of a script become.
-/

namespace Stepwise

namespace Script

/-! ## Statements -/

/-- The statement of a line. -/
def Placed.statement (n : Nat) : Placed → Check.Statement
  | step number c => ⟨n, some ⟨Text.digits number, number⟩, 0, c.text.toList⟩
  | item indent c => ⟨n, none, indent, c.text.toList⟩

/-- A statement has the command of its line. -/
theorem Placed.content_statement (w : Placed) (n : Nat) : (w.statement n).content = w.command.text.toList := by
  cases w with
  | step => rfl
  | item => rfl

/-- The statements of lines, the first of which has the given number. -/
def statementsOf (first : Nat) : List Placed → List Check.Statement
  | [] => []
  | w :: ws => w.statement first :: statementsOf (first + 1) ws

/-- The number of a step is within bounds, and an item is indented. -/
def Placed.Proper : Placed → Prop
  | step number _ => number ≤ 99
  | item indent _ => 0 < indent

/-- The check takes a line apart as it was written. -/
theorem Placed.statement_eq {w : Placed} (h : w.Proper) (n : Nat) :
    Check.statement ⟨n, w.text.toList⟩ = .ok (w.statement n) := by
  cases w with
  | step number c =>
    have hnumber : Check.stepNumber (Text.digits number) = number := by
      rw [Check.stepNumber, Text.numeralValue_digits]
      exact Nat.min_eq_left (le_greatestInt64 h)
    rw [Check.statement, isIndented_step, exactStep?_step]
    simp only [Bool.false_eq_true, if_false, hnumber, Placed.statement]
  | item indent c =>
    have hindented : isIndented (item indent c).text.toList = true := by
      obtain ⟨k, rfl⟩ := Nat.exists_eq_succ_of_ne_zero (Nat.ne_of_gt h)
      rw [Placed.toList_item, List.replicate_succ]
      rfl
    have htab : '\t' ∉ (item indent c).text.toList := fun hmem => ((item indent c).tidy.1 _ hmem).1 rfl
    rw [Check.statement, if_pos hindented, indentation_item, Check.dropWhile_space htab, dropWhile_item, Placed.statement]

/-- The statements of lines have the lines' commands. -/
theorem mem_statementsOf {ws : List Placed} {first : Nat} {s : Check.Statement} (h : s ∈ statementsOf first ws) :
    ∃ n, ∃ w ∈ ws, s = w.statement n := by
  induction ws generalizing first with
  | nil => cases h
  | cons w ws ih =>
    rcases List.mem_cons.1 h with rfl | h
    · exact ⟨first, w, List.mem_cons_self, rfl⟩
    · obtain ⟨n, v, hv, rfl⟩ := ih h
      exact ⟨n, v, List.mem_cons_of_mem w hv, rfl⟩

/-- The statements of lines, part by part. -/
theorem statementsOf_append (first : Nat) (vs ws : List Placed) :
    statementsOf first (vs ++ ws) = statementsOf first vs ++ statementsOf (first + vs.length) ws := by
  induction vs generalizing first with
  | nil => rfl
  | cons v vs ih =>
    rw [List.cons_append, statementsOf, ih, statementsOf, List.cons_append, List.length_cons, Nat.add_assoc, Nat.add_comm 1]

/-- The check makes statements of the lines of a script. -/
theorem statements_numberLines {ws : List Placed} (h : ∀ w ∈ ws, w.Proper) (first : Nat) :
    Check.statements (numberLines first (textsOf ws)) = .ok (statementsOf first ws) := by
  induction ws generalizing first with
  | nil => rfl
  | cons w ws ih =>
    have hlines : numberLines first (textsOf (w :: ws)) = ⟨first, w.text.toList⟩ :: numberLines (first + 1) (textsOf ws) := rfl
    rw [hlines, Check.statements, Placed.statement_eq (h w List.mem_cons_self)]
    simp only [Placed.content_statement, Command.typo?_eq_none, ih (fun v hv => h v (List.mem_cons_of_mem w hv)), statementsOf]

/-! ## The lines that the check works on -/

/-- The lines of steps are proper and hold commands and branches. -/
theorem of_mem_partLines {parts : List Part} {number : Nat} (hnumber : number + parts.length ≤ 100) {w : Placed}
    (h : w ∈ partLines number parts) : w.Proper ∧ w.command.Inner := by
  induction parts generalizing number with
  | nil => cases h
  | cons p ps ih =>
    rw [List.length_cons] at hnumber
    rcases List.mem_append.1 h with h | h
    · rcases List.mem_cons.1 h with rfl | h
      · have hle : number ≤ 99 := by omega
        cases p with
        | order o => exact ⟨hle, trivial⟩
        | branch c block filled => exact ⟨hle, trivial⟩
      · obtain ⟨n, c, rfl, hindent, hinner⟩ := mem_itemLines h
        exact ⟨Nat.lt_of_lt_of_le (blockColumn_pos _) hindent, hinner⟩
    · exact ih (by omega) h

/-- The lines of a script are its start, its stop and proper lines that hold commands and branches. -/
theorem of_mem_lines {s : Script} {w : Placed} (h : w ∈ s.lines) :
    w = .step 1 .start ∨ w = .step (s.parts.length + 2) .stop ∨ (w.Proper ∧ w.command.Inner) := by
  have hshort := s.short
  rcases List.mem_cons.1 h with rfl | h
  · exact Or.inl rfl
  · rcases List.mem_append.1 h with h | h
    · exact Or.inr (Or.inr (of_mem_partLines (by omega) h))
    · exact Or.inr (Or.inl (List.mem_singleton.1 h))

/-- Every line of a script is proper. -/
theorem proper_of_mem_lines {s : Script} {w : Placed} (h : w ∈ s.lines) : w.Proper := by
  have hshort := s.short
  rcases of_mem_lines h with rfl | rfl | ⟨hproper, _⟩
  · exact (by decide : 1 ≤ 99)
  · have hle : s.parts.length + 2 ≤ 99 := by omega
    exact hle
  · exact hproper

/-! ## Loading the text -/

/-- Empty lines behind a text are not part of it. -/
theorem trimEmpty_append {ls empties : List Line} (hfilled : ∀ l ∈ ls, l.text ≠ []) (hempty : ∀ l ∈ empties, l.text = [])
    (hne : ls ≠ []) : Check.trimEmpty (ls ++ empties) = ls := by
  have hlines : ∀ l ∈ ls, l.text.isEmpty = false := fun l hl => List.isEmpty_eq_false_iff.2 (hfilled l hl)
  have hfront : (ls ++ empties).dropWhile (fun l => l.text.isEmpty) = ls ++ empties := by
    obtain ⟨l, rest, rfl⟩ := List.exists_cons_of_ne_nil hne
    rw [List.cons_append, List.dropWhile_cons_of_neg (by simp [hlines l List.mem_cons_self])]
  have hback : (empties.reverse ++ ls.reverse).dropWhile (fun l => l.text.isEmpty) = ls.reverse := by
    refine (takeWhile_dropWhile_border ?_ ?_).2
    · intro l hl
      rw [hempty l (List.mem_reverse.1 hl)]
      rfl
    · intro l hl
      exact hlines l (List.mem_reverse.1 (List.mem_of_head? hl))
  rw [Check.trimEmpty, hfront, List.reverse_append, hback, List.reverse_reverse]

/-- The text of a script has no tab. -/
theorem tab_notMem_text (s : Script) (breaks : Nat) : '\t' ∉ (s.text breaks).toList := by
  intro hmem
  rw [text, String.toList_intercalate, List.map_append, List.map_map, List.map_replicate] at hmem
  rcases mem_intercalate hmem with heq | ⟨l, hl, hc⟩
  · cases heq
  · rcases List.mem_append.1 hl with hl | hl
    · obtain ⟨w, _, rfl⟩ := List.mem_map.1 hl
      exact (w.tidy.1 _ hc).1 rfl
    · rw [List.eq_of_mem_replicate hl] at hc
      cases hc

/-- No line of a script is empty. -/
theorem text_ne_nil {ws : List Placed} {first : Nat} {l : Line} (h : l ∈ numberLines first (textsOf ws)) : l.text ≠ [] := by
  obtain ⟨w, _, htext⟩ := List.mem_map.1 (text_mem_of_mem_numberLines h)
  obtain ⟨d, hlast, _⟩ := w.tidy.2
  intro hnil
  rw [htext, hnil] at hlast
  cases hlast

/-- The text of a script is not blank: it begins with a step. -/
theorem all_isBlank_text (s : Script) (breaks : Nat) : (s.text breaks).toList.all Text.isBlank = false := by
  have hfirst : ⟨1, (Placed.step 1 .start).text.toList⟩ ∈ sourceLines (s.text breaks) := by
    rw [sourceLines_text, numberLines_append]
    exact List.mem_append_left _ List.mem_cons_self
  have hletter : 's' ∈ (Placed.step 1 .start).text.toList := by
    rw [Placed.toList_step]
    exact List.mem_cons_self
  rcases mem_of_mem_sourceLines hfirst hletter with hmem | heq
  · rw [List.all_eq_false]
    exact ⟨'s', hmem, by decide⟩
  · cases heq

/-- The check loads the lines of a script from its text. -/
theorem load_text (s : Script) (breaks : Nat) : Check.load (s.text breaks) = .ok (numberLines 1 (textsOf s.lines)) := by
  have hlines : Check.trimEmpty (sourceLines (s.text breaks)) = numberLines 1 (textsOf s.lines) := by
    rw [sourceLines_text, numberLines_append]
    exact trimEmpty_append (fun l hl => text_ne_nil hl) (text_of_breaks _ breaks)
      (by simp [lines, linesOf, textsOf, numberLines])
  have htab : Check.tabLine? (s.text breaks).toList = none := by
    rw [Check.tabLine?, if_neg]
    simpa using s.tab_notMem_text breaks
  have hfind : (numberLines 1 (textsOf s.lines)).find? (fun l => l.text.isEmpty) = none := by
    rw [List.find?_eq_none]
    intro l hl
    simpa using text_ne_nil hl
  rw [Check.load, s.all_isBlank_text breaks, htab, hlines]
  simp only [Bool.false_eq_true, if_false, hfind]

/-- The check makes statements of the lines of a script. -/
theorem headers_lines (s : Script) : Check.headers (numberLines 1 (textsOf s.lines)) = .ok (statementsOf 1 s.lines) := by
  have hstep : ((numberLines 1 (textsOf s.lines)).all fun l => isIndented l.text) = false := by
    rw [List.all_eq_false]
    refine ⟨⟨1, (Placed.step 1 .start).text.toList⟩, List.mem_cons_self, ?_⟩
    rw [isIndented_step]
    decide
  rw [Check.headers, hstep]
  exact statements_numberLines (fun w hw => proper_of_mem_lines hw) 1

/-! ## The steps among the statements -/

/-- The head of a step as it is written. -/
def headOf (number : Nat) : Option Check.Head := some ⟨Text.digits number, number⟩

/-- Steps are found part by part. -/
theorem stepsOf_append (ss ts : List Check.Statement) : Check.stepsOf (ss ++ ts) = Check.stepsOf ss ++ Check.stepsOf ts :=
  List.filter_append ..

/-- There are no steps in a block. -/
theorem stepsOf_itemLines (indent : Nat) (items : List Item) (first : Nat) :
    Check.stepsOf (statementsOf first (itemLines indent items)) = [] := by
  rw [Check.stepsOf, List.filter_eq_nil_iff]
  intro s hs
  obtain ⟨n, w, hw, rfl⟩ := mem_statementsOf hs
  obtain ⟨k, c, rfl, _⟩ := mem_itemLines hw
  exact Bool.false_ne_true

/-- The steps of the lines of steps: one for each, with its number and its command. -/
theorem stepsOf_partLines (parts : List Part) (number first : Nat) :
    (Check.stepsOf (statementsOf first (partLines number parts))).map Check.Statement.head =
      (List.range' number parts.length).map headOf := by
  induction parts generalizing number first with
  | nil => rfl
  | cons p ps ih =>
    have hhere : Check.stepsOf (statementsOf first (p.lines number)) = [(Placed.step number p.command).statement first] := by
      rw [Part.lines, statementsOf, Check.stepsOf, List.filter_cons_of_pos rfl]
      rw [← Check.stepsOf, stepsOf_itemLines]
    rw [partLines, statementsOf_append, stepsOf_append, List.map_append, ih, hhere, List.length_cons, List.range'_succ,
      List.map_cons]
    rfl

/-- The steps of a script: its start, its parts and its stop. -/
theorem stepsOf_lines (s : Script) : ∃ m,
    Check.stepsOf (statementsOf 1 s.lines) = (Placed.step 1 .start).statement 1 ::
      (Check.stepsOf (statementsOf 2 (partLines 2 s.parts)) ++ [(Placed.step (s.parts.length + 2) .stop).statement m]) := by
  refine ⟨2 + (partLines 2 s.parts).length, ?_⟩
  rw [lines, linesOf, statementsOf, statementsOf_append, Check.stepsOf, List.filter_cons_of_pos rfl, List.filter_append]
  rfl

/-- The steps of a script are numbered from one. -/
theorem heads_lines (s : Script) :
    (Check.stepsOf (statementsOf 1 s.lines)).map Check.Statement.head = (List.range' 1 (s.parts.length + 2)).map headOf := by
  obtain ⟨m, hsteps⟩ := s.stepsOf_lines
  have hrange : List.range' 1 (s.parts.length + 2) = 1 :: (List.range' 2 s.parts.length ++ [s.parts.length + 2]) := by
    rw [List.range'_succ, List.range'_concat, Nat.one_mul, Nat.add_comm s.parts.length]
  rw [hsteps, hrange]
  simp only [List.map_cons, List.map_append, List.map_nil, stepsOf_partLines]
  rfl

/-! ## The rules -/

/-- The check finds the steps in order when their heads are. -/
theorem numbering_eq_none {ss : List Check.Statement} {first count : Nat}
    (h : ss.map Check.Statement.head = (List.range' first count).map headOf) (hcount : first + count ≤ 100) :
    Check.numbering first ss = none := by
  induction ss generalizing first count with
  | nil => rfl
  | cons s ss ih =>
    cases count with
    | zero => cases h
    | succ count =>
      rw [List.range'_succ, List.map_cons, List.map_cons] at h
      obtain ⟨hhead, htail⟩ := List.cons.inj h
      have hmax : ¬ maxStepNumber < first := by
        have hlimit : maxStepNumber = 99 := rfl
        omega
      rw [Check.numbering, hhead, headOf]
      simp only [hmax, if_false, Text.digits, ne_eq, not_true_eq_false]
      exact ih htail (by omega)

/-- The check finds the steps in order when only the last one is a stop. -/
theorem stopOrder_concat {ss : List Check.Statement} (h : ∀ s ∈ ss, Check.isStop s = false) {last : Check.Statement}
    (hlast : Check.isStop last = true) : Check.stopOrder (ss ++ [last]) = none := by
  induction ss with
  | nil => simp [Check.stopOrder, hlast]
  | cons s ss ih =>
    have hs := h s List.mem_cons_self
    have hlater := ih fun t ht => h t (List.mem_cons_of_mem s ht)
    cases ss with
    | nil => simp [Check.stopOrder, hs, hlast]
    | cons t ss =>
      rw [List.cons_append, List.cons_append, Check.stopOrder, hs]
      exact hlater

/-- A command between the first and the last step may stand anywhere. -/
theorem Command.Inner.fits {c : Command} (h : c.Inner) (top first : Bool) : c.Fits top first := by
  cases c with
  | start => cases h
  | stop => cases h
  | order o => trivial
  | branch c => trivial

/-- No command between the first and the last step begins with `stop`. -/
theorem Command.Inner.startsWith_stop {c : Command} (h : c.Inner) : Text.startsWith "stop".toList c.text.toList = false := by
  rw [← Bool.not_eq_true]
  intro hstop
  -- A command that passes the check and begins so is a stop, and is read as one.
  have hpasses := Check.passes_of_contentIssue_none (Command.contentIssue_eq_none (h.fits true true))
  have hform := c.ofText_eq
  rw [hpasses.eq_stop hstop] at hform
  cases c with
  | start => cases h
  | stop => cases h
  | order o => cases o <;> cases hform
  | branch c => cases hform

/-- A script begins with its start and ends with its stop. -/
theorem startStop_lines (s : Script) : Check.startStop (Check.stepsOf (statementsOf 1 s.lines)) = none := by
  have hshort := s.short
  obtain ⟨m, hsteps⟩ := s.stepsOf_lines
  have hinner : ∀ t ∈ Check.stepsOf (statementsOf 2 (partLines 2 s.parts)), Check.isStop t = false := by
    intro t ht
    obtain ⟨n, w, hw, rfl⟩ := mem_statementsOf (List.mem_filter.1 ht).1
    rw [Check.isStop, Placed.content_statement]
    exact (of_mem_partLines (by omega) hw).2.startsWith_stop
  have horder : Check.stopOrder (((Placed.step 1 .start).statement 1 ::
      Check.stepsOf (statementsOf 2 (partLines 2 s.parts))) ++ [(Placed.step (s.parts.length + 2) .stop).statement m]) = none := by
    refine stopOrder_concat ?_ rfl
    intro t ht
    rcases List.mem_cons.1 ht with rfl | ht
    · rfl
    · exact hinner t ht
  rw [hsteps, Check.startStop, if_neg (by simp [Placed.statement, Command.text])]
  exact horder

/-! ### Indentation -/

/-- The commands of a nested block stand at its column, one more item each. -/
theorem indentationOf_orderLines (os : List Order) {b : Check.Block} {n : Nat} (hnested : b.nested = some n) (first : Nat)
    (rest : List Check.Statement) :
    Check.indentationOf (some b) (statementsOf first (orderLines (b.base + 2) os) ++ rest) =
      Check.indentationOf (some { b with nestedItems := b.nestedItems + os.length }) rest := by
  induction os generalizing b first with
  | nil => rfl
  | cons o os ih =>
    have hline : Check.isIf ((Placed.item (b.base + 2) (.order o)).statement first).content = false := (Command.order o).isIf_eq
    have hstep : ∀ ss, Check.indentationOf (some b) ((Placed.item (b.base + 2) (.order o)).statement first :: ss) =
        Check.indentationOf (some { b with nestedItems := b.nestedItems + 1 }) ss := by
      intro ss
      rw [Check.indentationOf]
      simp only [hline]
      simp [Placed.statement, hnested]
    rw [orderLines, List.map_cons, statementsOf, List.cons_append, hstep]
    have hlater := ih (b := { b with nestedItems := b.nestedItems + 1 }) hnested (first + 1)
    rw [List.length_cons, Nat.add_comm os.length, ← Nat.add_assoc]
    exact hlater

/-- An item stands at the column of its block, and the block may end behind it. -/
theorem indentationOf_item (i : Item) {b : Check.Block} (hb : b.closeNested = none) (first : Nat) :
    ∃ b', b'.base = b.base ∧ b'.items = b.items + 1 ∧ b'.closeNested = none ∧ ∀ rest,
      Check.indentationOf (some b) (statementsOf first (i.lines b.base) ++ rest) = Check.indentationOf (some b') rest := by
  have hstep : ∀ (c : Command) ss, Check.indentationOf (some b) ((Placed.item b.base c).statement first :: ss) =
      Check.indentationOf (some ⟨b.line, b.step, b.base, b.items + 1, if c.isBranch then some first else none, 0⟩) ss := by
    intro c ss
    have hline : Check.isIf ((Placed.item b.base c).statement first).content = c.isBranch := c.isIf_eq
    rw [Check.indentationOf]
    simp only [hline]
    simp [Placed.statement, hb]
  cases i with
  | order o =>
    refine ⟨{ b with items := b.items + 1, nested := none, nestedItems := 0 }, rfl, rfl, rfl, ?_⟩
    intro rest
    rw [Item.lines, statementsOf, List.cons_append, hstep]
    rfl
  | branch c block filled =>
    refine ⟨{ b with items := b.items + 1, nested := some first, nestedItems := 0 + block.length }, rfl, rfl, ?_, ?_⟩
    · have hitems : 0 + block.length ≠ 0 := by
        have hpos := List.length_pos_iff.2 filled
        omega
      simp only [Check.Block.closeNested, hitems, if_false]
    · intro rest
      rw [Item.lines, statementsOf, List.cons_append, hstep]
      exact indentationOf_orderLines block rfl (first + 1) rest

/-- Items stand at the column of their block, and the block may end behind them. -/
theorem indentationOf_itemLines (items : List Item) {b : Check.Block} (hb : b.closeNested = none) (first : Nat) :
    ∃ b', b'.items = b.items + items.length ∧ b'.closeNested = none ∧ ∀ rest,
      Check.indentationOf (some b) (statementsOf first (itemLines b.base items) ++ rest) = Check.indentationOf (some b') rest := by
  induction items generalizing b first with
  | nil => exact ⟨b, rfl, hb, fun rest => rfl⟩
  | cons i items ih =>
    -- The block counts on from item to item; its column stays.
    obtain ⟨b₁, hbase, hitems, hclose, hstep⟩ := indentationOf_item i hb first
    obtain ⟨b₂, hitems', hclose', hrest⟩ := ih hclose (first + (i.lines b.base).length)
    refine ⟨b₂, ?_, hclose', ?_⟩
    · rw [hitems', hitems, List.length_cons]
      omega
    · intro rest
      rw [itemLines, List.flatMap_cons, statementsOf_append, List.append_assoc, hstep, ← hrest, hbase]
      rfl

/-- A step ends the block before it, and begins one if it is a branch. -/
theorem indentationOf_step {block : Option Check.Block} (hblock : block.bind Check.Block.close = none) (number first : Nat)
    (c : Command) (ss : List Check.Statement) :
    Check.indentationOf block ((Placed.step number c).statement first :: ss) =
      Check.indentationOf (if c.isBranch then some (.ofStep first ⟨Text.digits number, number⟩) else none) ss := by
  have hline : Check.isIf ((Placed.step number c).statement first).content = c.isBranch := c.isIf_eq
  rw [Check.indentationOf.eq_def]
  simp only [hline]
  simp [Placed.statement, hblock]

/-- A step ends the block before it, and its own block may end behind it. -/
theorem indentationOf_part (p : Part) {block : Option Check.Block} (hblock : block.bind Check.Block.close = none)
    (number first : Nat) :
    ∃ block', block'.bind Check.Block.close = none ∧ ∀ rest,
      Check.indentationOf block (statementsOf first (p.lines number) ++ rest) = Check.indentationOf block' rest := by
  cases p with
  | order o =>
    refine ⟨none, rfl, ?_⟩
    intro rest
    rw [Part.lines, statementsOf, List.cons_append, indentationOf_step hblock]
    rfl
  | branch c items filled =>
    obtain ⟨b, hitems, hclose, hrest⟩ := indentationOf_itemLines items
      (b := Check.Block.ofStep first ⟨Text.digits number, number⟩) rfl (first + 1)
    refine ⟨some b, ?_, ?_⟩
    · have hfilled : b.items ≠ 0 := by
        have hpos := List.length_pos_iff.2 filled
        omega
      rw [Option.bind_some, Check.Block.close, hclose]
      simp only [hfilled, if_false]
    · intro rest
      rw [Part.lines, statementsOf, List.cons_append, indentationOf_step hblock, ← hrest]
      rfl

/-- Steps end their blocks. -/
theorem indentationOf_partLines (parts : List Part) {block : Option Check.Block}
    (hblock : block.bind Check.Block.close = none) (number first : Nat) :
    ∃ block', block'.bind Check.Block.close = none ∧ ∀ rest,
      Check.indentationOf block (statementsOf first (partLines number parts) ++ rest) = Check.indentationOf block' rest := by
  induction parts generalizing block number first with
  | nil => exact ⟨block, hblock, fun rest => rfl⟩
  | cons p ps ih =>
    obtain ⟨block₁, hclose, hstep⟩ := indentationOf_part p hblock number first
    obtain ⟨block₂, hclose', hrest⟩ := ih hclose (number + 1) (first + (p.lines number).length)
    refine ⟨block₂, hclose', ?_⟩
    intro rest
    rw [partLines, statementsOf_append, List.append_assoc, hstep, hrest]

/-- The lines of a script stand at their columns. -/
theorem indentationOf_lines (s : Script) : Check.indentationOf none (statementsOf 1 s.lines) = none := by
  have hnone : (none : Option Check.Block).bind Check.Block.close = none := rfl
  have hstart : Command.start.isBranch = false := rfl
  obtain ⟨block, hclose, hparts⟩ := indentationOf_partLines s.parts hnone 2 2
  rw [lines, linesOf, statementsOf, indentationOf_step rfl, hstart, statementsOf_append]
  simp only [Bool.false_eq_true, if_false]
  rw [hparts, statementsOf, indentationOf_step hclose]
  rfl

/-! ### Commands, names and targets -/

/-- The check finds nothing wrong with commands when it finds nothing wrong with each of them. -/
theorem contents_eq_none {first : Nat} {ss : List Check.Statement}
    (h : ∀ s ∈ ss, Check.contentIssue s.head.isSome (s.head.isSome && s.line == first) s.content = none) :
    Check.contents first ss = none := by
  induction ss with
  | nil => rfl
  | cons s ss ih =>
    rw [Check.contents, h s List.mem_cons_self]
    exact ih fun t ht => h t (List.mem_cons_of_mem s ht)

/-- The check finds nothing wrong with the commands of a script. -/
theorem contents_lines (s : Script) : Check.contents 1 (statementsOf 1 s.lines) = none := by
  have hshort := s.short
  refine contents_eq_none ?_
  intro t ht
  rw [lines, linesOf, statementsOf] at ht
  rcases List.mem_cons.1 ht with rfl | ht
  · exact Command.contentIssue_eq_none (c := .start) ⟨rfl, rfl⟩
  · obtain ⟨n, w, hw, rfl⟩ := mem_statementsOf ht
    rw [Placed.content_statement]
    rcases List.mem_append.1 hw with hw | hw
    · exact Command.contentIssue_eq_none ((of_mem_partLines (by omega) hw).2.fits _ _)
    · obtain rfl := List.mem_singleton.1 hw
      exact Command.contentIssue_eq_none (c := .stop) rfl

/-- The names that the check counts are those of the commands. -/
theorem filterMap_nameOf? (ws : List Placed) (first : Nat) :
    ((statementsOf first ws).filterMap fun s => Check.nameOf? s.content) = ws.filterMap fun w => w.command.name? := by
  induction ws generalizing first with
  | nil => rfl
  | cons w ws ih =>
    rw [statementsOf, List.filterMap_cons, List.filterMap_cons, Placed.content_statement, Command.nameOf?_eq, ih]

/-- A name that a command binds is the name of a variable. -/
theorem Command.isVariable_of_name? {c : Command} {name : String} (h : c.name? = some name) : IsVariable name := by
  cases c with
  | start => cases h
  | stop => cases h
  | branch c => cases h
  | order o =>
    cases o with
    | print value => cases h
    | read v =>
      obtain rfl := Option.some.inj h
      exact v.valid
    | assign v value =>
      obtain rfl := Option.some.inj h
      exact v.valid
    | jump target => cases h

/-- A script does not bind too many names. -/
theorem variableCount_lines (s : Script) : Check.variableCount (statementsOf 1 s.lines) = none := by
  have hnames : Check.names (statementsOf 1 s.lines) = (s.lines.filterMap fun w => w.command.name?).eraseDups := by
    rw [Check.names, filterMap_nameOf?, List.filter_eq_self.2]
    intro name hname
    obtain ⟨w, _, hw⟩ := List.mem_filterMap.1 hname
    have hvalid := Command.isVariable_of_name? hw
    simpa using hvalid.ne_empty
  rw [Check.variableCount, hnames, if_neg]
  exact Nat.not_lt.2 s.fewNames

/-- The check finds all targets when each jump has one. -/
theorem targets_eq_none {numbers : List Nat} {ss : List Check.Statement}
    (h : ∀ s ∈ ss, ∀ ds, Check.gotoDigits? s.content = some ds → ∃ n ∈ numbers, Text.readNumeral? ds = some n) :
    Check.targets numbers ss = none := by
  induction ss with
  | nil => rfl
  | cons s ss ih =>
    have hlater := ih fun t ht => h t (List.mem_cons_of_mem s ht)
    rw [Check.targets]
    cases hds : Check.gotoDigits? s.content with
    | none => exact hlater
    | some ds =>
      obtain ⟨n, hn, hread⟩ := h s List.mem_cons_self ds hds
      have hcontains : numbers.contains n = true := by simpa using hn
      simp only [hread, hcontains, if_true, hlater]

/-- The jumps of a script have targets. -/
theorem targets_lines (s : Script) {numbers : List Nat} (hnumbers : ∀ k, 1 ≤ k → k ≤ s.parts.length + 2 → k ∈ numbers) :
    Check.targets numbers (statementsOf 1 s.lines) = none := by
  have hshort := s.short
  refine targets_eq_none ?_
  intro t ht ds hds
  obtain ⟨n, w, hw, rfl⟩ := mem_statementsOf ht
  rw [Placed.content_statement, Command.gotoDigits?_eq] at hds
  obtain ⟨k, hk, rfl⟩ := Option.map_eq_some_iff.1 hds
  obtain ⟨hone, hlast⟩ := s.targets w hw k hk
  exact ⟨k, hnumbers k hone hlast, Text.readNumeral?_digits (le_greatestInt64 (by omega))⟩

/-- The check finds no rule broken by a script. -/
theorem rules_lines (s : Script) : Check.rules (statementsOf 1 s.lines) = none := by
  have hshort := s.short
  have hheads := s.heads_lines
  have hfirst : ((Check.stepsOf (statementsOf 1 s.lines)).head?.map Check.Statement.line).getD 0 = 1 := by
    obtain ⟨m, hsteps⟩ := s.stepsOf_lines
    rw [hsteps]
    rfl
  have hnumbers : ∀ k, 1 ≤ k → k ≤ s.parts.length + 2 →
      k ∈ (Check.stepsOf (statementsOf 1 s.lines)).filterMap fun t => t.head.map Check.Head.number := by
    intro k hone hlast
    have hmem : headOf k ∈ (Check.stepsOf (statementsOf 1 s.lines)).map Check.Statement.head := by
      rw [hheads]
      exact List.mem_map_of_mem (List.mem_range'_1.2 ⟨hone, by omega⟩)
    obtain ⟨t, ht, hhead⟩ := List.mem_map.1 hmem
    exact List.mem_filterMap.2 ⟨t, ht, by rw [hhead]; rfl⟩
  rw [Check.rules, hfirst]
  simp only [numbering_eq_none hheads (by omega), s.startStop_lines, s.indentationOf_lines, s.contents_lines,
    s.variableCount_lines, s.targets_lines hnumbers]

/-- A script is read back from its text. For every script, however many line breaks end its text, the check accepts the text, and
the reader finds exactly the steps of the script in it: their numbers, commands, names, texts, conditions, targets and blocks. -/
theorem text_accepted_and_read_back (s : Script) (breaks : Nat) : Check.problem? (s.text breaks) = none ∧
    ∃ p, Program.parse (s.text breaks) = .ok p ∧ p.unplaced = s.steps := by
  refine ⟨?_, s.parse_text breaks⟩
  rw [Check.problem?, Check.accepted, s.load_text breaks]
  simp only [s.headers_lines, s.rules_lines]

/-- A script with a jump out of a block and a block inside a block. -/
def branching : Script where
  parts :=
    let name : Variable := ⟨"A", ⟨⟨'A', [], rfl, rfl, by simp⟩, by decide⟩⟩
    let value : Phrase := ⟨"A", by simp [OneLine], ⟨'A', [], rfl, by decide⟩, ⟨'A', rfl, by decide⟩⟩
    let above : Comparison :=
      { text := "A > 1"
        oneLine := by simp [OneLine]
        noNul := by simp
        noQuote := by simp
        compares := ⟨[.name "A"], .gt, [.number "1"], by decide +kernel, .single (.name "A"), .single (.number "1")⟩ }
    [.order (.read name),
      .branch above [.branch above [.print value] (List.cons_ne_nil _ _), .order (.jump 2)] (List.cons_ne_nil _ _)]
  short := by decide
  targets := by simp [linesOf, partLines, Part.lines, itemLines, Item.lines, orderLines, Part.command, Part.items, Placed.command,
    Command.target?]
  fewNames := by decide

theorem text_accepted_and_read_back_branching :
    branching.text 1 = "step-1: start\nstep-2: read A\nstep-3: if (A > 1):\n          if (A > 1):\n            print A\n" ++
      "          goto step-2\nstep-4: stop\n" ∧
    Check.problem? (branching.text 1) = none ∧
    ∃ p, Program.parse (branching.text 1) = .ok p ∧ p.unplaced = branching.steps := by
  exact ⟨by decide +kernel, text_accepted_and_read_back branching 1⟩

end Script

end Stepwise
