import Stepwise.Proofs.ScriptCommands

/-!
# Reading a script

The lines of a script are found in its text as they were written, and the reader makes the steps of the script of them: a block
ends where the next line is indented less.
-/

namespace Stepwise

/-- There is nothing on the lines of line breaks alone. -/
theorem text_of_breaks (first breaks : Nat) : ∀ l ∈ numberLines first (List.replicate breaks []), l.text = [] :=
  fun _ hl => List.eq_of_mem_replicate (text_mem_of_mem_numberLines hl)

namespace Script

/-! ## The text of a line -/

/-- The lines as characters. -/
def textsOf (ws : List Placed) : List (List Char) :=
  ws.map fun w => w.text.toList

theorem textsOf_append (vs ws : List Placed) : textsOf (vs ++ ws) = textsOf vs ++ textsOf ws :=
  List.map_append

theorem Placed.toList_step (number : Nat) (c : Command) :
    (step number c).text.toList = "step-".toList ++ (Text.digits number ++ (':' :: ' ' :: c.text.toList)) := by
  simp only [Placed.text, String.toList_append, List.append_assoc]
  rfl

theorem Placed.toList_item (indent : Nat) (c : Command) :
    (item indent c).text.toList = List.replicate indent ' ' ++ c.text.toList := by
  rw [Placed.text, String.toList_append, String.toList_ofList]

/-- A line has neither tabs nor line breaks, and no blanks at its end. -/
theorem Placed.tidy (w : Placed) : (∀ c ∈ w.text.toList, c ≠ '\t' ∧ c ≠ '\r' ∧ c ≠ '\n') ∧
    ∃ c, w.text.toList.getLast? = some c ∧ Text.isBlank c = false := by
  have hlast : ∀ (before : List Char) (c : Command), ∃ d, (before ++ c.text.toList).getLast? = some d ∧ Text.isBlank d = false := by
    intro before c
    obtain ⟨d, hd, hblank⟩ := c.tidy.last
    exact ⟨d, by rw [List.getLast?_append, hd, Option.some_or], hblank⟩
  cases w with
  | step number c =>
    rw [Placed.toList_step]
    constructor
    · have hword : ∀ d ∈ "step-".toList, d ≠ '\t' ∧ d ≠ '\r' ∧ d ≠ '\n' := oneLine_of_all (by decide)
      intro d hd
      rw [List.mem_append, List.mem_append, List.mem_cons, List.mem_cons] at hd
      rcases hd with hd | hd | rfl | rfl | hd
      · exact hword d hd
      · exact (tidy_digits number).oneLine d hd
      · decide
      · decide
      · exact c.tidy.oneLine d hd
    · simpa using hlast ("step-".toList ++ (Text.digits number ++ [':', ' '])) c
  | item indent c =>
    rw [Placed.toList_item]
    constructor
    · intro d hd
      rcases List.mem_append.1 hd with hd | hd
      · rw [List.eq_of_mem_replicate hd]
        decide
      · exact c.tidy.oneLine d hd
    · exact hlast _ c

/-- The lines of a script are found in its text, with the empty ones behind them. -/
theorem sourceLines_text (s : Script) (breaks : Nat) :
    sourceLines (s.text breaks) = numberLines 1 (textsOf s.lines ++ List.replicate breaks []) := by
  have hlines : ∀ l ∈ s.lines.map Placed.text ++ List.replicate breaks "",
      '\n' ∉ l.toList ∧ '\r' ∉ l.toList ∧ Text.trimRight Text.isIndent l.toList = l.toList := by
    intro l hl
    rcases List.mem_append.1 hl with hl | hl
    · obtain ⟨w, _, rfl⟩ := List.mem_map.1 hl
      obtain ⟨hall, d, hlast, hd⟩ := w.tidy
      refine ⟨fun hmem => (hall _ hmem).2.2 rfl, fun hmem => (hall _ hmem).2.1 rfl, ?_⟩
      exact Text.trimRight_of_last hlast (Text.isIndent_eq_false hd)
    · rw [List.eq_of_mem_replicate hl]
      decide
  rw [text, sourceLines_intercalate (by simp [lines, linesOf]) hlines, List.map_append, List.map_map, List.map_replicate]
  rfl

/-! ## What the check and the reader see of a line -/

/-- The line of a step is taken apart into its number and its command. -/
theorem exactStep?_step (number : Nat) (c : Command) :
    Check.exactStep? (Placed.step number c).text.toList = some (Text.digits number, c.text.toList) := by
  obtain ⟨d, ds, hcontent, hd⟩ := c.tidy.first
  have hborder : (Text.digits number ++ (':' :: ' ' :: c.text.toList)).takeWhile Char.isDigit = Text.digits number ∧
      (Text.digits number ++ (':' :: ' ' :: c.text.toList)).dropWhile Char.isDigit = ':' :: ' ' :: c.text.toList := by
    refine takeWhile_dropWhile_border (fun e he => Text.isDigit_of_mem_digits he) ?_
    intro e he
    obtain rfl := Option.some.inj he
    rfl
  have hfilled : (Text.digits number).isEmpty = false := List.isEmpty_eq_false_iff.2 (Text.digits_ne_nil number)
  unfold Check.exactStep?
  rw [Placed.toList_step, Text.after?_append]
  rw [hcontent] at hborder ⊢
  simp only [hborder.1, hborder.2, hfilled, Text.isAsciiBlank_eq_false hd, Bool.or_self, Bool.false_eq_true, if_false]

/-- What the reader finds at the line of a step. -/
def headerOf (number : Nat) (c : Command) : Header :=
  ⟨Text.digits number, 5 + (Text.digits number).length + 1 + 1 + 1, c.text.toList⟩

/-- The reader finds the number and the command of a step. -/
theorem header?_step (number : Nat) (c : Command) :
    Program.header? (Placed.step number c).text.toList = some (headerOf number c) := by
  rw [(Check.exactStep?_eq_some (exactStep?_step number c)).2, c.tidy.strip, headerOf]

/-- A step is not indented. -/
theorem isIndented_step (number : Nat) (c : Command) : isIndented (Placed.step number c).text.toList = false := by
  rw [Placed.toList_step]
  rfl

/-- A command begins with neither a space nor a tab. -/
theorem Command.isIndent_head (c : Command) : ∃ d ds, c.text.toList = d :: ds ∧ Text.isIndent d = false := by
  obtain ⟨d, ds, hcontent, hd⟩ := c.tidy.first
  exact ⟨d, ds, hcontent, Text.isIndent_eq_false hd⟩

/-- The indentation of an item is followed by its command. -/
theorem dropWhile_item (indent : Nat) (c : Command) :
    (Placed.item indent c).text.toList.dropWhile Text.isIndent = c.text.toList := by
  obtain ⟨d, ds, hcontent, hd⟩ := c.isIndent_head
  rw [Placed.toList_item, List.dropWhile_append_of_pos, hcontent, List.dropWhile_cons_of_neg (by simp [hd])]
  intro e he
  rw [List.eq_of_mem_replicate he]
  rfl

/-- An item is indented as it was written. -/
theorem indentation_item (indent : Nat) (c : Command) : indentation (Placed.item indent c).text.toList = indent := by
  obtain ⟨d, ds, hcontent, hd⟩ := c.isIndent_head
  have hspace : (d == ' ') = false := by
    simp only [Text.isIndent, Bool.or_eq_false_iff] at hd
    exact hd.1
  rw [indentation, Placed.toList_item, List.takeWhile_append_of_pos, hcontent, List.takeWhile_cons_of_neg (by simp [hspace]),
    List.append_nil, List.length_replicate]
  intro e he
  rw [List.eq_of_mem_replicate he]
  rfl

/-- An item belongs to every block that is not indented further. -/
theorem inBlock_item {l : Line} {indent : Nat} {c : Command} (h : l.text = (Placed.item indent c).text.toList) (least : Nat) :
    Program.inBlock least l = decide (least ≤ indent) := by
  obtain ⟨d, ds, hcontent, _⟩ := c.isIndent_head
  have hfilled : l.text.isEmpty = false := by
    rw [h, Placed.toList_item, hcontent]
    simp
  rw [Program.inBlock, hfilled, h, indentation_item, Bool.not_false, Bool.true_and]

/-- The reader takes a line for a branch exactly when it is one. -/
theorem Command.after?_if_eq_none {c : Command} (h : c.isBranch = false) : Text.after? "if ".toList c.text.toList = none := by
  rw [Option.eq_none_iff_forall_ne_some]
  intro arg harg
  have hform := c.ofText_eq
  rw [Text.after?_eq_some_iff.1 harg, Form.ofText_branch] at hform
  cases c with
  | branch => cases h
  | start => cases hform
  | stop => cases hform
  | order o => cases o <;> cases hform

theorem Command.after?_if_branch (c : Comparison) :
    Text.after? "if ".toList (branch c).text.toList = some ('(' :: c.text.toList ++ [')'] ++ [':']) := by
  rw [Text.after?_eq_some_iff, Command.toList_branch]
  simp

/-! ## Reading the lines of a script -/

/-- The jumps of commands stay within bounds. -/
def Bounded (ws : List Placed) : Prop :=
  ∀ w ∈ ws, ∀ k, w.command.target? = some k → k ≤ Text.greatestInt64

/-- A command in a block is read as its node. -/
theorem blockItems_cons_order {o : Order} (h : ∀ k, (Command.order o).target? = some k → k ≤ Text.greatestInt64)
    (indent n : Nat) (ls : List Line) :
    unplacedBlock (Program.blockItems (⟨n, (Placed.item indent (.order o)).text.toList⟩ :: ls)) =
      o.node :: unplacedBlock (Program.blockItems ls) := by
  have hif : Text.after? "if ".toList ((Placed.item indent (.order o)).text.toList.dropWhile Text.isIndent) = none := by
    rw [dropWhile_item]
    exact Command.after?_if_eq_none rfl
  have haction := Order.action_unplaced h n (indentation (Placed.item indent (.order o)).text.toList + 1)
  rw [Program.blockItems_cons_act (l := ⟨n, (Placed.item indent (.order o)).text.toList⟩) ls hif, dropWhile_item]
  simp only [unplacedBlock, Node.unplaced, Command.text, haction, Order.node]

/-- The lines of commands in a block are read as their nodes. -/
theorem blockItems_orderLines {os : List Order} {indent : Nat} (hb : Bounded (orderLines indent os)) (first : Nat) :
    unplacedBlock (Program.blockItems (numberLines first (textsOf (orderLines indent os)))) = os.map Order.node := by
  induction os generalizing first with
  | nil =>
    rw [orderLines, List.map_nil, textsOf, List.map_nil, numberLines, Program.blockItems, unplacedBlock, List.map_nil]
  | cons o os ih =>
    have hlater : Bounded (orderLines indent os) := fun w hw => hb w (List.mem_cons_of_mem _ hw)
    have hlines : numberLines first (textsOf (orderLines indent (o :: os))) =
        ⟨first, (Placed.item indent (.order o)).text.toList⟩ :: numberLines (first + 1) (textsOf (orderLines indent os)) := rfl
    rw [hlines, blockItems_cons_order (hb _ List.mem_cons_self), ih hlater, List.map_cons]

/-- The first line of items is indented as they are. -/
theorem itemLines_head {indent : Nat} {items : List Item} {w : Placed} (h : (itemLines indent items).head? = some w) :
    ∃ c, w = .item indent c := by
  cases items with
  | nil => cases h
  | cons i items =>
    cases i with
    | order o => exact ⟨_, (Option.some.inj h).symm⟩
    | branch c block filled => exact ⟨_, (Option.some.inj h).symm⟩

/-- Between the first and the last step there are only commands and branches. -/
def Command.Inner : Command → Prop
  | order _ => True
  | branch _ => True
  | _ => False

/-- Every line of items is indented at least as they are, and holds a command or a branch. -/
theorem mem_itemLines {indent : Nat} {items : List Item} {w : Placed} (h : w ∈ itemLines indent items) :
    ∃ n c, w = .item n c ∧ indent ≤ n ∧ c.Inner := by
  obtain ⟨i, _, hw⟩ := List.mem_flatMap.1 h
  cases i with
  | order o => exact ⟨indent, _, List.mem_singleton.1 hw, Nat.le_refl _, trivial⟩
  | branch c block filled =>
    rcases List.mem_cons.1 hw with rfl | hw
    · exact ⟨indent, _, rfl, Nat.le_refl _, trivial⟩
    · obtain ⟨o, _, rfl⟩ := List.mem_map.1 hw
      exact ⟨indent + 2, _, rfl, Nat.le_add_right _ _, trivial⟩

/-- A numbered line is a line with a number. -/
theorem numberLines_head {first : Nat} {ws : List Placed} {l : Line} (h : (numberLines first (textsOf ws)).head? = some l) :
    ∃ w, ws.head? = some w ∧ l = ⟨first, w.text.toList⟩ := by
  cases ws with
  | nil => cases h
  | cons w ws => exact ⟨w, rfl, (Option.some.inj h).symm⟩

/-- A branch in a block is read with the block that is nested under it. -/
theorem blockItems_cons_nested (c : Comparison) (indent n first next : Nat) (block : List Order) (items : List Item) :
    unplacedBlock (Program.blockItems (⟨n, (Placed.item indent (.branch c)).text.toList⟩ ::
      (numberLines first (textsOf (orderLines (indent + 2) block)) ++ numberLines next (textsOf (itemLines indent items))))) =
      .branch default c.condition
          (unplacedBlock (Program.blockItems (numberLines first (textsOf (orderLines (indent + 2) block))))) ::
        unplacedBlock (Program.blockItems (numberLines next (textsOf (itemLines indent items)))) := by
  have hif : Text.after? "if ".toList ((Placed.item indent (.branch c)).text.toList.dropWhile Text.isIndent) =
      some ('(' :: c.text.toList ++ [')'] ++ [':']) := by
    rw [dropWhile_item, Command.after?_if_branch]
  have hinner : ∀ l ∈ numberLines first (textsOf (orderLines (indent + 2) block)),
      Program.inBlock (indentation (Placed.item indent (.branch c)).text.toList + 2) l = true := by
    intro l hl
    obtain ⟨w, hw, htext⟩ := List.mem_map.1 (text_mem_of_mem_numberLines hl)
    obtain ⟨o, _, rfl⟩ := List.mem_map.1 hw
    rw [inBlock_item htext.symm, indentation_item]
    simp
  have houter : ∀ l, (numberLines next (textsOf (itemLines indent items))).head? = some l →
      Program.inBlock (indentation (Placed.item indent (.branch c)).text.toList + 2) l = false := by
    intro l hl
    obtain ⟨w, hw, rfl⟩ := numberLines_head hl
    obtain ⟨d, rfl⟩ := itemLines_head hw
    rw [inBlock_item rfl, indentation_item]
    simp
  rw [Program.blockItems_cons_branch (l := ⟨n, (Placed.item indent (.branch c)).text.toList⟩) hif hinner houter]
  simp only [unplacedBlock, Node.unplaced, Comparison.condition_unplaced]

/-- The lines of items are read as their nodes. -/
theorem blockItems_itemLines {items : List Item} {indent : Nat} (hb : Bounded (itemLines indent items)) (first : Nat) :
    unplacedBlock (Program.blockItems (numberLines first (textsOf (itemLines indent items)))) = items.map Item.node := by
  induction items generalizing first with
  | nil =>
    rw [itemLines, List.flatMap_nil, textsOf, List.map_nil, numberLines, Program.blockItems, unplacedBlock, List.map_nil]
  | cons i items ih =>
    have hlater : Bounded (itemLines indent items) := fun w hw => hb w (List.mem_append_right _ hw)
    cases i with
    | order o =>
      have hlines : numberLines first (textsOf (itemLines indent (.order o :: items))) =
          ⟨first, (Placed.item indent (.order o)).text.toList⟩ :: numberLines (first + 1) (textsOf (itemLines indent items)) := rfl
      rw [hlines, blockItems_cons_order (hb _ List.mem_cons_self), ih hlater, List.map_cons, Item.node]
    | branch c block filled =>
      have hinner : Bounded (orderLines (indent + 2) block) :=
        fun w hw => hb w (List.mem_append_left _ (List.mem_cons_of_mem _ hw))
      have hlines : numberLines first (textsOf (itemLines indent (.branch c block filled :: items))) =
          ⟨first, (Placed.item indent (.branch c)).text.toList⟩ ::
            (numberLines (first + 1) (textsOf (orderLines (indent + 2) block)) ++
              numberLines (first + 1 + (textsOf (orderLines (indent + 2) block)).length) (textsOf (itemLines indent items))) := by
        rw [← numberLines_append, ← textsOf_append]
        rfl
      rw [hlines, blockItems_cons_nested, blockItems_orderLines hinner, ih hlater, List.map_cons, Item.node]

/-- The line of a step begins a step. -/
theorem readSteps_cons_heading {number : Nat} (hnumber : number ≤ Text.greatestInt64) (c : Command) (n : Nat)
    {below : List Line} {rest : List Step} (hrest : Program.readSteps (Program.afterStep (headerOf number c) below) = .ok rest) :
    Program.readSteps (⟨n, (Placed.step number c).text.toList⟩ :: below) =
      .ok (⟨number, Program.stepNode ⟨n, (Placed.step number c).text.toList⟩ (headerOf number c) below⟩ :: rest) := by
  have hfilled : (Placed.step number c).text.toList ≠ [] := by
    rw [Placed.toList_step]
    simp
  have hnumeral : Text.readNumeral? (headerOf number c).digits = some number := Text.readNumeral?_digits hnumber
  exact Program.readSteps_cons_step (l := ⟨n, (Placed.step number c).text.toList⟩) hfilled (isIndented_step number c)
    (header?_step number c) hnumeral hrest

/-- The reader goes on right behind a step that is no branch. -/
theorem afterStep_of_not_branch {c : Command} (hc : c.isBranch = false) (number : Nat) (below : List Line) :
    Program.afterStep (headerOf number c) below = below := by
  rw [Program.afterStep]
  simp only [headerOf, Command.after?_if_eq_none hc]

/-- A step that is no branch is read as its action. -/
theorem stepNode_of_not_branch {c : Command} (hc : c.isBranch = false) (number : Nat) (l : Line) (below : List Line) :
    Program.stepNode l (headerOf number c) below =
      .act ⟨l.number, (headerOf number c).col, String.ofList l.text⟩
        (Program.action l.number (headerOf number c).col c.text.toList) := by
  rw [Program.stepNode]
  simp only [headerOf, Command.after?_if_eq_none hc]

/-- The lines begin at the margin. -/
def AtMargin (ls : List Line) : Prop :=
  ∀ l, ls.head? = some l → indentation l.text = 0

/-- A block is indented. -/
theorem blockColumn_pos (n : Nat) : 0 < Program.blockColumn n := by
  unfold Program.blockColumn
  omega

/-- The block of a step ends where lines begin at the margin. -/
theorem inBlock_border {column : Nat} (hcolumn : 0 < column) (items : List Item) (first : Nat) {below : List Line}
    (hbelow : AtMargin below) :
    (numberLines first (textsOf (itemLines column items)) ++ below).takeWhile (Program.inBlock column) =
        numberLines first (textsOf (itemLines column items)) ∧
      (numberLines first (textsOf (itemLines column items)) ++ below).dropWhile (Program.inBlock column) = below := by
  refine takeWhile_dropWhile_border ?_ ?_
  · intro l hl
    obtain ⟨w, hw, htext⟩ := List.mem_map.1 (text_mem_of_mem_numberLines hl)
    obtain ⟨indent, d, rfl, hindent, _⟩ := mem_itemLines hw
    rw [inBlock_item htext.symm, decide_eq_true hindent]
  · intro l hl
    rw [Program.inBlock, hbelow l hl, Bool.and_eq_false_iff]
    exact Or.inr (decide_eq_false (Nat.not_le.2 hcolumn))

/-- A step is read as its node with its block, and the reader goes on at the next line at the margin. -/
theorem Part.stepNode_unplaced {p : Part} {number : Nat} (hb : Bounded (p.lines number)) (l : Line) (first : Nat)
    {below : List Line} (hbelow : AtMargin below) :
    (Program.stepNode l (headerOf number p.command)
        (numberLines first (textsOf (itemLines (Program.blockColumn (Text.digits number).length) p.items)) ++ below)).unplaced =
        p.node ∧
      Program.afterStep (headerOf number p.command)
        (numberLines first (textsOf (itemLines (Program.blockColumn (Text.digits number).length) p.items)) ++ below) = below := by
  cases p with
  | order o =>
    have haction := Order.action_unplaced (hb _ List.mem_cons_self) l.number (headerOf number (.order o)).col
    constructor
    · rw [Part.command, stepNode_of_not_branch rfl, Node.unplaced, Command.text, haction]
      rfl
    · rw [Part.command, afterStep_of_not_branch rfl]
      rfl
  | branch c block filled =>
    have hitems : Bounded (itemLines (Program.blockColumn (Text.digits number).length) block) := by
      intro w hw
      refine hb w (List.mem_cons_of_mem _ ?_)
      rw [Text.digits, String.length_toList] at hw
      exact hw
    obtain ⟨htake, hdrop⟩ := inBlock_border (blockColumn_pos (Text.digits number).length) block first hbelow
    constructor
    · rw [Part.command, Part.items, Program.stepNode]
      simp only [headerOf, Command.after?_if_branch, htake]
      rw [Node.unplaced, Comparison.condition_unplaced, blockItems_itemLines hitems, Part.node]
    · rw [Part.command, Part.items, Program.afterStep]
      simp only [headerOf, Command.after?_if_branch, hdrop]

/-- A step with its block is read off the front of a text. -/
theorem readSteps_part {p : Part} {number : Nat} (hnumber : number ≤ Text.greatestInt64) (hb : Bounded (p.lines number))
    (first : Nat) {below : List Line} (hbelow : AtMargin below) {rest : List Step} (hrest : Program.readSteps below = .ok rest) :
    ∃ step, Program.readSteps (numberLines first (textsOf (p.lines number)) ++ below) = .ok (step :: rest) ∧
      step.unplaced = ⟨number, p.node⟩ := by
  have hlines : numberLines first (textsOf (p.lines number)) ++ below = ⟨first, (Placed.step number p.command).text.toList⟩ ::
      (numberLines (first + 1) (textsOf (itemLines (Program.blockColumn (Text.digits number).length) p.items)) ++ below) := by
    rw [Part.lines, Text.digits, String.length_toList]
    rfl
  obtain ⟨hnode, hafter⟩ :=
    Part.stepNode_unplaced hb ⟨first, (Placed.step number p.command).text.toList⟩ (first + 1) hbelow
  rw [← hafter] at hrest
  have hread := readSteps_cons_heading hnumber p.command first hrest
  rw [← hlines] at hread
  exact ⟨_, hread, by rw [Step.unplaced, hnode]⟩

/-- The lines of steps begin at the margin, when those behind them do. -/
theorem atMargin_partLines (parts : List Part) (number first : Nat) {below : List Line} (hbelow : AtMargin below) :
    AtMargin (numberLines first (textsOf (partLines number parts)) ++ below) := by
  cases parts with
  | nil => exact hbelow
  | cons p ps =>
    intro l hl
    obtain rfl := Option.some.inj hl
    exact indentation_eq_zero (isIndented_step number p.command)

/-- The lines of steps are read as the steps. -/
theorem readSteps_partLines {parts : List Part} {number : Nat} (hnumber : number + parts.length ≤ Text.greatestInt64)
    (hb : Bounded (partLines number parts)) (first : Nat) {below : List Line} (hbelow : AtMargin below) {rest : List Step}
    (hrest : Program.readSteps below = .ok rest) :
    ∃ steps, Program.readSteps (numberLines first (textsOf (partLines number parts)) ++ below) = .ok (steps ++ rest) ∧
      steps.map Step.unplaced = partSteps number parts := by
  induction parts generalizing number first with
  | nil => exact ⟨[], hrest, rfl⟩
  | cons p ps ih =>
    rw [List.length_cons] at hnumber
    have hhere : Bounded (p.lines number) := fun w hw => hb w (List.mem_append_left _ hw)
    have hlater : Bounded (partLines (number + 1) ps) := fun w hw => hb w (List.mem_append_right _ hw)
    obtain ⟨steps, hsteps, hmap⟩ := ih (by omega) hlater (first + (textsOf (p.lines number)).length)
    obtain ⟨step, hstep, hunplaced⟩ := readSteps_part (by omega) hhere first
      (atMargin_partLines ps (number + 1) (first + (textsOf (p.lines number)).length) hbelow) hsteps
    refine ⟨step :: steps, ?_, ?_⟩
    · rw [partLines, textsOf_append, numberLines_append, List.append_assoc]
      exact hstep
    · rw [List.map_cons, hunplaced, hmap, partSteps]

/-- A number of steps is a number. -/
theorem le_greatestInt64 {n : Nat} (h : n ≤ 99) : n ≤ Text.greatestInt64 :=
  Nat.le_trans h (by decide)

/-- A step that is no branch is read off the front of a text. -/
theorem readSteps_plain {c : Command} (hc : c.isBranch = false) {number : Nat} (hnumber : number ≤ Text.greatestInt64) (n : Nat)
    {below : List Line} {rest : List Step} (hrest : Program.readSteps below = .ok rest) :
    Program.readSteps (⟨n, (Placed.step number c).text.toList⟩ :: below) =
      .ok (⟨number, .act ⟨n, (headerOf number c).col, String.ofList (Placed.step number c).text.toList⟩
        (Program.action n (headerOf number c).col c.text.toList)⟩ :: rest) := by
  rw [← afterStep_of_not_branch hc number below] at hrest
  rw [readSteps_cons_heading hnumber c n hrest, stepNode_of_not_branch hc]

/-- The numbered lines of a script: its start, its parts, its stop and the empty lines behind it. -/
theorem numberLines_lines (s : Script) (breaks : Nat) : ∃ m,
    numberLines 1 (textsOf s.lines ++ List.replicate breaks []) =
      ⟨1, (Placed.step 1 .start).text.toList⟩ :: (numberLines 2 (textsOf (partLines 2 s.parts)) ++
        (⟨m, (Placed.step (s.parts.length + 2) .stop).text.toList⟩ :: numberLines (m + 1) (List.replicate breaks []))) := by
  refine ⟨2 + (textsOf (partLines 2 s.parts)).length, ?_⟩
  have hlines : textsOf s.lines = (Placed.step 1 .start).text.toList ::
      (textsOf (partLines 2 s.parts) ++ [(Placed.step (s.parts.length + 2) .stop).text.toList]) := by
    rw [lines, linesOf, textsOf, List.map_cons, List.map_append]
    rfl
  rw [hlines, List.cons_append, List.append_assoc, numberLines, numberLines_append]
  rfl

/-- The text of a script is read as the script. -/
theorem parse_text (s : Script) (breaks : Nat) :
    ∃ p, Program.parse (s.text breaks) = .ok p ∧ p.unplaced = s.steps := by
  have hshort := s.short
  have hb : Bounded (partLines 2 s.parts) := by
    intro w hw k hk
    have hmem : w ∈ linesOf s.parts := List.mem_cons_of_mem _ (List.mem_append_left _ hw)
    have hle := (s.targets w hmem k hk).2
    exact le_greatestInt64 (by omega)
  obtain ⟨m, hlines⟩ := s.numberLines_lines breaks
  have hend : Program.readSteps (numberLines (m + 1) (List.replicate breaks [])) = .ok [] := by
    have hskip := Program.readSteps_append_empty (text_of_breaks (m + 1) breaks) []
    rw [List.append_nil] at hskip
    rw [hskip, Program.readSteps]
  have hstop := readSteps_plain (c := .stop) rfl (le_greatestInt64 (by omega : s.parts.length + 2 ≤ 99)) m hend
  have hmargin : AtMargin (⟨m, (Placed.step (s.parts.length + 2) .stop).text.toList⟩ ::
      numberLines (m + 1) (List.replicate breaks [])) := by
    intro l hl
    obtain rfl := Option.some.inj hl
    exact indentation_eq_zero (isIndented_step _ _)
  obtain ⟨steps, hsteps, hunplaced⟩ := readSteps_partLines (le_greatestInt64 (by omega)) hb 2 hmargin hstop
  have hstart := readSteps_plain (c := .start) rfl (le_greatestInt64 (by decide : 1 ≤ 99)) 1 hsteps
  rw [← hlines, ← s.sourceLines_text breaks] at hstart
  refine ⟨_, Program.parse_of_readSteps hstart, ?_⟩
  rw [Program.unplaced, List.map_cons, List.map_append, hunplaced]
  rfl

end Script

end Stepwise
