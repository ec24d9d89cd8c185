import Stepwise.Proofs.Groups

/-!
# Reading an accepted text

The steps of a text whose lines come in groups, written down group by group: an item is an action, or a branch over the lines
nested under it; a step is an action, or a branch over its items. `readSteps_groups` says that these are the steps that the
reader finds.
-/

namespace Stepwise

/-- Cutting at the first element outside a class finds the border between two parts of a list. -/
theorem takeWhile_dropWhile_border {α : Type} {p : α → Bool} {as bs : List α} (ha : ∀ a ∈ as, p a = true)
    (hb : ∀ b, bs.head? = some b → p b = false) : (as ++ bs).takeWhile p = as ∧ (as ++ bs).dropWhile p = bs := by
  rw [List.takeWhile_append_of_pos ha, List.dropWhile_append_of_pos ha]
  cases bs with
  | nil => simp
  | cons b bs =>
    have hb := hb b rfl
    rw [List.takeWhile_cons_of_neg (by simp [hb]), List.dropWhile_cons_of_neg (by simp [hb]), List.append_nil]
    exact ⟨rfl, rfl⟩

namespace Program

/-- A line that is no branch is an action. -/
theorem blockItems_cons_act {l : Line} (ls : List Line) (h : Text.after? "if ".toList (l.text.dropWhile Text.isIndent) = none) :
    blockItems (l :: ls) =
      .act ⟨l.number, indentation l.text + 1, String.ofList l.text⟩
        (action l.number (indentation l.text + 1) (l.text.dropWhile Text.isIndent)) :: blockItems ls := by
  rw [blockItems]
  simp only [h]

/-- A branch takes the lines that are indented two columns further. -/
theorem blockItems_cons_branch {l : Line} {arg : List Char} {inner outer : List Line}
    (h : Text.after? "if ".toList (l.text.dropWhile Text.isIndent) = some arg)
    (hinner : ∀ i ∈ inner, inBlock (indentation l.text + 2) i = true)
    (houter : ∀ o, outer.head? = some o → inBlock (indentation l.text + 2) o = false) :
    blockItems (l :: (inner ++ outer)) =
      .branch ⟨l.number, indentation l.text + 1, String.ofList l.text⟩ (condition l.number (indentation l.text + 1) arg)
        (blockItems inner) :: blockItems outer := by
  obtain ⟨htake, hdrop⟩ := takeWhile_dropWhile_border hinner houter
  rw [blockItems]
  simp only [h, htake, hdrop]

/-- An empty line is passed. -/
theorem readSteps_cons_empty {l : Line} (ls : List Line) (h : l.text = []) : readSteps (l :: ls) = readSteps ls := by
  rw [readSteps]
  simp [h]

/-- Empty lines before a text do not count. -/
theorem readSteps_append_empty {before : List Line} (h : ∀ l ∈ before, l.text = []) (ls : List Line) :
    readSteps (before ++ ls) = readSteps ls := by
  induction before with
  | nil => rfl
  | cons l before ih =>
    rw [List.cons_append, readSteps_cons_empty _ (h l List.mem_cons_self),
      ih fun k hk => h k (List.mem_cons_of_mem l hk)]

/-- A line with a header begins a step. -/
theorem readSteps_cons_step {l : Line} {ls : List Line} {h : Header} {n : Nat} {rest : List Step} (hfilled : l.text ≠ [])
    (hindent : isIndented l.text = false) (hh : header? l.text = some h) (hn : Text.readNumeral? h.digits = some n)
    (hrest : readSteps (afterStep h ls) = .ok rest) : readSteps (l :: ls) = .ok (⟨n, stepNode l h ls⟩ :: rest) := by
  rw [readSteps]
  have hne : l.text.isEmpty = false := by simpa using hfilled
  simp only [hne, hindent, hh, hn, hrest, Bool.false_eq_true, if_false]

/-- A text with a step is read as a program. -/
theorem parse_of_readSteps {text : String} {s : Step} {ss : List Step}
    (h : readSteps (sourceLines text) = .ok (s :: ss)) : parse text = .ok ⟨s :: ss, text⟩ := by
  rw [parse, h]

/-- A program has the steps of its text, and at least one. -/
theorem readSteps_of_parse {text : String} {p : Program} (h : parse text = .ok p) :
    readSteps (sourceLines text) = .ok p.steps ∧ p.steps ≠ [] := by
  unfold parse at h
  split at h
  · cases h
  · cases h
  · rename_i steps hne hsteps
    obtain rfl := Except.ok.inj h
    exact ⟨hsteps, hne⟩

end Program

/-- A line that is not indented begins with no space. -/
theorem indentation_eq_zero {line : List Char} (h : isIndented line = false) : indentation line = 0 := by
  cases line with
  | nil => rfl
  | cons c cs =>
    have hc : (c == ' ') = false := by
      simp only [isIndented, List.head?_cons, Option.any_some, Text.isIndent, Bool.or_eq_false_iff] at h
      exact h.1
    rw [indentation, List.takeWhile_cons_of_neg (by simp [hc]), List.length_nil]

namespace Check

variable {first base : Nat}

/-! ## The nodes of items and groups -/

/-- The action of a line of a block. -/
def Mark.act (m : Mark first) : Node :=
  .act ⟨m.line.number, indentation m.line.text + 1, String.ofList m.line.text⟩
    (Program.action m.line.number (indentation m.line.text + 1) m.statement.content)

/-- The node of an item. -/
def Item.node (i : Item first base) : Node :=
  match Text.after? "if ".toList i.lead.statement.content with
  | some arg =>
    .branch ⟨i.lead.line.number, indentation i.lead.line.text + 1, String.ofList i.lead.line.text⟩
      (Program.condition i.lead.line.number (indentation i.lead.line.text + 1) arg) (i.nested.map Mark.act)
  | none => i.lead.act

/-- The column where the command of a step begins. -/
def Group.col (g : Group first) : Nat := 5 + g.head.digits.length + 1 + 1 + 1

/-- The node of a step. -/
def Group.node (g : Group first) : Node :=
  match Text.after? "if ".toList (Text.strip g.lead.statement.content) with
  | some arg =>
    .branch ⟨g.lead.line.number, g.col, String.ofList g.lead.line.text⟩ (Program.condition g.lead.line.number g.col arg)
      (g.items.map Item.node)
  | none =>
    .act ⟨g.lead.line.number, g.col, String.ofList g.lead.line.text⟩
      (Program.action g.lead.line.number g.col (Text.strip g.lead.statement.content))

/-- The step of a group. -/
def Group.step (g : Group first) : Step := ⟨g.head.number, g.node⟩

/-! ## The reader finds them -/

/-- A line of a block begins with `if` for the reader exactly when it is a branch for the check. -/
theorem Mark.after?_eq_none {m : Mark first} (hif : isIf m.statement.content = false) :
    Text.after? "if ".toList m.statement.content = none := by
  cases harg : Text.after? "if ".toList m.statement.content with
  | none => rfl
  | some arg =>
    have htrue := m.passes.isIf_iff.2 ⟨arg, harg⟩
    rw [hif] at htrue
    cases htrue

/-- A line of a block belongs to every block that begins at its column or before it. -/
theorem Mark.inBlock_iff {m : Mark first} (hm : m.statement.head = none) (least : Nat) :
    Program.inBlock least m.line = true ↔ least ≤ m.statement.indent := by
  have hfilled : m.line.text.isEmpty = false := by simpa using m.filled
  simp only [Program.inBlock, hfilled, Bool.not_false, Bool.true_and, decide_eq_true_eq, (m.of_head_none hm).1]

/-- Nothing is nested under an item that is no branch for the reader. -/
theorem Item.nested_eq_nil {i : Item first base} (h : Text.after? "if ".toList i.lead.statement.content = none) :
    i.nested = [] := by
  by_contra hne
  have hif := i.lead.passes.isIf_eq_false h
  rw [i.opens.2 hne] at hif
  cases hif

/-- A step that is no branch for the reader has no items. -/
theorem Group.items_eq_nil {g : Group first} (h : Text.after? "if ".toList (Text.strip g.lead.statement.content) = none) :
    g.items = [] := by
  by_contra hne
  have hif := g.lead.passes.strip.isIf_eq_false h
  rw [g.opens.2 hne] at hif
  cases hif

/-- Lines that are no branches are read as actions. -/
theorem blockItems_nested (ms : List (Mark first)) (hhead : ∀ m ∈ ms, m.statement.head = none)
    (hif : ∀ m ∈ ms, isIf m.statement.content = false) : Program.blockItems (ms.map Mark.line) = ms.map Mark.act := by
  induction ms with
  | nil => rw [List.map_nil, Program.blockItems, List.map_nil]
  | cons m ms ih =>
    have hcontent := (m.of_head_none (hhead m List.mem_cons_self)).2
    have hnone := Mark.after?_eq_none (hif m List.mem_cons_self)
    rw [List.map_cons, Program.blockItems_cons_act _ (hcontent ▸ hnone), ← hcontent, List.map_cons,
      ih (fun n hn => hhead n (List.mem_cons_of_mem m hn)) (fun n hn => hif n (List.mem_cons_of_mem m hn))]
    rfl

/-- The items of a block are read one by one. -/
theorem blockItems_items (items : List (Item first base)) :
    Program.blockItems ((items.flatMap Item.marks).map Mark.line) = items.map Item.node := by
  induction items with
  | nil => rw [List.flatMap_nil, List.map_nil, Program.blockItems, List.map_nil]
  | cons i items ih =>
    obtain ⟨hindent, hcontent⟩ := i.lead.of_head_none i.inBlock
    have hlines : ((i :: items).flatMap Item.marks).map Mark.line =
        i.lead.line :: (i.nested.map Mark.line ++ (items.flatMap Item.marks).map Mark.line) := by
      simp [Item.marks]
    rw [hlines, List.map_cons, ← ih]
    unfold Item.node
    split
    · rename_i arg harg
      rw [Program.blockItems_cons_branch (hcontent ▸ harg), blockItems_nested]
      · exact fun m hm => (i.deeper m hm).1
      · exact fun m hm => (i.deeper m hm).2.2
      · intro l hl
        obtain ⟨m, hm, rfl⟩ := List.mem_map.1 hl
        obtain ⟨hhead, hcol, _⟩ := i.deeper m hm
        rw [m.inBlock_iff hhead, hcol, ← hindent, i.column]
      · -- the next item stands at the column of the block, so it ends the nested lines
        intro l hl
        cases items with
        | nil => cases hl
        | cons j items =>
          obtain rfl : j.lead.line = l := by simpa [Item.marks] using hl
          rw [← Bool.not_eq_true, j.lead.inBlock_iff j.inBlock, j.column, ← hindent, i.column]
          omega
    · rename_i hnone
      rw [Item.nested_eq_nil hnone, List.map_nil, List.nil_append, Program.blockItems_cons_act _ (hcontent ▸ hnone), ← hcontent]
      rfl

/-- The lines of a block stand at its column or further. -/
theorem Item.inBlock_marks (i : Item first base) : ∀ m ∈ i.marks, Program.inBlock base m.line = true := by
  intro m hm
  rcases List.mem_cons.1 hm with rfl | hm
  · rw [i.lead.inBlock_iff i.inBlock, i.column]
  · obtain ⟨hhead, hcol, _⟩ := i.deeper m hm
    rw [m.inBlock_iff hhead, hcol]
    omega

/-- The line of a step and the empty lines after the text belong to no block. -/
theorem not_inBlock_head (gs : List (Group first)) {after : List Line} (ha : ∀ l ∈ after, l.text = []) (n : Nat) :
    ∀ l, ((gs.flatMap Group.marks).map Mark.line ++ after).head? = some l →
      Program.inBlock (Program.blockColumn n) l = false := by
  intro l hl
  cases gs with
  | nil =>
    have hempty := ha l (List.mem_of_mem_head? (by simpa using hl))
    simp [Program.inBlock, hempty]
  | cons g gs =>
    obtain rfl : g.lead.line = l := by simpa [Group.marks] using hl
    have hzero := indentation_eq_zero (g.lead.of_head g.isStep).1
    simp only [Program.inBlock, hzero, Program.blockColumn, Bool.and_eq_false_iff, decide_eq_false_iff_not]
    exact Or.inr (by omega)

/-- The reader finds the steps of the groups. -/
theorem readSteps_groups (gs : List (Group first)) {after : List Line} (ha : ∀ l ∈ after, l.text = [])
    (hnum : ∀ g ∈ gs, Text.readNumeral? g.head.digits = some g.head.number) :
    Program.readSteps ((gs.flatMap Group.marks).map Mark.line ++ after) = .ok (gs.map Group.step) := by
  induction gs with
  | nil =>
    have hskip := Program.readSteps_append_empty ha []
    rw [List.append_nil] at hskip
    rw [List.flatMap_nil, List.map_nil, List.nil_append, hskip, Program.readSteps, List.map_nil]
  | cons g gs ih =>
    obtain ⟨hindent, _, _, hheader⟩ := g.lead.of_head g.isStep
    have hlines : ((g :: gs).flatMap Group.marks).map Mark.line ++ after =
        g.lead.line :: ((g.items.flatMap Item.marks).map Mark.line ++
          ((gs.flatMap Group.marks).map Mark.line ++ after)) := by
      simp [Group.marks]
    have hin : ∀ l ∈ (g.items.flatMap Item.marks).map Mark.line,
        Program.inBlock (Program.blockColumn g.head.digits.length) l = true := by
      intro l hl
      obtain ⟨m, hm, rfl⟩ := List.mem_map.1 hl
      obtain ⟨i, _, hm⟩ := List.mem_flatMap.1 hm
      exact i.inBlock_marks m hm
    obtain ⟨htake, hdrop⟩ := takeWhile_dropWhile_border hin (not_inBlock_head gs ha g.head.digits.length)
    have hrest := ih fun g' hg' => hnum g' (List.mem_cons_of_mem g hg')
    rw [hlines, List.map_cons]
    unfold Group.step Group.node
    split
    · rename_i arg harg
      rw [Program.readSteps_cons_step g.lead.filled hindent hheader (hnum g List.mem_cons_self)]
      · simp only [Program.stepNode, harg, htake, blockItems_items]
        rfl
      · simp only [Program.afterStep, harg, hdrop, hrest]
        rfl
    · rename_i hnone
      rw [Group.items_eq_nil hnone, List.flatMap_nil, List.map_nil, List.nil_append,
        Program.readSteps_cons_step g.lead.filled hindent hheader (hnum g List.mem_cons_self)]
      · simp only [Program.stepNode, hnone]
        rfl
      · simp only [Program.afterStep, hnone, hrest]
        rfl

end Check

end Stepwise
