import Stepwise.Proofs.ListingLines
import Stepwise.Proofs.Reading

/-!
# Reading the text of a program again

The text of a program is made of the lines it was read from, without the empty ones. Reading it again gives the same program up to
the numbers of its lines. An empty line ends a block, so leaving it out could make a block longer; but in a text that is read, the
next line that is not empty begins a step, and no step is indented.
-/

namespace Stepwise

/-! ## Other line numbers -/

/-- The line with another number. -/
def Line.relined (f : Nat → Nat) (l : Line) : Line := ⟨f l.number, l.text⟩

/-- The line is not empty. -/
def Line.isFilled (l : Line) : Bool := !l.text.isEmpty

/-- The place with another line number. -/
def Place.relined (f : Nat → Nat) (p : Place) : Place := ⟨f p.line, p.col, p.source⟩

/-- The excerpt with another line number. -/
def Excerpt.relined (f : Nat → Nat) (e : Excerpt) : Excerpt := ⟨e.text, f e.line, e.col⟩

/-- The action with another line number. -/
def Action.relined (f : Nat → Nat) : Action → Action
  | .print value => .print (value.relined f)
  | .assign name value => .assign name (value.relined f)
  | a => a

mutual

/-- The node with other line numbers; its commands, columns, source lines and blocks stay. -/
def Node.relined (f : Nat → Nat) : Node → Node
  | .act p a => .act (p.relined f) (a.relined f)
  | .branch p c block => .branch (p.relined f) (c.relined f) (relinedBlock f block)

/-- The block with other line numbers. -/
def relinedBlock (f : Nat → Nat) : List Node → List Node
  | [] => []
  | n :: ns => n.relined f :: relinedBlock f ns

end

/-- The step with other line numbers. -/
def Step.relined (f : Nat → Nat) (s : Step) : Step := ⟨s.number, s.node.relined f⟩

namespace Program

section

variable (f : Nat → Nat)

/-- The line number of a command shows only in its excerpts. -/
theorem action_relined (line col : Nat) (content : List Char) :
    action (f line) col content = (action line col content).relined f := by
  unfold action
  split <;> rfl

/-- The lines of a block are the same whatever their numbers are. -/
theorem takeWhile_inBlock_relined (least : Nat) (ls : List Line) :
    (ls.map (Line.relined f)).takeWhile (inBlock least) = (ls.takeWhile (inBlock least)).map (Line.relined f) :=
  List.takeWhile_map ..

/-- The lines after a block are the same whatever their numbers are. -/
theorem dropWhile_inBlock_relined (least : Nat) (ls : List Line) :
    (ls.map (Line.relined f)).dropWhile (inBlock least) = (ls.dropWhile (inBlock least)).map (Line.relined f) :=
  List.dropWhile_map ..

/-- The items of a block with other line numbers. -/
theorem blockItems_relined (ls : List Line) : blockItems (ls.map (Line.relined f)) = relinedBlock f (blockItems ls) := by
  fun_induction blockItems ls with
  | case1 => rw [List.map_nil, blockItems, relinedBlock]
  | case2 l ls indent content place arg harg ihinner ihouter =>
    -- where a block ends is decided by the texts of the lines
    have hfirst : Text.after? "if ".toList ((l.relined f).text.dropWhile Text.isIndent) = some arg := harg
    have hindent : indentation (l.relined f).text = indent := rfl
    rw [List.map_cons, blockItems]
    simp only [hfirst, hindent, takeWhile_inBlock_relined, dropWhile_inBlock_relined]
    rw [ihinner, ihouter, relinedBlock, Node.relined]
    rfl
  | case3 l ls indent content place harg ih =>
    rw [List.map_cons, blockItems_cons_act (l := l.relined f) _ harg, ih, relinedBlock, Node.relined, ← action_relined]
    rfl

/-- The node of a step with other line numbers. -/
theorem stepNode_relined (l : Line) (h : Header) (below : List Line) :
    stepNode (l.relined f) h (below.map (Line.relined f)) = (stepNode l h below).relined f := by
  unfold stepNode
  split
  · rw [takeWhile_inBlock_relined, blockItems_relined, Node.relined]
    rfl
  · rw [Node.relined, ← action_relined]
    rfl

/-- The lines after a step with other line numbers. -/
theorem afterStep_relined (h : Header) (below : List Line) :
    afterStep h (below.map (Line.relined f)) = (afterStep h below).map (Line.relined f) := by
  unfold afterStep
  split
  · rw [dropWhile_inBlock_relined]
  · rfl

/-- The steps of lines with other numbers. -/
theorem readSteps_relined {ls : List Line} {steps : List Step} (h : readSteps ls = .ok steps) :
    readSteps (ls.map (Line.relined f)) = .ok (steps.map (Step.relined f)) := by
  fun_induction readSteps ls generalizing steps with
  | case1 =>
    obtain rfl := Except.ok.inj h
    rw [List.map_nil, readSteps, List.map_nil]
  | case2 l ls hempty ih =>
    rw [List.map_cons, readSteps_cons_empty _ (by simpa [Line.relined] using hempty), ih h]
  | case3 => cases h
  | case4 => cases h
  | case5 => cases h
  | case6 => cases h
  | case7 l ls hfilled hindent hd hhd n hn rest hrest ih =>
    obtain rfl := Except.ok.inj h
    have hafter : readSteps (afterStep hd (ls.map (Line.relined f))) = .ok (rest.map (Step.relined f)) := by
      rw [afterStep_relined, ih hrest]
    rw [List.map_cons, List.map_cons, readSteps_cons_step (l := l.relined f) (by simpa [Line.relined] using hfilled)
      (by simpa [Line.relined] using hindent) hhd hn hafter, stepNode_relined]
    rfl

end

/-! ## Without the empty lines -/

/-- No block goes on with the line that reading begins with. -/
theorem not_inBlock_of_readSteps {ls : List Line} {steps : List Step} (h : readSteps (ls.filter Line.isFilled) = .ok steps)
    (digits : Nat) : ∀ o, (ls.filter Line.isFilled).head? = some o → inBlock (blockColumn digits) o = false := by
  intro o ho
  obtain ⟨os, hos⟩ := List.head?_eq_some_iff.1 ho
  have hfilled : o.isFilled = true := (List.mem_filter.1 (List.mem_of_mem_head? ho)).2
  have hindent : isIndented o.text = false := by
    rw [Bool.eq_false_iff]
    intro hindent
    rw [hos, readSteps] at h
    simp [hindent, (Bool.not_eq_true' _).mp hfilled] at h
  rw [inBlock, indentation_eq_zero hindent, blockColumn]
  simp

/-- Where the next line that is not empty ends a block, the block and what follows it are the same without the empty lines. -/
theorem inBlock_filter {least : Nat} {ls : List Line}
    (h : ∀ o, ((ls.dropWhile (inBlock least)).filter Line.isFilled).head? = some o → inBlock least o = false) :
    (ls.filter Line.isFilled).takeWhile (inBlock least) = ls.takeWhile (inBlock least) ∧
      (ls.filter Line.isFilled).dropWhile (inBlock least) = (ls.dropWhile (inBlock least)).filter Line.isFilled := by
  have hin : ∀ l ∈ ls.takeWhile (inBlock least), inBlock least l = true := fun l hl => List.mem_takeWhile_imp hl
  have hfilled : (ls.takeWhile (inBlock least)).filter Line.isFilled = ls.takeWhile (inBlock least) :=
    List.filter_eq_self.2 fun l hl => ((Bool.and_eq_true _ _).mp (hin l hl)).1
  have hcut : ls.filter Line.isFilled =
      ls.takeWhile (inBlock least) ++ (ls.dropWhile (inBlock least)).filter Line.isFilled := by
    conv_lhs => rw [← List.takeWhile_append_dropWhile (p := inBlock least) (l := ls), List.filter_append, hfilled]
  rw [hcut]
  exact takeWhile_dropWhile_border hin h

/-- A step takes the same block with or without the empty lines, if the lines after it are read. -/
theorem step_filter {l : Line} {h : Header} {below : List Line} {steps : List Step}
    (hafter : readSteps ((afterStep h below).filter Line.isFilled) = .ok steps) :
    stepNode l h (below.filter Line.isFilled) = stepNode l h below ∧
      afterStep h (below.filter Line.isFilled) = (afterStep h below).filter Line.isFilled := by
  cases harg : Text.after? "if ".toList h.content with
  | none => simp only [stepNode, afterStep, harg, and_self]
  | some arg =>
    simp only [stepNode, afterStep, harg] at hafter ⊢
    obtain ⟨htake, hdrop⟩ := inBlock_filter (not_inBlock_of_readSteps hafter h.digits.length)
    rw [htake, hdrop]
    exact ⟨rfl, rfl⟩

/-- Reading does not need the empty lines. -/
theorem readSteps_filter {ls : List Line} {steps : List Step} (h : readSteps ls = .ok steps) :
    readSteps (ls.filter Line.isFilled) = .ok steps := by
  fun_induction readSteps ls generalizing steps with
  | case1 => rw [List.filter_nil, readSteps, h]
  | case2 l ls hempty ih => rw [List.filter_cons_of_neg (by simp [Line.isFilled, hempty]), ih h]
  | case3 => cases h
  | case4 => cases h
  | case5 => cases h
  | case6 => cases h
  | case7 l ls hfilled hindent hd hhd n hn rest hrest ih =>
    obtain rfl := Except.ok.inj h
    -- what follows the step is read, so its first line ends the block also when it moves up to the block
    obtain ⟨hnode, hafter⟩ := step_filter (l := l) (ih hrest)
    rw [List.filter_cons_of_pos (by simpa [Line.isFilled] using hfilled),
      readSteps_cons_step (by simpa using hfilled) (by simpa using hindent) hhd hn (hafter ▸ ih hrest), hnode]

end Program

/-! ## Numbers without gaps -/

/-- How many lines of a text that are not empty stand in its first `n` lines. -/
def lineRank (text : String) (n : Nat) : Nat :=
  (sourceLines text).countP fun l => l.isFilled && decide (l.number ≤ n)

/-- Where the numbers go up, the line at a place has as many lines up to it as the place says. -/
theorem countP_number_le {ls : List Line} (hup : ls.Pairwise fun a b => a.number < b.number) {i : Nat} {l : Line}
    (hl : ls[i]? = some l) : ls.countP (fun k => decide (k.number ≤ l.number)) = i + 1 := by
  induction ls generalizing i with
  | nil => cases hl
  | cons k ks ih =>
    obtain ⟨hk, hks⟩ := List.pairwise_cons.1 hup
    cases i with
    | zero =>
      obtain rfl : k = l := Option.some.inj hl
      have hnone : ks.countP (fun m => decide (m.number ≤ k.number)) = 0 :=
        List.countP_eq_zero.2 fun m hm => by simpa using hk m hm
      rw [List.countP_cons_of_pos (by simp), hnone]
    | succ i =>
      have hlt := hk l (List.mem_of_getElem? hl)
      rw [List.countP_cons_of_pos (by simpa using Nat.le_of_lt hlt), ih hks hl]

/-- Lines that get the numbers of their places are numbered anew. -/
theorem map_relined_eq_numberLines {f : Nat → Nat} {first : Nat} {ls : List Line}
    (h : ∀ i l, ls[i]? = some l → f l.number = first + i) :
    ls.map (Line.relined f) = numberLines first (ls.map Line.text) := by
  induction ls generalizing first with
  | nil => rfl
  | cons l ls ih =>
    have hrest : ∀ i k, ls[i]? = some k → f k.number = first + 1 + i := by
      intro i k hk
      rw [h (i + 1) k hk]
      omega
    rw [List.map_cons, List.map_cons, numberLines, ih hrest, Line.relined, h 0 l rfl, Nat.add_zero]

/-- Without the empty lines, a line gets its rank as its number. -/
theorem numberLines_filled (text : String) :
    numberLines 1 (((sourceLines text).filter Line.isFilled).map Line.text) =
      ((sourceLines text).filter Line.isFilled).map (Line.relined (lineRank text)) := by
  have hup : ((sourceLines text).filter Line.isFilled).Pairwise fun a b => a.number < b.number :=
    (numberLines_pairwise 1 (splitLines text.toList)).filter _
  refine (map_relined_eq_numberLines fun i l hl => ?_).symm
  rw [Nat.add_comm, ← countP_number_le hup hl, List.countP_filter, lineRank]
  simp only [Bool.and_comm]

/-! ## The text and its listing -/

/-- The line number of a line of the listing. -/
theorem Entry.span_line (e : Entry) : e.span.line = e.node.line := by
  unfold Entry.span
  split <;> rfl

namespace Program

variable {text : String} {p : Program}

/-- The text of a program is made of the lines of the text it was read from, without the empty ones. -/
theorem text_eq_intercalate (h : parse text = .ok p) :
    p.text = "\n".intercalate (((sourceLines text).filter Line.isFilled).map fun l => String.ofList l.text) := by
  have hwritten : p.listing.map Entry.written = (sourceLines text).filter Line.isFilled := listing_written h
  rw [Program.text, ← hwritten, List.map_map]
  congr 1
  refine List.map_congr_left fun e _ => ?_
  exact String.ofList_toList.symm

/-- The lines of the text of a program are those that are not empty, numbered anew. -/
theorem sourceLines_text (h : parse text = .ok p) :
    sourceLines p.text = ((sourceLines text).filter Line.isFilled).map (Line.relined (lineRank text)) := by
  obtain ⟨hsteps, hne⟩ := readSteps_of_parse h
  have hfilled : (sourceLines text).filter Line.isFilled ≠ [] := by
    intro hnil
    have hread := readSteps_filter hsteps
    rw [hnil, readSteps] at hread
    exact hne (Except.ok.inj hread).symm
  have htidy : ∀ s ∈ ((sourceLines text).filter Line.isFilled).map (fun l => String.ofList l.text),
      '\n' ∉ s.toList ∧ '\r' ∉ s.toList ∧ Text.trimRight Text.isIndent s.toList = s.toList := by
    intro s hs
    obtain ⟨l, hl, rfl⟩ := List.mem_map.1 hs
    rw [String.toList_ofList]
    exact tidy_of_mem_splitLines (text_mem_of_mem_numberLines (List.mem_of_mem_filter hl))
  rw [text_eq_intercalate h, sourceLines_intercalate (by simpa using hfilled) htidy, ← numberLines_filled, List.map_map]
  congr 1
  exact List.map_congr_left fun l _ => String.toList_ofList

/-- Reading the text of a program gives its steps with other line numbers. -/
theorem parse_text (h : parse text = .ok p) :
    parse p.text = .ok ⟨p.steps.map (Step.relined (lineRank text)), p.text⟩ := by
  obtain ⟨hsteps, hne⟩ := readSteps_of_parse h
  have hread := readSteps_relined (lineRank text) (readSteps_filter hsteps)
  rw [← sourceLines_text h] at hread
  obtain ⟨s, ss, hcons⟩ := List.exists_cons_of_ne_nil hne
  rw [hcons, List.map_cons] at hread ⊢
  exact parse_of_readSteps hread

/-- The text of a program has no empty line. -/
theorem filter_sourceLines_text (h : parse text = .ok p) :
    (sourceLines p.text).filter Line.isFilled = sourceLines p.text := by
  rw [sourceLines_text h, List.filter_map]
  exact congrArg _ (List.filter_eq_self.2 fun l hl => (List.mem_filter.1 hl).2)

/-- Reading the text of a program again does not change the text. -/
theorem text_of_reread (h : parse text = .ok p) {q : Program} (hq : parse p.text = .ok q) : q.text = p.text := by
  rw [text_eq_intercalate hq, filter_sourceLines_text h, sourceLines_text h, List.map_map, text_eq_intercalate h]
  rfl

/-- A line of the listing is the line of the text that its place names. -/
theorem listing_text (h : parse text = .ok p) {e : Entry} (he : e ∈ p.listing) :
    ∃ n : Nat, e.span.line = n + 1 ∧ (splitLines text.toList)[n]? = some e.text.toList := by
  have hmem : e.written ∈ sourceLines text := by
    have hwritten := List.mem_map_of_mem (f := Entry.written) he
    rw [listing_written h] at hwritten
    exact List.mem_of_mem_filter hwritten
  obtain ⟨n, hn, hnumber⟩ := mem_numberLines.1 hmem
  refine ⟨n, ?_, hn⟩
  have hline : e.node.line = 1 + n := hnumber
  rw [Entry.span_line, hline]
  omega

/-- The text of a program is the text it was read from without the empty lines, its listing names the lines of that text, and
reading it gives the program again, with the numbers of its lines counted without the empty ones. -/
theorem text_rereads (h : parse text = .ok p) :
    p.text = "\n".intercalate (((splitLines text.toList).filter fun l => !l.isEmpty).map String.ofList) ∧
      (p.listing.Pairwise fun a b => a.span.line < b.span.line) ∧
      (∀ e ∈ p.listing, ∃ n : Nat, e.span.line = n + 1 ∧ (splitLines text.toList)[n]? = some e.text.toList) ∧
      ∃ q, parse p.text = .ok q ∧ q.steps = p.steps.map (Step.relined (lineRank text)) ∧ q.source = p.text ∧ q.text = p.text := by
  refine ⟨?_, ?_, fun e he => listing_text h he, _, parse_text h, rfl, rfl, text_of_reread h (parse_text h)⟩
  · have hlines := numberLines_map_text 1 (splitLines text.toList)
    rw [text_eq_intercalate h, ← hlines, List.filter_map, List.map_map]
    rfl
  · refine (listing_pairwise h).imp fun hlt => ?_
    rw [Entry.span_line, Entry.span_line]
    exact Int.ofNat_lt.2 hlt

/-- A text with empty lines and three kinds of line breaks. -/
def gappedText : String := "\nstep-1: start  \r\nstep-2: if 1 > 0:\n          print 1\n\n\rstep-3: stop\n"

theorem text_rereads_gapped : ∃ p q, parse gappedText = .ok p ∧
    p.text = "step-1: start\nstep-2: if 1 > 0:\n          print 1\nstep-3: stop" ∧ parse p.text = .ok q ∧
      q.steps = p.steps.map (Step.relined (lineRank gappedText)) ∧ q.text = p.text := by
  have hok : (parse gappedText).isOk = true := by decide +kernel
  cases hparse : parse gappedText with
  | error e =>
    rw [hparse] at hok
    cases hok
  | ok p =>
    obtain ⟨htext, _, _, q, hq, hsteps, _, hsame⟩ := text_rereads hparse
    refine ⟨p, q, rfl, htext.trans ?_, hq, hsteps, hsame⟩
    decide +kernel

end Program

end Stepwise
