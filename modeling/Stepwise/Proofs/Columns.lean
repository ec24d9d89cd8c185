import Stepwise.Proofs.Announced
import Stepwise.Proofs.Gate

/-!
# Columns

The column of an expression or a condition is counted from the column of its command: the characters before the argument, and the
spaces that the argument begins with. All blanks around an argument are cut off, but only spaces are counted, and the blanks that are
cut off before the command of a step are not counted at all. `Entry.overlooked` is what is missing in the count, so a text stands that
many characters to the right of its column, and the caret of a failed evaluation stands that many to the left of what it shows.
-/

namespace Stepwise

/-! ## Texts on lines -/

/-- The text stands on the line from the given column on, counted from 1. -/
def StandsAt (line text : List Char) (col : Nat) : Prop :=
  ∃ before after, line = before ++ text ++ after ∧ col = before.length + 1

section

variable {line text : List Char} {col : Nat}

theorem standsAt_iff : StandsAt line text col ↔ 1 ≤ col ∧ col ≤ line.length + 1 ∧ text <+: line.drop (col - 1) := by
  constructor
  · rintro ⟨before, after, rfl, rfl⟩
    refine ⟨by omega, by simp, ?_⟩
    rw [Nat.add_sub_cancel, List.append_assoc, List.drop_left]
    exact List.prefix_append text after
  · rintro ⟨hpos, hle, after, hafter⟩
    refine ⟨line.take (col - 1), after, ?_, ?_⟩
    · rw [List.append_assoc, hafter, List.take_append_drop]
    · rw [List.length_take]
      omega

instance : Decidable (StandsAt line text col) := decidable_of_iff _ standsAt_iff.symm

/-- A text stands behind what stands before it. -/
theorem StandsAt.right {a : List Char} (h : StandsAt line (a ++ text) col) : StandsAt line text (col + a.length) := by
  obtain ⟨before, after, rfl, rfl⟩ := h
  refine ⟨before ++ a, after, ?_, ?_⟩
  · simp only [List.append_assoc]
  · rw [List.length_append]
    omega

/-- The beginning of a text stands where the text stands. -/
theorem StandsAt.beginning {t : List Char} (h : StandsAt line text col) (ht : t <+: text) : StandsAt line t col := by
  obtain ⟨before, after, rfl, rfl⟩ := h
  obtain ⟨rest, rfl⟩ := ht
  exact ⟨before, rest ++ after, by simp only [List.append_assoc], rfl⟩

/-- Two texts that stand at the same column begin with the same character. -/
theorem StandsAt.head_eq {c d : Char} {cs ds : List Char} (hc : StandsAt line (c :: cs) col) (hd : StandsAt line (d :: ds) col) :
    c = d := by
  obtain ⟨⟨-, -, u, hu⟩, -, -, v, hv⟩ := standsAt_iff.1 hc, standsAt_iff.1 hd
  exact (List.cons.inj (hu.trans hv.symm)).1

end

/-! ## Arguments of commands -/

/-- The blanks at the beginning of an argument that are not counted: those after its spaces. -/
def hiddenBlanks (arg : List Char) : List Char := (arg.dropWhile (· == ' ')).takeWhile Text.isBlank

/-- An argument is its spaces, the blanks after them, and a rest that begins with what is left of it without blanks. -/
theorem argument_eq (arg : List Char) :
    ∃ rest, arg = arg.takeWhile (· == ' ') ++ (hiddenBlanks arg ++ (Text.strip arg ++ rest)) := by
  have hspaces : ∀ c ∈ arg.takeWhile (· == ' '), Text.isBlank c = true := by
    intro c hc
    have hspace : c = ' ' := by simpa using List.mem_takeWhile_imp hc
    subst hspace
    rfl
  have hdrop : arg.dropWhile Text.isBlank = (arg.dropWhile (· == ' ')).dropWhile Text.isBlank := by
    conv_lhs => rw [← List.takeWhile_append_dropWhile (p := (· == ' ')) (l := arg)]
    rw [List.dropWhile_append_of_pos hspaces]
  obtain ⟨rest, hrest⟩ : Text.strip arg <+: arg.dropWhile Text.isBlank := List.rdropWhile_prefix Text.isBlank _
  refine ⟨rest, ?_⟩
  rw [hrest, hdrop, hiddenBlanks, List.takeWhile_append_dropWhile, List.takeWhile_append_dropWhile]

/-- Behind its spaces an argument goes on with the blanks that are not counted and with what is left of it. -/
theorem StandsAt.argument {line arg : List Char} {col : Nat} (h : StandsAt line arg col) :
    StandsAt line (hiddenBlanks arg ++ Text.strip arg) (col + indentation arg) := by
  obtain ⟨rest, harg⟩ := argument_eq arg
  rw [harg] at h
  refine h.right.beginning ?_
  rw [← List.append_assoc]
  exact List.prefix_append _ rest

namespace Form

/-- What stands before the argument of a command that evaluates something, and the argument. -/
def parts? : Form → Option (List Char × List Char)
  | print arg => some ("print ".toList, arg)
  | branch arg => some ("if ".toList, arg)
  | assign name value => some (name ++ ['='], value)
  | _ => none

/-- What a command evaluates, as it is placed when the command begins at the given place. -/
def excerpt? (line col : Nat) : Form → Option Excerpt
  | print arg => some (Program.excerpt line col 6 arg)
  | branch arg => some (Program.condition line col arg)
  | assign name value => some (Program.excerpt line col (name.length + 1) value)
  | _ => none

theorem parts?_ofText {content lead arg : List Char} (h : (ofText content).parts? = some (lead, arg)) : content = lead ++ arg := by
  unfold ofText at h
  split at h
  · cases h
  · split at h
    · cases h
    · split at h
      · rename_i arg' hword
        obtain ⟨rfl, rfl⟩ := Prod.mk.inj (Option.some.inj h)
        exact Text.after?_eq_some_iff.1 hword
      · split at h
        · cases h
        · split at h
          · cases h
          · split at h
            · rename_i arg' hword
              obtain ⟨rfl, rfl⟩ := Prod.mk.inj (Option.some.inj h)
              exact Text.after?_eq_some_iff.1 hword
            · split at h
              · rename_i name value hsign
                obtain ⟨rfl, rfl⟩ := Prod.mk.inj (Option.some.inj h)
                rw [(findAssignment_eq_some hsign).1, List.append_assoc, List.singleton_append]
              · cases h

/-- A condition is the beginning of its argument without blanks. -/
theorem condition_beginning (line col : Nat) (arg : List Char) :
    (Program.condition line col arg).text.toList <+: Text.strip arg := by
  simp only [Program.condition, String.toList_ofList]
  split
  · -- the colon is cut off at the end, and what is left still begins without a blank
    have hdrop : (Text.strip arg).dropLast.dropWhile Text.isBlank = (Text.strip arg).dropLast := by
      cases hcs : Text.strip arg with
      | nil => rfl
      | cons c cs =>
        cases cs with
        | nil => rfl
        | cons d ds => rw [List.dropLast_cons_cons, List.dropWhile_cons_of_neg (by simp [Text.isBlank_head_strip hcs])]
    rw [Text.strip, Text.trim, hdrop]
    exact (List.rdropWhile_prefix Text.isBlank _).trans (List.dropLast_prefix _)
  · exact List.prefix_refl _

/-- What a command evaluates begins as its argument does without blanks, and its column counts what stands before the argument and
the spaces of the argument. -/
theorem excerpt?_eq_some {f : Form} {line col : Nat} {x : Excerpt} (h : f.excerpt? line col = some x) :
    ∃ lead arg, f.parts? = some (lead, arg) ∧ x.text.toList <+: Text.strip arg ∧ x.line = line ∧
      x.col = col + lead.length + indentation arg := by
  cases f with
  | print arg =>
    obtain rfl := Option.some.inj h
    exact ⟨_, arg, rfl, by simp [Program.excerpt], rfl, rfl⟩
  | branch arg =>
    obtain rfl := Option.some.inj h
    exact ⟨_, arg, rfl, condition_beginning line col arg, rfl, rfl⟩
  | assign name value =>
    obtain rfl := Option.some.inj h
    exact ⟨_, value, rfl, by simp [Program.excerpt], rfl, by simp [Program.excerpt]⟩
  | start | stop | read | jump | unknown => cases h

end Form

/-! ## What the lines of a listing evaluate -/

/-- What an action evaluates. -/
def Action.excerpt? : Action → Option Excerpt
  | print e => some e
  | assign _ e => some e
  | _ => none

/-- What a node evaluates: the expression of a print or an assignment, or the condition of a branch. -/
def Node.excerpt? : Node → Option Excerpt
  | act _ a => a.excerpt?
  | branch _ cond _ => some cond

namespace Entry

/-- The line from the column of its command on. -/
def command (e : Entry) : List Char := e.text.toList.drop (e.node.place.col - 1)

/-- The command as it is read: a step without the blanks around it, a line of a block without its indentation. -/
def content (e : Entry) : List Char :=
  if e.path = [] then Text.strip e.command else e.command.dropWhile Text.isIndent

/-- How many characters are cut off before the command. -/
def skipped (e : Entry) : Nat :=
  (e.command.takeWhile (if e.path = [] then Text.isBlank else Text.isIndent)).length

/-- The blanks before what the command evaluates that its column does not count. -/
def hidden (e : Entry) : List Char :=
  match (Form.ofText e.content).parts? with
  | some (_, arg) => hiddenBlanks arg
  | none => []

/-- How many characters the column of what the command evaluates does not count. -/
def overlooked (e : Entry) : Nat := e.skipped + e.hidden.length

/-- The line reaches up to its command, which says what is evaluated and whether there is a block. -/
structure Placed (e : Entry) : Prop where
  positive : 1 ≤ e.node.place.col
  reached : e.node.place.col ≤ e.text.toList.length + 1
  excerpt : e.node.excerpt? = (Form.ofText e.content).excerpt? e.node.line e.node.place.col
  branch : ∀ place cond block, e.node = .branch place cond block → ∃ arg, e.content = "if ".toList ++ arg
  step : e.path = [] → isIndented e.text.toList = false ∧
    ∃ h, Program.header? e.text.toList = some h ∧ h.col = e.node.place.col
  item : e.path ≠ [] → 0 < indentation e.text.toList ∧ e.node.place.col = indentation e.text.toList + 1

/-- The command as it is read stands on the line, to the right of its column by what was cut off. -/
theorem Placed.standsAt_content {e : Entry} (h : e.Placed) :
    StandsAt e.text.toList e.content (e.node.place.col + e.skipped) := by
  have hcommand : StandsAt e.text.toList e.command e.node.place.col :=
    standsAt_iff.2 ⟨h.positive, h.reached, List.prefix_refl _⟩
  rw [content, skipped]
  split
  · rw [← List.takeWhile_append_dropWhile (p := Text.isBlank) (l := e.command)] at hcommand
    exact hcommand.right.beginning (List.rdropWhile_prefix Text.isBlank _)
  · rw [← List.takeWhile_append_dropWhile (p := Text.isIndent) (l := e.command)] at hcommand
    exact hcommand.right

/-- What a line evaluates stands on it, behind the blanks that are not counted and to the right by what was cut off. -/
theorem Placed.standsAt_hidden {e : Entry} (h : e.Placed) {x : Excerpt} (hx : e.node.excerpt? = some x) :
    StandsAt e.text.toList (e.hidden ++ x.text.toList) (x.col + e.skipped) := by
  obtain ⟨lead, arg, hparts, hbeginning, -, hcol⟩ := Form.excerpt?_eq_some (h.excerpt ▸ hx)
  have hcontent := h.standsAt_content
  rw [Form.parts?_ofText hparts] at hcontent
  have hhidden : e.hidden = hiddenBlanks arg := by rw [hidden, hparts]
  have hplace : x.col + e.skipped = e.node.place.col + e.skipped + lead.length + indentation arg := by omega
  rw [hhidden, hplace]
  exact hcontent.right.argument.beginning ((List.prefix_append_right_inj _).2 hbeginning)

/-- So the text itself stands to the right of its column by what is not counted. -/
theorem Placed.standsAt {e : Entry} (h : e.Placed) {x : Excerpt} (hx : e.node.excerpt? = some x) :
    StandsAt e.text.toList x.text.toList (x.col + e.overlooked) := by
  have hright := (h.standsAt_hidden hx).right
  rwa [Nat.add_assoc] at hright

end Entry

namespace Program

/-- The parts of a step's line: the command is what is left of the line, without the blanks around it. -/
theorem header?_eq_some {cs : List Char} {h : Header} (hh : header? cs = some h) :
    ∃ before command, cs = before ++ command ∧ h.col = before.length + 1 ∧ h.content = Text.strip command := by
  unfold header? at hh
  split at hh
  · cases hh
  · rename_i rest hrest
    simp only at hh
    split at hh
    · rename_i tail htail
      split at hh
      · cases hh
      · obtain ⟨⟨dropped, command⟩, hbody, rfl⟩ := Option.map_eq_some_iff.1 hh
        -- the blanks after the colon are dropped, apart from the last one when nothing follows them
        obtain ⟨blanks, htailEq, hdropped⟩ : ∃ blanks, tail = blanks ++ command ∧ dropped = blanks.length := by
          unfold body? at hbody
          split at hbody
          · split at hbody
            · rename_i c hlast
              obtain ⟨rfl, rfl⟩ := Prod.mk.inj (Option.some.inj hbody)
              obtain ⟨init, rfl⟩ := List.getLast?_eq_some_iff.1 hlast
              exact ⟨init, rfl, by simp⟩
            · cases hbody
          · rename_i c after hdrop
            obtain ⟨rfl, rfl⟩ := Prod.mk.inj (Option.some.inj hbody)
            exact ⟨tail.takeWhile Text.isAsciiBlank, by rw [← hdrop, List.takeWhile_append_dropWhile], rfl⟩
        refine ⟨"step-".toList ++ rest.takeWhile Char.isDigit ++ ':' :: blanks, command, ?_, ?_, rfl⟩
        · rw [Text.after?_eq_some_iff.1 hrest]
          conv_lhs => rw [← List.takeWhile_append_dropWhile (p := Char.isDigit) (l := rest), htail, htailEq]
          simp only [List.append_assoc, List.cons_append]
        · simp only [List.length_append, List.length_cons, hdropped]
          have hstep : "step-".toList.length = 5 := rfl
          omega
    · cases hh

/-- A node that was read from a command at a place: what it evaluates is what the command says. -/
structure ReadFrom (place : Place) (content : List Char) (n : Node) : Prop where
  located : n.place = place
  excerpt : n.excerpt? = (Form.ofText content).excerpt? place.line place.col
  branch : ∀ p cond block, n = .branch p cond block → ∃ arg, content = "if ".toList ++ arg

variable {content : List Char}

theorem readFrom_action (place : Place) (h : Text.after? "if ".toList content = none) :
    ReadFrom place content (.act place (action place.line place.col content)) := by
  refine ⟨rfl, ?_, by simp⟩
  rw [Node.excerpt?, action]
  cases hform : Form.ofText content with
  | print | read | assign | jump | start | stop | unknown => rfl
  | branch arg =>
    -- a command of this form begins with the word that this one does not begin with
    have hword : content = "if ".toList ++ arg := Form.parts?_ofText (by rw [hform]; rfl)
    rw [hword, Text.after?_append] at h
    cases h

theorem readFrom_branch (place : Place) (block : List Node) {arg : List Char} (h : Text.after? "if ".toList content = some arg) :
    ReadFrom place content (.branch place (condition place.line place.col arg) block) := by
  rw [Text.after?_eq_some_iff.1 h]
  refine ⟨rfl, ?_, fun _ _ _ _ => ⟨arg, rfl⟩⟩
  rw [Form.ofText_branch]
  rfl

theorem drop_indentation (line : List Char) : line.drop (indentation line) = line.dropWhile (· == ' ') := by
  conv_lhs =>
    rhs
    rw [← List.takeWhile_append_dropWhile (p := (· == ' ')) (l := line)]
  exact List.drop_left

/-- A step is placed by the parts of its line. -/
theorem placed_of_step {l : Line} {h : Header} {n : Node} (hind : isIndented l.text = false) (hh : header? l.text = some h)
    (hn : ReadFrom ⟨l.number, h.col, String.ofList l.text⟩ h.content n) (step : Nat) : Entry.Placed ⟨step, [], n⟩ := by
  obtain ⟨before, command, htext, hcol, hcontent⟩ := header?_eq_some hh
  have hline : Entry.text ⟨step, [], n⟩ = String.ofList l.text := by rw [Entry.text, Node.source, hn.located]
  have hread : Entry.content ⟨step, [], n⟩ = h.content := by
    rw [Entry.content, if_pos rfl, Entry.command, hline, hn.located, String.toList_ofList, hcontent, htext, hcol, Nat.add_sub_cancel,
      List.drop_left]
  constructor
  · rw [hn.located, hcol]
    exact Nat.le_add_left 1 _
  · rw [hn.located, hline, String.toList_ofList, htext, hcol]
    simp
  · rw [hread, hn.excerpt, Node.line, hn.located]
  · rw [hread]
    exact hn.branch
  · intro _
    rw [hline, hn.located, String.toList_ofList]
    exact ⟨hind, h, hh, rfl⟩
  · intro hpath
    exact absurd rfl hpath

/-- A line of a block is placed by its indentation. -/
theorem placed_of_item {l : Line} {n : Node} (hind : 0 < indentation l.text)
    (hn : ReadFrom ⟨l.number, indentation l.text + 1, String.ofList l.text⟩ (l.text.dropWhile Text.isIndent) n) (step : Nat)
    {path : List Nat} (hpath : path ≠ []) : Entry.Placed ⟨step, path, n⟩ := by
  have hline : Entry.text ⟨step, path, n⟩ = String.ofList l.text := by rw [Entry.text, Node.source, hn.located]
  have hread : Entry.content ⟨step, path, n⟩ = l.text.dropWhile Text.isIndent := by
    have hspaces : ∀ c ∈ l.text.takeWhile (· == ' '), Text.isIndent c = true := by
      intro c hc
      have hspace : c = ' ' := by simpa using List.mem_takeWhile_imp hc
      subst hspace
      rfl
    rw [Entry.content, if_neg hpath, Entry.command, hline, hn.located, String.toList_ofList, Nat.add_sub_cancel, drop_indentation]
    conv_rhs => rw [← List.takeWhile_append_dropWhile (p := (· == ' ')) (l := l.text), List.dropWhile_append_of_pos hspaces]
  constructor
  · rw [hn.located]
    exact Nat.le_add_left 1 _
  · rw [hn.located, hline, String.toList_ofList]
    exact Nat.succ_le_succ (List.takeWhile_prefix _).length_le
  · rw [hread, hn.excerpt, Node.line, hn.located]
  · rw [hread]
    exact hn.branch
  · intro hnil
    exact absurd hnil hpath
  · intro _
    rw [hline, hn.located, String.toList_ofList]
    exact ⟨hind, rfl⟩

/-- The items of a block are placed. -/
theorem placed_blockItems (ls : List Line) (hind : ∀ l ∈ ls, 0 < indentation l.text) (step : Nat) (path : List Nat)
    (position : Nat) : ∀ e ∈ blockEntries step path position (blockItems ls), e.Placed := by
  fun_induction blockItems ls generalizing path position with
  | case1 =>
    intro e he
    cases he
  | case2 l ls indent content place arg harg ihinner ihouter =>
    intro e he
    rw [blockEntries, Node.entries, List.cons_append, List.mem_cons, List.mem_append] at he
    have hrest : ∀ k ∈ ls, 0 < indentation k.text := fun k hk => hind k (List.mem_cons_of_mem l hk)
    rcases he with rfl | he | he
    · exact placed_of_item (hind l List.mem_cons_self) (readFrom_branch place _ harg) step (by simp)
    · exact ihinner (fun k hk => hrest k ((List.takeWhile_prefix _).subset hk)) _ _ e he
    · exact ihouter (fun k hk => hrest k ((List.dropWhile_suffix _).subset hk)) _ _ e he
  | case3 l ls indent content place harg ih =>
    intro e he
    rw [blockEntries, Node.entries, List.singleton_append, List.mem_cons] at he
    rcases he with rfl | he
    · exact placed_of_item (hind l List.mem_cons_self) (readFrom_action place harg) step (by simp)
    · exact ih (fun k hk => hind k (List.mem_cons_of_mem l hk)) _ _ e he

/-- A step and the lines of its block are placed; the block is indented. -/
theorem placed_stepNode {l : Line} {h : Header} (hind : isIndented l.text = false) (hh : header? l.text = some h) (below : List Line)
    (step : Nat) : ∀ e ∈ (stepNode l h below).entries step [], e.Placed := by
  unfold stepNode
  intro e he
  split at he
  · rename_i arg harg
    rcases List.mem_cons.1 he with rfl | he
    · exact placed_of_step hind hh (readFrom_branch _ _ harg) step
    · refine placed_blockItems _ ?_ _ _ _ e he
      intro k hk
      have hin : inBlock (blockColumn h.digits.length) k = true := List.mem_takeWhile_imp hk
      rw [inBlock, Bool.and_eq_true, decide_eq_true_eq, blockColumn] at hin
      exact Nat.lt_of_lt_of_le (Nat.succ_pos _) hin.2
  · rename_i hnone
    obtain rfl := List.mem_singleton.1 he
    exact placed_of_step hind hh (readFrom_action ⟨l.number, h.col, String.ofList l.text⟩ hnone) step

/-- The steps of a text are placed. -/
theorem placed_readSteps {ls : List Line} {steps : List Step} (h : readSteps ls = .ok steps) (index : Nat) :
    ∀ e ∈ stepEntries index steps, e.Placed := by
  fun_induction readSteps ls generalizing steps index with
  | case1 =>
    obtain rfl := Except.ok.inj h
    intro e he
    cases he
  | case2 l ls hempty ih => exact ih h index
  | case3 => cases h
  | case4 => cases h
  | case5 => cases h
  | case6 => cases h
  | case7 l ls hfilled hind hd hh n _ rest hrest ih =>
    obtain rfl := Except.ok.inj h
    intro e he
    rw [stepEntries, List.mem_append] at he
    rcases he with he | he
    · exact placed_stepNode (by simpa using hind) hh ls index e he
    · exact ih hrest (index + 1) e he

/-- A line of the listing was read from a line of the text that is not empty. -/
theorem written_mem_sourceLines {text : String} {p : Program} {e : Entry} (h : parse text = .ok p) (he : e ∈ p.listing) :
    e.written ∈ sourceLines text ∧ e.text.toList ≠ [] := by
  have hwritten : e.written ∈ (sourceLines text).filter fun l => !l.text.isEmpty := by
    rw [← listing_written h]
    exact List.mem_map_of_mem he
  obtain ⟨hmem, hfilled⟩ := List.mem_filter.1 hwritten
  have hne : e.written.text ≠ [] := by simpa using hfilled
  exact ⟨hmem, hne⟩

/-- In a program that was read, every line of the listing is placed. -/
theorem placed_listing {text : String} {p : Program} (h : parse text = .ok p) : ∀ e ∈ p.listing, e.Placed :=
  placed_readSteps (readSteps_of_parse h).1 0

end Program

/-! ## Accepted texts -/

namespace Check

/-- A line in the exact form of a step ends with its command, which begins with none of the ASCII blanks. -/
theorem exactStep?_append {cs digits content : List Char} (h : exactStep? cs = some (digits, content)) :
    cs = "step-".toList ++ digits ++ ": ".toList ++ content ∧ content.head?.any Text.isAsciiBlank = false := by
  unfold exactStep? at h
  split at h
  · cases h
  · rename_i rest hrest
    simp only at h
    split at h
    · rename_i c tail hdrop
      split at h
      · cases h
      · rename_i hc
        obtain ⟨rfl, rfl⟩ := Prod.mk.inj (Option.some.inj h)
        simp only [Bool.or_eq_true, not_or, Bool.not_eq_true] at hc
        refine ⟨?_, hc.2⟩
        rw [Text.after?_eq_some_iff.1 hrest]
        conv_lhs => rw [← List.takeWhile_append_dropWhile (p := Char.isDigit) (l := rest), hdrop]
        simp
    · cases h

variable {text : String} {p : Program} {e : Entry} {first : Nat} {m : Mark first}

/-- The lines of the listing of an accepted text were checked. -/
theorem exists_mark (h : problem? text = none) (hp : Program.parse text = .ok p) (he : e ∈ p.listing) :
    ∃ (first : Nat) (m : Mark first), m.line = e.written := by
  obtain ⟨ss, hss⟩ := accepted_of_problem?_eq_none h
  obtain ⟨first, gs, before, after, hlines, hempty, -, -⟩ := exists_groups hss
  obtain ⟨hmem, hne⟩ := Program.written_mem_sourceLines hp he
  rw [hlines, List.append_assoc, List.mem_append, List.mem_append] at hmem
  rcases hmem with hbefore | hmark | hafter
  · exact absurd (hempty _ (List.mem_append_left _ hbefore)) hne
  · obtain ⟨m, -, hm⟩ := List.mem_map.1 hmark
    exact ⟨first, m, hm⟩
  · exact absurd (hempty _ (List.mem_append_right _ hafter)) hne

/-- The check and the reader find the command of a step at the same column, and it begins with none of the ASCII blanks. -/
theorem command_of_step (hm : m.line = e.written) (he : e.Placed) (hpath : e.path = []) :
    e.command = m.statement.content ∧ e.command.head?.any Text.isAsciiBlank = false := by
  obtain ⟨hind, h, hh, hcol⟩ := he.step hpath
  have hread := m.read
  rw [hm, Check.statement, if_neg (by simpa [Entry.written, Entry.text] using hind)] at hread
  split at hread
  · rename_i digits content hx
    obtain ⟨htext, hblank⟩ := exactStep?_append hx
    have hplace : e.node.place.col - 1 = ("step-".toList ++ digits ++ ": ".toList).length := by
      have hsame : some h = some ⟨digits, 5 + digits.length + 1 + 1 + 1, Text.strip content⟩ := hh.symm.trans (exactStep?_eq_some hx).2
      rw [← hcol, Option.some.inj hsame]
      simp
      omega
    have hcommand : e.command = content := by
      have hline : e.text.toList = "step-".toList ++ digits ++ ": ".toList ++ content := htext
      rw [Entry.command, hline, hplace, List.drop_left]
    rw [← Except.ok.inj hread, hcommand]
    exact ⟨rfl, hblank⟩
  · cases hread

/-- So they do for a line of a block, where nothing is cut off behind the indentation. -/
theorem command_of_item (hm : m.line = e.written) (he : e.Placed) (hpath : e.path ≠ []) :
    e.command = m.statement.content ∧ e.command.dropWhile Text.isIndent = e.command := by
  obtain ⟨hind, hcol⟩ := he.item hpath
  have htab : '\t' ∉ e.text.toList := by
    have h := m.noTab
    rwa [hm] at h
  have hcommand : e.command = e.text.toList.dropWhile (· == ' ') := by
    rw [Entry.command, hcol, Nat.add_sub_cancel, Program.drop_indentation]
  have hindented : isIndented m.line.text = true := by
    by_contra hnot
    rw [hm] at hnot
    have hzero : indentation e.text.toList = 0 := indentation_eq_zero (Bool.eq_false_iff.2 hnot)
    omega
  have hread := m.read
  rw [Check.statement, if_pos hindented, hm] at hread
  refine ⟨?_, ?_⟩
  · rw [← Except.ok.inj hread]
    exact hcommand
  · rw [hcommand, dropWhile_space htab, List.dropWhile_idempotent]

/-- Before the command of a branch nothing is cut off, and its condition begins with a parenthesis. -/
theorem Passes.eq_branch {top first : Bool} {c : List Char} (h : Passes top first c c) (hif : isIf c = true) :
    ∃ rest, c = "if (".toList ++ rest := by
  obtain ⟨arg, harg⟩ := h.isIf_iff.1 hif
  cases h with
  | branch => exact ⟨_, rfl⟩
  | assign sign sign' sameLeft sameRight name value =>
    have hnone : Text.after? "if ".toList c = none := after?_assignment sign name (w := 'i') rfl "f ".toList
    rw [hnone] at harg
    cases harg
  | start | stop | read | print | jump => cases harg

/-- A command that begins with a blank is an assignment. -/
theorem Passes.assignment_of_blank {top first : Bool} {c : Char} {cs : List Char} (h : Passes top first (c :: cs) (c :: cs))
    (hc : Text.isBlank c = true) : ∃ left right, assignment? (c :: cs) = some (left, right) := by
  generalize hcommand : c :: cs = command at h
  cases h with
  | @assign _ _ left right _ _ sign => exact ⟨left, right, hcommand ▸ sign⟩
  | start | stop | read | print | jump | branch =>
    obtain ⟨rfl, -⟩ := List.cons.inj hcommand
    cases hc

end Check

namespace Entry

variable {text : String} {p : Program} {e : Entry}

/-- What stands on a line of the listing of an accepted text. -/
structure Checked (e : Entry) : Prop where
  placed : e.Placed
  passes : ∃ top first, Check.Passes top first e.command e.command
  step : e.path = [] → e.command.head?.any Text.isAsciiBlank = false
  item : e.path ≠ [] → e.command.dropWhile Text.isIndent = e.command

theorem checked_of_problem? (h : Check.problem? text = none) (hp : Program.parse text = .ok p) (he : e ∈ p.listing) : e.Checked := by
  have hplaced := Program.placed_listing hp e he
  obtain ⟨first, m, hm⟩ := Check.exists_mark h hp he
  by_cases hpath : e.path = []
  · obtain ⟨hcommand, hblank⟩ := Check.command_of_step hm hplaced hpath
    exact ⟨hplaced, ⟨_, _, hcommand ▸ m.passes⟩, fun _ => hblank, fun hne => absurd hpath hne⟩
  · obtain ⟨hcommand, hdrop⟩ := Check.command_of_item hm hplaced hpath
    exact ⟨hplaced, ⟨_, _, hcommand ▸ m.passes⟩, fun hnil => absurd hnil hpath, fun _ => hdrop⟩

/-- In a block nothing is cut off before a command. -/
theorem Checked.skipped_item (h : e.Checked) (hpath : e.path ≠ []) : e.skipped = 0 := by
  have hdrop := h.item hpath
  have hsplit := congrArg List.length (List.takeWhile_append_dropWhile (p := Text.isIndent) (l := e.command))
  rw [hdrop, List.length_append] at hsplit
  rw [skipped, if_neg hpath]
  omega

/-- Where nothing is cut off, the command as it is read is the beginning of the command as it is written. -/
theorem content_eq_of_skipped (h : e.skipped = 0) : ∃ rest, e.command = e.content ++ rest := by
  have hsplit := List.takeWhile_append_dropWhile (p := if e.path = [] then Text.isBlank else Text.isIndent) (l := e.command)
  rw [List.length_eq_zero_iff.1 h, List.nil_append] at hsplit
  rw [content]
  split
  · rename_i hpath
    rw [if_pos hpath] at hsplit
    obtain ⟨rest, hrest⟩ : Text.strip e.command <+: e.command.dropWhile Text.isBlank := List.rdropWhile_prefix Text.isBlank _
    exact ⟨rest, by rw [hrest, hsplit]⟩
  · rename_i hpath
    rw [if_neg hpath] at hsplit
    exact ⟨[], by rw [List.append_nil, hsplit]⟩

/-- Only before the assignment of a step characters are cut off. -/
theorem Checked.assignment_of_skipped (h : e.Checked) (hskipped : e.skipped ≠ 0) :
    e.path = [] ∧ ∃ left right, assignment? e.command = some (left, right) := by
  have hpath : e.path = [] := by
    by_contra hne
    exact hskipped (h.skipped_item hne)
  obtain ⟨top, first, hpasses⟩ := h.passes
  rw [skipped, if_pos hpath] at hskipped
  refine ⟨hpath, ?_⟩
  cases hcommand : e.command with
  | nil => simp [hcommand] at hskipped
  | cons c cs =>
    rw [hcommand] at hpasses hskipped
    refine hpasses.assignment_of_blank ?_
    by_contra hc
    simp [List.takeWhile_cons_of_neg hc] at hskipped

/-- The column of a condition counts everything before it. -/
theorem Checked.overlooked_branch (h : e.Checked) {place : Place} {cond : Excerpt} {block : List Node}
    (hn : e.node = .branch place cond block) : e.overlooked = 0 := by
  obtain ⟨arg, harg⟩ := h.placed.branch place cond block hn
  obtain ⟨top, first, hpasses⟩ := h.passes
  have hif : Check.isIf e.command = true := by
    rw [content] at harg
    split at harg
    · exact hpasses.strip.isIf_iff.2 ⟨arg, by rw [harg, Text.after?_append]⟩
    · rename_i hpath
      rw [h.item hpath] at harg
      exact hpasses.isIf_iff.2 ⟨arg, by rw [harg, Text.after?_append]⟩
  obtain ⟨rest, hrest⟩ := hpasses.eq_branch hif
  have hskipped : e.skipped = 0 := by
    rw [skipped, hrest]
    split <;> rfl
  obtain ⟨after, hafter⟩ := content_eq_of_skipped hskipped
  have hhidden : e.hidden = [] := by
    rw [hidden, harg, Form.ofText_branch]
    rw [harg, hrest, List.append_assoc] at hafter
    -- the argument is empty or begins with the parenthesis
    cases arg with
    | nil => rfl
    | cons c cs =>
      have htail : '(' :: rest = c :: (cs ++ after) := List.append_cancel_left (show "if ".toList ++ '(' :: rest = _ from hafter)
      obtain ⟨rfl, -⟩ := List.cons.inj htail
      rfl
  rw [overlooked, hskipped, hhidden, List.length_nil]

/-- A text whose only blanks are spaces is not cut behind its spaces. -/
theorem takeWhile_isBlank_eq_nil {cs : List Char} (hspace : ∀ c ∈ cs, Text.isBlank c = true → c = ' ')
    (hhead : cs.head? ≠ some ' ') : cs.takeWhile Text.isBlank = [] := by
  cases cs with
  | nil => rfl
  | cons c cs =>
    refine List.takeWhile_cons_of_neg ?_
    intro hc
    exact hhead (by rw [hspace c List.mem_cons_self hc]; rfl)

/-- On a line whose only blanks are spaces, every column counts everything. -/
theorem Checked.overlooked_spaces (h : e.Checked) (hspace : ∀ c ∈ e.text.toList, Text.isBlank c = true → c = ' ') :
    e.overlooked = 0 := by
  have hcontent : ∀ c ∈ e.content, Text.isBlank c = true → c = ' ' := by
    intro c hc
    obtain ⟨before, after, hline, -⟩ := h.placed.standsAt_content
    exact hspace c (by rw [hline]; simp [hc])
  have hskipped : e.skipped = 0 := by
    by_cases hpath : e.path = []
    · rw [skipped, if_pos hpath, takeWhile_isBlank_eq_nil, List.length_nil]
      · intro c hc
        exact hspace c (List.mem_of_mem_drop hc)
      · intro hhead
        have hblank := h.step hpath
        rw [hhead] at hblank
        cases hblank
    · exact h.skipped_item hpath
  have hhidden : e.hidden = [] := by
    rw [hidden]
    split
    · rename_i lead arg hparts
      refine takeWhile_isBlank_eq_nil ?_ ?_
      · intro c hc
        refine hcontent c ?_
        rw [Form.parts?_ofText hparts]
        exact List.mem_append_right _ ((List.dropWhile_suffix _).subset hc)
      · intro hhead
        have hnot := List.head?_dropWhile_not (· == ' ') arg
        rw [hhead] at hnot
        cases hnot
    · rfl
  rw [overlooked, hskipped, hhidden, List.length_nil]

/-- Where nothing is cut off before the command, the text of a filled excerpt stands at its column exactly if that counts
everything. -/
theorem Placed.standsAt_col_iff (h : e.Placed) {x : Excerpt} (hx : e.node.excerpt? = some x) (hne : x.text ≠ "")
    (hskipped : e.skipped = 0) : StandsAt e.text.toList x.text.toList x.col ↔ e.overlooked = 0 := by
  constructor
  · intro hstands
    obtain ⟨lead, arg, hparts, hbeginning, -, -⟩ := Form.excerpt?_eq_some (h.excerpt ▸ hx)
    have hhidden := h.standsAt_hidden hx
    rw [hskipped, Nat.add_zero] at hhidden
    rw [overlooked, hskipped, Nat.zero_add]
    cases hblanks : e.hidden with
    | nil => rfl
    | cons b bs =>
      -- else a blank stands where the text begins, which does not begin with one
      obtain ⟨c, cs, hcs⟩ := List.exists_cons_of_ne_nil (l := x.text.toList) (by simpa using hne)
      rw [hblanks, hcs, List.cons_append] at hhidden
      rw [hcs] at hstands hbeginning
      obtain rfl := hhidden.head_eq hstands
      obtain ⟨rest, hstrip⟩ := hbeginning
      have hnot : Text.isBlank b = false := Text.isBlank_head_strip hstrip.symm
      have hblank : Text.isBlank b = true := by
        have hmem : b ∈ hiddenBlanks arg := by
          have heq : e.hidden = hiddenBlanks arg := by rw [hidden, hparts]
          rw [← heq, hblanks]
          exact List.mem_cons_self
        exact List.mem_takeWhile_imp hmem
      rw [hnot] at hblank
      cases hblank
  · intro hzero
    have hstands := h.standsAt hx
    rwa [hzero, Nat.add_zero] at hstands

end Entry

end Stepwise
