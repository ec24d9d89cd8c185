import Stepwise.Proofs.Journal
import Stepwise.Proofs.Rereading
import Stepwise.Proofs.RunSafety
import Stepwise.Report.Basic

/-!
# What is shown is what happens

A session that is not at its end shows a label and a line. They are read off the cursor, apart from the label that a row of the trace
gets, the label that a waiting read has kept, and the label, the line and the place of a failure. `Announces` says that all of them
agree with what is shown, and that the listing marks the line that is shown and no other.
-/

namespace Stepwise

/-- Executing the node completes an action at once. A read is completed only by its input, a jump and a branch only move the cursor,
and an unknown command fails. -/
def Node.isRecorded : Node → Bool
  | .act _ .start => true
  | .act _ .stop => true
  | .act _ (.print _) => true
  | .act _ (.assign _ _) => true
  | .act _ (.read _) => false
  | .act _ (.jump _ _) => false
  | .act _ (.unknown _) => false
  | .branch _ _ _ => false

/-- The lines of a written listing that are marked. -/
def Report.markedLines (written : String) : List (List Char) :=
  (written.toList.splitOn '\n').filter fun l => "=>".toList.isPrefixOf l

namespace Session

/-- From `s` to `t` one row is added to the trace, with the label that `s` shows. -/
def AddsShown (s t : Session) : Prop :=
  ∃ r, t.now.trace = s.now.trace ++ [r] ∧ r.label = s.display.label

/-- What a session shows is what happens next; `text` is the text of its program. -/
structure Announces (text : String) (s : Session) : Prop where
  /-- A step adds no row, or one row with the label that is shown. -/
  row : ∀ t fault, s.step = (t, fault) → t.now.trace = s.now.trace ∨ s.AddsShown t
  /-- A step that succeeds adds a row exactly when it completes an action. -/
  recorded : ∀ f t, s.canStep = true → s.focus? = some f → s.step = (t, none) →
    (f.node.isRecorded = true → s.AddsShown t) ∧ (f.node.isRecorded = false → t.now.trace = s.now.trace)
  /-- An input that is accepted adds one row with the label that is shown, and one that is refused adds none. -/
  accepted : ∀ raw t, s.supply raw = (t, none) → s.AddsShown t
  refused : ∀ raw t fault, s.supply raw = (t, some fault) → t.now.trace = s.now.trace
  /-- A failure has the label that is shown, is placed in the line that is shown, and carries the text of that line. -/
  failure : ∀ t f, s.step = (t, some f) → f.label = s.display.label ∧ f.span.line = s.display.line ∧
    ∃ n, s.display.line = n + 1 ∧ (splitLines text.toList)[n]? = some f.line.toList
  /-- Before the end the listing marks one line, which is the line that is shown; at the end it marks none. -/
  marked : s.atEnd = false → ∃ e ∈ s.program.listing, e.node.line = s.display.line ∧
    Report.markedLines (Report.listing s) = [("=> " ++ Report.padLeft 3 s.display.line ++ " | " ++ e.text).toList]
  unmarked : s.atEnd = true → Report.markedLines (Report.listing s) = []

/-! ## What is shown -/

variable {s : Session}

/-- A session that waits is not at its end: its cursor stands on the read. -/
theorem atEnd_of_pending (h : s.now.Control s.program) {w : Pending} (hw : s.now.pending = some w) : s.atEnd = false := by
  obtain ⟨f, place, hf, _, _⟩ := h.waits w hw
  have hrunning := h.running_of_pending hw
  unfold atEnd
  rcases h.focus_cases hf with ⟨step, hnil, hs, _⟩ | ⟨step, g, gs, hg, _⟩
  · obtain ⟨hlt, _⟩ := List.getElem?_eq_some_iff.1 hs
    simp [hrunning, hlt]
  · simp [hrunning, hg]

/-- Before its end a session shows the label and the line of what its cursor points at. -/
theorem shown_of_focus {f : Focus} (hend : s.atEnd = false) (hf : s.focus? = some f) :
    s.display.label = f.label ∧ s.display.line = f.node.line := by
  simp [display, currentLabel, currentLine, hend, hf]

/-- Before its end the cursor of a session points at something. -/
theorem focus_of_not_atEnd (h : s.now.Control s.program) (hend : s.atEnd = false) : ∃ f, s.focus? = some f := by
  cases hw : s.now.pending with
  | none =>
    refine h.focus_of_live (s.canStep_iff.1 ?_)
    simp [canStep, hw, hend]
  | some w =>
    obtain ⟨f, _, hf, _, _⟩ := h.waits w hw
    exact ⟨f, hf⟩

end Session

/-! ## Rows -/

namespace State

variable {p : Program} {st st' : State} {f : Focus}

/-- Moving the cursor leaves the trace as it is. -/
theorem Moved.trace (h : st.Moved st') : st'.trace = st.trace := by
  obtain ⟨pc, frames, sub, rfl⟩ := h
  rfl

/-- An executed action that is completed at once adds one row under the label of the cursor, any other action none. -/
theorem trace_exec (h : st.exec p f = .ok st') :
    (f.node.isRecorded = true ∧ ∃ r, st'.trace = st.trace ++ [r] ∧ r.label = f.label) ∨
      (f.node.isRecorded = false ∧ st'.trace = st.trace) := by
  cases executes_of_exec h with
  | print node => exact Or.inl ⟨by rw [node]; rfl, _, by rw [(moved_pass _ 1).trace, trace_record]; rfl, rfl⟩
  | assign node => exact Or.inl ⟨by rw [node]; rfl, _, by rw [(moved_pass _ 1).trace, trace_record]; rfl, rfl⟩
  | start node => exact Or.inl ⟨by rw [node]; rfl, _, by rw [(moved_pass _ 1).trace, trace_record], rfl⟩
  | stop node =>
    have hmoved := (moved_pass (st.record f.label "" Env.empty) 1).trace
    exact Or.inl ⟨by rw [node]; rfl, _, hmoved.trans (trace_record st f.label "" Env.empty), rfl⟩
  | read node => exact Or.inr ⟨by rw [node]; rfl, rfl⟩
  | jump node => exact Or.inr ⟨by rw [node]; rfl, rfl⟩
  | enter node => exact Or.inr ⟨by rw [node]; rfl, (moved_enter _ _).trace⟩
  | skip node => exact Or.inr ⟨by rw [node]; rfl, (moved_pass _ _).trace⟩

/-- An accepted input adds one row under the label of the read. -/
theorem trace_answer (st : State) (w : Pending) (n : Int64) :
    ∃ r, (st.answer w n).trace = st.trace ++ [r] ∧ r.label = w.label := by
  refine ⟨⟨w.label, "", Env.single w.name (.int n)⟩, ?_, rfl⟩
  rw [answer, (moved_pass _ 1).trace, trace_record]
  rfl

end State

/-! ## Places of failures -/

/-- What a node evaluates stands on the line of the node. -/
def Node.OnLine : Node → Prop
  | .act place (.print e) => e.line = place.line
  | .act place (.assign _ e) => e.line = place.line
  | .act _ _ => True
  | .branch place cond _ => cond.line = place.line

/-- What a command evaluates stands on its line. -/
theorem Program.onLine_action (place : Place) (col : Nat) (content : List Char) :
    (Node.act place (Program.action place.line col content)).OnLine := by
  unfold Program.action
  cases Form.ofText content with
  | print arg => exact rfl
  | assign name value => exact rfl
  | start | stop | read | jump | branch | unknown => exact trivial

/-- So it is in the blocks that are read. -/
theorem Program.onLine_blockItems (ls : List Line) (step : Nat) (path : List Nat) (position : Nat) :
    ∀ e ∈ blockEntries step path position (Program.blockItems ls), e.node.OnLine := by
  fun_induction Program.blockItems ls generalizing path position with
  | case1 =>
    intro e he
    cases he
  | case2 l ls indent content place arg harg ihinner ihouter =>
    intro e he
    rw [blockEntries, Node.entries, List.cons_append, List.mem_cons, List.mem_append] at he
    rcases he with rfl | he | he
    · exact rfl
    · exact ihinner _ _ e he
    · exact ihouter _ _ e he
  | case3 l ls indent content place harg ih =>
    intro e he
    rw [blockEntries, Node.entries, List.singleton_append, List.mem_cons] at he
    rcases he with rfl | he
    · exact Program.onLine_action place _ content
    · exact ih _ _ e he

/-- So it is in a step that is read. -/
theorem Program.onLine_stepNode (l : Line) (h : Header) (below : List Line) (step : Nat) :
    ∀ e ∈ (Program.stepNode l h below).entries step [], e.node.OnLine := by
  unfold Program.stepNode
  intro e he
  split at he
  · rcases List.mem_cons.1 he with rfl | he
    · exact rfl
    · exact Program.onLine_blockItems _ _ _ _ e he
  · obtain rfl := List.mem_singleton.1 he
    exact Program.onLine_action ⟨l.number, h.col, String.ofList l.text⟩ h.col h.content

/-- So it is in the steps that are read. -/
theorem Program.onLine_readSteps {ls : List Line} {steps : List Step} (h : Program.readSteps ls = .ok steps) (index : Nat) :
    ∀ e ∈ stepEntries index steps, e.node.OnLine := by
  fun_induction Program.readSteps ls generalizing steps index with
  | case1 =>
    obtain rfl := Except.ok.inj h
    intro e he
    cases he
  | case2 l ls hempty ih => exact ih h index
  | case3 => cases h
  | case4 => cases h
  | case5 => cases h
  | case6 => cases h
  | case7 l ls hfilled _ hd _ n _ rest hrest ih =>
    obtain rfl := Except.ok.inj h
    intro e he
    rw [stepEntries, List.mem_append] at he
    rcases he with he | he
    · exact Program.onLine_stepNode l hd ls index e he
    · exact ih hrest (index + 1) e he

/-- In a program that was read, what a line of the listing evaluates stands on that line. -/
theorem Program.onLine_listing {text : String} {p : Program} (h : Program.parse text = .ok p) :
    ∀ e ∈ p.listing, e.node.OnLine := by
  unfold Program.parse at h
  split at h
  · cases h
  · cases h
  · rename_i steps _ hsteps
    obtain rfl := Except.ok.inj h
    exact Program.onLine_readSteps hsteps 0

/-- A place that is moved onto a piece of text is on the line of that piece. -/
theorem Span.line_shift (s base : Span) : (s.shift base).line = base.line := by
  unfold Span.shift
  split <;> rfl

namespace State

variable {p : Program} {st : State} {f : Focus}

/-- A value that cannot be evaluated fails on the line of its expression. -/
theorem line_of_valueOf {e : Excerpt} {l : Located} (h : st.valueOf e = .error l) : l.span.line = e.line := by
  unfold valueOf at h
  split at h
  · cases h
  · obtain rfl := Except.error.inj h
    exact Span.line_shift _ _

/-- A condition that cannot be evaluated fails on its line. -/
theorem line_of_test {e : Excerpt} {l : Located} (h : st.test e = .error l) : l.span.line = e.line := by
  unfold test at h
  split at h
  · cases h
  · obtain rfl := Except.error.inj h
    exact Span.line_shift _ _

/-- A failure is placed in the line of what the cursor points at. -/
theorem line_of_exec (hline : f.node.OnLine) {l : Located} (h : st.exec p f = .error l) : l.span.line = f.node.line := by
  cases fails_of_exec h with
  | value node uses fails =>
    rw [line_of_valueOf fails]
    rw [node] at hline ⊢
    rcases uses with rfl | ⟨name, rfl⟩
    · exact congrArg Int.ofNat hline
    · exact congrArg Int.ofNat hline
  | test node fails =>
    rw [line_of_test fails]
    rw [node] at hline ⊢
    exact congrArg Int.ofNat hline
  | malformed node =>
    rw [node]
    rfl
  | missing node target =>
    rw [node]
    rfl
  | refused node kind inside =>
    rw [node]
    rfl
  | unknown node top =>
    rw [node]
    rfl

end State

/-! ## The marked line -/

namespace Report

/-- A line of the listing without its line feed. -/
def listingText (current : Nat) (e : Entry) : List Char :=
  ((if e.node.line = current then "=>" else "  ") ++ " " ++ padLeft 3 e.node.line ++ " | " ++ e.text).toList

/-- A number that is filled up has no line feed. -/
theorem lineFeed_notMem_padLeft (width n : Nat) : '\n' ∉ (padLeft width n).toList := by
  intro hmem
  simp only [padLeft, String.toList_append, String.toList_ofList, List.mem_append] at hmem
  rcases hmem with hmem | hmem
  · cases List.eq_of_mem_replicate hmem
  · have hdigit : '\n'.isDigit = true :=
      Nat.isDigit_of_mem_toDigits (b := 10) (by decide) (by decide) (by simpa using hmem)
    cases hdigit

/-- A line of the listing has no line feed when the line of the program has none. -/
theorem lineFeed_notMem_listingText {e : Entry} (h : '\n' ∉ e.text.toList) (current : Nat) :
    '\n' ∉ listingText current e := by
  have hmark : '\n' ∉ (if e.node.line = current then "=>" else "  ").toList := by
    split
    · decide
    · decide
  simp only [listingText, String.toList_append, List.mem_append, not_or]
  exact ⟨⟨⟨⟨hmark, by decide⟩, lineFeed_notMem_padLeft 3 _⟩, by decide⟩, h⟩

/-- The listing is written line by line. -/
theorem toList_listing (s : Session) :
    (listing s).toList = (s.program.listing.map (listingText s.currentLine)).flatMap fun l => l ++ ['\n'] := by
  simp [listing, String.toList_join, List.flatMap_map, listingLine, listingText]

/-- A line of the listing is marked exactly when it is the current one. -/
theorem isPrefixOf_listingText (current : Nat) (e : Entry) :
    "=>".toList.isPrefixOf (listingText current e) = decide (e.node.line = current) := by
  unfold listingText
  by_cases h : e.node.line = current
  · simp [h, List.isPrefixOf]
  · simp [h, List.isPrefixOf]

/-- The marked lines are those of the listing that have the number of the current line. -/
theorem markedLines_listing {s : Session} (h : ∀ e ∈ s.program.listing, '\n' ∉ e.text.toList) :
    markedLines (listing s) =
      (s.program.listing.filter fun e => e.node.line = s.currentLine).map (listingText s.currentLine) := by
  have hlines : ∀ l ∈ s.program.listing.map (listingText s.currentLine), '\n' ∉ l := by
    intro l hl
    obtain ⟨e, he, rfl⟩ := List.mem_map.1 hl
    exact lineFeed_notMem_listingText (h e he) _
  rw [markedLines, toList_listing, splitOn_flatMap_lineFeed hlines, List.filter_append, List.filter_map]
  have hmarks : ((fun l => "=>".toList.isPrefixOf l) ∘ listingText s.currentLine) =
      fun e : Entry => decide (e.node.line = s.currentLine) := funext fun e => isPrefixOf_listingText _ e
  rw [hmarks]
  simp [List.isPrefixOf]

end Report

namespace Program

variable {text : String} {p : Program}

/-- In a program that was read, one line of the listing has the number of a given one. -/
theorem filter_line_eq (h : parse text = .ok p) {e : Entry} (he : e ∈ p.listing) :
    (p.listing.filter fun d => d.node.line = e.node.line) = [e] := by
  obtain ⟨before, after, hsplit⟩ := List.append_of_mem he
  have hpairwise := listing_pairwise h
  rw [hsplit, List.pairwise_append, List.pairwise_cons] at hpairwise
  obtain ⟨_, ⟨hafter, _⟩, hbefore⟩ := hpairwise
  have hnoneBefore : (before.filter fun d => d.node.line = e.node.line) = [] := by
    rw [List.filter_eq_nil_iff]
    intro d hd
    have := hbefore d hd e List.mem_cons_self
    simp only [decide_eq_true_eq]
    omega
  have hnoneAfter : (after.filter fun d => d.node.line = e.node.line) = [] := by
    rw [List.filter_eq_nil_iff]
    intro d hd
    have := hafter d hd
    simp only [decide_eq_true_eq]
    omega
  rw [hsplit, List.filter_append, hnoneBefore, List.filter_cons_of_pos (by simp), hnoneAfter, List.nil_append]

/-- Line and text of a line of the listing, in the text of the program. -/
theorem exists_line_of_listing (h : parse text = .ok p) {e : Entry} (he : e ∈ p.listing) :
    ∃ n, e.node.line = n + 1 ∧ (splitLines text.toList)[n]? = some e.text.toList := by
  obtain ⟨n, hline, htext⟩ := listing_text h he
  rw [Entry.span_line] at hline
  exact ⟨n, by omega, htext⟩

end Program

namespace Session

variable {text : String} {s : Session}

/-- The listing of a session before its end marks the line that is shown. -/
theorem marked_of_control (hparse : Program.parse text = .ok s.program) (h : s.now.Control s.program) (hend : s.atEnd = false) :
    ∃ e ∈ s.program.listing, e.node.line = s.display.line ∧
      Report.markedLines (Report.listing s) = [("=> " ++ Report.padLeft 3 s.display.line ++ " | " ++ e.text).toList] := by
  obtain ⟨f, hf⟩ := focus_of_not_atEnd h hend
  obtain ⟨e, he, hnode, _⟩ := h.focus_mem_listing hf
  have hline : e.node.line = s.display.line := by rw [(shown_of_focus hend hf).2, hnode]
  have hcurrent : s.currentLine = e.node.line := hline.symm
  refine ⟨e, he, hline, ?_⟩
  rw [Report.markedLines_listing fun d hd => ?_, hcurrent, Program.filter_line_eq hparse he, List.map_singleton, ← hline]
  · simp [Report.listingText]
  · obtain ⟨n, _, htext⟩ := Program.exists_line_of_listing hparse hd
    exact (tidy_of_mem_splitLines (List.mem_of_getElem? htext)).1

/-- At its end the listing marks no line, since no line has the number 0. -/
theorem unmarked_of_atEnd (hparse : Program.parse text = .ok s.program) (hend : s.atEnd = true) :
    Report.markedLines (Report.listing s) = [] := by
  rw [Report.markedLines_listing fun d hd => ?_]
  · have hnone : (s.program.listing.filter fun e => e.node.line = s.currentLine) = [] := by
      rw [List.filter_eq_nil_iff]
      intro e he
      obtain ⟨n, hline, _⟩ := Program.exists_line_of_listing hparse he
      simp [currentLine, hend, hline]
    rw [hnone, List.map_nil]
  · obtain ⟨n, _, htext⟩ := Program.exists_line_of_listing hparse hd
    exact (tidy_of_mem_splitLines (List.mem_of_getElem? htext)).1

/-- A step that succeeds adds a row under the label that is shown when it completes an action, and else none. -/
theorem recorded_of_step (h : s.now.Control s.program) (hcan : s.canStep = true) {f : Focus} {t : Session} (hf : s.focus? = some f)
    (hstep : s.step = (t, none)) :
    (f.node.isRecorded = true ∧ s.AddsShown t) ∨ (f.node.isRecorded = false ∧ t.now.trace = s.now.trace) := by
  obtain ⟨f', st, hf', hx, rfl⟩ := executed_of_step h hcan hstep
  obtain rfl := Option.some.inj (hf.symm.trans hf')
  have hlabel := (shown_of_focus (ready_of_canStep hcan).2 hf).1
  rcases State.trace_exec hx with ⟨hkind, r, htrace, hrow⟩ | ⟨hkind, htrace⟩
  · exact Or.inl ⟨hkind, r, htrace, hrow.trans hlabel.symm⟩
  · exact Or.inr ⟨hkind, htrace⟩

/-- A session whose program was read and whose cursor is in place announces what happens. -/
theorem announces_of_control (hparse : Program.parse text = .ok s.program) (h : s.now.Control s.program) : s.Announces text where
  row := by
    intro t fault hstep
    cases fault with
    | some e =>
      obtain ⟨_, _, _, _, _, rfl, _⟩ := failed_of_step hstep
      exact Or.inl rfl
    | none =>
      cases hcan : s.canStep with
      | false =>
        have hnothing : s.step = (s, none) := by simp [step, hcan]
        cases hnothing.symm.trans hstep
        exact Or.inl rfl
      | true =>
        obtain ⟨f, hf⟩ := h.focus_of_live (s.canStep_iff.1 hcan)
        rcases recorded_of_step h hcan hf hstep with ⟨_, hadds⟩ | ⟨_, htrace⟩
        · exact Or.inr hadds
        · exact Or.inl htrace
  recorded := by
    intro f t hcan hf hstep
    rcases recorded_of_step h hcan hf hstep with ⟨hkind, hadds⟩ | ⟨hkind, htrace⟩
    · refine ⟨fun _ => hadds, ?_⟩
      intro hno
      cases hkind.symm.trans hno
    · refine ⟨?_, fun _ => htrace⟩
      intro hyes
      cases hkind.symm.trans hyes
  accepted := by
    intro raw t hsupply
    obtain ⟨w, n, hw, _, rfl⟩ := accepted_of_supply hsupply
    obtain ⟨f, _, hf, _, hlabel⟩ := h.waits w hw
    obtain ⟨r, htrace, hrow⟩ := State.trace_answer (s.now.echo raw) w n
    have hshown := (shown_of_focus (atEnd_of_pending h hw) hf).1
    exact ⟨r, htrace, by rw [hrow, hshown, hlabel]⟩
  refused := by
    intro raw t fault hsupply
    rcases s.supply_cases raw with ⟨_, he⟩ | ⟨w, _, _, he⟩ | ⟨w, n, _, _, he⟩
    · cases he.symm.trans hsupply
      rfl
    · cases he.symm.trans hsupply
      rfl
    · cases he.symm.trans hsupply
  failure := by
    intro t failure hstep
    obtain ⟨f, l, hl, hf, hx, _, rfl⟩ := failed_of_step hstep
    obtain ⟨hlabel, hline⟩ := shown_of_focus (ready_of_canStep (s.canStep_iff.2 hl)).2 hf
    obtain ⟨e, he, hnode, _⟩ := h.focus_mem_listing hf
    obtain ⟨n, hn, htext⟩ := Program.exists_line_of_listing hparse he
    have honLine : f.node.OnLine := hnode ▸ Program.onLine_listing hparse e he
    rw [hlabel, hline, ← hnode]
    refine ⟨rfl, ?_, n, hn, htext⟩
    rw [hnode]
    exact State.line_of_exec honLine hx
  marked := marked_of_control hparse h
  unmarked := unmarked_of_atEnd hparse

/-- What is shown is what happens, for every text that can be read, whether or not it was checked, and after any calls. -/
theorem display_announces {text : String} {p : Program} (hparse : Program.parse text = .ok p) (calls : List Call) :
    ((ofProgram p).run calls).Announces text := by
  have hcontrol := (Throughout.run (State.control_kept p) calls).1
  have hprogram : ((ofProgram p).run calls).program = p := program_run (ofProgram p) calls
  refine announces_of_control ?_ ?_
  · rwa [hprogram]
  · rwa [hprogram]

theorem display_announces_branching : ∃ p, Program.parse Check.branchingText = .ok p ∧
    ((ofProgram p).run [.step, .step, .supply "3", .step]).Announces Check.branchingText := by
  have hok : (Program.parse Check.branchingText).isOk = true := by decide +kernel
  cases hparse : Program.parse Check.branchingText with
  | error e =>
    rw [hparse] at hok
    cases hok
  | ok p => exact ⟨p, rfl, display_announces hparse _⟩

end Session

end Stepwise
