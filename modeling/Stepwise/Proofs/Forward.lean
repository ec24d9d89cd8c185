import Stepwise.Proofs.Announced
import Stepwise.Proofs.LabelCount
import Stepwise.Proofs.PendingQueue

/-!
# Execution goes forward

The lines that a session has still before it are those of the queue of its open blocks and of the steps behind them. An action passes
the first of these lines and perhaps more of them, a read waits on it, and only a jump may bring back lines that were passed. The lines
of a program that was read have rising numbers, so between jumps the line that is shown only rises. When the jumps go forward too, no
line is passed twice, and a run without undo has no more steps than the program has lines.
-/

namespace Stepwise

/-! ## Line numbers -/

mutual

/-- The numbers of the lines of a node: its own, then those of its block. -/
def Node.lines : Node → List Nat
  | .act place _ => [place.line]
  | .branch place _ block => place.line :: blockLines block

/-- The numbers of the lines of the items of a block. -/
def blockLines : List Node → List Nat
  | [] => []
  | n :: ns => n.lines ++ blockLines ns

end

/-- The lines of a node begin with its own. -/
theorem Node.lines_eq_cons (n : Node) : n.lines = n.line :: blockLines n.block := by
  cases n with
  | act place a => rfl
  | branch place cond block => rfl

/-- The lines of a block are numbered part by part. -/
theorem blockLines_append (a b : List Node) : blockLines (a ++ b) = blockLines a ++ blockLines b := by
  induction a with
  | nil => rfl
  | cons n a ih => rw [List.cons_append, blockLines, ih, blockLines, List.append_assoc]

mutual

/-- The lines of a node are numbered as they are listed. -/
theorem Node.map_line_entries (n : Node) (step : Nat) (path : List Nat) :
    (n.entries step path).map (fun e => e.node.line) = n.lines := by
  cases n with
  | act place a => rfl
  | branch place cond block => rw [Node.entries, List.map_cons, map_line_blockEntries block, Node.lines]; rfl

/-- The lines of a block are numbered as they are listed. -/
theorem map_line_blockEntries (ns : List Node) (step : Nat) (path : List Nat) (position : Nat) :
    (blockEntries step path position ns).map (fun e => e.node.line) = blockLines ns := by
  cases ns with
  | nil => rfl
  | cons n ns => rw [blockEntries, List.map_append, Node.map_line_entries n, map_line_blockEntries ns, blockLines]

end

/-- The lines of a program are numbered as they are listed. -/
theorem Program.map_line_listing (p : Program) :
    p.listing.map (fun e => e.node.line) = blockLines (p.steps.map Step.node) := by
  unfold Program.listing
  generalize 0 = index
  induction p.steps generalizing index with
  | nil => rfl
  | cons s ss ih => rw [stepEntries, List.map_append, Node.map_line_entries, ih, List.map_cons, blockLines]

/-- Later steps have the last lines of the program. -/
theorem Program.blockLines_drop_suffix (p : Program) {i j : Nat} (h : i ≤ j) :
    blockLines ((p.steps.drop j).map Step.node) <:+ blockLines ((p.steps.drop i).map Step.node) := by
  obtain ⟨k, rfl⟩ := Nat.exists_eq_add_of_le h
  refine ⟨blockLines (((p.steps.drop i).take k).map Step.node), ?_⟩
  rw [← blockLines_append, ← List.map_append, ← List.drop_drop, List.take_append_drop]

/-! ## What is ahead -/

namespace Queued

variable {q : Queued}

/-- The items still to come: those of the active block, then the steps behind it. -/
def ahead (p : Program) (q : Queued) : List Node :=
  q.items ++ (p.steps.drop (if q.active then q.pc + 1 else q.pc)).map Step.node

/-- Leaving an emptied block changes nothing ahead. -/
theorem ahead_leaveEmpty (p : Program) (h : q.active = true) : q.leaveEmpty.ahead p = q.ahead p := by
  unfold leaveEmpty
  by_cases hempty : q.items.isEmpty = true
  · rw [if_pos hempty]
    simp only [ahead, h, if_true, Bool.false_eq_true, if_false]
  · rw [if_neg hempty]

/-- Where a block is active exactly when there are items left, there are none outside blocks. -/
theorem items_eq_nil (h : q.items ≠ [] ↔ q.active = true) (hactive : ¬ q.active = true) : q.items = [] := by
  by_contra hne
  exact hactive (h.1 hne)

/-- Taking the head of the queue, or passing a step, takes the first item ahead. -/
theorem ahead_advance (p : Program) (h : q.items ≠ [] ↔ q.active = true) (labels : Nat) :
    (q.advance labels).ahead p = (q.ahead p).tail := by
  unfold advance
  by_cases hactive : q.active = true
  · rw [if_pos hactive, ahead_leaveEmpty p (by exact hactive)]
    simp only [ahead, hactive, if_true, List.tail_append_of_ne_nil (h.2 hactive)]
  · rw [if_neg hactive]
    simp only [ahead, items_eq_nil h hactive, hactive, Bool.false_eq_true, if_false, List.nil_append, ← List.map_tail, List.tail_drop]

/-- Entering a block replaces the first item ahead by the items of the block. -/
theorem ahead_splice (p : Program) (h : q.items ≠ [] ↔ q.active = true) (block : List Node) :
    (q.splice block).ahead p = block ++ (q.ahead p).tail := by
  unfold splice
  by_cases hactive : q.active = true
  · rw [if_pos hactive, ahead_leaveEmpty p (by exact hactive)]
    simp only [ahead, hactive, if_true, List.tail_append_of_ne_nil (h.2 hactive), List.append_assoc]
  · rw [if_neg hactive, ahead_leaveEmpty p rfl]
    simp only [ahead, items_eq_nil h hactive, hactive, if_true, Bool.false_eq_true, if_false, List.nil_append, ← List.map_tail,
      List.tail_drop]

end Queued

namespace State

/-- The items that a state has still before it, as long as no block is entered. -/
def ahead (p : Program) (st : State) : List Node := st.queued.ahead p

/-- The numbers of the lines that a state has still before it. -/
def linesAhead (p : Program) (st : State) : List Nat := blockLines (st.ahead p)

variable {p : Program} {st st' : State} {f : Focus}

/-- In a block there is an item left, outside there is none. -/
theorem queued_items_ne_nil_iff (htop : ∀ f, st.frames.head? = some f → f.finished = false) :
    st.queued.items ≠ [] ↔ st.queued.active = true := by
  cases hframes : st.frames with
  | nil => simp [queued, hframes, pendingItems]
  | cons g gs =>
    have hleft : g.items.drop g.index ≠ [] := by
      intro hnil
      have hfinished := (drop_eq_nil_iff_finished g).1 hnil
      rw [htop g (by rw [hframes]; rfl)] at hfinished
      cases hfinished
    simp [queued, hframes, pendingItems, hleft]

/-- Moving past an item takes it from the items ahead. -/
theorem ahead_pass (htop : ∀ f, st.frames.head? = some f → f.finished = false) (hflat : st.frames = [] → st.sub = 0)
    (labels : Nat) : (st.pass labels).ahead p = (st.ahead p).tail := by
  rw [ahead, queued_pass st htop hflat, Queued.ahead_advance p (queued_items_ne_nil_iff htop), ahead]

/-- Entering a block puts its items in the place of the branch. -/
theorem ahead_enter (h : st.Control p) (block : List Node) : (st.enter block).ahead p = block ++ (st.ahead p).tail := by
  rw [ahead, queued_enter st h.top h.flat, Queued.ahead_splice p (queued_items_ne_nil_iff h.top), ahead]

/-- The first item ahead is what the cursor points at. -/
theorem Control.ahead_of_focus (h : st.Control p) (hf : st.focus? p = some f) : st.ahead p = f.node :: (st.ahead p).tail := by
  have hhead : (st.ahead p).head? = some f.node := by
    rcases h.focus_cases hf with ⟨step, hnil, hs, rfl⟩ | ⟨step, g, gs, hg, _, hi, _, _⟩
    · simp [ahead, Queued.ahead, queued, hnil, pendingItems, List.head?_drop, hs]
    · simp [ahead, Queued.ahead, queued, hg, List.head?_append, pendingItems_head? hi gs]
  exact List.eq_cons_of_mem_head? hhead

/-- The lines ahead are that of the cursor, those of the block that may be entered there, and those behind it. -/
theorem Control.linesAhead_of_focus (h : st.Control p) (hf : st.focus? p = some f) :
    st.linesAhead p = f.node.line :: (blockLines f.node.block ++ blockLines (st.ahead p).tail) := by
  rw [← List.cons_append, ← Node.lines_eq_cons, ← blockLines, ← h.ahead_of_focus hf, linesAhead]

/-- After a jump the lines ahead are those from its target on. -/
theorem linesAhead_jump (p : Program) (st : State) (i : Nat) :
    ({ st with frames := [], sub := 0, pc := i } : State).linesAhead p = blockLines ((p.steps.drop i).map Step.node) := by
  simp [linesAhead, ahead, Queued.ahead, queued, pendingItems]

/-- The lines behind the cursor are the last ones ahead. -/
theorem Control.behind_suffix (h : st.Control p) (hf : st.focus? p = some f) :
    blockLines (st.ahead p).tail <:+ (st.linesAhead p).tail := by
  rw [h.linesAhead_of_focus hf, List.tail_cons]
  exact List.suffix_append _ _

/-- Moving past the item under the cursor passes its line, also when variables, console or trace were changed before. -/
theorem Control.pass_suffix (h : st.Control p) (hf : st.focus? p = some f) {labels : Nat} (hpc : st'.pc = st.pc)
    (hframes : st'.frames = st.frames) (hsub : st'.sub = st.sub) : (st'.pass labels).linesAhead p <:+ (st.linesAhead p).tail := by
  have hsame : st'.ahead p = st.ahead p := by
    unfold ahead Queued.ahead queued
    rw [hpc, hframes]
  have hpass : (st'.pass labels).ahead p = (st.ahead p).tail := by
    rw [ahead_pass, hsame]
    · rw [hframes]
      exact h.top
    · rw [hframes, hsub]
      exact h.flat
  rw [linesAhead, hpass]
  exact h.behind_suffix hf

/-- What an executed action does to the lines ahead: a read stays on its line, a jump goes to its target, and any other action passes
its line. -/
theorem linesAhead_exec (h : st.Control p) (hf : st.focus? p = some f) (hx : st.exec p f = .ok st') :
    (∃ place name, f.node = .act place (.read name) ∧ st' = { st with pending := some ⟨name, f.label⟩ }) ∨
    (∃ place n raw i, f.node = .act place (.jump (some n) raw) ∧ p.indexOf? n = some i ∧
      st' = { st with frames := [], sub := 0, pc := i }) ∨
    st'.linesAhead p <:+ (st.linesAhead p).tail := by
  cases executes_of_exec hx with
  | read node => exact Or.inl ⟨_, _, node, rfl⟩
  | jump node target => exact Or.inr (Or.inl ⟨_, _, _, _, node, target, rfl⟩)
  | print => exact Or.inr (Or.inr (h.pass_suffix hf rfl rfl rfl))
  | assign => exact Or.inr (Or.inr (h.pass_suffix hf rfl rfl rfl))
  | start => exact Or.inr (Or.inr (h.pass_suffix hf rfl rfl rfl))
  | skip => exact Or.inr (Or.inr (h.pass_suffix hf rfl rfl rfl))
  | stop =>
    have hpass : ((st.record f.label "" Env.empty).pass 1).linesAhead p <:+ (st.linesAhead p).tail := h.pass_suffix hf rfl rfl rfl
    exact Or.inr (Or.inr hpass)
  | @enter place cond block node =>
    have hentered : (st.enter block).linesAhead p = (st.linesAhead p).tail := by
      rw [linesAhead, ahead_enter h, blockLines_append, h.linesAhead_of_focus hf, node, List.tail_cons, Node.block]
    exact Or.inr (Or.inr (hentered ▸ List.suffix_refl _))

/-- An accepted input passes the line of the read. -/
theorem linesAhead_answer (h : st.Control p) {w : Pending} (hw : st.pending = some w) (n : Int64) :
    (st.answer w n).linesAhead p <:+ (st.linesAhead p).tail := by
  obtain ⟨f, _, hf, _, _⟩ := h.waits w hw
  exact h.pass_suffix hf rfl rfl rfl

/-- The cursor is in place and the lines ahead are the last lines of the program. -/
structure Ordered (p : Program) (st : State) : Prop where
  control : st.Control p
  lines : st.linesAhead p <:+ blockLines (p.steps.map Step.node)

/-- So it is throughout every run. -/
theorem ordered_kept (p : Program) : Session.Kept p (Ordered p) where
  initial := ⟨(control_kept p).initial, by simp [linesAhead, ahead, Queued.ahead, queued, pendingItems, initial]⟩
  exec := by
    intro st f st' h hl hf hx
    refine ⟨control_exec h.control hl hf hx, ?_⟩
    rcases linesAhead_exec h.control hf hx with ⟨_, _, _, rfl⟩ | ⟨_, _, _, i, _, _, rfl⟩ | hsuffix
    · exact h.lines
    · rw [linesAhead_jump]
      exact p.blockLines_drop_suffix (Nat.zero_le i)
    · exact (hsuffix.trans (List.tail_suffix _)).trans h.lines
  echo raw h hw := ⟨(control_kept p).echo raw h.control hw, h.lines⟩
  answer n h hw := ⟨(control_kept p).answer n h.control hw,
    ((linesAhead_answer h.control hw n).trans (List.tail_suffix _)).trans h.lines⟩

/-- In a program that was read the lines ahead have rising numbers. -/
theorem Ordered.pairwise {text : String} (hparse : Program.parse text = .ok p) (h : st.Ordered p) :
    (st.linesAhead p).Pairwise (· < ·) := by
  have hall := List.pairwise_map.2 (Program.listing_pairwise hparse)
  rw [Program.map_line_listing] at hall
  exact hall.sublist h.lines.sublist

end State

/-! ## The line that is shown -/

namespace Session

/-- The next step of the session is a jump. -/
def Jumps (s : Session) : Prop :=
  s.canStep = true ∧ ∃ f place target raw, s.focus? = some f ∧ f.node = .act place (.jump target raw)

/-- The session `t` waits on the read that `s` points at, and the line that is shown is still that of the read. -/
def WaitsAt (s t : Session) : Prop :=
  ∃ f place w, s.focus? = some f ∧ f.node = .act place (.read w.name) ∧ f.label = w.label ∧ t.now.pending = some w ∧
    t.display.line = s.display.line

variable {s t : Session}

/-- Before the end the first line ahead is the one that is shown. -/
theorem linesAhead_eq_cons (h : s.now.Control s.program) (hend : s.atEnd = false) :
    s.now.linesAhead s.program = s.display.line :: (s.now.linesAhead s.program).tail := by
  obtain ⟨f, hf⟩ := focus_of_not_atEnd h hend
  rw [h.linesAhead_of_focus hf, (shown_of_focus hend hf).2, List.tail_cons]

/-- When the first line ahead is passed, the line that is shown rises. -/
theorem line_lt_of_suffix (hs : s.now.Control s.program) (hpairwise : (s.now.linesAhead s.program).Pairwise (· < ·))
    (hends : s.atEnd = false) (ht : t.now.Control t.program)
    (hsuffix : t.now.linesAhead t.program <:+ (s.now.linesAhead s.program).tail) :
    t.atEnd = true ∨ s.display.line < t.display.line := by
  cases hendt : t.atEnd with
  | true => exact Or.inl rfl
  | false =>
    refine Or.inr ?_
    rw [linesAhead_eq_cons hs hends, List.pairwise_cons] at hpairwise
    refine hpairwise.1 _ (hsuffix.subset ?_)
    rw [linesAhead_eq_cons ht hendt]
    exact List.mem_cons_self

/-- A step that is no jump ends the program, waits on the read it has stepped into, or shows a later line. -/
theorem forward_step {text : String} (hparse : Program.parse text = .ok s.program) (h : s.Throughout (State.Ordered s.program))
    (hstep : s.step = (t, none)) (hjump : ¬ s.Jumps) : t.atEnd = true ∨ s.WaitsAt t ∨ s.display.line < t.display.line := by
  have hcontrol := h.1.control
  have hafter := (Throughout.apply (State.ordered_kept s.program) h .step).1
  simp only [apply, hstep] at hafter
  cases hcan : s.canStep with
  | false =>
    -- nothing was done: the session still waits, or is at its end
    have hnothing : s.step = (s, none) := by simp [step, hcan]
    cases hnothing.symm.trans hstep
    cases hw : s.now.pending with
    | some w =>
      obtain ⟨f, place, hf, hnode, hlabel⟩ := hcontrol.waits w hw
      exact Or.inr (Or.inl ⟨f, place, w, hf, hnode, hlabel, hw, rfl⟩)
    | none =>
      left
      simpa [canStep, hw] using hcan
  | true =>
    obtain ⟨f, st, hf, hx, rfl⟩ := executed_of_step hcontrol hcan hstep
    rcases State.linesAhead_exec hcontrol hf hx with ⟨place, name, node, rfl⟩ | ⟨place, n, raw, i, node, _, _⟩ | hsuffix
    · exact Or.inr (Or.inl ⟨f, place, ⟨name, f.label⟩, hf, node, rfl, rfl, rfl⟩)
    · exact absurd ⟨hcan, f, place, some n, raw, hf, node⟩ hjump
    · have hline := line_lt_of_suffix (t := ⟨s.program, st, s.now :: s.history⟩) hcontrol (h.1.pairwise hparse)
        (ready_of_canStep hcan).2 hafter.control hsuffix
      rcases hline with hend | hlt
      · exact Or.inl hend
      · exact Or.inr (Or.inr hlt)

/-- An accepted input ends the program or shows a later line. -/
theorem forward_supply {text raw : String} (hparse : Program.parse text = .ok s.program)
    (h : s.Throughout (State.Ordered s.program)) (hsupply : s.supply raw = (t, none)) :
    t.atEnd = true ∨ s.display.line < t.display.line := by
  have hcontrol := h.1.control
  have hafter := (Throughout.apply (State.ordered_kept s.program) h (.supply raw)).1
  simp only [apply, hsupply] at hafter
  obtain ⟨w, n, hw, _, rfl⟩ := accepted_of_supply hsupply
  have hechoed := (State.control_kept s.program).echo raw hcontrol hw
  exact line_lt_of_suffix hcontrol (h.1.pairwise hparse) (atEnd_of_pending hcontrol hw) hafter.control
    (State.linesAhead_answer hechoed hw n)

end Session

/-! ## Programs whose jumps go forward -/

/-- The line is no jump, or a jump to a step with a higher number than that of the step it belongs to. -/
def Entry.goesForward (p : Program) (e : Entry) : Bool :=
  match e.node, p.steps[e.step]? with
  | .act _ (.jump (some n) _), some step => decide (step.number < n)
  | _, _ => true

/-- Every jump of the program, also one in a block, goes to a step with a higher number. -/
def Program.goesForward (p : Program) : Bool :=
  p.listing.all (Entry.goesForward p)

namespace State

variable {p : Program} {st st' : State} {f : Focus}

/-- What the cursor points at has a line in the listing, which belongs to the current step. -/
theorem Control.focus_listed (h : st.Control p) (hf : st.focus? p = some f) :
    ∃ path step, p.steps[st.pc]? = some step ∧ ⟨st.pc, path, f.node⟩ ∈ p.listing := by
  rcases h.focus_cases hf with ⟨step, _, hs, rfl⟩ | ⟨step, g, gs, hg, hs, hi, _, _⟩
  · exact ⟨[], step, hs, Program.step_mem_listing hs⟩
  · obtain ⟨step', place, cond, root, hs', hnode, ho⟩ := h.standing.opened hg
    obtain rfl := Option.some.inj (hs.symm.trans hs')
    obtain ⟨before, after, hroot, _⟩ := ho.listed_item hi st.pc
    refine ⟨cursorPath (g :: gs), step, hs, mem_stepEntries.2 ⟨st.pc, step, hs, ?_⟩⟩
    rw [Nat.zero_add, hnode, Node.entries, hroot]
    exact List.mem_cons_of_mem _ (List.mem_append_right _ List.mem_cons_self)

/-- A jump of a forward program goes to a later step. -/
theorem Control.pc_lt_target (hp : p.Regular) (hforward : p.goesForward = true) (h : st.Control p) (hf : st.focus? p = some f)
    {place : Place} {n i : Nat} {raw : String} (node : f.node = .act place (.jump (some n) raw)) (target : p.indexOf? n = some i) :
    st.pc < i := by
  obtain ⟨path, step, hs, hlisted⟩ := h.focus_listed hf
  have hentry := List.all_eq_true.1 hforward _ hlisted
  simp only [Entry.goesForward, node, hs, decide_eq_true_eq] at hentry
  obtain ⟨hi, hfound, _⟩ := List.findIdx?_eq_some_iff_getElem.1 target
  have hnumber := hp.number st.pc step hs
  have htarget := hp.number i _ (List.getElem?_eq_getElem hi)
  rw [beq_iff_eq] at hfound
  omega

/-- The steps behind the current one are among what is ahead, behind what the cursor points at. -/
theorem Control.later_suffix (h : st.Control p) (hf : st.focus? p = some f) {i : Nat} (hi : st.pc < i) :
    blockLines ((p.steps.drop i).map Step.node) <:+ (st.linesAhead p).tail := by
  refine ((p.blockLines_drop_suffix hi).trans ?_).trans (h.behind_suffix hf)
  rcases h.focus_cases hf with ⟨step, hnil, _, _⟩ | ⟨step, g, gs, hg, _, hi, _, _⟩
  · have hrest : (st.ahead p).tail = (p.steps.drop (st.pc + 1)).map Step.node := by
      simp [ahead, Queued.ahead, queued, hnil, pendingItems]
    exact hrest ▸ List.suffix_refl _
  · have hne : pendingItems (g :: gs) ≠ [] := by
      intro hnil
      have hhead := pendingItems_head? hi gs
      rw [hnil] at hhead
      cases hhead
    have hrest : (st.ahead p).tail = (pendingItems (g :: gs)).tail ++ (p.steps.drop (st.pc + 1)).map Step.node := by
      simp [ahead, Queued.ahead, queued, hg, List.tail_append_of_ne_nil hne]
    rw [hrest, blockLines_append]
    exact List.suffix_append _ _

end State

namespace Session

/-- The call is a step that executes an action. -/
def succeeds (s : Session) : Call → Bool
  | .step => s.canStep && s.step.2.isNone
  | .undo => false
  | .supply _ => false

/-- How many of the calls are steps that execute an action. -/
def successes (s : Session) : List Call → Nat
  | [] => 0
  | c :: cs => (s.succeeds c).toNat + (s.apply c).successes cs

/-- How many lines a session has still to step into: a read that waits was stepped into. -/
def stepsLeft (s : Session) : Nat :=
  (s.now.linesAhead s.program).length - s.now.pending.isSome.toNat

/-- A session of a regular program whose jumps go forward, with its cursor in place. -/
structure Onward (s : Session) : Prop where
  regular : s.program.Regular
  forward : s.program.goesForward = true
  placed : s.Throughout fun st => st.Control s.program ∧ st.Bounded s.program

variable {s t : Session}

/-- Every call keeps the session so. -/
theorem Onward.apply (h : s.Onward) (c : Call) : (s.apply c).Onward := by
  have hprogram := s.program_apply c
  refine ⟨?_, ?_, ?_⟩
  · rw [hprogram]
    exact h.regular
  · rw [hprogram]
    exact h.forward
  · rw [hprogram]
    exact Throughout.apply (State.bounded_kept h.regular) h.placed c

/-- A session that can step has a line to step into. -/
theorem Onward.stepsLeft_pos (h : s.Onward) (hcan : s.canStep = true) : 0 < s.stepsLeft := by
  rw [stepsLeft, (ready_of_canStep hcan).1, linesAhead_eq_cons h.placed.1.1 (ready_of_canStep hcan).2, List.length_cons]
  exact Nat.succ_pos _

/-- A step that executes an action leaves fewer lines to step into. -/
theorem Onward.stepsLeft_step (h : s.Onward) (hcan : s.canStep = true) (hstep : s.step = (t, none)) : t.stepsLeft < s.stepsLeft := by
  have hpos := h.stepsLeft_pos hcan
  have hcontrol := h.placed.1.1
  have hready := (ready_of_canStep hcan).1
  obtain ⟨f, st, hf, hx, rfl⟩ := executed_of_step hcontrol hcan hstep
  -- a read keeps the lines and waits, anything else passes a line
  have hpassed : st.linesAhead s.program <:+ (s.now.linesAhead s.program).tail →
      (⟨s.program, st, s.now :: s.history⟩ : Session).stepsLeft < s.stepsLeft := by
    intro hsuffix
    have hlength := hsuffix.length_le
    rw [List.length_tail] at hlength
    simp only [stepsLeft, hready, Option.isSome_none, Bool.toNat_false] at hpos ⊢
    omega
  rcases State.linesAhead_exec hcontrol hf hx with ⟨_, name, _, rfl⟩ | ⟨_, n, _, i, node, target, rfl⟩ | hsuffix
  · simp only [stepsLeft, hready, Option.isSome_none, Bool.toNat_false] at hpos
    simp only [stepsLeft, hready, Option.isSome_none, Bool.toNat_false, Option.isSome_some, Bool.toNat_true]
    exact Nat.sub_lt hpos Nat.one_pos
  · refine hpassed ?_
    rw [State.linesAhead_jump]
    exact hcontrol.later_suffix hf (hcontrol.pc_lt_target h.regular h.forward hf node target)
  · exact hpassed hsuffix

/-- An input leaves no more lines to step into. -/
theorem Onward.stepsLeft_supply (h : s.Onward) (raw : String) : (s.supply raw).1.stepsLeft ≤ s.stepsLeft := by
  have hcontrol := h.placed.1.1
  rcases s.supply_cases raw with ⟨_, he⟩ | ⟨w, _, _, he⟩ | ⟨w, n, hw, _, he⟩
  · rw [he]
  · rw [he]
    exact Nat.le_refl _
  · rw [he]
    have hechoed := (State.control_kept s.program).echo raw hcontrol hw
    have hlength := (State.linesAhead_answer hechoed hw n).length_le
    rw [List.length_tail] at hlength
    have hanswered : ((s.now.echo raw).answer w n).pending = none := (State.moved_pass _ 1).pending
    simp only [stepsLeft, hanswered, hw, Option.isSome_none, Option.isSome_some, Bool.toNat_false, Bool.toNat_true]
    exact hlength

/-- A call other than undo uses up a line when it executes an action, and never adds one. -/
theorem Onward.stepsLeft_apply (h : s.Onward) {c : Call} (hc : c ≠ .undo) :
    (s.succeeds c).toNat + (s.apply c).stepsLeft ≤ s.stepsLeft := by
  cases c with
  | undo => exact absurd rfl hc
  | supply raw =>
    rw [succeeds, Session.apply, Bool.toNat_false, Nat.zero_add]
    exact h.stepsLeft_supply raw
  | step =>
    simp only [succeeds, Session.apply]
    cases hcan : s.canStep with
    | false =>
      have hnothing : s.step = (s, none) := by simp [step, hcan]
      simp [hnothing]
    | true =>
      cases hstep : s.step with
      | mk t fault =>
        cases fault with
        | none =>
          have hlt := h.stepsLeft_step hcan hstep
          simp only [Option.isNone_none, Bool.and_true, Bool.toNat_true]
          omega
        | some f =>
          obtain ⟨_, _, _, _, _, rfl, _⟩ := failed_of_step hstep
          simp

/-- A run without undo uses up a line for each step that executes an action. -/
theorem Onward.stepsLeft_run (h : s.Onward) {calls : List Call} (hcalls : .undo ∉ calls) :
    s.successes calls + (s.run calls).stepsLeft ≤ s.stepsLeft := by
  induction calls generalizing s with
  | nil => simp [successes, run]
  | cons c cs ih =>
    rw [List.mem_cons, not_or] at hcalls
    have hcall := h.stepsLeft_apply (Ne.symm hcalls.1)
    have hrest := ih (h.apply c) hcalls.2
    rw [successes, run_cons]
    omega

/-- Every run keeps the session onward. -/
theorem Onward.run (h : s.Onward) (calls : List Call) : (s.run calls).Onward := by
  induction calls generalizing s with
  | nil => exact h
  | cons c cs ih => exact ih (h.apply c)

/-- A session of a regular program that cannot step has stopped or waits. -/
theorem Onward.ended_of_canStep (h : s.Onward) (hcan : s.canStep = false) : s.now.halted = true ∨ s.now.pending ≠ none := by
  cases hw : s.now.pending with
  | some w => exact Or.inr (Option.some_ne_none w)
  | none =>
    cases hh : s.now.halted with
    | true => exact Or.inl rfl
    | false =>
      have hinside := h.placed.1.2.inside hh
      simp [canStep, atEnd, hw, hh, Nat.not_le.2 hinside] at hcan

/-- Stepping on ends in a failure, in a stop or in a read once there were as many steps as lines to step into. -/
theorem Onward.ends (h : s.Onward) {m k : Nat} {fault : Option Failure} (hm : s.stepsLeft ≤ m) (hsteps : s.steps m = (t, k, fault)) :
    fault ≠ none ∨ t.now.halted = true ∨ t.now.pending ≠ none := by
  induction m generalizing s k with
  | zero =>
    obtain ⟨rfl, _⟩ := Prod.mk.inj hsteps
    refine Or.inr (h.ended_of_canStep ?_)
    cases hcan : s.canStep with
    | false => rfl
    | true =>
      have hpos := h.stepsLeft_pos hcan
      omega
  | succ m ih =>
    rcases s.steps_succ_cases m with ⟨hcan, he⟩ | ⟨f, _, _, he⟩ | ⟨u, v, j, e, hcan, hstep, hrest, he⟩
    · cases he.symm.trans hsteps
      exact Or.inr (h.ended_of_canStep hcan)
    · cases he.symm.trans hsteps
      exact Or.inl (Option.some_ne_none f)
    · cases he.symm.trans hsteps
      have hlt := h.stepsLeft_step hcan hstep
      have honward := h.apply .step
      simp only [Session.apply, hstep] at honward
      exact ih honward (by omega) hrest

/-- A loaded text whose jumps go forward is executed onward, and has no more lines to step into than lines. -/
theorem onward_of_load {text : String} {p : Program} (hload : load text = .ok (ofProgram p)) (hforward : p.goesForward = true) :
    (ofProgram p).Onward ∧ (ofProgram p).stepsLeft = p.listing.length := by
  obtain ⟨q, hq, _, hregular⟩ := parse_of_load hload
  obtain rfl : p = q := congrArg Session.program hq
  refine ⟨⟨hregular, hforward, Throughout.run (State.bounded_kept hregular) []⟩, ?_⟩
  have hlines := congrArg List.length p.map_line_listing
  rw [List.length_map] at hlines
  simp [hlines, stepsLeft, ofProgram, State.linesAhead, State.ahead, Queued.ahead, State.queued, pendingItems, State.initial]

/-- Between jumps the line that is shown rises, for every text that can be read: after a step that is no jump, and after an accepted
input. So a loaded text whose jumps go to higher steps is executed, without undo, in at most as many steps as it has lines, and
stepping on ends in a failure, in a stop or in a read that waits. -/
theorem execution_goes_forward {text : String} {p : Program} (hparse : Program.parse text = .ok p) :
    (∀ calls t, ((ofProgram p).run calls).step = (t, none) → ¬ ((ofProgram p).run calls).Jumps →
      t.atEnd = true ∨ ((ofProgram p).run calls).WaitsAt t ∨ ((ofProgram p).run calls).display.line < t.display.line) ∧
    (∀ calls raw t, ((ofProgram p).run calls).supply raw = (t, none) →
      t.atEnd = true ∨ ((ofProgram p).run calls).display.line < t.display.line) ∧
    (load text = .ok (ofProgram p) → p.goesForward = true → ∀ calls, .undo ∉ calls →
      (ofProgram p).successes calls ≤ p.listing.length ∧
      ∀ m t k fault, p.listing.length ≤ m → ((ofProgram p).run calls).steps m = (t, k, fault) →
        fault ≠ none ∨ t.now.halted = true ∨ t.now.pending ≠ none) := by
  have hprogram : ∀ calls, ((ofProgram p).run calls).program = p := program_run (ofProgram p)
  have hordered : ∀ calls, ((ofProgram p).run calls).Throughout (State.Ordered ((ofProgram p).run calls).program) := by
    intro calls
    rw [hprogram]
    exact Throughout.run (State.ordered_kept p) calls
  refine ⟨?_, ?_, ?_⟩
  · intro calls t hstep hjump
    exact forward_step ((hprogram calls).symm ▸ hparse) (hordered calls) hstep hjump
  · intro calls raw t hsupply
    exact forward_supply ((hprogram calls).symm ▸ hparse) (hordered calls) hsupply
  · intro hload hforward calls hcalls
    obtain ⟨honward, hlines⟩ := onward_of_load hload hforward
    have hleft := honward.stepsLeft_run hcalls
    refine ⟨by omega, ?_⟩
    intro m t k fault hm hsteps
    exact (honward.run calls).ends (by omega) hsteps

/-- A text with a jump out of a block to a later step. -/
def skippingText : String :=
  "step-1: start\nstep-2: read A\nstep-3: if (A > 1):\n          goto step-5\nstep-4: print A\nstep-5: stop\n"

theorem execution_goes_forward_skipping : ∃ p, Program.parse skippingText = .ok p ∧
    load skippingText = .ok (ofProgram p) ∧ p.goesForward = true ∧ p.listing.length = 6 ∧
    (ofProgram p).successes [.step, .step, .supply "3", .step, .step, .step] ≤ 6 := by
  have hnone : Check.problem? skippingText = none := by decide +kernel
  have hchecked : ((Program.parse skippingText).toOption.map fun p => (p.goesForward, p.listing.length)) = some (true, 6) := by
    decide +kernel
  cases hparse : Program.parse skippingText with
  | error e =>
    rw [hparse] at hchecked
    cases hchecked
  | ok p =>
    rw [hparse] at hchecked
    obtain ⟨hforward, hlength⟩ := Prod.mk.inj (Option.some.inj hchecked)
    have hload : load skippingText = .ok (ofProgram p) := by rw [load, hnone, hparse]
    have hbound := ((execution_goes_forward hparse).2.2 hload hforward [.step, .step, .supply "3", .step, .step, .step] (by decide)).1
    exact ⟨p, rfl, hload, hforward, hlength, hlength ▸ hbound⟩

end Session

end Stepwise
