import Stepwise.Proofs.Control

/-!
# Blocks as a queue of pending items

A second machine executes the same programs without frames. While a block is active it keeps one queue of the items still to
be executed: the head of the queue is taken, a nested branch that holds puts its block in front of the rest, one that does not
hold is dropped and its labels are used up, and a jump empties the queue. When the queue is empty the block is left. The
stack of frames is an implementation of this queue: after the same calls, the two machines are in the same state.
-/

namespace Stepwise

/-- A state of the queue machine. -/
structure Queued where
  pc : Nat
  vars : Env
  console : String
  rows : List Row
  /-- A block is being executed. -/
  active : Bool
  /-- The items of the active block that are still to be executed, nested ones in their place. -/
  items : List Node
  sub : Nat
  pending : Option Pending
  halted : Bool

namespace Queued

/-- The state before the first step. -/
def initial : Queued := ⟨0, Env.empty, "", [], false, [], 0, none, false⟩

/-- An emptied queue ends the block: the labels start again and the step with the block is passed. -/
def leaveEmpty (q : Queued) : Queued :=
  if q.items.isEmpty then { q with active := false, sub := 0, pc := q.pc + 1 } else q

/-- Takes the head of the queue, which uses up labels; outside a block, moves to the next step. -/
def advance (q : Queued) (labels : Nat) : Queued :=
  if q.active then { q with items := q.items.tail, sub := q.sub + labels }.leaveEmpty else { q with pc := q.pc + 1 }

/-- Takes the head of the queue and puts a block in front of the rest; outside a block, the queue begins with the block. -/
def splice (q : Queued) (block : List Node) : Queued :=
  if q.active then { q with items := block ++ q.items.tail }.leaveEmpty
  else { q with active := true, items := block, sub := 0 }.leaveEmpty

/-- Adds a row to the trace. -/
def record (q : Queued) (label output : String) (changed : Env) : Queued :=
  { q with rows := ⟨label, output, changed⟩ :: q.rows }

/-- Evaluates an expression; a fault is placed in the text. -/
def value (q : Queued) (e : Excerpt) : Except Located Value :=
  match evaluate e.text q.vars with
  | .ok v => .ok v
  | .error f => .error ⟨Span.shift ⟨0, f.col⟩ e.span, .evaluation f.fault⟩

/-- Evaluates a condition; a fault is placed in the text. -/
def test (q : Queued) (e : Excerpt) : Except Located Bool :=
  match evaluateCondition e.text q.vars with
  | .ok b => .ok b
  | .error f => .error ⟨Span.shift ⟨0, f.col⟩ e.span, .evaluation f.fault⟩

/-- The action to be taken next, if there is one: the head of the queue, or outside a block the current step. -/
def action? (p : Program) (q : Queued) : Option Focus :=
  if q.pending.isSome || q.halted then none
  else
    match p.steps[q.pc]? with
    | none => none
    | some step =>
      if q.active then q.items.head?.map fun item => ⟨subLabel step.number q.sub, item, true⟩
      else some ⟨stepLabel step.number, step.node, false⟩

/-- Takes an action. -/
def take (p : Program) (q : Queued) (f : Focus) : Except Located Queued :=
  match f.node with
  | .act _ (.print e) =>
    match q.value e with
    | .error l => .error l
    | .ok v => .ok (({ q with console := q.console ++ v.text }.record f.label v.text Env.empty).advance 1)
  | .act _ (.assign name e) =>
    match q.value e with
    | .error l => .error l
    | .ok v => .ok (({ q with vars := q.vars.insert name v }.record f.label "" (Env.single name v)).advance 1)
  | .act _ (.read name) => .ok { q with pending := some ⟨name, f.label⟩ }
  | .act place (.jump none raw) => .error ⟨place.span, .invalidJump raw⟩
  | .act place (.jump (some n) _) =>
    match p.indexOf? n with
    | none => .error ⟨place.span, .invalidTarget n⟩
    | some i => .ok { q with active := false, items := [], sub := 0, pc := i }
  | .act place .start =>
    if f.nested then .error ⟨place.span, .unsupportedInBlock (Text.stripped place.source)⟩
    else .ok ((q.record f.label "" Env.empty).advance 1)
  | .act place .stop =>
    if f.nested then .error ⟨place.span, .unsupportedInBlock (Text.stripped place.source)⟩
    else .ok { (q.record f.label "" Env.empty).advance 1 with halted := true }
  | .act place (.unknown _) =>
    if f.nested then .error ⟨place.span, .unsupportedInBlock (Text.stripped place.source)⟩
    else .error ⟨place.span, .unknownCommand (Text.stripped place.source)⟩
  | .branch _ cond block =>
    match q.test cond with
    | .error l => .error l
    | .ok true => .ok (q.splice block)
    | .ok false => .ok (q.advance block.length)

end Queued

/-- The execution of a program by the queue machine, with the states before the present one. -/
structure QueueRun where
  program : Program
  now : Queued
  history : List Queued

namespace QueueRun

/-- Before the first step. -/
def ofProgram (p : Program) : QueueRun := ⟨p, .initial, []⟩

/-- Takes one action if there is one; a failure changes nothing. -/
def step (r : QueueRun) : QueueRun × Option Failure :=
  match r.now.action? r.program with
  | none => (r, none)
  | some f =>
    match r.now.take r.program f with
    | .ok q => (⟨r.program, q, r.now :: r.history⟩, none)
    | .error e => (r, some ⟨f.label, e.span, e.fault, f.node.source⟩)

/-- Goes back to the state before the last action. -/
def undo (r : QueueRun) : QueueRun :=
  match r.history with
  | [] => r
  | q :: rest => ⟨r.program, { q with pending := none }, rest⟩

/-- Supplies the text that a read waits for: a number is bound and the read is passed like any other action. -/
def supply (r : QueueRun) (raw : String) : QueueRun × Option InputFault :=
  match r.now.pending with
  | none => (r, some .notWaiting)
  | some w =>
    let shown := { r.now with console := r.now.console ++ raw ++ "\n" }
    match Text.readInt? (Text.strip raw.toList) with
    | none => ({ r with now := shown }, some (.notInteger raw w.name))
    | some n =>
      let bound := { shown with vars := shown.vars.insert w.name (.int n), pending := none }
      ({ r with now := (bound.record w.label "" (Env.single w.name (.int n))).advance 1 }, none)

/-- After a call. -/
def apply (r : QueueRun) : Call → QueueRun
  | .step => r.step.1
  | .undo => r.undo
  | .supply raw => (r.supply raw).1

/-- After a list of calls. -/
def run (r : QueueRun) (calls : List Call) : QueueRun :=
  calls.foldl apply r

end QueueRun

/-! ## The queue of a stack of frames -/

/-- The items that a stack of frames has still to execute: the rest of the innermost block, then of each outer one. -/
def pendingItems : List Frame → List Node
  | [] => []
  | f :: fs => f.items.drop f.index ++ pendingItems fs

/-- A finished frame has nothing to execute. -/
theorem drop_eq_nil_iff_finished (f : Frame) : f.items.drop f.index = [] ↔ f.finished = true := by
  simp [Frame.finished]

/-- Leaving finished blocks does not change what is to be executed. -/
theorem pendingItems_dropWhile (fs : List Frame) : pendingItems (fs.dropWhile Frame.finished) = pendingItems fs := by
  induction fs with
  | nil => rfl
  | cons f fs ih =>
    by_cases hf : f.finished = true
    · rw [List.dropWhile_cons_of_pos hf, ih, pendingItems, (drop_eq_nil_iff_finished f).2 hf, List.nil_append]
    · rw [List.dropWhile_cons_of_neg hf]

/-- All blocks are left exactly when nothing is to be executed. -/
theorem dropWhile_finished_eq_nil_iff (fs : List Frame) : fs.dropWhile Frame.finished = [] ↔ pendingItems fs = [] := by
  induction fs with
  | nil => simp [pendingItems]
  | cons f fs ih =>
    by_cases hf : f.finished = true
    · rw [List.dropWhile_cons_of_pos hf, ih, pendingItems, (drop_eq_nil_iff_finished f).2 hf, List.nil_append]
    · rw [List.dropWhile_cons_of_neg hf]
      have hne : f.items.drop f.index ≠ [] := fun h => hf ((drop_eq_nil_iff_finished f).1 h)
      simp [pendingItems, hne]

/-- Moving the cursor of the innermost block takes the head of the queue. -/
theorem pendingItems_tail {f : Frame} (hf : f.finished = false) (fs : List Frame) :
    pendingItems ({ f with index := f.index + 1 } :: fs) = (pendingItems (f :: fs)).tail := by
  have hlt := (f.finished_eq_false_iff).1 hf
  simp only [pendingItems, List.drop_eq_getElem_cons hlt, List.cons_append, List.tail_cons]

/-- The head of the queue is the item under the cursor of the innermost block. -/
theorem pendingItems_head? {f : Frame} {item : Node} (hi : f.items[f.index]? = some item) (fs : List Frame) :
    (pendingItems (f :: fs)).head? = some item := by
  obtain ⟨hlt, rfl⟩ := List.getElem?_eq_some_iff.1 hi
  simp only [pendingItems, List.drop_eq_getElem_cons hlt, List.cons_append, List.head?_cons]

namespace State

/-- The state of the queue machine that a state stands for. -/
def queued (st : State) : Queued :=
  ⟨st.pc, st.vars, st.console, st.rows, !st.frames.isEmpty, pendingItems st.frames, st.sub, st.pending, st.halted⟩

variable {p : Program} {st : State}

/-- Settling is leaving the block when its queue is empty. -/
theorem queued_settle (st : State) : st.settle.queued = { st.queued with active := true }.leaveEmpty := by
  unfold settle
  split
  · rename_i hd
    have hq := (dropWhile_finished_eq_nil_iff st.frames).1 hd
    simp [queued, Queued.leaveEmpty, hq, pendingItems]
  · rename_i g gs hd
    have hq : pendingItems st.frames = pendingItems (g :: gs) := by rw [← hd, pendingItems_dropWhile]
    have hne : pendingItems st.frames ≠ [] := by
      rw [Ne, ← dropWhile_finished_eq_nil_iff, hd]
      exact List.cons_ne_nil g gs
    have hne' : pendingItems (g :: gs) ≠ [] := hq ▸ hne
    simp [queued, Queued.leaveEmpty, hq, hne']

/-- Moving past an item is taking the head of the queue. -/
theorem queued_pass (st : State) (htop : ∀ f, st.frames.head? = some f → f.finished = false)
    (hflat : st.frames = [] → st.sub = 0) (labels : Nat) : (st.pass labels).queued = st.queued.advance labels := by
  cases hf : st.frames with
  | nil => simp [pass, nextItem, settle, queued, Queued.advance, hf, pendingItems, hflat hf]
  | cons g gs =>
    have htail := pendingItems_tail (htop g (by simp [hf])) gs
    simp only [pass, nextItem, hf, queued_settle]
    simp only [queued, Queued.advance, hf, htail, List.isEmpty_cons, Bool.not_false, if_true]

/-- Entering a block is putting it in front of the rest of the queue. -/
theorem queued_enter (st : State) (htop : ∀ f, st.frames.head? = some f → f.finished = false)
    (hflat : st.frames = [] → st.sub = 0) (block : List Node) : (st.enter block).queued = st.queued.splice block := by
  cases hf : st.frames with
  | nil =>
    simp only [enter, nextItem, hf, queued_settle]
    simp [queued, Queued.splice, hf, pendingItems, hflat hf]
  | cons g gs =>
    have htail := pendingItems_tail (htop g (by simp [hf])) gs
    simp only [enter, nextItem, hf, queued_settle]
    rw [pendingItems] at htail
    simp only [queued, Queued.splice, hf, pendingItems, List.drop_zero, htail, List.isEmpty_cons, Bool.not_false, if_true]

/-- Executing what is under the cursor is taking it as an action of the queue machine. -/
theorem queued_exec (h : st.Control p) (f : Focus) : (st.exec p f).map queued = st.queued.take p f := by
  have hv : ∀ e, st.queued.value e = st.valueOf e := fun _ => rfl
  have ht : ∀ e, st.queued.test e = st.test e := fun _ => rfl
  obtain ⟨label, node, nested⟩ := f
  cases node with
  | branch place cond block =>
    simp only [exec, Queued.take, ht]
    cases hc : st.test cond with
    | error l => rfl
    | ok b =>
      cases b with
      | true => exact congrArg Except.ok (queued_enter st h.top h.flat block)
      | false => exact congrArg Except.ok (queued_pass st h.top h.flat block.length)
  | act place a =>
    cases a with
    | print e =>
      simp only [exec, execAction, Queued.take, hv]
      cases hc : st.valueOf e with
      | error l => rfl
      | ok v =>
        have hpass := queued_pass ({ st with console := st.console ++ v.text }.record label v.text Env.empty) h.top h.flat 1
        exact congrArg Except.ok hpass
    | assign name e =>
      simp only [exec, execAction, Queued.take, hv]
      cases hc : st.valueOf e with
      | error l => rfl
      | ok v =>
        have hpass := queued_pass ({ st with vars := st.vars.insert name v }.record label "" (Env.single name v))
          h.top h.flat 1
        exact congrArg Except.ok hpass
    | read name => rfl
    | jump target raw =>
      cases target with
      | none => rfl
      | some n =>
        simp only [exec, execAction, State.jump, Queued.take]
        cases p.indexOf? n <;> rfl
    | start =>
      cases nested with
      | true => rfl
      | false => exact congrArg Except.ok (queued_pass (st.record label "" Env.empty) h.top h.flat 1)
    | stop =>
      cases nested with
      | true => rfl
      | false =>
        have hpass := queued_pass (st.record label "" Env.empty) h.top h.flat 1
        exact congrArg (fun q : Queued => Except.ok { q with halted := true }) hpass
    | unknown text => cases nested <;> rfl

/-- The next action of the queue machine is what the cursor points at, as long as the program can go on. -/
theorem queued_action?_of_live (h : st.Control p) (hl : st.Live p) : st.queued.action? p = st.focus? p := by
  simp only [Queued.action?, queued, hl.ready, hl.running, Option.isSome_none, Bool.or_self, Bool.false_eq_true, if_false]
  cases hf : st.frames with
  | nil =>
    rw [focus?_of_frames_nil hf]
    cases p.steps[st.pc]? <;> rfl
  | cons g gs =>
    have hlt := (g.finished_eq_false_iff).1 (h.top g (by simp [hf]))
    have hi := List.getElem?_eq_getElem hlt
    rw [focus?_of_frames_cons hf hi, pendingItems_head? hi]
    cases p.steps[st.pc]? <;> rfl

/-- The queue machine has no next action when the program cannot go on. -/
theorem queued_action?_of_not_live (hl : ¬ st.Live p) : st.queued.action? p = none := by
  unfold Queued.action?
  split
  · rfl
  · rename_i hready
    simp only [queued, Bool.or_eq_true, Option.isSome_iff_ne_none, not_or, Decidable.not_not, Bool.not_eq_true] at hready
    -- the program neither waits nor is halted, so it has run past its last step outside all blocks
    have hend : st.frames = [] ∧ p.steps.length ≤ st.pc := by
      constructor
      · cases hf : st.frames with
        | nil => rfl
        | cons g gs => exact absurd ⟨hready.1, hready.2, Or.inl (by simp [hf])⟩ hl
      · exact Nat.le_of_not_lt fun hpc => hl ⟨hready.1, hready.2, Or.inr hpc⟩
    simp only [queued, List.getElem?_eq_none hend.2]

end State

namespace Session

/-- The run of the queue machine that a session stands for. -/
def queued (s : Session) : QueueRun :=
  ⟨s.program, s.now.queued, s.history.map State.queued⟩

variable {s : Session}

/-- A step of a session is a step of the queue machine, with the same answer. -/
theorem queued_step (h : s.now.Control s.program) : (s.step.1.queued, s.step.2) = s.queued.step := by
  unfold QueueRun.step
  rcases s.step_cases with ⟨he, hnot⟩ | ⟨f, st, hl, hf, hx, he⟩ | ⟨f, e, hl, hf, hx, he⟩
  · have hl : ¬ s.now.Live s.program := by
      intro hl
      obtain ⟨f, hf⟩ := h.focus_of_live hl
      rcases hnot with hnot | hnone
      · exact hnot hl
      · rw [focus?, hf] at hnone
        cases hnone
    have ha : s.queued.now.action? s.queued.program = none := State.queued_action?_of_not_live hl
    rw [he, ha]
  · have ha : s.queued.now.action? s.queued.program = some f := (State.queued_action?_of_live h hl).trans hf
    have ht : s.queued.now.take s.queued.program f = .ok st.queued := by
      rw [queued, ← State.queued_exec h, hx]
      rfl
    simp only [he, ha, ht]
    rfl
  · have ha : s.queued.now.action? s.queued.program = some f := (State.queued_action?_of_live h hl).trans hf
    have ht : s.queued.now.take s.queued.program f = .error e := by
      rw [queued, ← State.queued_exec h, hx]
      rfl
    simp only [he, ha, ht]

/-- Undo of a session is undo of the queue machine. -/
theorem queued_undo (s : Session) : s.undo.queued = s.queued.undo := by
  obtain ⟨p, now, history⟩ := s
  cases history <;> rfl

/-- Supplying a text to a session is supplying it to the queue machine, with the same answer. -/
theorem queued_supply (h : s.now.Control s.program) (raw : String) :
    ((s.supply raw).1.queued, (s.supply raw).2) = s.queued.supply raw := by
  rcases s.supply_cases raw with ⟨hw, he⟩ | ⟨w, hw, hn, he⟩ | ⟨w, n, hw, hn, he⟩
  · have hq : s.queued.now.pending = none := hw
    simp only [he, QueueRun.supply, hq]
  · have hq : s.queued.now.pending = some w := hw
    simp only [he, QueueRun.supply, hq, hn]
    rw [← hq]
    rfl
  · have hq : s.queued.now.pending = some w := hw
    have hpass := State.queued_pass
      ({ s.now.echo raw with vars := s.now.vars.insert w.name (.int n), pending := none }.record w.label ""
        (Env.single w.name (.int n))) h.top h.flat 1
    simp only [he, QueueRun.supply, hq, hn]
    exact congrArg (fun q => ((⟨s.program, q, s.history.map State.queued⟩ : QueueRun), none)) hpass

/-- A call of a session is the same call of the queue machine. -/
theorem queued_apply (h : s.now.Control s.program) (c : Call) : (s.apply c).queued = s.queued.apply c := by
  cases c with
  | step => exact congrArg Prod.fst (queued_step h)
  | undo => exact queued_undo s
  | supply raw => exact congrArg Prod.fst (queued_supply h raw)

/-- A run of a session is the same run of the queue machine. -/
theorem queued_run (h : s.Throughout (State.Control s.program)) (calls : List Call) :
    (s.run calls).queued = s.queued.run calls := by
  induction calls generalizing s with
  | nil => rfl
  | cons c cs ih =>
    have hc : (s.apply c).Throughout (State.Control s.program) := h.apply (State.control_kept _) c
    rw [run_cons, ih (by rw [program_apply]; exact hc), queued_apply h.1]
    rfl

/-- A session can step exactly when the queue machine has a next action. -/
theorem canStep_iff_action? (h : s.now.Control s.program) :
    s.canStep = true ↔ ∃ f, s.queued.now.action? s.program = some f := by
  rw [s.canStep_iff]
  constructor
  · intro hl
    obtain ⟨f, hf⟩ := h.focus_of_live hl
    exact ⟨f, (State.queued_action?_of_live h hl).trans hf⟩
  · rintro ⟨f, hf⟩
    by_cases hl : s.now.Live s.program
    · exact hl
    · have hnone : s.queued.now.action? s.program = none := State.queued_action?_of_not_live hl
      rw [hnone] at hf
      cases hf

/-- A block is active exactly when items are pending. -/
theorem queued_active_iff (h : s.now.Control s.program) : s.queued.now.active = true ↔ s.queued.now.items ≠ [] := by
  simp only [queued, State.queued]
  cases hf : s.now.frames with
  | nil => simp [pendingItems]
  | cons g gs =>
    have hlt := (g.finished_eq_false_iff).1 (h.top g (by simp [hf]))
    have hhead := pendingItems_head? (List.getElem?_eq_getElem hlt) gs
    have hne : pendingItems (g :: gs) ≠ [] := by
      intro hnil
      rw [hnil] at hhead
      cases hhead
    simp [hne]

/-- The stack of frames refines the queue of pending items, for programs with blocks nested to any depth and after any calls.
The queue machine is then in the state that the session stands for: the same step, variables, console, trace, labels, wait and
end, with the rest of the innermost block followed by the rests of the outer ones as its queue. A session can step exactly when
the queue machine has a next action; then a step is that one action, and an input is the same input, with the same answers. A
block is active in the session exactly when one is active in the queue machine, which is when items are pending. -/
theorem frames_refine_pending_queue (p : Program) (calls : List Call) :
    ((ofProgram p).run calls).queued = (QueueRun.ofProgram p).run calls ∧
    (((ofProgram p).run calls).canStep = true ↔ ∃ f, ((QueueRun.ofProgram p).run calls).now.action? p = some f) ∧
    (((ofProgram p).run calls).step.1.queued, ((ofProgram p).run calls).step.2) =
      ((QueueRun.ofProgram p).run calls).step ∧
    (∀ raw, ((((ofProgram p).run calls).supply raw).1.queued, (((ofProgram p).run calls).supply raw).2) =
      ((QueueRun.ofProgram p).run calls).supply raw) ∧
    (((ofProgram p).run calls).now.frames ≠ [] ↔ ((QueueRun.ofProgram p).run calls).now.active = true) ∧
    (((QueueRun.ofProgram p).run calls).now.active = true ↔ ((QueueRun.ofProgram p).run calls).now.items ≠ []) := by
  have hall := Throughout.run (State.control_kept p) calls
  have hsame : ((ofProgram p).run calls).queued = (QueueRun.ofProgram p).run calls :=
    queued_run ⟨(State.control_kept p).initial, by simp [ofProgram]⟩ calls
  have hprog : ((ofProgram p).run calls).program = p := program_run _ calls
  generalize (ofProgram p).run calls = s at hall hsame hprog
  rw [← hsame]
  subst hprog
  refine ⟨rfl, canStep_iff_action? hall.1, queued_step hall.1, queued_supply hall.1, ?_, queued_active_iff hall.1⟩
  simp [queued, State.queued]

end Session

end Stepwise
