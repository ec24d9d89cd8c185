import Stepwise.Proofs.Run

/-!
# Where the cursor can stand

The frames of a state are not arbitrary: the bottom one stands in the block of the step that is being executed, each further
one in the block of a branch that the frame below has just passed, and the top one always has an item left. `Control` collects
this with what it means to wait and to be halted. Every action and every input keeps it, so it holds throughout every run of
every program, whether or not the program was checked.
-/

namespace Stepwise

/-- A stack of frames opened from a block. The bottom frame stands in the block; each further frame stands in the block of the
branch just before the cursor of the frame below it. -/
inductive Opened (root : List Node) : List Frame → Prop where
  | bottom {i : Nat} (le : i ≤ root.length) : Opened root [⟨root, i⟩]
  | inner {f : Frame} {fs : List Frame} {place : Place} {cond : Excerpt} {block : List Node} {k i : Nat}
      (below : Opened root (f :: fs)) (cursor : f.index = k + 1) (branch : f.items[k]? = some (.branch place cond block))
      (le : i ≤ block.length) : Opened root (⟨block, i⟩ :: f :: fs)

namespace Opened

variable {root : List Node} {f : Frame} {fs : List Frame}

/-- Leaving the top block keeps the rest of the stack. -/
theorem tail (h : Opened root (f :: fs)) : fs = [] ∨ Opened root fs := by
  cases h with
  | bottom => exact Or.inl rfl
  | inner below => exact Or.inr below

/-- The cursor of the top frame may move on as long as there is an item. -/
theorem advance (h : Opened root (f :: fs)) (hf : f.index < f.items.length) :
    Opened root ({ f with index := f.index + 1 } :: fs) := by
  cases h with
  | bottom => exact bottom hf
  | inner below cursor branch => exact inner below cursor branch hf

/-- A branch under the cursor may be passed and its block opened. -/
theorem enter {place : Place} {cond : Excerpt} {block : List Node} (h : Opened root (f :: fs))
    (hb : f.items[f.index]? = some (.branch place cond block)) :
    Opened root (⟨block, 0⟩ :: { f with index := f.index + 1 } :: fs) := by
  obtain ⟨hf, _⟩ := List.getElem?_eq_some_iff.1 hb
  exact inner (h.advance hf) rfl hb (Nat.zero_le _)

/-- Leaving the finished blocks leaves an opened stack whose top block has an item left, or nothing. -/
theorem dropWhile (h : Opened root fs) : fs.dropWhile Frame.finished = [] ∨ Opened root (fs.dropWhile Frame.finished) := by
  induction fs with
  | nil => exact Or.inl rfl
  | cons f fs ih =>
    by_cases hf : f.finished = true
    · rw [List.dropWhile_cons_of_pos hf]
      rcases h.tail with rfl | ht
      · exact Or.inl rfl
      · exact ih ht
    · rw [List.dropWhile_cons_of_neg hf]
      exact Or.inr h

end Opened

/-- A frame is unfinished exactly when its cursor stands on an item. -/
theorem Frame.finished_eq_false_iff (f : Frame) : f.finished = false ↔ f.index < f.items.length := by
  simp [finished]

namespace State

/-- The state stands in no block, or in blocks opened from the branch that is the current step. -/
def Standing (p : Program) (st : State) : Prop :=
  st.frames = [] ∨
    ∃ step place cond root, p.steps[st.pc]? = some step ∧ step.node = .branch place cond root ∧ Opened root st.frames

/-- Where the cursor stands, what is waited for and what it means to be halted. -/
structure Control (p : Program) (st : State) : Prop where
  standing : st.Standing p
  /-- The innermost block has an item left. -/
  top : ∀ f, st.frames.head? = some f → f.finished = false
  /-- Outside blocks no labels are used up. -/
  flat : st.frames = [] → st.sub = 0
  /-- A state that waits has its cursor on the read that it waits for. -/
  waits : ∀ w, st.pending = some w →
    ∃ f place, st.focus? p = some f ∧ f.node = .act place (.read w.name) ∧ f.label = w.label
  /-- A halted state stands right after a stop. -/
  stopped : st.halted = true → st.frames = [] ∧ st.pending = none ∧
    ∃ k step place, st.pc = k + 1 ∧ p.steps[k]? = some step ∧ step.node = .act place .stop

variable {p : Program} {st st' : State} {f : Focus}

/-- A state in a block stands in blocks opened from the branch that is the current step. -/
theorem Standing.opened {g : Frame} {gs : List Frame} (h : st.Standing p) (hg : st.frames = g :: gs) :
    ∃ step place cond root, p.steps[st.pc]? = some step ∧ step.node = .branch place cond root ∧ Opened root (g :: gs) := by
  rcases h with hnil | ⟨step, place, cond, root, hs, hn, ho⟩
  · rw [hg] at hnil
    cases hnil
  · exact ⟨step, place, cond, root, hs, hn, hg ▸ ho⟩

/-! ## What the cursor points at -/

/-- Outside blocks the cursor points at the current step. -/
theorem focus?_of_frames_nil (h : st.frames = []) :
    st.focus? p = (p.steps[st.pc]?).map fun step => ⟨stepLabel step.number, step.node, false⟩ := by
  simp only [focus?, h]
  cases p.steps[st.pc]? <;> rfl

/-- Inside blocks the cursor points at the next item of the innermost one. -/
theorem focus?_of_frames_cons {g : Frame} {gs : List Frame} {item : Node} (h : st.frames = g :: gs)
    (hi : g.items[g.index]? = some item) :
    st.focus? p = (p.steps[st.pc]?).map fun step => ⟨subLabel step.number st.sub, item, true⟩ := by
  simp only [focus?, h, List.head?_cons, Option.bind_some, hi]
  cases p.steps[st.pc]? <;> rfl

/-- What the cursor points at: the current step outside blocks, else the next item of the innermost block. -/
theorem Control.focus_cases (h : st.Control p) (hf : st.focus? p = some f) :
    (∃ step, st.frames = [] ∧ p.steps[st.pc]? = some step ∧ f = ⟨stepLabel step.number, step.node, false⟩) ∨
    (∃ step g gs, st.frames = g :: gs ∧ p.steps[st.pc]? = some step ∧ g.items[g.index]? = some f.node ∧
      f.label = subLabel step.number st.sub ∧ f.nested = true) := by
  cases hfr : st.frames with
  | nil =>
    rw [focus?_of_frames_nil hfr] at hf
    obtain ⟨step, hs, rfl⟩ := Option.map_eq_some_iff.1 hf
    exact Or.inl ⟨step, rfl, hs, rfl⟩
  | cons g gs =>
    have hlt := (g.finished_eq_false_iff).1 (h.top g (by simp [hfr]))
    have hi := List.getElem?_eq_getElem hlt
    rw [focus?_of_frames_cons hfr hi] at hf
    obtain ⟨step, hs, rfl⟩ := Option.map_eq_some_iff.1 hf
    exact Or.inr ⟨step, g, gs, rfl, hs, hi, rfl, rfl⟩

/-- A program that can go on has something under its cursor. -/
theorem Control.focus_of_live (h : st.Control p) (hl : st.Live p) : ∃ f, st.focus? p = some f := by
  cases hfr : st.frames with
  | nil =>
    have hpc : st.pc < p.steps.length := by
      rcases hl.inside with hne | hpc
      · exact absurd hfr hne
      · exact hpc
    rw [focus?_of_frames_nil hfr, List.getElem?_eq_getElem hpc]
    exact ⟨_, rfl⟩
  | cons g gs =>
    obtain ⟨step, _, _, _, hs, _, _⟩ := h.standing.opened hfr
    have hlt := (g.finished_eq_false_iff).1 (h.top g (by simp [hfr]))
    rw [focus?_of_frames_cons hfr (List.getElem?_eq_getElem hlt), hs]
    exact ⟨_, rfl⟩

/-! ## What an action does -/

/-- What executing the thing under the cursor does to a state, one case for each command that succeeds. -/
inductive Executes (p : Program) (st : State) (f : Focus) : State → Prop where
  | print {place : Place} {e : Excerpt} {v : Value} (node : f.node = .act place (.print e)) (value : st.valueOf e = .ok v) :
      Executes p st f (({ st with console := st.console ++ v.text }.record f.label v.text Env.empty).pass 1)
  | assign {place : Place} {name : String} {e : Excerpt} {v : Value} (node : f.node = .act place (.assign name e))
      (value : st.valueOf e = .ok v) :
      Executes p st f (({ st with vars := st.vars.insert name v }.record f.label "" (Env.single name v)).pass 1)
  | read {place : Place} {name : String} (node : f.node = .act place (.read name)) :
      Executes p st f { st with pending := some ⟨name, f.label⟩ }
  | jump {place : Place} {n i : Nat} {raw : String} (node : f.node = .act place (.jump (some n) raw))
      (target : p.indexOf? n = some i) : Executes p st f { st with frames := [], sub := 0, pc := i }
  | start {place : Place} (node : f.node = .act place .start) (top : f.nested = false) :
      Executes p st f ((st.record f.label "" Env.empty).pass 1)
  | stop {place : Place} (node : f.node = .act place .stop) (top : f.nested = false) :
      Executes p st f { (st.record f.label "" Env.empty).pass 1 with halted := true }
  | enter {place : Place} {cond : Excerpt} {block : List Node} (node : f.node = .branch place cond block)
      (holds : st.test cond = .ok true) : Executes p st f (st.enter block)
  | skip {place : Place} {cond : Excerpt} {block : List Node} (node : f.node = .branch place cond block)
      (fails : st.test cond = .ok false) : Executes p st f (st.pass block.length)

/-- A successful execution is one of these cases. -/
theorem executes_of_exec (h : st.exec p f = .ok st') : Executes p st f st' := by
  unfold exec at h
  split at h
  · rename_i place a hn
    cases a with
    | start =>
      cases ht : f.nested with
      | true => simp [execAction, ht] at h
      | false =>
        simp only [execAction, ht, Bool.false_eq_true, if_false, Except.ok.injEq] at h
        exact h ▸ .start hn ht
    | stop =>
      cases ht : f.nested with
      | true => simp [execAction, ht] at h
      | false =>
        simp only [execAction, ht, Bool.false_eq_true, if_false, Except.ok.injEq] at h
        exact h ▸ .stop hn ht
    | print e =>
      cases hv : st.valueOf e with
      | error l => simp [execAction, hv] at h
      | ok v =>
        simp only [execAction, hv, Except.ok.injEq] at h
        exact h ▸ .print hn hv
    | read name =>
      simp only [execAction, Except.ok.injEq] at h
      exact h ▸ .read hn
    | assign name e =>
      cases hv : st.valueOf e with
      | error l => simp [execAction, hv] at h
      | ok v =>
        simp only [execAction, hv, Except.ok.injEq] at h
        exact h ▸ .assign hn hv
    | jump target raw =>
      cases target with
      | none => simp [execAction, State.jump] at h
      | some n =>
        cases hi : p.indexOf? n with
        | none => simp [execAction, State.jump, hi] at h
        | some i =>
          simp only [execAction, State.jump, hi, Except.ok.injEq] at h
          exact h ▸ .jump hn hi
    | unknown text => cases ht : f.nested <;> simp [execAction, ht] at h
  · rename_i place cond block hn
    split at h
    · cases h
    · rename_i hc
      exact Except.ok.inj h ▸ .enter hn hc
    · rename_i hc
      exact Except.ok.inj h ▸ .skip hn hc

/-! ## Every run keeps the cursor in place -/

/-- Settling a stack that was opened from the current step leaves the cursor where it may stand. -/
theorem control_settle (hp : st.pending = none) (hh : st.halted = false) (hs : st.Standing p) : st.settle.Control p := by
  unfold settle
  split
  · exact ⟨Or.inl rfl, by simp, fun _ => rfl, by simp [hp], by simp [hh]⟩
  · rename_i g gs hd
    refine ⟨?_, ?_, by simp, by simp [hp], by simp [hh]⟩
    · rcases hs with hnil | ⟨step, place, cond, root, h1, h2, ho⟩
      · simp [hnil] at hd
      · refine Or.inr ⟨step, place, cond, root, h1, h2, ?_⟩
        rcases ho.dropWhile with hnil | ho
        · rw [hd] at hnil
          cases hnil
        · exact hd ▸ ho
    · intro g' hg'
      have hhead : (st.frames.dropWhile Frame.finished).head? = some g' := by rw [hd]; exact hg'
      have hnot := List.head?_dropWhile_not Frame.finished st.frames
      rw [hhead] at hnot
      simpa using hnot

/-- A state whose cursor may move on: it neither waits nor is halted, and its cursor is in place. -/
structure Steady (p : Program) (st : State) : Prop where
  ready : st.pending = none
  running : st.halted = false
  standing : st.Standing p
  top : ∀ f, st.frames.head? = some f → f.finished = false

/-- Moving past an item keeps the cursor in place. -/
theorem control_pass (h : st.Steady p) (labels : Nat) : (st.pass labels).Control p := by
  unfold pass nextItem
  split
  · rename_i hnil
    exact control_settle h.ready h.running (Or.inl hnil)
  · rename_i g gs hg
    refine control_settle h.ready h.running (Or.inr ?_)
    obtain ⟨step, place, cond, root, hs, hn, ho⟩ := h.standing.opened hg
    have hlt := (g.finished_eq_false_iff).1 (h.top g (by simp [hg]))
    exact ⟨step, place, cond, root, hs, hn, ho.advance hlt⟩

/-- Entering the block of the branch under the cursor keeps the cursor in place. -/
theorem control_enter {place : Place} {cond : Excerpt} {block : List Node} (h : st.Control p) (hl : st.Live p)
    (hf : st.focus? p = some f) (hn : f.node = .branch place cond block) : (st.enter block).Control p := by
  unfold enter nextItem
  rcases h.focus_cases hf with ⟨step, hnil, hs, rfl⟩ | ⟨step, g, gs, hg, hs, hi, _, _⟩
  · simp only [hnil]
    exact control_settle hl.ready hl.running
      (Or.inr ⟨step, place, cond, block, hs, hn, Opened.bottom (Nat.zero_le _)⟩)
  · simp only [hg]
    refine control_settle hl.ready hl.running (Or.inr ?_)
    obtain ⟨step', place', cond', root, hs', hn', ho⟩ := h.standing.opened hg
    exact ⟨step', place', cond', root, hs', hn', ho.enter (hn ▸ hi)⟩

/-- An executed action keeps the cursor in place. -/
theorem control_exec (h : st.Control p) (hl : st.Live p) (hf : st.focus? p = some f) (hx : st.exec p f = .ok st') :
    st'.Control p := by
  have hst : st.Steady p := ⟨hl.ready, hl.running, h.standing, h.top⟩
  cases executes_of_exec hx with
  | print =>
    refine control_pass ?_ 1
    exact ⟨hst.ready, hst.running, hst.standing, hst.top⟩
  | assign =>
    refine control_pass ?_ 1
    exact ⟨hst.ready, hst.running, hst.standing, hst.top⟩
  | start =>
    refine control_pass ?_ 1
    exact ⟨hst.ready, hst.running, hst.standing, hst.top⟩
  | skip => exact control_pass hst _
  | enter node => exact control_enter h hl hf node
  | jump => exact ⟨Or.inl rfl, by simp, fun _ => rfl, by simp [hl.ready], by simp [hl.running]⟩
  | read node =>
    refine ⟨h.standing, h.top, h.flat, fun w hw => ?_, by simp [hl.running]⟩
    obtain rfl := Option.some.inj hw
    exact ⟨f, _, hf, node, rfl⟩
  | stop node top =>
    rcases h.focus_cases hf with ⟨step, hnil, hs, rfl⟩ | ⟨_, _, _, _, _, _, _, hnest⟩
    · -- outside blocks, passing the stop moves to the step after it
      simp only [pass, nextItem, record, settle, hnil, List.dropWhile_nil]
      exact ⟨Or.inl rfl, by simp, fun _ => rfl, by simp [hl.ready], fun _ => ⟨rfl, hl.ready, st.pc, step, _, rfl, hs, node⟩⟩
    · rw [top] at hnest
      cases hnest

/-- A state that waits is not halted. -/
theorem Control.running_of_pending {w : Pending} (h : st.Control p) (hw : st.pending = some w) : st.halted = false := by
  cases hh : st.halted with
  | false => rfl
  | true =>
    have hp := (h.stopped hh).2.1
    rw [hw] at hp
    cases hp

/-- The cursor is in place throughout every run. -/
theorem control_kept (p : Program) : Session.Kept p (Control p) where
  initial := ⟨Or.inl rfl, by simp [initial], fun _ => rfl, by simp [initial], by simp [initial]⟩
  exec h hl hf hx := control_exec h hl hf hx
  echo _ h _ := ⟨h.standing, h.top, h.flat, h.waits, h.stopped⟩
  answer _ h hw := by
    refine control_pass ?_ 1
    exact ⟨rfl, h.running_of_pending hw, h.standing, h.top⟩

end State

namespace Session

/-- A step that succeeds, of a session that can step, has executed what the cursor points at. -/
theorem executed_of_step {s t : Session} (h : s.now.Control s.program) (hcan : s.canStep = true) (hstep : s.step = (t, none)) :
    ∃ f st, s.focus? = some f ∧ s.now.exec s.program f = .ok st ∧ t = { s.keep with now := st } := by
  have hlive := s.canStep_iff.1 hcan
  rcases s.step_cases with ⟨_, hnot⟩ | ⟨f, st, _, hf, hx, he⟩ | ⟨_, _, _, _, _, he⟩
  · obtain ⟨f, hf⟩ := h.focus_of_live hlive
    rcases hnot with hnot | hnone
    · exact absurd hlive hnot
    · exact absurd (hf.symm.trans hnone) (Option.some_ne_none f)
  · exact ⟨f, st, hf, hx, (Prod.mk.inj (hstep.symm.trans he)).1⟩
  · cases he.symm.trans hstep

end Session

end Stepwise
