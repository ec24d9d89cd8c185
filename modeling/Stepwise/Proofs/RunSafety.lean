import Stepwise.Proofs.ConditionReading
import Stepwise.Proofs.Control
import Stepwise.Proofs.Gate
import Stepwise.Proofs.LeftToRight

/-!
# Loaded programs cannot go structurally wrong

In a run of a regular program the cursor only reaches lines of the listing, so an action fails only where an expression or a
condition cannot be evaluated. The last step is the only stop, so a program that has not halted stands before its end, and a
program that has halted stands right behind its last step.
-/

namespace Stepwise

/-! ## The cursor reaches only lines of the listing -/

/-- The items of the innermost block are lines of blocks in the listing. -/
theorem Opened.mem_listing {p : Program} {root : List Node} {frames : List Frame} (h : Opened root frames) {step : Step}
    {pc : Nat} {place : Place} {cond : Excerpt} (hs : p.steps[pc]? = some step) (hn : step.node = .branch place cond root) :
    ∀ f ∈ frames.head?, ∀ (j : Nat) (m : Node), f.items[j]? = some m → ∃ i path, path ≠ [] ∧ ⟨i, path, m⟩ ∈ p.listing := by
  induction h with
  | bottom =>
    intro f hf j m hj
    obtain rfl := Option.some.inj hf
    obtain ⟨i, hi⟩ := Program.item_mem_listing (Program.step_mem_listing hs) hn hj
    exact ⟨i, _, by simp, hi⟩
  | inner below cursor branch le ih =>
    intro f hf j m hj
    obtain rfl := Option.some.inj hf
    obtain ⟨i, path, _, hmem⟩ := ih _ rfl _ _ branch
    obtain ⟨i', hi'⟩ := Program.item_mem_listing hmem rfl hj
    exact ⟨i', _, by simp, hi'⟩

namespace State

variable {p : Program} {st st' : State} {f : Focus}

/-- What the cursor points at is a line of the listing, and one of a block exactly when the cursor stands in a block. -/
theorem Control.focus_mem_listing (h : st.Control p) (hf : st.focus? p = some f) :
    ∃ e ∈ p.listing, e.node = f.node ∧ (f.nested = true ↔ e.path ≠ []) := by
  rcases h.focus_cases hf with ⟨step, _, hs, rfl⟩ | ⟨step, g, gs, hg, hs, hi, _, hnested⟩
  · exact ⟨_, Program.step_mem_listing hs, rfl, by simp⟩
  · obtain ⟨step', place, cond, root, hs', hn, ho⟩ := h.standing.opened hg
    obtain ⟨i, path, hpath, hmem⟩ := ho.mem_listing hs' hn g rfl _ _ hi
    exact ⟨_, hmem, rfl, by simp [hnested, hpath]⟩

/-! ## How an action fails -/

/-- How executing the thing under the cursor fails, one case for each reason. -/
inductive Fails (p : Program) (st : State) (f : Focus) : Located → Prop where
  | value {place : Place} {a : Action} {e : Excerpt} {l : Located} (node : f.node = .act place a)
      (uses : a = .print e ∨ ∃ name, a = .assign name e) (fails : st.valueOf e = .error l) : Fails p st f l
  | test {place : Place} {cond : Excerpt} {block : List Node} {l : Located} (node : f.node = .branch place cond block)
      (fails : st.test cond = .error l) : Fails p st f l
  | malformed {place : Place} {raw : String} (node : f.node = .act place (.jump none raw)) :
      Fails p st f ⟨place.span, .invalidJump raw⟩
  | missing {place : Place} {n : Nat} {raw : String} (node : f.node = .act place (.jump (some n) raw))
      (target : p.indexOf? n = none) : Fails p st f ⟨place.span, .invalidTarget n⟩
  | refused {place : Place} {a : Action} (node : f.node = .act place a)
      (kind : a = .start ∨ a = .stop ∨ ∃ text, a = .unknown text) (inside : f.nested = true) :
      Fails p st f ⟨place.span, .unsupportedInBlock (Text.stripped place.source)⟩
  | unknown {place : Place} {text : String} (node : f.node = .act place (.unknown text)) (top : f.nested = false) :
      Fails p st f ⟨place.span, .unknownCommand (Text.stripped place.source)⟩

/-- A failed execution is one of these cases. -/
theorem fails_of_exec {l : Located} (h : st.exec p f = .error l) : Fails p st f l := by
  unfold exec at h
  split at h
  · rename_i place a hn
    cases a with
    | print e =>
      simp only [execAction] at h
      split at h
      · rename_i l' hv
        exact Except.error.inj h ▸ .value hn (Or.inl rfl) hv
      · cases h
    | assign name e =>
      simp only [execAction] at h
      split at h
      · rename_i l' hv
        exact Except.error.inj h ▸ .value hn (Or.inr ⟨name, rfl⟩) hv
      · cases h
    | read name => cases h
    | jump target raw =>
      cases target with
      | none => exact Except.error.inj h ▸ .malformed hn
      | some n =>
        simp only [execAction, State.jump] at h
        split at h
        · rename_i hi
          exact Except.error.inj h ▸ .missing hn hi
        · cases h
    | start =>
      simp only [execAction] at h
      split at h
      · rename_i hin
        exact Except.error.inj h ▸ .refused hn (Or.inl rfl) hin
      · cases h
    | stop =>
      simp only [execAction] at h
      split at h
      · rename_i hin
        exact Except.error.inj h ▸ .refused hn (Or.inr (Or.inl rfl)) hin
      · cases h
    | unknown text =>
      simp only [execAction] at h
      split at h
      · rename_i hin
        exact Except.error.inj h ▸ .refused hn (Or.inr (Or.inr ⟨text, rfl⟩)) hin
      · rename_i htop
        exact Except.error.inj h ▸ .unknown hn (Bool.eq_false_iff.2 htop)
  · rename_i place cond block hn
    split at h
    · rename_i l' ht
      exact Except.error.inj h ▸ .test hn ht
    · cases h
    · cases h

/-- An expression or a condition under the cursor cannot be evaluated, for the given reason. -/
def Unevaluable (st : State) (n : Node) (fault : EvalFault) : Prop :=
  (∃ place e err, (n = .act place (.print e) ∨ ∃ name, n = .act place (.assign name e)) ∧
    evaluate e.text st.vars = .error err ∧ err.fault = fault) ∨
  (∃ place cond block err, n = .branch place cond block ∧ evaluateCondition cond.text st.vars = .error err ∧ err.fault = fault)

/-- A value is missing only because the expression cannot be evaluated. -/
theorem valueOf_eq_error {e : Excerpt} {l : Located} (h : st.valueOf e = .error l) :
    ∃ err, evaluate e.text st.vars = .error err ∧ l.fault = .evaluation err.fault := by
  unfold valueOf at h
  split at h
  · cases h
  · rename_i err herr
    obtain rfl := Except.error.inj h
    exact ⟨err, herr, rfl⟩

/-- A condition is undecided only because it cannot be evaluated. -/
theorem test_eq_error {e : Excerpt} {l : Located} (h : st.test e = .error l) :
    ∃ err, evaluateCondition e.text st.vars = .error err ∧ l.fault = .evaluation err.fault := by
  unfold test at h
  split at h
  · cases h
  · rename_i err herr
    obtain rfl := Except.error.inj h
    exact ⟨err, herr, rfl⟩

/-- In a regular program an execution fails only in an evaluation. Every other reason needs a line that is not in the listing: a
start, a stop or an unknown command in a block, an unknown step, or a jump to nowhere. -/
theorem exec_eq_error (hp : p.Regular) (h : st.Control p) (hf : st.focus? p = some f) {l : Located}
    (hx : st.exec p f = .error l) : ∃ fault, l.fault = .evaluation fault ∧ st.Unevaluable f.node fault := by
  obtain ⟨e, he, hnode, hnested⟩ := h.focus_mem_listing hf
  cases fails_of_exec hx with
  | value node uses fails =>
    obtain ⟨err, herr, hfault⟩ := valueOf_eq_error fails
    rcases uses with rfl | ⟨name, rfl⟩
    · exact ⟨err.fault, hfault, Or.inl ⟨_, _, err, Or.inl node, herr, rfl⟩⟩
    · exact ⟨err.fault, hfault, Or.inl ⟨_, _, err, Or.inr ⟨name, node⟩, herr, rfl⟩⟩
  | test node fails =>
    obtain ⟨err, herr, hfault⟩ := test_eq_error fails
    exact ⟨err.fault, hfault, Or.inr ⟨_, _, _, err, node, herr, rfl⟩⟩
  | malformed node =>
    obtain ⟨n, hn, _⟩ := hp.target e he _ _ _ (hnode.trans node)
    cases hn
  | missing node target =>
    obtain ⟨n, hn, hpos, hle⟩ := hp.target e he _ _ _ (hnode.trans node)
    obtain rfl := Option.some.inj hn
    rw [hp.indexOf _ hpos hle] at target
    cases target
  | refused node kind inside =>
    rcases kind with rfl | rfl | ⟨text, rfl⟩
    · exact absurd ((hp.start e he).1 ⟨_, hnode.trans node⟩).2 (hnested.1 inside)
    · exact absurd ((hp.stop e he).1 ⟨_, hnode.trans node⟩).2 (hnested.1 inside)
    · exact absurd (hnode.trans node) (hp.known e he _ text)
  | unknown node => exact absurd (hnode.trans node) (hp.known e he _ _)

/-! ## A run ends at the stop -/

/-- Settling moves past at most one step. -/
theorem pc_settle_le (st : State) : st.settle.pc ≤ st.pc + 1 := by
  unfold settle
  split
  · exact Nat.le_refl _
  · exact Nat.le_succ _

/-- Settling does not halt. -/
theorem halted_settle (st : State) : st.settle.halted = st.halted := by
  unfold settle
  split <;> rfl

/-- Moving to the next item changes only the frames. -/
theorem nextItem_eq (st : State) : st.nextItem = { st with frames := st.nextItem.frames } := by
  unfold nextItem
  split <;> rfl

/-- Where a program stands: inside it until it has halted, and then right behind the last step, whose row is the last one. -/
structure Bounded (p : Program) (st : State) : Prop where
  inside : st.halted = false → st.pc < p.steps.length
  ended : st.halted = true → st.pc = p.steps.length ∧
    ∃ rows, st.rows = ⟨stepLabel p.steps.length, "", Env.empty⟩ :: rows

/-- A state that has not halted and moved past at most one step, which was not the last, is still inside. -/
theorem Bounded.of_running {pc : Nat} (hh : st.halted = false) (hpc : st.pc ≤ pc + 1) (hlt : pc + 1 < p.steps.length) :
    st.Bounded p :=
  ⟨fun _ => by omega, fun hhalted => absurd (hh.symm.trans hhalted) Bool.false_ne_true⟩

/-- Passing an item of a step that is not the last stays inside. -/
theorem bounded_pass (hh : st.halted = false) (hlt : st.pc + 1 < p.steps.length) (labels : Nat) :
    (st.pass labels).Bounded p := by
  unfold pass
  rw [nextItem_eq]
  refine Bounded.of_running ?_ (pc_settle_le _) hlt
  rw [halted_settle]
  exact hh

/-- Entering a block of a step that is not the last stays inside. -/
theorem bounded_enter (hh : st.halted = false) (hlt : st.pc + 1 < p.steps.length) (block : List Node) :
    (st.enter block).Bounded p := by
  unfold enter
  rw [nextItem_eq]
  refine Bounded.of_running ?_ (pc_settle_le _) hlt
  rw [halted_settle]
  exact hh

/-- While the cursor is not on a stop, the current step is not the last one: inside a block it is a branch. -/
theorem Control.next_lt (hp : p.Regular) (h : st.Control p) (hf : st.focus? p = some f)
    (hn : ∀ place, f.node ≠ .act place .stop) : st.pc + 1 < p.steps.length := by
  have hstep : ∃ step, p.steps[st.pc]? = some step ∧ ∀ place, step.node ≠ .act place .stop := by
    rcases h.focus_cases hf with ⟨step, _, hs, rfl⟩ | ⟨_, g, gs, hg, _⟩
    · exact ⟨step, hs, hn⟩
    · obtain ⟨step, _, _, _, hs, hbranch, _⟩ := h.standing.opened hg
      exact ⟨step, hs, by simp [hbranch]⟩
  obtain ⟨step, hs, hnode⟩ := hstep
  obtain ⟨hlt, _⟩ := List.getElem?_eq_some_iff.1 hs
  have hlast : st.pc + 1 ≠ p.steps.length := by
    intro hlast
    obtain ⟨place, hstop⟩ := (hp.stop _ (Program.step_mem_listing hs)).2 ⟨hlast, rfl⟩
    exact hnode place hstop
  omega

/-- An executed action stays inside the program, unless it is the stop, which ends it. -/
theorem bounded_exec (hp : p.Regular) (h : st.Control p) (hb : st.Bounded p) (hl : st.Live p) (hf : st.focus? p = some f)
    (hx : st.exec p f = .ok st') : st'.Bounded p := by
  have hnext := h.next_lt hp hf
  cases executes_of_exec hx with
  | print node =>
    refine bounded_pass ?_ ?_ 1
    · exact hl.running
    · exact hnext (by simp [node])
  | assign node =>
    refine bounded_pass ?_ ?_ 1
    · exact hl.running
    · exact hnext (by simp [node])
  | start node =>
    refine bounded_pass ?_ ?_ 1
    · exact hl.running
    · exact hnext (by simp [node])
  | skip node => exact bounded_pass hl.running (hnext (by simp [node])) _
  | enter node => exact bounded_enter hl.running (hnext (by simp [node])) _
  | read => exact ⟨hb.inside, hb.ended⟩
  | jump node target =>
    obtain ⟨hi, _⟩ := List.findIdx?_eq_some_iff_getElem.1 target
    exact ⟨fun _ => hi, fun hhalted => absurd (hl.running.symm.trans hhalted) Bool.false_ne_true⟩
  | stop node top =>
    rcases h.focus_cases hf with ⟨step, hnil, hs, rfl⟩ | ⟨_, _, _, _, _, _, _, hnest⟩
    · obtain ⟨hlast, _⟩ := (hp.stop _ (Program.step_mem_listing hs)).1 ⟨_, node⟩
      have hnumber : step.number = p.steps.length := (hp.number _ _ hs).trans hlast
      simp only [pass, nextItem, record, settle, hnil, List.dropWhile_nil]
      exact ⟨by simp, fun _ => ⟨hlast, st.rows, by rw [hnumber]⟩⟩
    · rw [top] at hnest
      cases hnest

/-- Throughout every run of a regular program the cursor is in place and the program inside its bounds. -/
theorem bounded_kept (hp : p.Regular) : Session.Kept p fun st => st.Control p ∧ st.Bounded p where
  initial := by
    have htwo := hp.two_le
    refine ⟨(control_kept p).initial, fun _ => ?_, by simp [initial]⟩
    show 0 < p.steps.length
    omega
  exec h hl hf hx := ⟨control_exec h.1 hl hf hx, bounded_exec hp h.1 h.2 hl hf hx⟩
  echo raw h hw := ⟨(control_kept p).echo raw h.1 hw, h.2.inside, h.2.ended⟩
  answer n h hw := by
    refine ⟨(control_kept p).answer n h.1 hw, ?_⟩
    obtain ⟨f, place, hf, node, _⟩ := h.1.waits _ hw
    have hlt := h.1.next_lt hp hf (by simp [node])
    refine bounded_pass ?_ ?_ 1
    · exact h.1.running_of_pending hw
    · exact hlt

end State

namespace Session

/-- A text that loads is read, into a regular program. -/
theorem parse_of_load {text : String} {s : Session} (h : load text = .ok s) :
    ∃ p, s = ofProgram p ∧ Program.parse text = .ok p ∧ p.Regular := by
  unfold load at h
  split at h
  · cases h
  · rename_i hnone
    obtain ⟨ss, hss⟩ := Check.accepted_of_problem?_eq_none hnone
    obtain ⟨p, hp, hregular, _⟩ := Check.parse_of_accepted hss
    rw [hp] at h
    exact ⟨p, (Except.ok.inj h).symm, hp, hregular⟩

/-- A session that was loaded is that of a regular program. -/
theorem regular_of_load {text : String} {s : Session} (h : load text = .ok s) : ∃ p, s = ofProgram p ∧ p.Regular := by
  obtain ⟨p, hs, _, hp⟩ := parse_of_load h
  exact ⟨p, hs, hp⟩

/-! ## A program with a detour -/

/-- A text that jumps out of a block when the number it reads is above 1, and else prints a variable that has no value. -/
def detourText : String :=
  "step-1: start\nstep-2: read A\nstep-3: if (A > 1):\n          goto step-5\nstep-4: print B\nstep-5: stop\n"

/-- The block of the text. -/
def detourBlock : List Node := [.act ⟨4, 11, "          goto step-5"⟩ (.jump (some 5) "goto step-5")]

/-- The branch of the text. -/
def detourBranch : Node := .branch ⟨3, 9, "step-3: if (A > 1):"⟩ ⟨"(A > 1)", 3, 12⟩ detourBlock

/-- The step of the text that fails. -/
def detourPrint : Node := .act ⟨5, 9, "step-4: print B"⟩ (.print ⟨"B", 5, 15⟩)

/-- The program of the text. -/
def detourProgram : Program :=
  ⟨[⟨1, .act ⟨1, 9, "step-1: start"⟩ .start⟩, ⟨2, .act ⟨2, 9, "step-2: read A"⟩ (.read "A")⟩, ⟨3, detourBranch⟩, ⟨4, detourPrint⟩,
    ⟨5, .act ⟨6, 9, "step-5: stop"⟩ .stop⟩], detourText⟩

/-- The text loads. -/
theorem load_detourText : load detourText = .ok (ofProgram detourProgram) := by
  have hlines : sourceLines detourText = [⟨1, "step-1: start".toList⟩, ⟨2, "step-2: read A".toList⟩, ⟨3, "step-3: if (A > 1):".toList⟩,
      ⟨4, "          goto step-5".toList⟩, ⟨5, "step-4: print B".toList⟩, ⟨6, "step-5: stop".toList⟩, ⟨7, []⟩] := by decide +kernel
  have hend : Program.readSteps [⟨7, []⟩] = .ok [] := by rw [Program.readSteps_cons_empty _ rfl, Program.readSteps]
  have hblock : Program.blockItems [⟨4, "          goto step-5".toList⟩] = detourBlock := by
    rw [Program.blockItems_cons_act _ rfl, Program.blockItems]
    rfl
  have hbranch : Program.stepNode ⟨3, "step-3: if (A > 1):".toList⟩ ⟨['3'], 9, "if (A > 1):".toList⟩
      [⟨4, "          goto step-5".toList⟩, ⟨5, "step-4: print B".toList⟩, ⟨6, "step-5: stop".toList⟩, ⟨7, []⟩] = detourBranch := by
    rw [detourBranch, ← hblock]
    rfl
  have hsteps : Program.readSteps (sourceLines detourText) = .ok detourProgram.steps := by
    rw [hlines, detourProgram, ← hbranch]
    exact Program.readSteps_cons_step (h := ⟨['1'], 9, "start".toList⟩) (by decide) rfl rfl rfl <|
      Program.readSteps_cons_step (h := ⟨['2'], 9, "read A".toList⟩) (by decide) rfl rfl rfl <|
      Program.readSteps_cons_step (h := ⟨['3'], 9, "if (A > 1):".toList⟩) (by decide) rfl rfl rfl <|
      Program.readSteps_cons_step (h := ⟨['4'], 9, "print B".toList⟩) (by decide) rfl rfl rfl <|
      Program.readSteps_cons_step (h := ⟨['5'], 9, "stop".toList⟩) (by decide) rfl rfl rfl hend
  have hnone : Check.problem? detourText = none := by decide +kernel
  rw [load, hnone, Program.parse, hsteps]
  rfl

/-- The condition of the text. -/
theorem parse_detourCondition : Condition.parse "(A > 1)" = .ok ⟨4, .gt, .name 2 "A", .number 6 "1"⟩ := by
  have hspells : Condition.Spells ⟨4, .gt, .name 2 "A", .number 6 "1"⟩
      ⟨[⟨.name "A", ⟨1, 2⟩⟩], .gt, ⟨1, 4⟩, [⟨.number "1", ⟨1, 6⟩⟩]⟩ := by
    refine ⟨rfl, rfl, .single ?_, .single ?_⟩
    · exact .name (t := ⟨.name "A", ⟨1, 2⟩⟩) rfl
    · exact .number (t := ⟨.number "1", ⟨1, 6⟩⟩) rfl
  have hforms := Condition.Forms.wrapped (o := ⟨.opening, ⟨1, 1⟩⟩) (c := ⟨.closing, ⟨1, 7⟩⟩)
    ⟨hspells.left.derives, hspells.right.derives⟩ rfl rfl
  have htokens : (Token.lex "(A > 1)").1 = [⟨.opening, ⟨1, 1⟩⟩, ⟨.name "A", ⟨1, 2⟩⟩, ⟨.compare .gt, ⟨1, 4⟩⟩, ⟨.number "1", ⟨1, 6⟩⟩,
      ⟨.closing, ⟨1, 7⟩⟩] := by decide +kernel
  exact Condition.parse_of_forms (htokens ▸ hforms) hspells

/-- The session of the program that has asked for the number and has been given texts. -/
def detourGiven (raws : List String) : Session := (ofProgram detourProgram).run (.step :: .step :: raws.map .supply)

/-- The condition compares the number with 1. -/
theorem test_detour {st : State} {n : Int64} (h : st.vars.get? "A" = some (.int n)) :
    st.test ⟨"(A > 1)", 3, 12⟩ = .ok (decide (1 < n)) := by
  rw [State.test, evaluateCondition, parse_detourCondition]
  simp only [Condition.eval, Expr.eval, h]
  rfl

/-- Above 1 the block is entered. -/
theorem step_detour_enters : (detourGiven ["3"]).step =
    ({ (detourGiven ["3"]).keep with now := (detourGiven ["3"]).now.enter detourBlock }, none) := by
  refine step_of_exec_ok (f := ⟨"3", detourBranch, false⟩) rfl rfl ?_
  have htest : (detourGiven ["3"]).now.test ⟨"(A > 1)", 3, 12⟩ = .ok true := test_detour (n := 3) rfl
  simp only [State.exec, detourBranch, htest]

/-- Else it is passed. -/
theorem step_detour_passes : (detourGiven ["x", "0"]).step =
    ({ (detourGiven ["x", "0"]).keep with now := (detourGiven ["x", "0"]).now.pass 1 }, none) := by
  refine step_of_exec_ok (f := ⟨"3", detourBranch, false⟩) rfl rfl ?_
  have htest : (detourGiven ["x", "0"]).now.test ⟨"(A > 1)", 3, 12⟩ = .ok false := test_detour (n := 0) rfl
  simp only [State.exec, detourBranch, htest]
  rfl

/-- So the step behind the block is next. -/
theorem run_detour_passes : (detourGiven ["x", "0"]).run [.step] =
    { (detourGiven ["x", "0"]).keep with now := (detourGiven ["x", "0"]).now.pass 1 } := by
  rw [run_cons, apply, step_detour_passes]
  rfl

/-- The jump leads to the end of the program. -/
theorem halted_detour : ((detourGiven ["3"]).run [.step, .step, .step]).now.halted = true := by
  rw [run_cons, apply, step_detour_enters]
  rfl

/-- Behind the block the program fails. -/
theorem step_detour_fails : ((detourGiven ["x", "0"]).run [.step]).step = ((detourGiven ["x", "0"]).run [.step],
    some ⟨"4", ⟨5, 15⟩, .evaluation (.unknownVariable "B"), "step-4: print B"⟩) := by
  rw [run_detour_passes]
  refine step_of_exec_error (f := ⟨"4", detourPrint, false⟩) (e := ⟨⟨5, 15⟩, .evaluation (.unknownVariable "B")⟩) rfl rfl ?_
  have hvalue : evaluate "B" ((detourGiven ["x", "0"]).now.pass 1).vars = .error ⟨1, .unknownVariable "B"⟩ :=
    Evaluation.evaluate_unbound (p := ⟨1, 1⟩) (by decide +kernel) rfl
  simp only [State.exec, detourPrint, State.execAction, State.valueOf, hvalue]
  rfl

/-! ## Sound sessions -/

/-- A session that cannot go structurally wrong. -/
structure Sound (s : Session) : Prop where
  /-- A step fails only because the expression or the condition under the cursor cannot be evaluated. -/
  failure : ∀ t f, s.step = (t, some f) →
    ∃ focus fault, s.focus? = some focus ∧ f.fault = .evaluation fault ∧ s.now.Unevaluable focus.node fault
  /-- The session is at its end exactly when its program has stopped. -/
  status : s.status = .halted ↔ s.now.halted = true
  /-- A program that has stopped stands right behind its last step, in no block, and the last row of its trace is that of the
  last step, which is a stop. -/
  ended : s.now.halted = true → s.now.pc = s.program.steps.length ∧ s.now.frames = [] ∧
    ∃ step place, s.program.steps[s.program.steps.length - 1]? = some step ∧ step.node = .act place .stop ∧
      step.number = s.program.steps.length ∧ s.now.trace.getLast? = some ⟨stepLabel step.number, "", Env.empty⟩

/-- A session of a regular program whose cursor is in place and inside its bounds is sound. -/
theorem sound_of_bounded {s : Session} (hp : s.program.Regular) (h : s.now.Control s.program)
    (hb : s.now.Bounded s.program) : s.Sound where
  failure := by
    intro t f hstep
    obtain ⟨focus, e, _, hfocus, hx, _, rfl⟩ := failed_of_step hstep
    obtain ⟨fault, hfault, hnode⟩ := State.exec_eq_error hp h hfocus hx
    exact ⟨focus, fault, hfocus, hfault, hnode⟩
  status := by
    cases hh : s.now.halted with
    | true => simp [Session.status, atEnd, hh, (h.stopped hh).2.1]
    | false =>
      have hpc := hb.inside hh
      simp only [Session.status, atEnd, hh, Bool.false_or, Nat.not_le.2 hpc, decide_false, Bool.and_false]
      split
      · simp
      · cases s.history.isEmpty <;> simp
  ended := by
    intro hh
    obtain ⟨hframes, _, k, step, place, hk, hs, hstop⟩ := h.stopped hh
    obtain ⟨hpc, rows, hrows⟩ := hb.ended hh
    have hlast : k = s.program.steps.length - 1 := by omega
    have hnumber : step.number = s.program.steps.length := (hp.number k step hs).trans (hk.symm.trans hpc)
    refine ⟨hpc, hframes, step, place, hlast ▸ hs, hstop, hnumber, ?_⟩
    rw [State.trace, hrows, List.getLast?_reverse, List.head?_cons, hnumber]

/-- Every session that a run reaches from a loaded text is sound. -/
theorem sound_of_load {text : String} {s : Session} (h : load text = .ok s) (calls : List Call) : (s.run calls).Sound := by
  obtain ⟨p, rfl, hp⟩ := regular_of_load h
  obtain ⟨⟨hcontrol, hbounded⟩, _⟩ := Throughout.run (State.bounded_kept hp) calls
  have hprogram : ((ofProgram p).run calls).program = p := program_run (ofProgram p) calls
  refine sound_of_bounded ?_ ?_ ?_
  · rwa [hprogram]
  · rwa [hprogram]
  · rwa [hprogram]

/-- The program with the detour is sound where it halts behind the jump, and where it has refused a text and fails. -/
theorem sound_of_load_detour : load detourText = .ok (ofProgram detourProgram) ∧
    ((ofProgram detourProgram).run [.step, .step, .supply "3", .step, .step, .step]).now.halted = true ∧
    ((ofProgram detourProgram).run [.step, .step, .supply "3", .step, .step, .step]).Sound ∧
    (∃ f, ((ofProgram detourProgram).run [.step, .step, .supply "x", .supply "0", .step]).step.2 = some f) ∧
    ((ofProgram detourProgram).run [.step, .step, .supply "x", .supply "0", .step]).Sound := by
  refine ⟨load_detourText, halted_detour, ?_, ⟨_, congrArg Prod.snd step_detour_fails⟩, ?_⟩
  · exact sound_of_load load_detourText _
  · exact sound_of_load load_detourText _

end Session

end Stepwise
