import Stepwise.Proofs.Run

/-!
# The console is only added to

No action looks at the console: it adds a text to whatever stands there, and does the same on any other console. So two sessions
that differ only in what their consoles show, now or in the states before, are stepped and supplied alike, and both consoles gain
the same text. A failed step adds nothing, a refused input adds its line.
-/

namespace Stepwise

namespace State

/-- The state with another text on its console. -/
def onConsole (st : State) (text : String) : State := { st with console := text }

@[simp]
theorem onConsole_onConsole (st : State) (a b : String) : (st.onConsole a).onConsole b = st.onConsole b := rfl

/-- Settling does not look at the console. -/
theorem settle_onConsole (st : State) (text : String) : (st.onConsole text).settle = st.settle.onConsole text := by
  unfold settle onConsole
  dsimp only
  split <;> rfl

/-- Moving to the next item does not look at the console. -/
theorem nextItem_onConsole (st : State) (text : String) : (st.onConsole text).nextItem = st.nextItem.onConsole text := by
  unfold nextItem onConsole
  dsimp only
  split <;> rfl

/-- Passing does not look at the console. -/
theorem pass_onConsole (st : State) (text : String) (labels : Nat) :
    (st.onConsole text).pass labels = (st.pass labels).onConsole text := by
  unfold pass
  rw [nextItem_onConsole]
  exact settle_onConsole { st.nextItem with sub := st.sub + labels } text

/-- Entering a block does not look at the console. -/
theorem enter_onConsole (st : State) (text : String) (block : List Node) :
    (st.onConsole text).enter block = (st.enter block).onConsole text := by
  unfold enter
  rw [nextItem_onConsole]
  exact settle_onConsole { st.nextItem with frames := ⟨block, 0⟩ :: st.nextItem.frames } text

/-- What executing does on every console: it fails in one way, or it gives one state with one text added to the console. -/
inductive Blind (p : Program) (st : State) (f : Focus) : Prop where
  | fails (e : Located) (all : ∀ text, (st.onConsole text).exec p f = .error e)
  | adds (st' : State) (added : String) (all : ∀ text, (st.onConsole text).exec p f = .ok (st'.onConsole (text ++ added)))

/-- An action that leaves the console alone and passes or enters adds nothing. -/
theorem Blind.quiet {p : Program} {st : State} {f : Focus} (st' : State)
    (h : ∀ text, (st.onConsole text).exec p f = .ok (st'.onConsole text)) : Blind p st f :=
  .adds st' "" fun text => by rw [h text, String.append_empty]

/-- Executing does not look at the console. -/
theorem blind_exec (p : Program) (st : State) (f : Focus) : Blind p st f := by
  obtain ⟨label, node, nested⟩ := f
  cases node with
  | branch place cond block =>
    have htest : ∀ text, (st.onConsole text).test cond = st.test cond := fun _ => rfl
    cases ht : st.test cond with
    | error e => exact .fails e fun text => by simp [exec, htest, ht]
    | ok holds =>
      cases holds with
      | true => exact .quiet (st.enter block) fun text => by simp [exec, htest, ht, enter_onConsole]
      | false => exact .quiet (st.pass block.length) fun text => by simp [exec, htest, ht, pass_onConsole]
  | act place a =>
    have hvalue : ∀ e text, (st.onConsole text).valueOf e = st.valueOf e := fun _ _ => rfl
    cases a with
    | print e =>
      cases hv : st.valueOf e with
      | error l => exact .fails l fun text => by simp [exec, execAction, hvalue, hv]
      | ok v =>
        refine .adds ((st.record label v.text Env.empty).pass 1) v.text fun text => ?_
        simp only [exec, execAction, hvalue, hv]
        exact congrArg Except.ok (pass_onConsole (st.record label v.text Env.empty) (text ++ v.text) 1)
    | assign name e =>
      cases hv : st.valueOf e with
      | error l => exact .fails l fun text => by simp [exec, execAction, hvalue, hv]
      | ok v =>
        refine .quiet (({ st with vars := st.vars.insert name v }.record label "" (Env.single name v)).pass 1)
          fun text => ?_
        simp only [exec, execAction, hvalue, hv]
        exact congrArg Except.ok
          (pass_onConsole (record { st with vars := st.vars.insert name v } label "" (Env.single name v)) text 1)
    | read name => exact .quiet { st with pending := some ⟨name, label⟩ } fun _ => rfl
    | jump target raw =>
      cases target with
      | none => exact .fails _ fun _ => rfl
      | some n =>
        cases hi : p.indexOf? n with
        | none => exact .fails ⟨place.span, .invalidTarget n⟩ fun text => by simp [exec, execAction, State.jump, hi]
        | some i =>
          refine .quiet { st with frames := [], sub := 0, pc := i } fun text => ?_
          simp [exec, execAction, State.jump, hi, onConsole]
    | start =>
      cases nested with
      | true => exact .fails _ fun _ => rfl
      | false =>
        refine .quiet ((st.record label "" Env.empty).pass 1) fun text => ?_
        exact congrArg Except.ok (pass_onConsole (st.record label "" Env.empty) text 1)
    | stop =>
      cases nested with
      | true => exact .fails _ fun _ => rfl
      | false =>
        refine .quiet { (st.record label "" Env.empty).pass 1 with halted := true } fun text => ?_
        have hpass := pass_onConsole (st.record label "" Env.empty) text 1
        exact congrArg (fun st : State => Except.ok { st with halted := true }) hpass
    | unknown raw =>
      cases nested with
      | true => exact .fails _ fun _ => rfl
      | false => exact .fails _ fun _ => rfl

/-- Answering a read does not look at the console. -/
theorem answer_onConsole (st : State) (text : String) (w : Pending) (n : Int64) :
    (st.onConsole text).answer w n = (st.answer w n).onConsole text :=
  pass_onConsole (record { st with vars := st.vars.insert w.name (.int n), pending := none } w.label ""
    (Env.single w.name (.int n))) text 1

end State

namespace Session

/-- The session with nothing on its console, now and in the states before. -/
def muted (s : Session) : Session :=
  { s with now := s.now.onConsole "", history := s.history.map fun st => st.onConsole "" }

/-- Two sessions that are the same but for their consoles. -/
def Alike (s t : Session) : Prop := t.muted = s.muted

variable {s t : Session}

/-- Sessions with the same program whose present and earlier states are the same but for their consoles are alike. -/
theorem Alike.intro (hprogram : t.program = s.program) (hnow : t.now.onConsole "" = s.now.onConsole "")
    (hhistory : t.history.map (fun st => st.onConsole "") = s.history.map fun st => st.onConsole "") : s.Alike t := by
  simp only [Alike, muted, hprogram, hnow, hhistory]

/-- What does not look at the consoles is the same in alike sessions. -/
theorem Alike.congr {α : Type} (h : s.Alike t) (view : Session → α) (hview : ∀ u, view u.muted = view u) : view t = view s := by
  rw [← hview t, ← hview s, h]

/-- Alike sessions have the same program. -/
theorem Alike.program_eq (h : s.Alike t) : t.program = s.program := h.congr program fun _ => rfl

/-- The states of alike sessions differ only in the console. -/
theorem Alike.now_eq (h : s.Alike t) : t.now = s.now.onConsole t.now.console :=
  h.congr (fun u => u.now.onConsole t.now.console) fun _ => rfl

/-- The earlier states of alike sessions differ only in their consoles. -/
theorem Alike.history_eq (h : s.Alike t) :
    t.history.map (fun st => st.onConsole "") = s.history.map fun st => st.onConsole "" :=
  congrArg Session.history h

/-- A step that fails leaves the session as it was. -/
theorem step_eq_of_failure {f : Failure} (h : s.step.2 = some f) : s.step = (s, some f) := by
  obtain ⟨_, _, _, _, _, hsame, _⟩ := failed_of_step (Prod.ext rfl h : s.step = (s.step.1, some f))
  exact Prod.ext hsame h

/-- Alike sessions are stepped alike: both or neither fails, in the same way, and both consoles gain the same text. -/
theorem Alike.step (h : s.Alike t) : s.step.1.Alike t.step.1 ∧ t.step.2 = s.step.2 ∧
    ∃ added, s.step.1.now.console = s.now.console ++ added ∧ t.step.1.now.console = t.now.console ++ added := by
  have hcan : t.canStep = s.canStep := h.congr canStep fun _ => rfl
  have hfocus : t.focus? = s.focus? := h.congr focus? fun _ => rfl
  by_cases hc : s.canStep = true ∧ s.focus? ≠ none
  · obtain ⟨hc, hsome⟩ := hc
    obtain ⟨f, hf⟩ := Option.ne_none_iff_exists'.1 hsome
    rw [hc] at hcan
    rw [hf] at hfocus
    cases State.blind_exec s.program s.now f with
    | fails e all =>
      have hs := step_of_exec_error hc hf (all s.now.console)
      have ht := step_of_exec_error (s := t) hcan hfocus (by rw [h.program_eq, h.now_eq]; exact all t.now.console)
      rw [hs, ht]
      exact ⟨h, rfl, "", String.append_empty.symm, String.append_empty.symm⟩
    | adds st added all =>
      have hs := step_of_exec_ok hc hf (all s.now.console)
      have ht := step_of_exec_ok (s := t) hcan hfocus (by rw [h.program_eq, h.now_eq]; exact all t.now.console)
      rw [hs, ht]
      refine ⟨Alike.intro h.program_eq rfl ?_, rfl, added, rfl, rfl⟩
      simp only [keep, List.map_cons, h.history_eq]
      rw [h.now_eq, State.onConsole_onConsole]
  · have hnothing : ∀ u : Session, ¬(u.canStep = true ∧ u.focus? ≠ none) → u.step = (u, none) := by
      intro u hu
      rcases u.step_cases with ⟨hstep, _⟩ | ⟨f, _, hl, hf, _⟩ | ⟨f, _, hl, hf, _⟩
      · exact hstep
      · exact absurd ⟨u.canStep_iff.2 hl, by simp [hf]⟩ hu
      · exact absurd ⟨u.canStep_iff.2 hl, by simp [hf]⟩ hu
    rw [hnothing s hc, hnothing t (by rwa [hcan, hfocus])]
    exact ⟨h, rfl, "", String.append_empty.symm, String.append_empty.symm⟩

/-- Alike sessions are supplied alike. -/
theorem Alike.supply (h : s.Alike t) (raw : String) :
    (s.supply raw).1.Alike (t.supply raw).1 ∧ (t.supply raw).2 = (s.supply raw).2 := by
  have hpending : t.now.pending = s.now.pending := h.congr (fun u => u.now.pending) fun _ => rfl
  have hanswer : ∀ (u : Session) w n, ((u.now.echo raw).answer w n).onConsole "" = ((u.now.onConsole "").answer w n) :=
    fun u w n => (State.answer_onConsole (u.now.echo raw) "" w n).symm
  rcases s.supply_cases raw with ⟨hw, hs⟩ | ⟨w, hw, hn, hs⟩ | ⟨w, n, hw, hn, hs⟩
  · have ht : t.supply raw = (t, some .notWaiting) := by simp [Session.supply, hpending, hw]
    rw [hs, ht]
    exact ⟨h, rfl⟩
  · have ht : t.supply raw = ({ t with now := t.now.echo raw }, some (.notInteger raw w.name)) := by
      simp [Session.supply, hpending, hw, hn]
    rw [hs, ht]
    exact ⟨Alike.intro h.program_eq (congrArg (fun u : Session => u.now) h) h.history_eq, rfl⟩
  · have ht : t.supply raw = ({ t with now := (t.now.echo raw).answer w n }, none) := by
      simp [Session.supply, hpending, hw, hn]
    rw [hs, ht]
    refine ⟨Alike.intro h.program_eq ?_ h.history_eq, rfl⟩
    rw [hanswer, hanswer]
    exact congrArg (fun u : Session => u.now.answer w n) h

/-- A step adds to the console. -/
theorem console_step (s : Session) : ∃ added, s.step.1.now.console = s.now.console ++ added := by
  obtain ⟨_, _, added, hadded, _⟩ := Alike.step (rfl : s.Alike s)
  exact ⟨added, hadded⟩

/-- A text that is waited for is added to the console as a line, whether it is taken or refused. -/
theorem console_supply {w : Pending} (h : s.now.pending = some w) (raw : String) :
    (s.supply raw).1.now.console = s.now.console ++ (raw ++ "\n") := by
  rcases s.supply_cases raw with ⟨hw, _⟩ | ⟨w, _, _, hs⟩ | ⟨w, n, _, _, hs⟩
  · rw [h] at hw
    cases hw
  · rw [hs, ← String.append_assoc]
    rfl
  · have hanswer := State.answer_onConsole s.now (s.now.console ++ raw ++ "\n") w n
    rw [hs, ← String.append_assoc]
    exact congrArg State.console hanswer

/-- A refused input changes nothing but the console. -/
theorem alike_of_refused {raw : String} {f : InputFault} (h : (s.supply raw).2 = some f) : s.Alike (s.supply raw).1 := by
  rcases s.supply_cases raw with ⟨_, hs⟩ | ⟨w, _, _, hs⟩ | ⟨w, n, _, _, hs⟩
  · rw [hs]
    rfl
  · rw [hs]
    rfl
  · rw [hs] at h
    cases h

end Session

end Stepwise
