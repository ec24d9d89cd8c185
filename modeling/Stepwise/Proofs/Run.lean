import Stepwise.Session.Step

/-!
# Runs of a session

A session is driven by three calls: step, undo and supply. A run is a list of calls. Here is, once for all later modules, what
each call can do to a session, and the induction that carries a property of states through every run: it must hold before the
first step and be kept by an executed action, by a refused and by an accepted input. Undo needs no case of its own, because the
states it goes back to have the property already and are never waiting.
-/

namespace Stepwise

/-- A call that drives a session. -/
inductive Call where
  | step
  | undo
  | supply (raw : String)
  deriving DecidableEq, Repr, Inhabited

/-- The program can go on from this state: it waits for nothing and has not ended. -/
structure State.Live (p : Program) (st : State) : Prop where
  ready : st.pending = none
  running : st.halted = false
  inside : st.frames ≠ [] ∨ st.pc < p.steps.length

namespace Session

/-- The session after a call. -/
def apply (s : Session) : Call → Session
  | .step => s.step.1
  | .undo => s.undo
  | .supply raw => (s.supply raw).1

/-- The session after a run. -/
def run (s : Session) (calls : List Call) : Session :=
  calls.foldl apply s

@[simp]
theorem run_cons (s : Session) (c : Call) (cs : List Call) : s.run (c :: cs) = (s.apply c).run cs := rfl

/-! ## What a call does -/

/-- A session can step exactly when its program can go on from its state. -/
theorem canStep_iff (s : Session) : s.canStep = true ↔ s.now.Live s.program := by
  have hparts : s.canStep = true ↔
      s.now.pending = none ∧ s.now.halted = false ∧ (s.now.frames ≠ [] ∨ s.now.pc < s.program.steps.length) := by
    simp only [canStep, atEnd, Bool.and_eq_true, Option.isNone_iff_eq_none, Bool.not_eq_true', Bool.or_eq_false_iff,
      Bool.and_eq_false_iff, List.isEmpty_eq_false_iff, decide_eq_false_iff_not, Nat.not_le]
  rw [hparts]
  exact ⟨fun ⟨h1, h2, h3⟩ => ⟨h1, h2, h3⟩, fun ⟨h1, h2, h3⟩ => ⟨h1, h2, h3⟩⟩

/-- A session that can step waits for nothing and is not at its end. -/
theorem ready_of_canStep {s : Session} (h : s.canStep = true) : s.now.pending = none ∧ s.atEnd = false := by
  simpa [Session.canStep] using h

/-- Undo takes back what was kept when nothing was waited for. -/
theorem undo_keep (s : Session) (h : s.now.pending = none) : s.keep.undo = s := by
  obtain ⟨p, ⟨pc, vars, console, rows, frames, sub, pending, halted⟩, history⟩ := s
  cases h
  rfl

/-- What a step does where what the cursor points at is executed. -/
theorem step_of_exec_ok {s : Session} {f : Focus} {st : State} (hc : s.canStep = true) (hf : s.focus? = some f)
    (hx : s.now.exec s.program f = .ok st) : s.step = ({ s.keep with now := st }, none) := by
  simp only [step, hc, if_true, hf, hx]

/-- What a step does where it cannot be executed. -/
theorem step_of_exec_error {s : Session} {f : Focus} {e : Located} (hc : s.canStep = true) (hf : s.focus? = some f)
    (hx : s.now.exec s.program f = .error e) : s.step = (s, some ⟨f.label, e.span, e.fault, f.node.source⟩) := by
  simp only [step, hc, if_true, hf, hx, s.undo_keep (s.canStep_iff.1 hc).ready]

/-- What a step does: nothing, an action, or a failure that leaves the session as it was. -/
theorem step_cases (s : Session) :
    (s.step = (s, none) ∧ (¬ s.now.Live s.program ∨ s.focus? = none)) ∨
    (∃ f st, s.now.Live s.program ∧ s.focus? = some f ∧ s.now.exec s.program f = .ok st ∧
      s.step = ({ s.keep with now := st }, none)) ∨
    (∃ f e, s.now.Live s.program ∧ s.focus? = some f ∧ s.now.exec s.program f = .error e ∧
      s.step = (s, some ⟨f.label, e.span, e.fault, f.node.source⟩)) := by
  by_cases hl : s.now.Live s.program
  · have hc : s.canStep = true := s.canStep_iff.2 hl
    cases hf : s.focus? with
    | none => exact Or.inl ⟨by simp [step, hc, hf], Or.inr rfl⟩
    | some f =>
      cases he : s.now.exec s.program f with
      | ok st => exact Or.inr (Or.inl ⟨f, st, hl, rfl, he, step_of_exec_ok hc hf he⟩)
      | error e => exact Or.inr (Or.inr ⟨f, e, hl, rfl, he, step_of_exec_error hc hf he⟩)
  · have hc : s.canStep = false := by
      rw [← Bool.not_eq_true, s.canStep_iff]
      exact hl
    exact Or.inl ⟨by simp [step, hc], Or.inl hl⟩

/-- What several steps do: nothing when the session cannot step, else a first one that fails, or a first one that succeeds and then the
others. -/
theorem steps_succ_cases (s : Session) (n : Nat) :
    (s.canStep = false ∧ s.steps (n + 1) = (s, 0, none)) ∨
    (∃ f, s.canStep = true ∧ s.step = (s, some f) ∧ s.steps (n + 1) = (s, 0, some f)) ∨
    (∃ t u k fault, s.canStep = true ∧ s.step = (t, none) ∧ t.steps n = (u, k, fault) ∧
      s.steps (n + 1) = (u, k + 1, fault)) := by
  cases hcan : s.canStep with
  | false => exact Or.inl ⟨rfl, by simp [steps, hcan]⟩
  | true =>
    rcases s.step_cases with ⟨he, _⟩ | ⟨f, st, _, _, _, he⟩ | ⟨f, e, _, _, _, he⟩
    · exact Or.inr (Or.inr ⟨_, _, _, _, rfl, he, rfl, by simp only [steps, hcan, if_true, he]⟩)
    · exact Or.inr (Or.inr ⟨_, _, _, _, rfl, he, rfl, by simp only [steps, hcan, if_true, he]⟩)
    · exact Or.inr (Or.inl ⟨_, rfl, he, by simp only [steps, hcan, if_true, he]⟩)

/-- What supplying a text does: nothing when no read waits, else it shows the text and binds the number if it is one. -/
theorem supply_cases (s : Session) (raw : String) :
    (s.now.pending = none ∧ s.supply raw = (s, some .notWaiting)) ∨
    (∃ w, s.now.pending = some w ∧ Text.readInt? (Text.strip raw.toList) = none ∧
      s.supply raw = ({ s with now := s.now.echo raw }, some (.notInteger raw w.name))) ∨
    (∃ w n, s.now.pending = some w ∧ Text.readInt? (Text.strip raw.toList) = some n ∧
      s.supply raw = ({ s with now := (s.now.echo raw).answer w n }, none)) := by
  cases hw : s.now.pending with
  | none => exact Or.inl ⟨rfl, by simp [supply, hw]⟩
  | some w =>
    cases hn : Text.readInt? (Text.strip raw.toList) with
    | none => exact Or.inr (Or.inl ⟨w, rfl, rfl, by simp [supply, hw, hn]⟩)
    | some n => exact Or.inr (Or.inr ⟨w, n, rfl, rfl, by simp [supply, hw, hn]⟩)

/-- A step that fails could not execute what the cursor points at, and has changed nothing. -/
theorem failed_of_step {s t : Session} {failure : Failure} (h : s.step = (t, some failure)) :
    ∃ f e, s.now.Live s.program ∧ s.focus? = some f ∧ s.now.exec s.program f = .error e ∧ t = s ∧
      failure = ⟨f.label, e.span, e.fault, f.node.source⟩ := by
  rcases s.step_cases with ⟨he, _⟩ | ⟨_, _, _, _, _, he⟩ | ⟨f, e, hl, hf, hx, he⟩
  · cases he.symm.trans h
  · cases he.symm.trans h
  · obtain ⟨rfl, hfailure⟩ := Prod.mk.inj (he.symm.trans h)
    exact ⟨f, e, hl, hf, hx, rfl, (Option.some.inj hfailure).symm⟩

/-- An input that is accepted has answered the read that waited. -/
theorem accepted_of_supply {s t : Session} {raw : String} (h : s.supply raw = (t, none)) :
    ∃ w n, s.now.pending = some w ∧ Text.readInt? (Text.strip raw.toList) = some n ∧
      t = { s with now := (s.now.echo raw).answer w n } := by
  rcases s.supply_cases raw with ⟨_, he⟩ | ⟨w, _, _, he⟩ | ⟨w, n, hw, hn, he⟩
  · cases he.symm.trans h
  · cases he.symm.trans h
  · exact ⟨w, n, hw, hn, (Prod.mk.inj (h.symm.trans he)).1⟩

/-- No call changes the program. -/
theorem program_apply (s : Session) (c : Call) : (s.apply c).program = s.program := by
  cases c with
  | step =>
    rcases s.step_cases with ⟨h, _⟩ | ⟨f, st, _, _, _, h⟩ | ⟨f, e, _, _, _, h⟩ <;> simp [apply, h, keep]
  | undo =>
    simp only [apply, undo]
    split <;> rfl
  | supply raw =>
    rcases s.supply_cases raw with ⟨_, h⟩ | ⟨w, _, _, h⟩ | ⟨w, n, _, _, h⟩ <;> simp [apply, h]

/-- No run changes the program. -/
@[simp]
theorem program_run (s : Session) (calls : List Call) : (s.run calls).program = s.program := by
  induction calls generalizing s with
  | nil => rfl
  | cons c cs ih => rw [run_cons, ih, program_apply]

/-! ## Properties of every run -/

/-- A property that holds of the present state and of every state in the history, where moreover the program could go on. -/
def Throughout (P : State → Prop) (s : Session) : Prop :=
  P s.now ∧ ∀ st ∈ s.history, P st ∧ st.Live s.program

/-- A property of the states of a program that its actions and inputs keep. -/
structure Kept (p : Program) (P : State → Prop) : Prop where
  initial : P .initial
  exec : ∀ {st f st'}, P st → st.Live p → st.focus? p = some f → st.exec p f = .ok st' → P st'
  echo : ∀ {st w} raw, P st → st.pending = some w → P (st.echo raw)
  answer : ∀ {st w} n, P st → st.pending = some w → P (st.answer w n)

variable {P : State → Prop} {s : Session}

/-- One call keeps a property that actions and inputs keep. -/
theorem Throughout.apply (hP : Kept s.program P) (h : s.Throughout P) (c : Call) : (s.apply c).Throughout P := by
  obtain ⟨hnow, hpast⟩ := h
  cases c with
  | step =>
    rcases s.step_cases with ⟨he, _⟩ | ⟨f, st, hl, hf, hx, he⟩ | ⟨f, e, _, _, _, he⟩
    · simp only [Session.apply, he]
      exact ⟨hnow, hpast⟩
    · simp only [Session.apply, he]
      refine ⟨hP.exec hnow hl hf hx, fun t ht => ?_⟩
      rcases List.mem_cons.1 ht with rfl | ht
      · exact ⟨hnow, hl⟩
      · exact hpast t ht
    · simp only [Session.apply, he]
      exact ⟨hnow, hpast⟩
  | undo =>
    simp only [Session.apply, undo]
    split
    · exact ⟨hnow, hpast⟩
    · rename_i st rest hh
      obtain ⟨hst, hl⟩ := hpast st (by simp [hh])
      -- a kept state waits for nothing, so clearing the wait gives the state itself
      have hsame : { st with pending := none } = st := by
        obtain ⟨pc, vars, console, rows, frames, sub, pending, halted⟩ := st
        cases hl.ready
        rfl
      exact ⟨hsame ▸ hst, fun t ht => hpast t (by simp [hh, ht])⟩
  | supply raw =>
    rcases s.supply_cases raw with ⟨_, he⟩ | ⟨w, hw, _, he⟩ | ⟨w, n, hw, _, he⟩
    · simp only [Session.apply, he]
      exact ⟨hnow, hpast⟩
    · simp only [Session.apply, he]
      exact ⟨hP.echo raw hnow hw, hpast⟩
    · simp only [Session.apply, he]
      exact ⟨hP.answer n (hP.echo raw hnow hw) hw, hpast⟩

/-- A property that actions and inputs keep holds throughout every run of the program. -/
theorem Throughout.run {p : Program} (hP : Kept p P) (calls : List Call) :
    ((ofProgram p).run calls).Throughout P := by
  have hgen : ∀ s : Session, s.program = p → s.Throughout P → (s.run calls).Throughout P := by
    induction calls with
    | nil => exact fun s _ h => h
    | cons c cs ih =>
      intro s hs h
      exact ih (s.apply c) ((s.program_apply c).trans hs) (Throughout.apply (hs ▸ hP) h c)
  exact hgen _ rfl ⟨hP.initial, by simp [ofProgram]⟩

end Session

end Stepwise
