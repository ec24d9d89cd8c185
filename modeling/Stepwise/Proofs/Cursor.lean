import Stepwise.Proofs.Control

/-!
# The cursor never leaves the program

`Control` says how the stack of frames was opened. Here this is said about positions: which step the bottom frame belongs to,
what each frame has to do with the one below it, and how far its cursor may have moved. The states that undo goes back to are
like the present one, and they were taken before a step, so none of them waits or has ended. It follows that a step and an input
always find what they look up: the current step, and in a block the item under the cursor of the innermost frame.
-/

namespace Stepwise

namespace Opened

variable {root : List Node} {frames : List Frame}

/-- The bottom frame stands in the block that the stack was opened from. -/
theorem items_getLast? (h : Opened root frames) : ∀ f, frames.getLast? = some f → f.items = root := by
  induction h with
  | bottom =>
    intro f hf
    rw [List.getLast?_singleton] at hf
    rw [← Option.some.inj hf]
  | inner below _ _ _ ih =>
    intro f hf
    rw [List.getLast?_cons_cons] at hf
    exact ih f hf

/-- Each frame holds the block of the branch just before the cursor of the frame below it. -/
theorem items_above (h : Opened root frames) :
    ∀ (k : Nat) (upper lower : Frame), frames[k]? = some upper → frames[k + 1]? = some lower →
      ∃ j place cond, lower.index = j + 1 ∧ lower.items[j]? = some (.branch place cond upper.items) := by
  induction h with
  | bottom =>
    intro k upper lower _ hlower
    cases hlower
  | inner below cursor branch _ ih =>
    intro k upper lower hupper hlower
    cases k with
    | zero =>
      rw [← Option.some.inj hupper, ← Option.some.inj hlower]
      exact ⟨_, _, _, cursor, branch⟩
    | succ k => exact ih k upper lower hupper hlower

/-- No cursor stands behind the end of its block. -/
theorem index_le (h : Opened root frames) : ∀ f ∈ frames, f.index ≤ f.items.length := by
  induction h with
  | bottom le =>
    intro f hf
    rw [List.mem_singleton.1 hf]
    exact le
  | inner below _ _ le ih =>
    intro f hf
    rcases List.mem_cons.1 hf with rfl | hf
    · exact le
    · exact ih f hf

end Opened

namespace State

/-- Where a state stands, by positions. A state that waits for nothing has neither a name nor a label to wait for, since it keeps
both in its wait. -/
structure InPlace (p : Program) (st : State) : Prop where
  /-- In a block, the current step is a branch and the bottom frame holds its block. -/
  bottom : ∀ f, st.frames.getLast? = some f →
    ∃ step place cond, p.steps[st.pc]? = some step ∧ step.node = .branch place cond f.items
  /-- Each further frame holds the block of the branch just before the cursor of the frame below it. -/
  above : ∀ (k : Nat) (upper lower : Frame), st.frames[k]? = some upper → st.frames[k + 1]? = some lower →
    ∃ j place cond, lower.index = j + 1 ∧ lower.items[j]? = some (.branch place cond upper.items)
  /-- No cursor stands behind the end of its block, and that of the innermost block stands on an item. -/
  within : ∀ f ∈ st.frames, f.index ≤ f.items.length
  top : ∀ f, st.frames.head? = some f → f.index < f.items.length
  /-- Outside blocks no labels are used up. -/
  flat : st.frames = [] → st.sub = 0
  /-- A state that waits has its cursor on the read of the name that it waits for, under the label of its wait. -/
  waits : ∀ w, st.pending = some w →
    ∃ f place, st.focus? p = some f ∧ f.node = .act place (.read w.name) ∧ f.label = w.label
  /-- A halted state stands in no block, waits for nothing and has just passed a stop. -/
  stopped : st.halted = true → st.frames = [] ∧ st.pending = none ∧
    ∃ k step place, st.pc = k + 1 ∧ p.steps[k]? = some step ∧ step.node = .act place .stop

/-- Everything that is looked up at the cursor is there: the current step and, in a block, the item of the innermost frame. What
the cursor points at is then that step or that item. -/
def InRange (p : Program) (st : State) : Prop :=
  ∃ step, p.steps[st.pc]? = some step ∧
    ((st.frames = [] ∧ st.focus? p = some ⟨stepLabel step.number, step.node, false⟩) ∨
      ∃ f fs item, st.frames = f :: fs ∧ f.items[f.index]? = some item ∧
        st.focus? p = some ⟨subLabel step.number st.sub, item, true⟩)

variable {p : Program} {st : State}

/-- A cursor in place, by positions. -/
theorem Control.inPlace (h : st.Control p) : st.InPlace p where
  bottom := by
    intro f hf
    rcases h.standing with hnil | ⟨step, place, cond, root, hs, hn, ho⟩
    · rw [hnil] at hf
      cases hf
    · rw [ho.items_getLast? f hf]
      exact ⟨step, place, cond, hs, hn⟩
  above := by
    intro k upper lower hupper hlower
    rcases h.standing with hnil | ⟨_, _, _, _, _, _, ho⟩
    · rw [hnil] at hupper
      cases hupper
    · exact ho.items_above k upper lower hupper hlower
  within := by
    intro f hf
    rcases h.standing with hnil | ⟨_, _, _, _, _, _, ho⟩
    · rw [hnil] at hf
      cases hf
    · exact ho.index_le f hf
  top f hf := (f.finished_eq_false_iff).1 (h.top f hf)
  flat := h.flat
  waits := h.waits
  stopped := h.stopped

/-- What the cursor points at is looked up in range. -/
theorem Control.inRange {f : Focus} (h : st.Control p) (hf : st.focus? p = some f) : st.InRange p := by
  rcases h.focus_cases hf with ⟨step, hnil, hs, rfl⟩ | ⟨step, g, gs, hg, hs, hi, hlabel, hnested⟩
  · exact ⟨step, hs, Or.inl ⟨hnil, hf⟩⟩
  · obtain ⟨label, node, nested⟩ := f
    cases hlabel
    cases hnested
    exact ⟨step, hs, Or.inr ⟨g, gs, node, hg, hi, hf⟩⟩

end State

namespace Session

/-- The cursor never leaves the program, for every program and after any calls. The present state and every state that undo can
go back to is in place; the latter wait for nothing and have not ended. A step that does something and an input that is waited
for find everything in range: the current step, and in a block the item under the cursor of the innermost frame. -/
theorem run_inPlace (p : Program) (calls : List Call) :
    ((ofProgram p).run calls).now.InPlace p ∧
    (∀ st ∈ ((ofProgram p).run calls).history, st.InPlace p ∧ st.Live p) ∧
    (((ofProgram p).run calls).canStep = true ∨ ((ofProgram p).run calls).now.pending ≠ none →
      ((ofProgram p).run calls).now.InRange p) := by
  have hall := Throughout.run (State.control_kept p) calls
  have hprogram : ((ofProgram p).run calls).program = p := program_run (ofProgram p) calls
  generalize (ofProgram p).run calls = s at hall hprogram
  subst hprogram
  obtain ⟨hnow, hpast⟩ := hall
  refine ⟨hnow.inPlace, fun st hst => ⟨(hpast st hst).1.inPlace, (hpast st hst).2⟩, ?_⟩
  rintro (hstep | hwaits)
  · obtain ⟨f, hf⟩ := hnow.focus_of_live (s.canStep_iff.1 hstep)
    exact hnow.inRange hf
  · obtain ⟨w, hw⟩ := Option.ne_none_iff_exists'.1 hwaits
    obtain ⟨f, _, hf, _⟩ := hnow.waits w hw
    exact hnow.inRange hf

end Session

end Stepwise
