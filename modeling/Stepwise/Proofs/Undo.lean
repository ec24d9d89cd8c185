import Stepwise.Proofs.Run
import Mathlib.Data.List.Infix

/-!
# Undo is exact

A session that waits for nothing is given back whole by undo: as long as a run does not undo further than the session it
began with, that session lies under every later one, and it is what is left as soon as all later steps are undone. This does
not depend on what the steps did, on failures, or on the inputs between them.
-/

namespace Stepwise

namespace Session

/-- `t` is `s`, or `s` with steps on top of it: the states before `t` end with the state of `s` and the states before `s`. -/
def Under (s t : Session) : Prop :=
  t.program = s.program ∧ (t = s ∨ ∃ newer, t.history = newer ++ s.now :: s.history)

/-- A session lies under itself. -/
theorem Under.refl (s : Session) : s.Under s :=
  ⟨rfl, Or.inl rfl⟩

/-- A session with steps on top of `s` has more to undo than `s`. -/
theorem undoDepth_lt_of_newer {s t : Session} {newer : List State} (h : t.history = newer ++ s.now :: s.history) :
    s.undoDepth < t.undoDepth := by
  simp only [undoDepth, h, List.length_append, List.length_cons]
  omega

/-- At equal depth, nothing lies on top of `s`. -/
theorem Under.eq_of_undoDepth_eq {s t : Session} (h : s.Under t) (hd : t.undoDepth = s.undoDepth) : t = s := by
  rcases h.2 with he | ⟨newer, hn⟩
  · exact he
  · have := undoDepth_lt_of_newer hn
    omega

variable {s t : Session}

/-- A step puts a state on top, or changes nothing. -/
theorem Under.step (h : s.Under t) : s.Under t.step.1 := by
  rcases t.step_cases with ⟨he, _⟩ | ⟨f, st, _, _, _, he⟩ | ⟨f, e, _, _, _, he⟩
  · rw [he]
    exact h
  · rw [he]
    obtain ⟨hp, rfl | ⟨newer, hn⟩⟩ := h
    · exact ⟨rfl, Or.inr ⟨[], rfl⟩⟩
    · exact ⟨hp, Or.inr ⟨t.now :: newer, by simp [keep, hn]⟩⟩
  · rw [he]
    exact h

/-- Undo that does not go below `s` takes a state from the top, and gives `s` itself when that was the last one. -/
theorem Under.undo (hs : s.now.pending = none) (h : s.Under t) (hd : s.undoDepth ≤ t.undo.undoDepth) :
    s.Under t.undo := by
  obtain ⟨hp, rfl | ⟨newer, hn⟩⟩ := h
  · -- the depth could only stay the same because there was nothing to undo
    cases hh : t.history with
    | nil =>
      simp only [Session.undo, hh]
      exact Under.refl t
    | cons st rest =>
      simp only [Session.undo, hh, undoDepth, List.length_cons] at hd
      omega
  · cases newer with
    | nil =>
      have hback : t.undo = s.keep.undo := by
        obtain ⟨p, now, history⟩ := t
        cases hp
        cases hn
        rfl
      rw [hback, s.undo_keep hs]
      exact Under.refl s
    | cons st rest =>
      have hh : t.undo.history = rest ++ s.now :: s.history := by simp [Session.undo, hn]
      exact ⟨(t.program_apply .undo).trans hp, Or.inr ⟨rest, hh⟩⟩

/-- Input changes neither `s`, which waits for nothing, nor the states before `t`. -/
theorem Under.supply (hs : s.now.pending = none) (h : s.Under t) (raw : String) : s.Under (t.supply raw).1 := by
  obtain ⟨hp, rfl | ⟨newer, hn⟩⟩ := h
  · simp only [Session.supply, hs]
    exact Under.refl t
  · have hh : (t.supply raw).1.history = t.history := by
      rcases t.supply_cases raw with ⟨_, he⟩ | ⟨w, _, _, he⟩ | ⟨w, n, _, _, he⟩ <;> rw [he]
    exact ⟨(t.program_apply (.supply raw)).trans hp, Or.inr ⟨newer, hh.trans hn⟩⟩

/-- A call that does not undo below `s` leaves `s` under the session. -/
theorem Under.apply (hs : s.now.pending = none) (h : s.Under t) (c : Call) (hd : s.undoDepth ≤ (t.apply c).undoDepth) :
    s.Under (t.apply c) := by
  cases c with
  | step => exact h.step
  | undo => exact h.undo hs hd
  | supply raw => exact h.supply hs raw

/-- A run that never undoes below `s` leaves `s` under the session. -/
theorem Under.run (hs : s.now.pending = none) (h : s.Under t) (calls : List Call)
    (hd : ∀ pre, pre <+: calls → s.undoDepth ≤ (t.run pre).undoDepth) : s.Under (t.run calls) := by
  induction calls generalizing t with
  | nil => exact h
  | cons c cs ih =>
    have hc : s.undoDepth ≤ (t.apply c).undoDepth := hd [c] (List.prefix_append [c] cs)
    refine ih (h.apply hs c hc) fun pre hpre => ?_
    exact hd (c :: pre) ((List.prefix_cons_inj c).2 hpre)

/-- Undo is exact over whole runs: from a session that waits for nothing, whatever is called, and as long as no call undoes
below that session, the session is the same as at the beginning, with its state and its history, whenever its undo depth is. -/
theorem run_eq_of_undoDepth_eq (s : Session) (hs : s.now.pending = none) (calls : List Call)
    (hd : ∀ pre, pre <+: calls → s.undoDepth ≤ (s.run pre).undoDepth) :
    ∀ pre, pre <+: calls → (s.run pre).undoDepth = s.undoDepth → s.run pre = s := by
  intro pre hpre he
  have hu : s.Under (s.run pre) := (Under.refl s).run hs pre fun q hq => hd q (hq.trans hpre)
  exact hu.eq_of_undoDepth_eq he

/-- A program that reads a number and then fails to jump. -/
def askThenJump : Program :=
  ⟨[⟨1, .act ⟨1, 9, "step-1: start"⟩ .start⟩, ⟨2, .act ⟨2, 9, "step-2: read X"⟩ (.read "X")⟩,
    ⟨3, .act ⟨3, 9, "step-3: goto here"⟩ (.jump none "goto here")⟩], ""⟩

/-- A read, a refused and an accepted input, a failing step and an input that nobody waits for are all undone at once. -/
theorem run_eq_of_undoDepth_eq_reading :
    ((ofProgram askThenJump).run [.step, .step, .supply "five", .supply "5", .step, .supply "6", .undo]) =
      (ofProgram askThenJump).run [.step] := by
  have hd : ∀ pre ∈ [Call.step, .supply "five", .supply "5", .step, .supply "6", .undo].inits,
      ((ofProgram askThenJump).run [.step]).undoDepth ≤
        (((ofProgram askThenJump).run [.step]).run pre).undoDepth := by
    decide
  exact run_eq_of_undoDepth_eq ((ofProgram askThenJump).run [.step]) rfl
    [.step, .supply "five", .supply "5", .step, .supply "6", .undo] (fun pre hpre => hd pre ((List.mem_inits _ _).2 hpre))
    [.step, .supply "five", .supply "5", .step, .supply "6", .undo] (List.prefix_refl _) (by decide)

end Session

end Stepwise
