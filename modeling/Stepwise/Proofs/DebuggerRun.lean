import Stepwise.Debugger.Basic
import Stepwise.Proofs.RunInput

/-!
# Runs and the debugger agree

A program that a run takes to its stop, with numbers for its reads, is taken to the same session by a debugger that is told to run,
given the first number, told to run again, and so on. Both feed the session the same lines with the same steps; the debugger only
cuts the steps into stretches between the reads, each of which is shorter than the whole run.
-/

namespace Stepwise

/-! ## Stretches of steps -/

/-- A session that cannot step is left as it is. -/
theorem Session.steps_of_canStep_eq_false {s : Session} (h : s.canStep = false) (m : Nat) : s.steps m = (s, 0, none) := by
  cases m with
  | zero => rfl
  | succ m => simp [Session.steps, h]

/-- A session that is fed to one that cannot step is first taken, by steps that succeed, to a session that cannot step: the last one
when there are no lines, else one that takes the first line and is then fed the others. -/
theorem Run.Feeds.stretch {s u : Session} {n : Nat} {lines : List String} (h : Run.Feeds s n lines u) (hu : u.canStep = false) :
    ∃ k t, k ≤ n ∧ (∀ m, k ≤ m → s.steps m = (t, k, none)) ∧ t.canStep = false ∧
      ((lines = [] ∧ t = u) ∨ ∃ line rest v, lines = line :: rest ∧ t.supply (Run.lineText line) = (v, none) ∧
        Run.Feeds v (n - k) rest u) := by
  induction h with
  | done => exact ⟨0, _, Nat.le_refl 0, fun m _ => Session.steps_of_canStep_eq_false hu m, hu, Or.inl ⟨rfl, rfl⟩⟩
  | step can does _ ih =>
    obtain ⟨k, t, hk, hsteps, hstuck, hrest⟩ := ih hu
    refine ⟨k + 1, t, Nat.succ_le_succ hk, ?_, hstuck, ?_⟩
    · intro m hm
      obtain ⟨m, rfl⟩ := Nat.exists_eq_succ_of_ne_zero (show m ≠ 0 by omega)
      simp only [Session.steps, can, if_true, does, hsteps m (by omega)]
    · rwa [Nat.add_sub_add_right]
  | @line s t u n line lines does rest _ =>
    obtain ⟨w, hw⟩ := Run.pending_of_supply does (by simp)
    have hstuck : s.canStep = false := by simp [Session.canStep, hw]
    exact ⟨0, s, Nat.zero_le n, fun m _ => Session.steps_of_canStep_eq_false hstuck m, hstuck,
      Or.inr ⟨line, lines, t, rfl, does, rest⟩⟩

namespace Debugger

/-- The replies to lines, given one after the other. -/
def replies (folder : Files.Folder) (d : Debugger) : List String → List Reply
  | [] => []
  | line :: lines => d.handle folder line :: replies folder (d.handle folder line).debugger lines

/-- The debugger after lines. -/
def after (folder : Files.Folder) (d : Debugger) (lines : List String) : Debugger :=
  lines.foldl (fun d line => (d.handle folder line).debugger) d

/-- Lines that run a program to its first read, then answer each read and run to the next one. -/
def runScript (lines : List String) : List String :=
  ":run" :: lines.flatMap fun line => [line, ":run"]

/-- A line is handled without a fault and without quitting, and leaves another debugger. -/
structure Takes (folder : Files.Folder) (d : Debugger) (line : String) (d' : Debugger) : Prop where
  fault : (d.handle folder line).fault = none
  stays : (d.handle folder line).quit = false
  debugger : (d.handle folder line).debugger = d'

/-- So are lines, one after the other. -/
structure TakesAll (folder : Files.Folder) (d : Debugger) (lines : List String) (d' : Debugger) : Prop where
  replies : ∀ r ∈ d.replies folder lines, r.fault = none ∧ r.quit = false
  debugger : d.after folder lines = d'

variable {folder : Files.Folder} {d d₁ d' : Debugger} {line : String} {lines : List String}

/-- No lines change nothing. -/
theorem takesAll_nil : TakesAll folder d [] d :=
  ⟨by simp [replies], rfl⟩

/-- A line and then further lines. -/
theorem Takes.cons (h : Takes folder d line d₁) (hrest : TakesAll folder d₁ lines d') : TakesAll folder d (line :: lines) d' := by
  obtain ⟨hfault, hstays, rfl⟩ := h
  refine ⟨?_, hrest.debugger⟩
  intro r hr
  rcases List.mem_cons.1 hr with rfl | hr
  · exact ⟨hfault, hstays⟩
  · exact hrest.replies r hr

/-! ## Lines of the script -/

/-- The line `:run` is the command to run. -/
theorem ofLine_run (waiting : Bool) : Command.ofLine waiting ":run" = .ok .run := by
  cases waiting <;> rfl

/-- A whole number answers the read that waits: it does not begin like a command. -/
theorem ofLine_number {n : Int64} (h : Text.readInt? (Text.strip line.toList) = some n) :
    Command.ofLine true line = .ok (.input line) := by
  unfold Command.ofLine
  dsimp only
  split
  · rename_i rest htext
    rw [htext] at h
    simp [Text.readInt?, Text.readNumeral?, Text.isNumeral] at h
  · rfl

/-- Running has no fault where a stretch of steps ends within the limit. -/
theorem takes_run (folder : Files.Folder) {t : Session} {k : Nat} (hmax : 0 < d.maxSteps) (hk : k ≤ d.maxSteps.toNat)
    (hsteps : ∀ m, k ≤ m → d.session.steps m = (t, k, none)) (hstuck : t.canStep = false) :
    Takes folder d ":run" { d with session := t } := by
  have hnext : d.next d.maxSteps.toNat = ⟨{ d with session := t }, false, none, progressText d.session t, []⟩ := by
    simp only [next, hsteps _ hk]
  have hrun : d.handle folder ":run" = ⟨{ d with session := t }, false, none, progressText d.session t, []⟩ := by
    simp only [handle, ofLine_run, exec, run, if_pos hmax, hnext, hstuck, Bool.false_eq_true, and_false, if_false]
  exact ⟨by rw [hrun], by rw [hrun], by rw [hrun]⟩

/-- A text that a read takes is handled without a fault. -/
theorem takes_number (folder : Files.Folder) {t : Session} (hdoes : d.session.supply line = (t, none)) :
    Takes folder d line { d with session := t } := by
  obtain ⟨w, n, hw, hn, _⟩ := Session.accepted_of_supply hdoes
  have hwaiting : (d.session.status == .waiting) = true := by simp [Session.status, hw]
  have hinput : d.handle folder line = ⟨{ d with session := t }, false, none, progressText d.session t, []⟩ := by
    simp only [handle, hwaiting, ofLine_number hn, exec, input, hdoes, Option.map_none]
  exact ⟨by rw [hinput], by rw [hinput], by rw [hinput]⟩

/-- A debugger whose session is fed by lines, to one that cannot step, gets there by the script of these lines. -/
theorem takesAll_runScript (folder : Files.Folder) {n : Nat} {u : Session} (hmax : 0 < d.maxSteps)
    (h : Run.Feeds d.session n lines u) (hu : u.canStep = false) (hn : n ≤ d.maxSteps.toNat) :
    TakesAll folder d (runScript (lines.map Run.lineText)) { d with session := u } := by
  induction lines generalizing d n with
  | nil =>
    obtain ⟨k, t, hk, hsteps, hstuck, ⟨_, rfl⟩ | ⟨_, _, _, hcons, _⟩⟩ := h.stretch hu
    · exact (takes_run folder hmax (hk.trans hn) hsteps hstuck).cons takesAll_nil
    · cases hcons
  | cons line lines ih =>
    obtain ⟨k, t, hk, hsteps, hstuck, ⟨hnil, _⟩ | ⟨_, _, v, hcons, hdoes, hrest⟩⟩ := h.stretch hu
    · cases hnil
    · obtain ⟨rfl, rfl⟩ := List.cons.inj hcons
      have hran := takes_run folder hmax (hk.trans hn) hsteps hstuck
      have hread : Takes folder { d with session := t } (Run.lineText line) { d with session := v } := takes_number folder hdoes
      have hlater : TakesAll folder { d with session := v } (runScript (lines.map Run.lineText)) { d with session := u } :=
        ih hmax hrest ((Nat.sub_le n k).trans hn)
      exact hran.cons (hread.cons hlater)

end Debugger

namespace Run

/-- A run without a fault that has read all of its lines, which are numbers, has fed them to its session, which cannot step any more. -/
theorem feeds_of_run {name text input : String} {s : Session} {maxSteps : Int} {dump : Bool} {outLimit : Option Nat}
    (hload : Session.load text = .ok s) (hnumbers : ∀ line ∈ inputLines input, isNumber line = true)
    (hdone : (run name text input maxSteps dump outLimit).fault = none)
    (hall : (ofSession name s (inputLines input) maxSteps outLimit).unread = []) :
    ∃ n ≤ stepLimit maxSteps,
      Feeds s n (inputLines input) (ofSession name s (inputLines input) maxSteps outLimit).progress.session ∧
      (ofSession name s (inputLines input) maxSteps outLimit).progress.session.canStep = false := by
  obtain ⟨turns, y, hpath, hend⟩ := ofSession_eq_iff.1 (rfl : ofSession name s (inputLines input) maxSteps outLimit = _)
  have hfault : (ofSession name s (inputLines input) maxSteps outLimit).fault = none := by
    simp only [run, hload] at hdone
    split at hdone
    · cases hdone
    · assumption
  generalize ofSession name s (inputLines input) maxSteps outLimit = e at hend hfault hall ⊢
  obtain ⟨hready, hended⟩ := (status_eq_halted_iff _).1 (hend.fault_eq_none_iff.1 hfault)
  cases hend with
  | halted =>
    have hread : inputLines input = turns.filterMap Turn.line? := by
      rw [← List.append_nil (turns.filterMap Turn.line?), ← hall]
      exact hpath.tells.lines
    refine ⟨turns.countP Turn.isStep, hpath.countP_isStep_le, ?_, ?_⟩
    · rw [hread]
      exact hpath.feeds (hpath.kept_of_numbers hnumbers)
    · simp [Session.canStep, hended]
  | limited => cases hfault
  | failed => cases hfault
  | starved => cases hfault
  | overlong => cases hfault
  | stepUnwritten => cases hfault
  | lineUnwritten => cases hfault

/-- Runs and the debugger agree. Take a text that loads, a positive limit of steps, and an input whose lines, as they are read, are all
whole numbers. Where the run on it, with an output that takes everything, has no fault and has read all lines, a debugger with the
same text and limit that is told to run, given the first line, told to run, and so on to the last line and a last run, has no fault
on any of them and ends with the session of the run, its state and its history. -/
theorem debugged_session_eq_run {text : String} {s : Session} (hload : Session.load text = .ok s) (name : String) {maxSteps : Int}
    (hmax : 0 < maxSteps) {input : String} {lines : List String} (hlines : (inputLines input).map lineText = lines)
    (hnumbers : ∀ line ∈ lines, Text.readInt? (Text.strip line.toList) ≠ none) (dump : Bool)
    (hdone : (run name text input maxSteps dump none).fault = none)
    (hall : (ofSession name s (inputLines input) maxSteps none).unread = []) {d : Debugger} {debugged : String}
    (hd : Debugger.load debugged text maxSteps = .ok d) (folder : Files.Folder) :
    (∀ r ∈ d.replies folder (Debugger.runScript lines), r.fault = none ∧ r.quit = false) ∧
      (d.after folder (Debugger.runScript lines)).session = (ofSession name s (inputLines input) maxSteps none).progress.session := by
  have hwhole : ∀ line ∈ inputLines input, isNumber line = true := by
    intro line hline
    have hne := hnumbers (lineText line) (hlines ▸ List.mem_map_of_mem hline)
    exact Option.isSome_iff_ne_none.2 hne
  obtain ⟨n, hn, hfeeds, hstuck⟩ := feeds_of_run hload hwhole hdone hall
  obtain rfl : d = ⟨debugged, s, maxSteps⟩ := by
    simp only [Debugger.load, hload] at hd
    exact (Except.ok.inj hd).symm
  rw [stepLimit, if_pos hmax] at hn
  have htakes : Debugger.TakesAll folder ⟨debugged, s, maxSteps⟩ (Debugger.runScript ((inputLines input).map lineText)) _ :=
    Debugger.takesAll_runScript folder hmax hfeeds hstuck hn
  rw [hlines] at htakes
  exact ⟨htakes.replies, congrArg Debugger.session htakes.debugger⟩

/-- The program that reads a number stops with its third step, where both may take three. -/
theorem debugged_session_eq_run_asking :
    (inputLines " 7\r\n").map lineText = [" 7"] ∧ (run "ask" askText " 7\r\n" 3 false none).fault = none ∧
    (ofSession "ask" (.ofProgram askProgram) (inputLines " 7\r\n") 3 none).unread = [] ∧
    (∀ r ∈ Debugger.replies ⟨[], []⟩ ⟨"asked", .ofProgram askProgram, 3⟩ [":run", " 7", ":run"],
      r.fault = none ∧ r.quit = false) ∧
    (Debugger.after ⟨[], []⟩ ⟨"asked", .ofProgram askProgram, 3⟩ [":run", " 7", ":run"]).session =
      (ofSession "ask" (.ofProgram askProgram) (inputLines " 7\r\n") 3 none).progress.session := by
  have hlines : (inputLines " 7\r\n").map lineText = [" 7"] := by decide +kernel
  have hdone : (run "ask" askText " 7\r\n" 3 false none).fault = none := by
    rw [run, load_askText]
    decide +kernel
  have hall : (ofSession "ask" (.ofProgram askProgram) (inputLines " 7\r\n") 3 none).unread = [] := by decide +kernel
  have hd : Debugger.load "asked" askText 3 = .ok ⟨"asked", .ofProgram askProgram, 3⟩ := by rw [Debugger.load, load_askText]
  have hnumbers : ∀ line ∈ [" 7"], Text.readInt? (Text.strip line.toList) ≠ none := by
    intro line hline
    rw [List.mem_singleton.1 hline]
    decide +kernel
  exact ⟨hlines, hdone, hall,
    debugged_session_eq_run load_askText "ask" (by decide) hlines hnumbers false hdone hall hd ⟨[], []⟩⟩

end Run

end Stepwise
