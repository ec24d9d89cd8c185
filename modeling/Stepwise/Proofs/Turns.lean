import Stepwise.Proofs.Console
import Stepwise.Proofs.RunSafety
import Stepwise.Run.Basic

/-!
# The turns of a run

A run goes in turns: each takes a step or supplies a line of the input, and writes what the console has gained. `Goes` says what
a turn does after which the run goes on, `Ends` how a run ends, and `loop_eq_iff` that a run is a path of turns with an end:
everything about runs is proved for one turn and for one end. The turns of a path tell what it has done: which calls it made, which
lines it read, what it added to the console and what it noted.
-/

namespace Stepwise.Run

/-- Where a run stands before a turn: the lines of the input that are left, and how far it came. -/
structure Spot where
  lines : List String
  progress : Progress

/-- A turn after which a run goes on. -/
inductive Turn where
  /-- A step, with what it added to the console. -/
  | step (added : String)
  /-- A line that the waiting read took. -/
  | taken (line : String)
  /-- A line that the waiting read, which is to bind the name, refused. -/
  | refused (line name : String)
  deriving DecidableEq, Repr

namespace Turn

/-- The call that a turn makes. -/
def call : Turn → Call
  | step _ => .step
  | taken line => .supply (lineText line)
  | refused line _ => .supply (lineText line)

/-- The line that a turn reads. -/
def line? : Turn → Option String
  | step _ => none
  | taken line => some line
  | refused line _ => some line

/-- The turn is a step. -/
def isStep : Turn → Bool
  | step _ => true
  | _ => false

/-- The turn refuses a line. -/
def isRefused : Turn → Bool
  | refused _ _ => true
  | _ => false

/-- What a turn adds to the console. -/
def added : Turn → String
  | step text => text
  | taken line => lineText line ++ "\n"
  | refused line _ => lineText line ++ "\n"

/-- What a turn notes. -/
def notes : Turn → List Note
  | refused line name => refusal (.notInteger (lineText line) name)
  | _ => []

end Turn

/-- What turns add to the console, one after the other. -/
def addedBy : List Turn → String
  | [] => ""
  | t :: ts => t.added ++ addedBy ts

/-- One turn after which the run goes on, where at most `limit` steps may be taken. -/
inductive Goes (limit : Nat) (x : Spot) : Turn → Spot → Prop where
  | step {s : Session} {added : String} (below : x.progress.steps < limit) (can : x.progress.session.canStep = true)
      (does : x.progress.session.step = (s, none)) (shows : s.now.console = x.progress.session.now.console ++ added)
      (written : (x.progress.flush s).2 = true) :
      Goes limit x (.step added) ⟨x.lines, { (x.progress.flush s).1 with steps := x.progress.steps + 1 }⟩
  | taken {line : String} {rest : List String} {s : Session} (lines : x.lines = line :: rest)
      (short : line.utf8ByteSize < lineLimit) (does : x.progress.session.supply (lineText line) = (s, none))
      (written : (x.progress.flush s).2 = true) : Goes limit x (.taken line) ⟨rest, (x.progress.flush s).1⟩
  | refused {line name : String} {rest : List String} {s : Session} (lines : x.lines = line :: rest)
      (short : line.utf8ByteSize < lineLimit)
      (does : x.progress.session.supply (lineText line) = (s, some (.notInteger (lineText line) name)))
      (written : (x.progress.flush s).2 = true) :
      Goes limit x (.refused line name) ⟨rest, (x.progress.flush s).1.note (refusal (.notInteger (lineText line) name))⟩

/-- The note of a run that may take no more steps. -/
def limitNote (name : String) (limit : Nat) : Note :=
  .record ⟨.warn, "steptrace: step limit reached", [("file", .text name), ("max_steps", .number limit)]⟩

/-- How a run ends. -/
inductive Ends (name : String) (limit : Nat) (x : Spot) : Ending → Prop where
  | halted (ready : x.progress.session.now.pending = none) (ended : x.progress.session.atEnd = true) :
      Ends name limit x ⟨x.progress, x.lines, none⟩
  | limited (reached : x.progress.steps = limit) (can : x.progress.session.canStep = true) :
      Ends name limit x ⟨x.progress.note [limitNote name limit], x.lines, some (.stepLimit limit)⟩
  | failed {f : Failure} (below : x.progress.steps < limit) (can : x.progress.session.canStep = true)
      (fails : x.progress.session.step = (x.progress.session, some f))
      (written : (x.progress.flush x.progress.session).2 = true) :
      Ends name limit x ⟨(x.progress.flush x.progress.session).1, x.lines, some (.step f)⟩
  | starved {w : Pending} (waits : x.progress.session.now.pending = some w) (lines : x.lines = []) :
      Ends name limit x ⟨x.progress, [], some (.inputEnded w.name)⟩
  | overlong {w : Pending} {line : String} {rest : List String} (waits : x.progress.session.now.pending = some w)
      (lines : x.lines = line :: rest) (long : lineLimit ≤ line.utf8ByteSize) :
      Ends name limit x ⟨x.progress, rest, some .longLine⟩
  | stepUnwritten (below : x.progress.steps < limit) (can : x.progress.session.canStep = true)
      (unwritten : (x.progress.flush x.progress.session.step.1).2 = false) :
      Ends name limit x ⟨(x.progress.flush x.progress.session.step.1).1, x.lines, some .console⟩
  | lineUnwritten {w : Pending} {line : String} {rest : List String} (waits : x.progress.session.now.pending = some w)
      (lines : x.lines = line :: rest) (short : line.utf8ByteSize < lineLimit)
      (unwritten : (x.progress.flush (x.progress.session.supply (lineText line)).1).2 = false) :
      Ends name limit x ⟨(x.progress.flush (x.progress.session.supply (lineText line)).1).1, rest, some .console⟩

/-- Turns that lead from one spot to another. -/
inductive Path (limit : Nat) : Spot → List Turn → Spot → Prop where
  | nil {x : Spot} : Path limit x [] x
  | cons {x y z : Spot} {t : Turn} {ts : List Turn} (go : Goes limit x t y) (rest : Path limit y ts z) :
      Path limit x (t :: ts) z

/-- Where the run of a session starts, with an output that takes as many bytes as given. -/
def start (name : String) (s : Session) (lines : List String) (outLimit : Option Nat) : Spot :=
  ⟨lines, ⟨s, Stream.toSink (Sink.empty outLimit), 0,
    [.record (fileRecord "steptrace: program loaded" name s.program.steps.length)]⟩⟩

/-- What turns from one spot to another have done: the calls they made, what they added to the console, the lines they read, the
steps they took and what they noted. -/
structure Tells (x : Spot) (turns : List Turn) (y : Spot) : Prop where
  session : y.progress.session = x.progress.session.run (turns.map Turn.call)
  console : y.progress.session.now.console = x.progress.session.now.console ++ addedBy turns
  lines : x.lines = turns.filterMap Turn.line? ++ y.lines
  steps : y.progress.steps = x.progress.steps + turns.countP Turn.isStep
  notes : y.progress.notes = x.progress.notes ++ turns.flatMap Turn.notes

variable {name : String} {limit left : Nat} {x y z : Spot} {t : Turn} {turns : List Turn} {e : Ending}

/-! ## A run is a path with an end -/

/-- A session whose supply is refused for its text waits. -/
theorem pending_of_supply {s t : Session} {raw : String} {fault : Option InputFault} (h : s.supply raw = (t, fault))
    (hfault : fault ≠ some .notWaiting) : ∃ w, s.now.pending = some w := by
  rcases s.supply_cases raw with ⟨_, hs⟩ | ⟨w, hw, _, _⟩ | ⟨w, _, hw, _, _⟩
  · rw [hs] at h
    exact absurd (Prod.mk.inj h).2.symm hfault
  · exact ⟨w, hw⟩
  · exact ⟨w, hw⟩

/-- A turn is a round of the loop. -/
theorem loop_of_goes (name : String) (hgo : Goes limit x t y) (hleft : x.progress.steps + left = limit) :
    ∃ left', y.progress.steps + left' = limit ∧
      loop name limit left x.lines x.progress = loop name limit left' y.lines y.progress := by
  cases hgo with
  | step below can does shows written =>
    obtain ⟨hready, hend⟩ := Session.ready_of_canStep can
    obtain ⟨left, rfl⟩ := Nat.exists_eq_succ_of_ne_zero (show left ≠ 0 by omega)
    refine ⟨left, ?_, ?_⟩
    · dsimp only
      omega
    · rw [loop.eq_def]
      simp [hready, hend, does, written]
  | taken lines short does written =>
    obtain ⟨w, hw⟩ := pending_of_supply does (by simp)
    refine ⟨left, hleft, ?_⟩
    rw [loop.eq_def, lines]
    simp [hw, Nat.not_le.2 short, does, written]
  | refused lines short does written =>
    obtain ⟨w, hw⟩ := pending_of_supply does (by simp)
    refine ⟨left, hleft, ?_⟩
    rw [loop.eq_def, lines]
    simp [hw, Nat.not_le.2 short, does, written]

/-- An end is the last round of the loop. -/
theorem loop_of_ends (hend : Ends name limit x e) (hleft : x.progress.steps + left = limit) :
    loop name limit left x.lines x.progress = e := by
  rw [loop.eq_def]
  cases hend with
  | halted ready ended => simp [ready, ended]
  | limited reached can =>
    obtain ⟨hready, hend⟩ := Session.ready_of_canStep can
    obtain rfl : left = 0 := by omega
    simp [hready, hend, limitNote]
  | failed below can fails written =>
    obtain ⟨hready, hend⟩ := Session.ready_of_canStep can
    obtain ⟨left, rfl⟩ := Nat.exists_eq_succ_of_ne_zero (show left ≠ 0 by omega)
    simp [hready, hend, fails, written]
  | starved waits lines => simp [waits, lines]
  | overlong waits lines long => simp [waits, lines, long]
  | stepUnwritten below can unwritten =>
    obtain ⟨hready, hend⟩ := Session.ready_of_canStep can
    obtain ⟨left, rfl⟩ := Nat.exists_eq_succ_of_ne_zero (show left ≠ 0 by omega)
    simp [hready, hend, unwritten]
  | lineUnwritten waits lines short unwritten => simp [waits, lines, Nat.not_le.2 short, unwritten]

/-- Before a turn that waits for input, the run goes on with the next line or ends. -/
theorem goes_or_ends_waiting (name : String) {w : Pending} (hw : x.progress.session.now.pending = some w) :
    (∃ t y, Goes limit x t y ∧ y.progress.steps = x.progress.steps ∧ y.lines.length < x.lines.length) ∨
      ∃ e, Ends name limit x e := by
  cases hlines : x.lines with
  | nil => exact Or.inr ⟨_, .starved hw hlines⟩
  | cons line rest =>
    by_cases hlong : lineLimit ≤ line.utf8ByteSize
    · exact Or.inr ⟨_, .overlong hw hlines hlong⟩
    have hshort := Nat.not_le.1 hlong
    cases hwritten : (x.progress.flush (x.progress.session.supply (lineText line)).1).2 with
    | false => exact Or.inr ⟨_, .lineUnwritten hw hlines hshort hwritten⟩
    | true =>
      left
      rcases x.progress.session.supply_cases (lineText line) with ⟨hnone, _⟩ | ⟨_, _, _, hs⟩ | ⟨_, _, _, _, hs⟩
      · rw [hw] at hnone
        cases hnone
      · rw [hs] at hwritten
        exact ⟨_, _, .refused hlines hshort hs hwritten, rfl, by simp⟩
      · rw [hs] at hwritten
        exact ⟨_, _, .taken hlines hshort hs hwritten, rfl, by simp⟩

/-- Before a turn that waits for nothing, the run goes on with a step or ends. -/
theorem goes_or_ends_ready (name : String) (hready : x.progress.session.now.pending = none) (hsteps : x.progress.steps ≤ limit) :
    (∃ t y, Goes limit x t y ∧ y.progress.steps = x.progress.steps + 1 ∧ y.lines = x.lines ∧ x.progress.steps < limit) ∨
      ∃ e, Ends name limit x e := by
  cases hend : x.progress.session.atEnd with
  | true => exact Or.inr ⟨_, .halted hready hend⟩
  | false =>
    have hcan : x.progress.session.canStep = true := by simp [Session.canStep, hready, hend]
    by_cases hreached : x.progress.steps = limit
    · exact Or.inr ⟨_, .limited hreached hcan⟩
    have hbelow : x.progress.steps < limit := by omega
    cases hwritten : (x.progress.flush x.progress.session.step.1).2 with
    | false => exact Or.inr ⟨_, .stepUnwritten hbelow hcan hwritten⟩
    | true =>
      obtain ⟨added, hadded⟩ := x.progress.session.console_step
      cases hfailure : x.progress.session.step.2 with
      | none => exact Or.inl ⟨_, _, .step hbelow hcan (Prod.ext rfl hfailure) hadded hwritten, rfl, rfl, hbelow⟩
      | some f =>
        have hfails := Session.step_eq_of_failure hfailure
        rw [hfails] at hwritten
        exact Or.inr ⟨_, .failed hbelow hcan hfails hwritten⟩

/-- Every run goes through turns to an end: each turn takes a step that is left or a line that is left. -/
theorem exists_path (name : String) (hsteps : x.progress.steps ≤ limit) :
    ∃ turns y e, Path limit x turns y ∧ y.progress.steps ≤ limit ∧ Ends name limit y e := by
  -- the measure is what is left of the steps and of the lines
  generalize hn : limit - x.progress.steps + x.lines.length = n
  induction n using Nat.strongRecOn generalizing x with
  | _ n ih =>
    have hnext : (∃ t y, Goes limit x t y ∧ y.progress.steps ≤ limit ∧
        limit - y.progress.steps + y.lines.length < n) ∨ ∃ e, Ends name limit x e := by
      cases hw : x.progress.session.now.pending with
      | some w =>
        refine (goes_or_ends_waiting name hw).imp_left fun ⟨t, y, hgo, hsame, hlines⟩ => ⟨t, y, hgo, ?_, ?_⟩
        · omega
        · omega
      | none =>
        refine (goes_or_ends_ready name hw hsteps).imp_left fun ⟨t, y, hgo, hmore, hlines, hbelow⟩ => ⟨t, y, hgo, ?_, ?_⟩
        · omega
        · rw [hlines]
          omega
    rcases hnext with ⟨t, y, hgo, hle, hless⟩ | ⟨e, hend⟩
    · obtain ⟨turns, z, e, hpath, hz, hend⟩ := ih _ hless hle rfl
      exact ⟨t :: turns, z, e, .cons hgo hpath, hz, hend⟩
    · exact ⟨[], x, e, .nil, hsteps, hend⟩

/-- A path with an end is the run from its start. -/
theorem loop_of_path (hpath : Path limit x turns y) (hend : Ends name limit y e) (hleft : x.progress.steps + left = limit) :
    loop name limit left x.lines x.progress = e := by
  induction hpath generalizing left with
  | nil => exact loop_of_ends hend hleft
  | cons go rest ih =>
    obtain ⟨left', hleft', hloop⟩ := loop_of_goes name go hleft
    rw [hloop]
    exact ih hend hleft'

/-- A run is a path of turns with an end. -/
theorem loop_eq_iff (hleft : x.progress.steps + left = limit) :
    loop name limit left x.lines x.progress = e ↔ ∃ turns y, Path limit x turns y ∧ Ends name limit y e := by
  constructor
  · intro h
    obtain ⟨turns, y, e', hpath, _, hend⟩ := exists_path name (show x.progress.steps ≤ limit by omega)
    rw [loop_of_path hpath hend hleft] at h
    exact ⟨turns, y, hpath, h ▸ hend⟩
  · rintro ⟨turns, y, hpath, hend⟩
    exact loop_of_path hpath hend hleft

/-- The run of a session is a path of turns from its start with an end. -/
theorem ofSession_eq_iff {s : Session} {lines : List String} {maxSteps : Int} {outLimit : Option Nat} :
    ofSession name s lines maxSteps outLimit = e ↔
      ∃ turns y, Path (stepLimit maxSteps) (start name s lines outLimit) turns y ∧ Ends name (stepLimit maxSteps) y e :=
  loop_eq_iff (x := start name s lines outLimit) (Nat.zero_add _)

/-! ## What the turns tell -/

/-- A text that was waited for stands on the console. -/
theorem console_of_supply {s t : Session} {raw : String} {fault : Option InputFault} (h : s.supply raw = (t, fault))
    (hfault : fault ≠ some .notWaiting) : t.now.console = s.now.console ++ (raw ++ "\n") := by
  obtain ⟨w, hw⟩ := pending_of_supply h hfault
  have hshown := Session.console_supply hw raw
  rwa [h] at hshown

/-- One turn tells what it did. -/
theorem Goes.tells (hgo : Goes limit x t y) : Tells x [t] y := by
  cases hgo with
  | step below can does shows written =>
    refine ⟨?_, ?_, rfl, rfl, by simp [Progress.flush, Turn.notes]⟩
    · exact (congrArg Prod.fst does).symm
    · exact shows.trans (congrArg _ String.append_empty.symm)
  | taken lines short does written =>
    refine ⟨?_, ?_, lines, rfl, by simp [Progress.flush, Turn.notes]⟩
    · exact (congrArg Prod.fst does).symm
    · exact (console_of_supply does (by simp)).trans (congrArg _ String.append_empty.symm)
  | refused lines short does written =>
    refine ⟨?_, ?_, lines, rfl, by simp [Progress.flush, Progress.note, Turn.notes]⟩
    · exact (congrArg Prod.fst does).symm
    · exact (console_of_supply does (by simp)).trans (congrArg _ String.append_empty.symm)

@[simp]
theorem addedBy_append (a b : List Turn) : addedBy (a ++ b) = addedBy a ++ addedBy b := by
  induction a with
  | nil => simp [addedBy]
  | cons t a ih => simp [addedBy, ih, String.append_assoc]

/-- Turns and further turns tell what both did. -/
theorem Tells.append {more : List Turn} (h : Tells x turns y) (h' : Tells y more z) : Tells x (turns ++ more) z where
  session := by
    rw [h'.session, h.session, List.map_append]
    exact (List.foldl_append ..).symm
  console := by rw [h'.console, h.console, addedBy_append, String.append_assoc]
  lines := by rw [h.lines, h'.lines, List.filterMap_append, List.append_assoc]
  steps := by rw [h'.steps, h.steps, List.countP_append, Nat.add_assoc]
  notes := by rw [h'.notes, h.notes, List.flatMap_append, List.append_assoc]

/-- A path tells what it did. -/
theorem Path.tells (h : Path limit x turns y) : Tells x turns y := by
  induction h with
  | nil => exact ⟨rfl, String.append_empty.symm, rfl, rfl, (List.append_nil _).symm⟩
  | cons go _ ih => exact go.tells.append ih

/-- A path takes no more steps than it may. -/
theorem Path.steps_le (h : Path limit x turns y) (hx : x.progress.steps ≤ limit) : y.progress.steps ≤ limit := by
  induction h with
  | nil => exact hx
  | cons go _ ih =>
    refine ih ?_
    cases go with
    | step below => exact below
    | taken => exact hx
    | refused => exact hx

/-- A run takes no more steps than it may. -/
theorem Path.countP_isStep_le {s : Session} {lines : List String} {outLimit : Option Nat}
    (h : Path limit (start name s lines outLimit) turns y) : turns.countP Turn.isStep ≤ limit := by
  have hsteps := h.steps_le (Nat.zero_le limit)
  rw [h.tells.steps] at hsteps
  exact Nat.le_of_add_left_le hsteps

/-! ## A program that asks -/

/-- A text that reads a number. -/
def askText : String := "step-1: start\nstep-2: read N\nstep-3: stop\n"

/-- The program of the text that reads a number. -/
def askProgram : Program :=
  ⟨[⟨1, .act ⟨1, 9, "step-1: start"⟩ .start⟩, ⟨2, .act ⟨2, 9, "step-2: read N"⟩ (.read "N")⟩,
    ⟨3, .act ⟨3, 9, "step-3: stop"⟩ .stop⟩], askText⟩

/-- The text that reads a number loads. -/
theorem load_askText : Session.load askText = .ok (Session.ofProgram askProgram) := by
  have hlines : sourceLines askText =
      [⟨1, "step-1: start".toList⟩, ⟨2, "step-2: read N".toList⟩, ⟨3, "step-3: stop".toList⟩, ⟨4, []⟩] := by decide +kernel
  have hend : Program.readSteps [⟨4, []⟩] = .ok [] := by rw [Program.readSteps_cons_empty _ rfl, Program.readSteps]
  have hstop : Program.readSteps [⟨3, "step-3: stop".toList⟩, ⟨4, []⟩] = .ok [⟨3, .act ⟨3, 9, "step-3: stop"⟩ .stop⟩] :=
    Program.readSteps_cons_step (h := ⟨['3'], 9, "stop".toList⟩) (by decide) rfl rfl rfl hend
  have hread : Program.readSteps [⟨2, "step-2: read N".toList⟩, ⟨3, "step-3: stop".toList⟩, ⟨4, []⟩] =
      .ok [⟨2, .act ⟨2, 9, "step-2: read N"⟩ (.read "N")⟩, ⟨3, .act ⟨3, 9, "step-3: stop"⟩ .stop⟩] :=
    Program.readSteps_cons_step (h := ⟨['2'], 9, "read N".toList⟩) (by decide) rfl rfl rfl hstop
  have hstart : Program.readSteps (sourceLines askText) = .ok askProgram.steps := by
    rw [hlines]
    exact Program.readSteps_cons_step (h := ⟨['1'], 9, "start".toList⟩) (by decide) rfl rfl rfl hread
  have hnone : Check.problem? askText = none := by decide +kernel
  rw [Session.load, hnone, Program.parse, hstart]
  rfl

end Stepwise.Run
