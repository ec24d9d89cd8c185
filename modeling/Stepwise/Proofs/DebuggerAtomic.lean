import Stepwise.Proofs.Characters
import Stepwise.Proofs.Cutting
import Stepwise.Proofs.DebuggerRun

/-!
# Lines that fail

A line that fails leaves the debugger as it was, with two exceptions. A command that takes steps keeps the steps that succeeded, and an
input that is refused is still shown on the console. The text that was loaded last stays the text of the program whatever is done with
the session, so starting again never fails. And taking steps, or undoing them, in two parts is the same as doing it at once.
-/

namespace Stepwise

namespace Session

variable {s t : Session}

/-! ## Steps in a row -/

/-- Steps that end in a failure: those before it succeeded, and the next one fails and changes nothing. -/
theorem steps_of_failure {n k : Nat} {f : Failure} (h : s.steps n = (t, k, some f)) :
    k < n ∧ s.steps k = (t, k, none) ∧ t.canStep = true ∧ t.step = (t, some f) := by
  induction n generalizing s k with
  | zero => cases h
  | succ n ih =>
    rcases s.steps_succ_cases n with ⟨_, he⟩ | ⟨g, hcan, hstep, he⟩ | ⟨u, v, j, e, hcan, hstep, hrest, he⟩
    · cases he.symm.trans h
    · cases he.symm.trans h
      exact ⟨Nat.succ_pos n, rfl, hcan, hstep⟩
    · cases he.symm.trans h
      obtain ⟨hk, htaken, hmore, hfails⟩ := ih hrest
      refine ⟨Nat.succ_lt_succ hk, ?_, hmore, hfails⟩
      simp only [steps, hcan, if_true, hstep, htaken]

/-- Steps that do not fail and leave something to do were all taken. -/
theorem steps_of_canStep {n k : Nat} (h : s.steps n = (t, k, none)) (hmore : t.canStep = true) : k = n := by
  induction n generalizing s k with
  | zero =>
    cases h
    rfl
  | succ n ih =>
    rcases s.steps_succ_cases n with ⟨hstuck, he⟩ | ⟨g, _, _, he⟩ | ⟨u, v, j, e, _, _, hrest, he⟩
    · cases he.symm.trans h
      rw [hstuck] at hmore
      cases hmore
    · cases he.symm.trans h
    · cases he.symm.trans h
      rw [ih hrest]

/-- Steps that do not fail may be followed by further ones. -/
theorem steps_add {a k : Nat} (h : s.steps a = (t, k, none)) (b : Nat) :
    s.steps (a + b) = ((t.steps b).1, k + (t.steps b).2.1, (t.steps b).2.2) := by
  induction a generalizing s k with
  | zero =>
    cases h
    rw [Nat.zero_add, Nat.zero_add]
  | succ a ih =>
    rcases s.steps_succ_cases a with ⟨hstuck, he⟩ | ⟨g, _, _, he⟩ | ⟨u, v, j, e, hcan, hstep, hrest, he⟩
    · cases he.symm.trans h
      simp only [steps_of_canStep_eq_false hstuck, Nat.add_zero]
    · cases he.symm.trans h
    · cases he.symm.trans h
      rw [Nat.succ_add, steps]
      simp only [hcan, if_true, hstep, ih hrest, Nat.succ_add]

/-- Undoing in two parts is undoing at once. -/
theorem undos_add (a b : Nat) (s : Session) : undos (a + b) s = undos b (undos a s) := by
  induction a generalizing s with
  | zero => rw [Nat.zero_add, undos]
  | succ a ih =>
    rw [Nat.succ_add, undos, undos]
    cases hcan : s.canUndo with
    | true => exact ih s.undo
    | false =>
      -- there is nothing left to undo, also for the second part
      cases b with
      | zero => rfl
      | succ b => simp [undos, hcan]

/-- Steps do not change the program. -/
theorem program_steps (n : Nat) (s : Session) : (s.steps n).1.program = s.program := by
  induction n generalizing s with
  | zero => rfl
  | succ n ih =>
    rcases s.steps_succ_cases n with ⟨_, he⟩ | ⟨f, _, _, he⟩ | ⟨t, u, k, e, _, hstep, hrest, he⟩
    · rw [he]
    · rw [he]
    · have hprogram := s.program_apply .step
      have hlater := ih t
      rw [apply, hstep] at hprogram
      rw [hrest] at hlater
      rw [he]
      exact hlater.trans hprogram

/-- Undoing does not change the program. -/
theorem program_undos (n : Nat) (s : Session) : (undos n s).program = s.program := by
  induction n generalizing s with
  | zero => rfl
  | succ n ih =>
    rw [undos]
    split
    · exact (ih s.undo).trans (s.program_apply .undo)
    · rfl

end Session

/-- A program keeps the text it was read from. -/
theorem Program.source_of_parse {text : String} {p : Program} (h : Program.parse text = .ok p) : p.source = text := by
  unfold Program.parse at h
  split at h
  · cases h
  · cases h
  · obtain rfl := Except.ok.inj h
    rfl

namespace Debugger

/-! ## Lines with an argument -/

/-- A word: a text that is not empty and has no blanks. -/
structure IsWord (w : String) : Prop where
  filled : w.toList ≠ []
  solid : ∀ c ∈ w.toList, Text.isBlank c = false

/-- A word is recognised character by character. -/
theorem isWord_of_all {w : String} (hfilled : w.toList ≠ []) (hall : (w.toList.all fun c => !Text.isBlank c) = true) : IsWord w where
  filled := hfilled
  solid := by
    intro c hc
    simpa using List.all_eq_true.1 hall c hc

/-- Two words with a space between them are the words of their line. -/
theorem words_pair {name arg : String} (hname : IsWord name) (harg : IsWord arg) :
    Text.words (name.toList ++ ' ' :: arg.toList) = [name.toList, arg.toList] := by
  have hsplit : (name.toList ++ ' ' :: arg.toList).splitOnP Text.isBlank = [name.toList, arg.toList] := by
    rw [List.splitOnP_append_cons_of_forall_mem hname.solid ' ' (by decide), List.splitOnP_eq_singleton harg.solid]
  have hkeep : ∀ w ∈ [name.toList, arg.toList], (!w.isEmpty) = true := by
    intro w hw
    rw [List.mem_pair] at hw
    rcases hw with rfl | rfl
    · simpa using hname.filled
    · simpa using harg.filled
  rw [Text.words, hsplit, List.filter_eq_self.2 hkeep]

/-- A command with an argument is read by its name. -/
theorem ofLine_pair (name : String) {arg : String} (hcolon : name.toList.head? = some ':') (hname : IsWord name)
    (harg : IsWord arg) (waiting : Bool) :
    ∃ argument, Command.ofLine waiting (name ++ " " ++ arg) = Command.ofName name [arg] argument := by
  obtain ⟨rest, hrest⟩ := List.head?_eq_some_iff.1 hcolon
  have hline : (name ++ " " ++ arg).toList = name.toList ++ ' ' :: arg.toList := by simp
  have hlast : (name.toList ++ ' ' :: arg.toList).getLast? = some (arg.toList.getLast harg.filled) := by
    rw [List.getLast?_append, List.getLast?_cons, List.getLast?_eq_getLast_of_ne_nil harg.filled]
    rfl
  have hstrip : Text.strip (name ++ " " ++ arg).toList = name.toList ++ ' ' :: arg.toList := by
    rw [hline]
    refine Text.strip_eq_self (c := ':') ?_ (by decide) hlast (harg.solid _ (List.getLast_mem harg.filled))
    rw [hrest]
    rfl
  refine ⟨String.ofList (Text.strip ((name.toList ++ ' ' :: arg.toList).drop name.toList.length)), ?_⟩
  have hwords := words_pair hname harg
  unfold Command.ofLine
  simp only [hstrip]
  split
  · rw [hwords]
    simp only [List.map_cons, List.map_nil, String.ofList_toList]
  · rename_i hother
    exact absurd (by rw [hrest]; rfl) (hother (rest ++ ' ' :: arg.toList))

/-- A number that is written out is taken as a count. -/
theorem count_digits {n : Nat} (hpos : 1 ≤ n) (hle : n ≤ Text.greatestInt64) : count [toString n] = .ok n := by
  have hread : Text.readInt? (toString n).toList = some (Int64.ofInt n) := Text.readInt?_digits hle
  have hlt : n < 2 ^ 63 := Nat.lt_of_le_of_lt hle (by decide)
  have hback : (Int64.ofInt n).toInt = n := Int64.toInt_ofInt_of_le (by omega) (by omega)
  have hsome : (0 : Int) < n := by omega
  simp only [count, hread, hback, if_pos hsome, Int.toNat_natCast]

/-- A number that is written out is a word. -/
theorem isWord_toString (n : Nat) : IsWord (toString n) where
  filled := Text.digits_ne_nil n
  solid := by
    intro c hc
    exact Text.isBlank_of_mem_digits hc

/-- The command to take a number of steps. -/
theorem ofLine_next {n : Nat} (hpos : 1 ≤ n) (hle : n ≤ Text.greatestInt64) (waiting : Bool) :
    Command.ofLine waiting (":next " ++ toString n) = .ok (.next n) := by
  obtain ⟨argument, hread⟩ := ofLine_pair ":next" rfl (isWord_of_all (by decide) (by decide)) (isWord_toString n) waiting
  have hname : Command.ofName ":next" [toString n] argument = (count [toString n]).map Command.next := rfl
  rw [hname, count_digits hpos hle] at hread
  exact hread

/-- The command to undo a number of steps. -/
theorem ofLine_back {n : Nat} (hpos : 1 ≤ n) (hle : n ≤ Text.greatestInt64) (waiting : Bool) :
    Command.ofLine waiting (":back " ++ toString n) = .ok (.back n) := by
  obtain ⟨argument, hread⟩ := ofLine_pair ":back" rfl (isWord_of_all (by decide) (by decide)) (isWord_toString n) waiting
  have hname : Command.ofName ":back" [toString n] argument = (count [toString n]).map Command.back := rfl
  rw [hname, count_digits hpos hle] at hread
  exact hread

/-- The command to load a file. -/
theorem ofLine_load {path : String} (h : IsWord path) (waiting : Bool) :
    Command.ofLine waiting (":load " ++ path) = .ok (.load path) := by
  obtain ⟨argument, hread⟩ := ofLine_pair ":load" rfl (isWord_of_all (by decide) (by decide)) h waiting
  exact hread

/-- The command to start again. -/
theorem ofLine_restart (waiting : Bool) : Command.ofLine waiting ":restart" = .ok .restart := by
  cases waiting <;> rfl

/-! ## What a line that fails leaves -/

/-- The most steps of one run. -/
def runLimit (d : Debugger) : Nat := if 0 < d.maxSteps then d.maxSteps.toNat else defaultRunSteps

/-- The command that a line is. -/
def commandOf (d : Debugger) (line : String) : Except LineFault Command :=
  Command.ofLine (d.session.status == .waiting) line

/-- Of at most `most` steps one fails: what is left is the session after the steps before it, and the fault is that of the step. -/
def CutShort (d : Debugger) (most : Nat) (fault : Fault) (left : Debugger) : Prop :=
  ∃ k t f, k < most ∧ d.session.steps k = (t, k, none) ∧ t.canStep = true ∧ t.step = (t, some f) ∧ fault = .step f ∧
    left = { d with session := t }

/-- All steps of a run are taken and there are more to take: what is left is the session after them. -/
def RunsOut (d : Debugger) (fault : Fault) (left : Debugger) : Prop :=
  ∃ t, d.session.steps d.runLimit = (t, d.runLimit, none) ∧ t.canStep = true ∧ fault = .stepLimit d.runLimit ∧
    left = { d with session := t }

/-- An input is refused: no read waits and nothing is left changed, or the text is no number and is shown on the console. -/
def Refuses (d : Debugger) (raw : String) (fault : Fault) (left : Debugger) : Prop :=
  (d.session.now.pending = none ∧ fault = .input .notWaiting ∧ left = d) ∨
  ∃ w, d.session.now.pending = some w ∧ fault = .input (.notInteger raw w.name) ∧
    left = { d with session :=
      { d.session with now := { d.session.now with console := d.session.now.console ++ raw ++ "\n" } } }

/-- What a line leaves when it fails, by the command that it is: the debugger as it was, unless it was to take steps or to answer a
read. -/
def Leaves (d : Debugger) (fault : Fault) (left : Debugger) : Except LineFault Command → Prop
  | .ok (.next n) => d.CutShort n fault left
  | .ok .run => d.CutShort d.runLimit fault left ∨ d.RunsOut fault left
  | .ok (.input raw) => d.Refuses raw fault left
  | _ => left = d

variable {d : Debugger} {fault : Fault}

/-- Taking steps leaves the session after them, and fails as they do. -/
theorem next_eq (d : Debugger) (n : Nat) : (d.next n).debugger = { d with session := (d.session.steps n).1 } ∧
    (d.next n).fault = (d.session.steps n).2.2.map .step := by
  unfold next
  obtain ⟨t, k, failure⟩ := d.session.steps n
  cases failure with
  | none => exact ⟨rfl, rfl⟩
  | some f => exact ⟨rfl, rfl⟩

/-- Taking steps fails only where a step fails. -/
theorem cutShort_of_next {n : Nat} (h : (d.next n).fault = some fault) : d.CutShort n fault (d.next n).debugger := by
  obtain ⟨hdebugger, hfault⟩ := d.next_eq n
  rw [hfault] at h
  obtain ⟨f, hf, rfl⟩ := Option.map_eq_some_iff.1 h
  have hsteps : d.session.steps n = ((d.session.steps n).1, (d.session.steps n).2.1, some f) := Prod.ext rfl (Prod.ext rfl hf)
  obtain ⟨hk, htaken, hcan, hfails⟩ := Session.steps_of_failure hsteps
  exact ⟨_, _, f, hk, htaken, hcan, hfails, rfl, hdebugger⟩

/-- Running is taking as many steps as the limit allows; it fails when there are more to take. -/
theorem run_eq (d : Debugger) :
    d.run = if (d.next d.runLimit).fault.isNone ∧ (d.next d.runLimit).debugger.session.canStep then
      { d.next d.runLimit with fault := some (.stepLimit d.runLimit) } else d.next d.runLimit := rfl

/-- Running fails where a step fails, or at the limit. -/
theorem cutShort_or_runsOut_of_run (h : d.run.fault = some fault) :
    d.CutShort d.runLimit fault d.run.debugger ∨ d.RunsOut fault d.run.debugger := by
  rw [run_eq] at h ⊢
  by_cases hends : (d.next d.runLimit).fault.isNone ∧ (d.next d.runLimit).debugger.session.canStep
  · rw [if_pos hends] at h ⊢
    obtain ⟨hnone, hmore⟩ := hends
    obtain ⟨hdebugger, hfault⟩ := d.next_eq d.runLimit
    rw [hfault, Option.isNone_map, Option.isNone_iff_eq_none] at hnone
    rw [hdebugger] at hmore
    have hsteps : d.session.steps d.runLimit = ((d.session.steps d.runLimit).1, (d.session.steps d.runLimit).2.1, none) :=
      Prod.ext rfl (Prod.ext rfl hnone)
    -- no step failed and there is more to do, so all the allowed steps were taken
    have hall := Session.steps_of_canStep hsteps hmore
    refine Or.inr ⟨_, ?_, hmore, (Option.some.inj h).symm, hdebugger⟩
    rwa [hall] at hsteps
  · rw [if_neg hends] at h ⊢
    exact Or.inl (cutShort_of_next h)

/-- An input fails only where it is refused. -/
theorem refuses_of_input {raw : String} (h : (d.input raw).fault = some fault) : d.Refuses raw fault (d.input raw).debugger := by
  unfold input at h ⊢
  rcases d.session.supply_cases raw with ⟨hw, he⟩ | ⟨w, hw, _, he⟩ | ⟨w, n, _, _, he⟩
  · rw [he] at h ⊢
    exact Or.inl ⟨hw, (Option.some.inj h).symm, rfl⟩
  · rw [he] at h ⊢
    exact Or.inr ⟨w, hw, (Option.some.inj h).symm, rfl⟩
  · rw [he] at h
    cases h

/-- A file is refused, or its text is loaded. -/
theorem replace_cases (d : Debugger) (path : String) (content : Except Files.FileFault String) :
    (∃ fault, d.replace path content = d.fail fault) ∨
    (∃ text s, content = .ok text ∧ Session.load text = .ok s ∧ (d.replace path content).debugger = ⟨path, s, d.maxSteps⟩ ∧
      (d.replace path content).fault = none) := by
  unfold replace
  cases content with
  | error e => exact Or.inl ⟨_, rfl⟩
  | ok text =>
    dsimp only
    unfold Session.replace
    cases hload : Session.load text with
    | error e => exact Or.inl ⟨_, rfl⟩
    | ok s => exact Or.inr ⟨text, s, rfl, hload, rfl, rfl⟩

/-- Starting again changes nothing when it fails. -/
theorem restart_of_fault (h : d.restart.fault = some fault) : d.restart.debugger = d := by
  unfold restart Session.restart Session.replace at h ⊢
  cases hload : Session.load d.session.program.source with
  | error e => rfl
  | ok s =>
    rw [hload] at h
    cases h

/-- What a line that fails leaves. -/
theorem leaves_of_fault {folder : Files.Folder} {line : String} (h : (d.handle folder line).fault = some fault) :
    d.Leaves fault (d.handle folder line).debugger (d.commandOf line) := by
  unfold handle at h ⊢
  unfold commandOf
  cases hline : Command.ofLine (d.session.status == .waiting) line with
  | error e => exact rfl
  | ok c =>
    rw [hline] at h
    cases c with
    | next n => exact cutShort_of_next h
    | run => exact cutShort_or_runsOut_of_run h
    | input raw => exact refuses_of_input h
    | restart => exact restart_of_fault h
    | load path =>
      rcases d.replace_cases path (folder.read path) with ⟨e, he⟩ | ⟨_, _, _, _, _, hnone⟩
      · exact congrArg Reply.debugger he
      · cases hnone.symm.trans h
    | quit | help | back | list | trace | vars | console | state => cases h

/-! ## The text that was loaded last -/

/-- The text that a line loads, if it does. -/
def loadedText? (d : Debugger) (folder : Files.Folder) (line : String) : Option String :=
  match d.commandOf line with
  | .ok (.load path) => if (d.handle folder line).fault.isNone then (folder.read path).toOption else none
  | _ => none

/-- The debugger after lines, each with the folder as it is then. -/
def afterAll (d : Debugger) : List (Files.Folder × String) → Debugger
  | [] => d
  | (folder, line) :: given => (d.handle folder line).debugger.afterAll given

/-- The text that was loaded last after lines, when `text` was before them. -/
def lastText (d : Debugger) (text : String) : List (Files.Folder × String) → String
  | [] => text
  | (folder, line) :: given => (d.handle folder line).debugger.lastText ((d.loadedText? folder line).getD text) given

/-- The session is one of the program that a text loads, and the program keeps the text. -/
structure Holds (d : Debugger) (text : String) : Prop where
  source : d.session.program.source = text
  loads : Session.load text = .ok (.ofProgram d.session.program)

/-- A session that was just loaded. -/
theorem holds_of_load {text : String} (h : Session.load text = .ok d.session) : d.Holds text := by
  obtain ⟨p, hs, hparse, _⟩ := Session.parse_of_load h
  have hprogram : d.session.program = p := by rw [hs]; rfl
  refine ⟨?_, ?_⟩
  · rw [hprogram]
    exact Program.source_of_parse hparse
  · rw [hprogram, ← hs]
    exact h

variable {d' : Debugger} {text : String}

/-- What does not change the program keeps its text. -/
theorem Holds.of_program (h : d.Holds text) (hprogram : d'.session.program = d.session.program) : d'.Holds text := by
  refine ⟨?_, ?_⟩
  · rw [hprogram]
    exact h.source
  · rw [hprogram]
    exact h.loads

/-- Starting again never fails, and gives the session that the text loads. -/
theorem Holds.restart (h : d.Holds text) : d.restart.fault = none ∧ d.restart.debugger.name = d.name ∧
    Session.load text = .ok d.restart.debugger.session := by
  have hloads := h.loads
  unfold Debugger.restart Session.restart Session.replace
  rw [h.source, hloads]
  exact ⟨rfl, rfl, rfl⟩

/-- Taking steps keeps the program. -/
theorem program_next (d : Debugger) (n : Nat) : (d.next n).debugger.session.program = d.session.program := by
  rw [(d.next_eq n).1]
  exact d.session.program_steps n

/-- Running keeps the program. -/
theorem program_run (d : Debugger) : d.run.debugger.session.program = d.session.program := by
  rw [run_eq]
  split
  · exact d.program_next d.runLimit
  · exact d.program_next d.runLimit

/-- Answering a read keeps the program. -/
theorem program_input (d : Debugger) (raw : String) : (d.input raw).debugger.session.program = d.session.program := by
  unfold input
  rcases d.session.supply_cases raw with ⟨_, he⟩ | ⟨w, _, _, he⟩ | ⟨w, n, _, _, he⟩
  · rw [he, fail]
  · rw [he]
  · rw [he]

/-- Loading a file keeps the text that was loaded last, or replaces it by the text of the file. -/
theorem Holds.replace (h : d.Holds text) (path : String) (content : Except Files.FileFault String) :
    (d.replace path content).debugger.Holds
      ((if (d.replace path content).fault.isNone then content.toOption else none).getD text) := by
  rcases d.replace_cases path content with ⟨fault, he⟩ | ⟨loaded, s, hcontent, hload, hdebugger, hnone⟩
  · rw [he]
    exact h
  · rw [hdebugger, hnone, hcontent]
    exact holds_of_load hload

/-- A line keeps the text that was loaded last, or replaces it by the text that it loads. -/
theorem Holds.handle (h : d.Holds text) (folder : Files.Folder) (line : String) :
    (d.handle folder line).debugger.Holds ((d.loadedText? folder line).getD text) := by
  unfold loadedText? commandOf Debugger.handle
  cases hline : Command.ofLine (d.session.status == .waiting) line with
  | error e => exact h
  | ok c =>
    cases c with
    | next n => exact h.of_program (d.program_next n)
    | run => exact h.of_program d.program_run
    | input raw => exact h.of_program (d.program_input raw)
    | back n => exact h.of_program (d.session.program_undos n)
    | restart => exact holds_of_load h.restart.2.2
    | load path => exact h.replace path (folder.read path)
    | quit | help | list | trace | vars | console | state => exact h

/-- So do lines. -/
theorem Holds.afterAll (h : d.Holds text) (given : List (Files.Folder × String)) :
    (d.afterAll given).Holds (d.lastText text given) := by
  induction given generalizing d text with
  | nil => exact h
  | cons g given ih => exact ih (h.handle g.1 g.2)

/-! ## Lines for the program with the detour -/

/-- A debugger of the program with the detour. -/
def detour : Debugger := ⟨"a", .ofProgram Session.detourProgram, 5⟩

/-- Lines that reach the read of the program, with a file that is missing and a command that is unknown, and texts for the read. -/
def detourLines (raws : List String) : List (Files.Folder × String) :=
  (":next 2" :: ":load b" :: ":bogus" :: raws).map fun line => (.ofPaths [] [], line)

/-- The debugger where the read waits. -/
def detourAsked : Debugger := detour.afterAll (detourLines [])

/-- The debugger where a text has been refused and another one accepted. -/
def detourAnswered : Debugger := detour.afterAll (detourLines ["x", "0"])

theorem fault_detour_refused : (detourAsked.handle (.ofPaths [] []) "x").fault = some (.input (.notInteger "x" "A")) := rfl

theorem session_detourAnswered : detourAnswered.session = Session.detourGiven ["x", "0"] := rfl

/-- Of three more steps the second one fails. -/
theorem fault_detour_next : (detourAnswered.handle (.ofPaths [] []) ":next 3").fault =
    some (.step ⟨"4", ⟨5, 15⟩, .evaluation (.unknownVariable "B"), "step-4: print B"⟩) := by
  have hcan : (Session.detourGiven ["x", "0"]).canStep = true := rfl
  have hfirst : (Session.detourGiven ["x", "0"]).step = ((Session.detourGiven ["x", "0"]).run [.step], none) := by
    rw [Session.run_detour_passes]
    exact Session.step_detour_passes
  have hagain : ((Session.detourGiven ["x", "0"]).run [.step]).canStep = true := by
    rw [Session.run_detour_passes]
    rfl
  have hline : detourAnswered.handle (.ofPaths [] []) ":next 3" = detourAnswered.next 3 := rfl
  rw [hline, (detourAnswered.next_eq 3).2, session_detourAnswered]
  simp only [Session.steps, hcan, if_true, hfirst, hagain, Session.step_detour_fails, Option.map_some]

/-! ## Atomic commands -/

/-- Steps in two parts, when the first part does not fail, are steps at once. -/
theorem next_next {a b : Nat} (h : (d.next a).fault = none) :
    ((d.next a).debugger.next b).debugger = (d.next (a + b)).debugger ∧
      ((d.next a).debugger.next b).fault = (d.next (a + b)).fault := by
  obtain ⟨hdebugger, hfault⟩ := d.next_eq a
  rw [hfault, Option.map_eq_none_iff] at h
  have hfirst : d.session.steps a = ((d.session.steps a).1, (d.session.steps a).2.1, none) := Prod.ext rfl (Prod.ext rfl h)
  have hsteps := Session.steps_add hfirst b
  have hsecond := ({ d with session := (d.session.steps a).1 } : Debugger).next_eq b
  rw [hdebugger, hsecond.1, hsecond.2, (d.next_eq (a + b)).1, (d.next_eq (a + b)).2, hsteps]
  exact ⟨rfl, rfl⟩

/-- The lines of a debugger are atomic; `text` is the text that was loaded last. -/
structure Atomic (d : Debugger) (text : String) : Prop where
  /-- A line that fails leaves the debugger as it was, except that steps before a failing one or before the limit stay taken, and that
  the text of a refused input is shown. -/
  fails : ∀ folder line fault, (d.handle folder line).fault = some fault →
    d.Leaves fault (d.handle folder line).debugger (d.commandOf line)
  /-- A file that cannot be read, or whose text does not load, fails and changes nothing. -/
  refuses : ∀ folder path, IsWord path → (∀ content, folder.read path = .ok content → ∃ e, Session.load content = .error e) →
    (d.handle folder (":load " ++ path)).fault ≠ none ∧ (d.handle folder (":load " ++ path)).debugger = d
  /-- Starting again never fails, and gives the session that the text loads. -/
  restarts : ∀ folder, (d.handle folder ":restart").fault = none ∧ (d.handle folder ":restart").debugger.name = d.name ∧
    Session.load text = .ok (d.handle folder ":restart").debugger.session
  /-- Steps in two parts are steps at once, when the first part does not fail. -/
  next : ∀ folder a b, 1 ≤ a → 1 ≤ b → a + b ≤ Text.greatestInt64 → (d.handle folder (":next " ++ toString a)).fault = none →
    ((d.handle folder (":next " ++ toString a)).debugger.handle folder (":next " ++ toString b)).debugger =
        (d.handle folder (":next " ++ toString (a + b))).debugger ∧
      ((d.handle folder (":next " ++ toString a)).debugger.handle folder (":next " ++ toString b)).fault =
        (d.handle folder (":next " ++ toString (a + b))).fault
  /-- Undoing in two parts is undoing at once. -/
  back : ∀ folder a b, 1 ≤ a → 1 ≤ b → a + b ≤ Text.greatestInt64 →
    ((d.handle folder (":back " ++ toString a)).debugger.handle folder (":back " ++ toString b)).debugger =
      (d.handle folder (":back " ++ toString (a + b))).debugger

/-- A line that is a command, whether or not a read waits, is handled by carrying it out. -/
theorem handle_eq_exec {line : String} {c : Command} (h : ∀ waiting, Command.ofLine waiting line = .ok c) (d : Debugger)
    (folder : Files.Folder) : d.handle folder line = d.exec folder c := by
  rw [Debugger.handle, h]

/-- A debugger that holds the text that was loaded last has atomic lines. -/
theorem Holds.atomic (h : d.Holds text) : d.Atomic text where
  fails := by
    intro folder line fault hfault
    exact leaves_of_fault hfault
  refuses := by
    intro folder path hpath hcontent
    rw [handle_eq_exec (ofLine_load hpath), exec]
    rcases d.replace_cases path (folder.read path) with ⟨fault, he⟩ | ⟨content, s, hread, hload, _, _⟩
    · rw [he]
      exact ⟨Option.some_ne_none fault, rfl⟩
    · obtain ⟨e, herror⟩ := hcontent content hread
      cases herror.symm.trans hload
  restarts := by
    intro folder
    rw [handle_eq_exec ofLine_restart]
    exact h.restart
  next := by
    intro folder a b ha hb hab
    have hsum : 1 ≤ a + b := by omega
    rw [handle_eq_exec (ofLine_next ha (by omega)), handle_eq_exec (ofLine_next hb (by omega)),
      handle_eq_exec (ofLine_next hsum hab)]
    exact next_next
  back := by
    intro folder a b ha hb hab
    have hsum : 1 ≤ a + b := by omega
    rw [handle_eq_exec (ofLine_back ha (by omega)), handle_eq_exec (ofLine_back hb (by omega)),
      handle_eq_exec (ofLine_back hsum hab)]
    simp only [exec, Debugger.back, Session.undos_add]

/-- The lines of every debugger that starts with a loaded text are atomic, after any lines, in folders that may change between
them. -/
theorem commands_are_atomic {name text : String} {maxSteps : Int} {d : Debugger} (h : load name text maxSteps = .ok d)
    (given : List (Files.Folder × String)) : (d.afterAll given).Atomic (d.lastText text given) := by
  unfold load at h
  split at h
  · rename_i s hload
    obtain rfl := Except.ok.inj h
    have hholds : (⟨name, s, maxSteps⟩ : Debugger).Holds text := holds_of_load hload
    exact (hholds.afterAll given).atomic
  · cases h

/-- The lines of the program with the detour are atomic where an input is refused, and where steps are cut short by one that fails. -/
theorem commands_are_atomic_detour : load "a" Session.detourText 5 = .ok detour ∧
    (∃ fault, (detourAsked.handle (.ofPaths [] []) "x").fault = some fault ∧
      detourAsked.Refuses "x" fault (detourAsked.handle (.ofPaths [] []) "x").debugger) ∧
    (∃ fault, (detourAnswered.handle (.ofPaths [] []) ":next 3").fault = some fault ∧
      detourAnswered.CutShort 3 fault (detourAnswered.handle (.ofPaths [] []) ":next 3").debugger) ∧
    detourAnswered.Atomic Session.detourText := by
  have hload : load "a" Session.detourText 5 = .ok detour := by
    rw [load, Session.load_detourText]
    rfl
  have hasked : detourAsked.Atomic Session.detourText := commands_are_atomic hload (detourLines [])
  have hanswered : detourAnswered.Atomic Session.detourText := commands_are_atomic hload (detourLines ["x", "0"])
  refine ⟨hload, ⟨_, fault_detour_refused, ?_⟩, ⟨_, fault_detour_next, ?_⟩, hanswered⟩
  · exact hasked.fails _ _ _ fault_detour_refused
  · exact hanswered.fails _ _ _ fault_detour_next

end Debugger

end Stepwise
