import Stepwise.Proofs.Turns

/-!
# The console is written once

The console only grows, so the bytes that have been written are always its beginning, and each flush writes exactly what was
added. Where the sink is full, a flush writes what still fits and the run ends. The branch of `Stream.flush` for a console that has
become shorter is never taken in a run.
-/

namespace Stepwise.Run

/-- The stream that has written as much of a console as a sink of the given size takes. -/
def Stream.copy (limit : Nat) (console : String) : Stream :=
  ⟨⟨some limit, console.toByteArray.extract 0 (min limit console.toByteArray.size)⟩, min limit console.toByteArray.size⟩

/-- A beginning that is long enough is everything. -/
theorem extract_of_size_le {bytes : ByteArray} {n : Nat} (h : bytes.size ≤ n) : bytes.extract 0 n = bytes := by
  have hcut := ByteArray.extract_extract (a := bytes) (i := 0) (j := bytes.size) (k := 0) (l := n)
  rw [ByteArray.extract_zero_size, Nat.zero_add, Nat.zero_add, Nat.min_eq_right h, ByteArray.extract_zero_size] at hcut
  exact hcut

/-- A beginning that reaches into the second part is the first part and a beginning of the second. -/
theorem extract_append_of_le {a b : ByteArray} {n : Nat} (h : a.size ≤ n) :
    (a ++ b).extract 0 n = a ++ b.extract 0 (n - a.size) := by
  rw [ByteArray.extract_append, Nat.zero_sub, extract_of_size_le h]

/-- Flushing a console that has grown since all of it was written writes as much of the rest as fits. -/
theorem Stream.flush_copy {limit : Nat} {console : String} (hroom : console.toByteArray.size ≤ limit) (added : String) :
    (Stream.copy limit console).flush (console ++ added) =
      (Stream.copy limit (console ++ added), decide ((console ++ added).toByteArray.size ≤ limit)) := by
  simp only [Stream.flush, Stream.copy, String.toByteArray_append, ByteArray.size_append, Nat.min_eq_right hroom,
    ByteArray.extract_zero_size]
  generalize console.toByteArray = a at hroom
  generalize added.toByteArray = b
  rw [if_neg (show ¬ a.size + b.size < a.size by omega), extract_append_of_le (show a.size ≤ min limit (a.size + b.size) by omega)]
  by_cases hmore : a.size < a.size + b.size
  · rw [if_pos hmore, ByteArray.extract_append_eq_right rfl rfl]
    simp only [Sink.write, Sink.fits]
    have hcut : min limit (a.size + b.size) - a.size = min b.size (limit - a.size) := by omega
    have hend : min limit (a.size + b.size) = a.size + min b.size (limit - a.size) := by omega
    have hall : (min b.size (limit - a.size) == b.size) = decide (a.size + b.size ≤ limit) := by
      rw [Bool.beq_eq_decide_eq]
      exact decide_eq_decide.2 (by omega)
    rw [hcut, hend, hall]
  · have hempty : b = ByteArray.empty := ByteArray.size_eq_zero_iff.1 (by omega)
    subst hempty
    rw [if_neg hmore]
    simp [hroom]

/-- All of the console has been written, to a sink of the given size. -/
structure Copied (limit : Nat) (p : Progress) : Prop where
  stream : p.stream = Stream.copy limit p.session.now.console
  room : p.session.now.console.toByteArray.size ≤ limit

variable {name : String} {steps limit : Nat} {p : Progress} {x y : Spot} {t : Turn} {turns : List Turn} {e : Ending}

/-- Going on with a session whose console has grown writes as much of it as fits. -/
theorem Copied.flush (h : Copied limit p) {s : Session} {added : String}
    (hshows : s.now.console = p.session.now.console ++ added) :
    p.flush s = ({ p with session := s, stream := Stream.copy limit s.now.console },
      decide (s.now.console.toByteArray.size ≤ limit)) := by
  rw [Progress.flush, h.stream, hshows, Stream.flush_copy h.room]

/-- After a turn all of the console has been written. -/
theorem Goes.copied (hgo : Goes steps x t y) (h : Copied limit x.progress) : Copied limit y.progress := by
  cases hgo with
  | step below can does shows written =>
    rw [h.flush shows] at written ⊢
    exact ⟨rfl, of_decide_eq_true written⟩
  | taken lines short does written =>
    rw [h.flush (console_of_supply does (by simp))] at written ⊢
    exact ⟨rfl, of_decide_eq_true written⟩
  | refused lines short does written =>
    rw [h.flush (console_of_supply does (by simp))] at written ⊢
    exact ⟨rfl, of_decide_eq_true written⟩

/-- Before every turn all of the console has been written. -/
theorem Path.copied (hpath : Path steps x turns y) (h : Copied limit x.progress) : Copied limit y.progress := by
  induction hpath with
  | nil => exact h
  | cons go _ ih => exact ih (go.copied h)

/-- How the console stands at the end of a run: it has grown since the last turn, as much of it was written as the sink takes,
and the run ended for that reason exactly when this was not all. -/
structure Closed (limit : Nat) (before : Progress) (e : Ending) : Prop where
  grown : ∃ added, e.progress.session.now.console = before.session.now.console ++ added
  stream : e.progress.stream = Stream.copy limit e.progress.session.now.console
  fault : e.fault = some .console ↔ limit < e.progress.session.now.console.toByteArray.size

/-- A run that ends for another reason has written all of its console. -/
theorem Copied.closed (h : Copied limit e.progress) (hsame : e.progress.session.now.console = p.session.now.console)
    (hfault : e.fault ≠ some .console) : Closed limit p e where
  grown := ⟨"", by rw [hsame, String.append_empty]⟩
  stream := h.stream
  fault := ⟨fun hconsole => absurd hconsole hfault, fun hlt => absurd h.room (Nat.not_le.2 hlt)⟩

/-- A run that ends because its console cannot be written has written as much of it as fits. -/
theorem Copied.unwritten (h : Copied limit p) {s : Session} {added : String} (lines : List String)
    (hshows : s.now.console = p.session.now.console ++ added) (hunwritten : (p.flush s).2 = false) :
    Closed limit p ⟨(p.flush s).1, lines, some .console⟩ := by
  rw [h.flush hshows] at hunwritten ⊢
  exact ⟨⟨added, hshows⟩, rfl, fun _ => Nat.not_le.1 (of_decide_eq_false hunwritten), fun _ => rfl⟩

/-- How the console stands at the end of a run. -/
theorem Ends.closed (hend : Ends name steps x e) (h : Copied limit x.progress) : Closed limit x.progress e := by
  cases hend with
  | halted => exact h.closed rfl (by simp)
  | limited => exact Copied.closed ⟨h.stream, h.room⟩ rfl (by simp)
  | starved => exact h.closed rfl (by simp)
  | overlong => exact h.closed rfl (by simp)
  | failed =>
    rw [h.flush String.append_empty.symm]
    exact Copied.closed ⟨rfl, h.room⟩ rfl (by simp)
  | stepUnwritten below can unwritten =>
    obtain ⟨added, hshows⟩ := x.progress.session.console_step
    exact h.unwritten x.lines hshows unwritten
  | lineUnwritten waits lines short unwritten => exact h.unwritten _ (Session.console_supply waits _) unwritten

/-- Nothing has been written of the empty console. -/
theorem copied_start (program : Program) (lines : List String) (limit : Nat) :
    Copied limit (start name (Session.ofProgram program) lines (some limit)).progress where
  stream := by simp [start, Stream.toSink, Sink.empty, Stream.copy, Session.ofProgram, State.initial]
  room := Nat.zero_le limit

/-- What a run of a text that loads gives: the bytes that its loop has written, and after these at most the state that it was
asked for. Only the loop fails to write the console. -/
theorem run_of_load {text : String} {s : Session} (hload : Session.load text = .ok s) (name input : String) (maxSteps : Int)
    (dump : Bool) (outLimit : Option Nat) :
    (∃ dumped, (run name text input maxSteps dump outLimit).output =
        (ofSession name s (inputLines input) maxSteps outLimit).progress.stream.sink.bytes ++ dumped ∧
      (dump = false → dumped = ByteArray.empty)) ∧
    ((run name text input maxSteps dump outLimit).fault = some .console ↔
      (ofSession name s (inputLines input) maxSteps outLimit).fault = some .console) := by
  simp only [run, hload]
  generalize ofSession name s (inputLines input) maxSteps outLimit = e
  split
  · rename_i f hf
    exact ⟨⟨ByteArray.empty, ByteArray.append_empty.symm, fun _ => rfl⟩, by rw [hf]⟩
  · rename_i hf
    rw [hf]
    cases dump with
    | false => exact ⟨⟨ByteArray.empty, ByteArray.append_empty.symm, fun _ => rfl⟩, Iff.rfl⟩
    | true =>
      refine ⟨⟨_, rfl, by simp⟩, ?_⟩
      simp only [if_true]
      split <;> simp

/-- Every byte of the console is written exactly once. With an output that takes `limit` bytes, and at the end of the loop of a
run, the bytes written are the first ones of the console, as many as the output takes; a state that was asked for comes after them.
The run fails to write the console exactly when the console is longer. Before each turn all of the console has been written, and
from any turn to any later one, refused lines included, and to the end, where a step may have failed, the console only grows. -/
theorem console_written_once {text : String} {s : Session} (hload : Session.load text = .ok s) (name input : String)
    (maxSteps : Int) (dump : Bool) (limit : Nat) :
    let e := ofSession name s (inputLines input) maxSteps (some limit)
    let console := e.progress.session.now.console.toByteArray
    let outcome := run name text input maxSteps dump (some limit)
    let first := start name s (inputLines input) (some limit)
    e.progress.stream.sink.bytes = console.extract 0 (min limit console.size) ∧
    (∃ dumped, outcome.output = e.progress.stream.sink.bytes ++ dumped ∧ (dump = false → dumped = ByteArray.empty)) ∧
    (outcome.fault = some .console ↔ limit < console.size) ∧
    (∃ turns y, Path (stepLimit maxSteps) first turns y ∧ Ends name (stepLimit maxSteps) y e) ∧
    ∀ turns x, Path (stepLimit maxSteps) first turns x →
      x.progress.stream.sink.bytes = x.progress.session.now.console.toByteArray ∧
      (∀ more y, Path (stepLimit maxSteps) x more y →
        y.progress.session.now.console = x.progress.session.now.console ++ addedBy more) ∧
      (Ends name (stepLimit maxSteps) x e →
        ∃ added, e.progress.session.now.console = x.progress.session.now.console ++ added) := by
  intro e console outcome first
  obtain ⟨p, rfl, _⟩ := Session.regular_of_load hload
  have hfirst : Copied limit first.progress := copied_start p (inputLines input) limit
  obtain ⟨turns, y, hpath, hend⟩ := ofSession_eq_iff.1 (rfl : _ = e)
  obtain ⟨hout, hfault⟩ := run_of_load hload name input maxSteps dump (some limit)
  have hclosed := hend.closed (hpath.copied hfirst)
  refine ⟨congrArg (fun st : Stream => st.sink.bytes) hclosed.stream, hout, hfault.trans hclosed.fault, ⟨turns, y, hpath, hend⟩, ?_⟩
  intro turns x hx
  have hcopied := hx.copied hfirst
  refine ⟨?_, fun more y hmore => hmore.tells.console, fun hxend => (hxend.closed hcopied).grown⟩
  rw [hcopied.stream]
  exact extract_of_size_le (Nat.le_min.2 ⟨hcopied.room, Nat.le_refl _⟩)

/-- A refused line and a number are written to an output that takes three bytes: the console has four, and the last one is
refused. -/
theorem console_written_once_asking :
    let e := ofSession "ask" (.ofProgram askProgram) (inputLines "x\n7\n") 10 (some 3)
    Session.load askText = .ok (.ofProgram askProgram) ∧ e.progress.session.now.console = "x\n7\n" ∧
    e.progress.stream.sink.bytes = "x\n7\n".toByteArray.extract 0 3 ∧
    (run "ask" askText "x\n7\n" 10 true (some 3)).fault = some .console := by
  intro e
  have hconsole : e.progress.session.now.console = "x\n7\n" := by decide +kernel
  obtain ⟨hbytes, _, hfault, _⟩ := console_written_once load_askText "ask" "x\n7\n" 10 true 3
  refine ⟨load_askText, hconsole, ?_, ?_⟩
  · rw [← hconsole]
    rw [hbytes, hconsole]
    rfl
  · rw [hfault, hconsole]
    decide

end Stepwise.Run
