import Stepwise.Proofs.Turns

/-!
# Lines that are no numbers do not matter

A refused line changes nothing but the console, so a run on an input and the run on its numbers alone go side by side: every turn
that refuses a line is skipped, every other turn is taken by both. They end in the same way, with sessions that are alike.

`Feeds` is what the numbers do to a session, said without the loop: steps that succeed, and a line for each read. A run ends without a
fault exactly when the numbers feed the program to its stop within the steps that it may take.
-/

namespace Stepwise.Run

/-! ## The numbers of an input -/

/-- The line is a whole number, up to the blanks around it. -/
def isNumber (line : String) : Bool :=
  (Text.readInt? (Text.strip (lineText line).toList)).isSome

/-- The text of lines, each with its line feed. -/
def inputText (lines : List String) : String :=
  String.ofList (lines.flatMap fun line => line.toList ++ ['\n'])

/-- The input with only those of its lines that are whole numbers. -/
def numbersOnly (input : String) : String :=
  inputText ((inputLines input).filter isNumber)

/-- A line has no line feed. -/
theorem lineFeed_notMem {input line : String} (h : line ∈ inputLines input) : '\n' ∉ line.toList := by
  unfold inputLines at h
  obtain ⟨piece, hpiece, rfl⟩ := List.mem_map.1 h
  rw [String.toList_ofList]
  refine sep_notMem_of_mem_splitOn (?_ : piece ∈ input.toList.splitOn '\n')
  split at hpiece
  · exact List.dropLast_subset _ hpiece
  · exact hpiece

/-- The lines of the text of lines are these lines. -/
theorem inputLines_inputText {lines : List String} (h : ∀ line ∈ lines, '\n' ∉ line.toList) :
    inputLines (inputText lines) = lines := by
  have hlines : ∀ l ∈ lines.map String.toList, '\n' ∉ l := by
    intro l hl
    obtain ⟨line, hline, rfl⟩ := List.mem_map.1 hl
    exact h line hline
  have hpieces : (inputText lines).toList.splitOn '\n' = lines.map String.toList ++ [[]] := by
    rw [inputText, String.toList_ofList, ← splitOn_flatMap_lineFeed hlines, List.flatMap_map]
  simp [inputLines, hpieces]

/-- The lines of the numbers of an input are its lines that are numbers. -/
theorem inputLines_numbersOnly (input : String) : inputLines (numbersOnly input) = (inputLines input).filter isNumber :=
  inputLines_inputText fun _ hline => lineFeed_notMem (List.mem_of_mem_filter hline)

/-! ## Outputs that take everything -/

variable {name : String} {limit : Nat} {x x' y y' : Spot} {t : Turn} {turns : List Turn} {e e' : Ending} {p : Progress}

/-- The output takes everything. -/
def Progress.Open (p : Progress) : Prop := p.stream.sink.limit = none

/-- An output that takes everything takes what the console has gained. -/
theorem Progress.Open.flush (h : p.Open) (s : Session) : (p.flush s).2 = true ∧ (p.flush s).1.Open := by
  have hfits : ∀ n, p.stream.sink.fits n = n := by
    intro n
    simp only [Sink.fits, show p.stream.sink.limit = none from h]
  simp only [Progress.flush, Progress.Open, Stream.flush, Sink.write, hfits]
  generalize (if s.now.console.toByteArray.size < p.stream.written then 0 else p.stream.written) = start
  split
  · exact ⟨beq_self_eq_true _, h⟩
  · exact ⟨rfl, h⟩

/-- A run ends where its last turn left it, with an output that takes everything. -/
structure Rests (x : Spot) (e : Ending) : Prop where
  session : e.progress.session = x.progress.session
  steps : e.progress.steps = x.progress.steps
  unread : e.unread = x.lines
  takes : e.progress.Open

/-- A run whose output takes everything, and whose lines are short, ends where its last turn left it. -/
theorem Ends.rests (hend : Ends name limit x e) (h : x.progress.Open)
    (hlines : ∀ line ∈ x.lines, line.utf8ByteSize < lineLimit) : Rests x e := by
  cases hend with
  | halted => exact ⟨rfl, rfl, rfl, h⟩
  | limited => exact ⟨rfl, rfl, rfl, h⟩
  | failed => exact ⟨rfl, rfl, rfl, (h.flush _).2⟩
  | starved waits lines => exact ⟨rfl, rfl, lines.symm, h⟩
  | overlong waits lines long =>
    have hshort := hlines _ (lines ▸ List.mem_cons_self)
    omega
  | stepUnwritten below can unwritten =>
    rw [(h.flush _).1] at unwritten
    cases unwritten
  | lineUnwritten waits lines short unwritten =>
    rw [(h.flush _).1] at unwritten
    cases unwritten

/-! ## Two runs side by side -/

/-- A read takes a line that is a number, and refuses every other one. -/
theorem isNumber_of_supply {s t : Session} {line : String} {fault : Option InputFault}
    (h : s.supply (lineText line) = (t, fault)) (hfault : fault ≠ some .notWaiting) : isNumber line = fault.isNone := by
  unfold isNumber
  rcases s.supply_cases (lineText line) with ⟨_, hs⟩ | ⟨w, _, hn, hs⟩ | ⟨w, n, _, hn, hs⟩
  · rw [hs] at h
    exact absurd (Prod.mk.inj h).2.symm hfault
  · rw [hs] at h
    rw [hn, ← (Prod.mk.inj h).2]
    rfl
  · rw [hs] at h
    rw [hn, ← (Prod.mk.inj h).2]
    rfl

/-- A turn that reads a line refuses it exactly when it is no number. -/
theorem Goes.isRefused (hgo : Goes limit x t y) {line : String} (hline : t.line? = some line) :
    t.isRefused = !isNumber line := by
  cases hgo with
  | step => cases hline
  | taken lines short does =>
    obtain rfl := Option.some.inj hline
    rw [isNumber_of_supply does (by simp)]
    rfl
  | refused lines short does =>
    obtain rfl := Option.some.inj hline
    rw [isNumber_of_supply does (by simp)]
    rfl

/-- A path refuses exactly those of its lines that are no numbers. -/
theorem Path.isRefused (hpath : Path limit x turns y) :
    ∀ t ∈ turns, ∀ line, t.line? = some line → t.isRefused = !isNumber line := by
  induction hpath with
  | nil => simp
  | cons go _ ih =>
    intro t ht line hline
    rcases List.mem_cons.1 ht with rfl | ht
    · exact go.isRefused hline
    · exact ih t ht line hline

/-- A path on numbers refuses nothing. -/
theorem Path.kept_of_numbers (hpath : Path limit x turns y) (hnumbers : ∀ line ∈ x.lines, isNumber line = true) :
    ∀ t ∈ turns, t.isRefused = false := by
  intro t ht
  cases hline : t.line? with
  | none =>
    cases t with
    | step => rfl
    | taken => rfl
    | refused => cases hline
  | some line =>
    have hmem : line ∈ x.lines := by
      rw [hpath.tells.lines]
      exact List.mem_append_left _ (List.mem_filterMap.2 ⟨t, ht, hline⟩)
    rw [hpath.isRefused t ht line hline, hnumbers line hmem]
    rfl

/-- Two runs side by side: the second has the numbers of the first, and they came as far with alike sessions. -/
structure Twin (x x' : Spot) : Prop where
  lines : x'.lines = x.lines.filter isNumber
  session : x.progress.session.Alike x'.progress.session
  steps : x'.progress.steps = x.progress.steps
  first : x.progress.Open
  second : x'.progress.Open

/-- A turn that refuses a line is skipped, any other turn is taken by both runs. -/
theorem Twin.goes (h : Twin x x') (hgo : Goes limit x t y) :
    (t.isRefused = true ∧ Twin y x') ∨ (t.isRefused = false ∧ ∃ y', Goes limit x' t y' ∧ Twin y y') := by
  cases hgo with
  | @step s added below can does shows written =>
    obtain ⟨halike, hfault, added', hadded, hadded'⟩ := h.session.step
    rw [does] at halike hfault hadded
    obtain rfl : added = added' := (String.append_right_inj _).1 (shows.symm.trans hadded)
    have hcan : x'.progress.session.canStep = true := (h.session.congr Session.canStep fun _ => rfl).trans can
    have hgo' : Goes limit x' (.step added) _ :=
      .step (h.steps ▸ below) hcan (Prod.ext rfl hfault) hadded' (h.second.flush _).1
    exact Or.inr ⟨rfl, _, hgo', h.lines, halike, congrArg (· + 1) h.steps, (h.first.flush s).2, (h.second.flush _).2⟩
  | @taken line rest s lines short does written =>
    obtain ⟨halike, hfault⟩ := h.session.supply (lineText line)
    rw [does] at halike hfault
    have hlines : x'.lines = line :: rest.filter isNumber := by
      rw [h.lines, lines, List.filter_cons_of_pos (isNumber_of_supply does (by simp))]
    have hgo' : Goes limit x' (.taken line) _ := .taken hlines short (Prod.ext rfl hfault) (h.second.flush _).1
    exact Or.inr ⟨rfl, _, hgo', rfl, halike, h.steps, (h.first.flush s).2, (h.second.flush _).2⟩
  | @refused line name rest s lines short does written =>
    have hnumber : isNumber line = false := isNumber_of_supply does (by simp)
    have hlines : x'.lines = rest.filter isNumber := by
      rw [h.lines, lines, List.filter_cons_of_neg (by simp [hnumber])]
    have hsame : x.progress.session.Alike s := by
      have hrefused := Session.alike_of_refused (congrArg Prod.snd does)
      rwa [does] at hrefused
    exact Or.inl ⟨rfl, hlines, h.session.trans hsame.symm, h.steps, (h.first.flush s).2, h.second⟩

/-- The second run takes the turns of the first one that refuse nothing. -/
theorem Twin.path (h : Twin x x') (hpath : Path limit x turns y) :
    ∃ y', Path limit x' (turns.filter fun t => !t.isRefused) y' ∧ Twin y y' := by
  induction hpath generalizing x' with
  | nil => exact ⟨x', .nil, h⟩
  | cons go _ ih =>
    rcases h.goes go with ⟨hrefused, htwin⟩ | ⟨hkept, z', hgo, htwin⟩
    · rw [List.filter_cons_of_neg (by simp [hrefused])]
      exact ih htwin
    · rw [List.filter_cons_of_pos (by simp [hkept])]
      obtain ⟨y', hpath', htwin'⟩ := ih htwin
      exact ⟨y', .cons hgo hpath', htwin'⟩

/-- What a note says on the second output. -/
def Note.message? : Note → Option String
  | message text => some text
  | record _ => none

/-- Both runs end in the same way, and with the same closing notes, none of which is a message. -/
theorem Twin.ends (h : Twin x x') (hlines : ∀ line ∈ x.lines, line.utf8ByteSize < lineLimit) (hend : Ends name limit x e) :
    ∃ e' closing, Ends name limit x' e' ∧ e'.fault = e.fault ∧ closing.filterMap Note.message? = [] ∧
      e.progress.notes = x.progress.notes ++ closing ∧ e'.progress.notes = x'.progress.notes ++ closing := by
  have hpending : x'.progress.session.now.pending = x.progress.session.now.pending :=
    h.session.congr (fun u => u.now.pending) fun _ => rfl
  have hcan : x'.progress.session.canStep = x.progress.session.canStep := h.session.congr Session.canStep fun _ => rfl
  cases hend with
  | halted ready ended =>
    have hatEnd : x'.progress.session.atEnd = true := (h.session.congr Session.atEnd fun _ => rfl).trans ended
    exact ⟨_, [], .halted (hpending.trans ready) hatEnd, rfl, rfl, (List.append_nil _).symm, (List.append_nil _).symm⟩
  | limited reached can =>
    exact ⟨_, [limitNote name limit], .limited (h.steps.trans reached) (hcan.trans can), rfl, rfl, rfl, rfl⟩
  | @failed f below can fails written =>
    obtain ⟨_, hfault, _⟩ := h.session.step
    rw [fails] at hfault
    have hstep := Session.step_eq_of_failure hfault
    exact ⟨_, [], .failed (h.steps ▸ below) (hcan.trans can) hstep (h.second.flush _).1, rfl, rfl, (List.append_nil _).symm,
      (List.append_nil _).symm⟩
  | starved waits lines =>
    have hnil : x'.lines = [] := by rw [h.lines, lines, List.filter_nil]
    exact ⟨_, [], .starved (hpending.trans waits) hnil, rfl, rfl, (List.append_nil _).symm, (List.append_nil _).symm⟩
  | overlong waits lines long =>
    have hshort := hlines _ (lines ▸ List.mem_cons_self)
    omega
  | stepUnwritten below can unwritten =>
    rw [(h.first.flush _).1] at unwritten
    cases unwritten
  | lineUnwritten waits lines short unwritten =>
    rw [(h.first.flush _).1] at unwritten
    cases unwritten

/-! ## Feeding a session -/

/-- Lines feed a session: with the given number of steps, all of which succeed, and the given lines, each taken by a read that waits
for it, the session becomes another one. -/
inductive Feeds : Session → Nat → List String → Session → Prop where
  | done {s : Session} : Feeds s 0 [] s
  | step {s t u : Session} {n : Nat} {lines : List String} (can : s.canStep = true) (does : s.step = (t, none))
      (rest : Feeds t n lines u) : Feeds s (n + 1) lines u
  | line {s t u : Session} {n : Nat} {line : String} {lines : List String} (does : s.supply (lineText line) = (t, none))
      (rest : Feeds t n lines u) : Feeds s n (line :: lines) u

/-- Turns that refuse nothing feed the session. -/
theorem Path.feeds (hpath : Path limit x turns y) (hkept : ∀ t ∈ turns, t.isRefused = false) :
    Feeds x.progress.session (turns.countP Turn.isStep) (turns.filterMap Turn.line?) y.progress.session := by
  induction hpath with
  | nil => exact .done
  | cons go _ ih =>
    have hrest := ih fun t ht => hkept t (List.mem_cons_of_mem _ ht)
    cases go with
    | step below can does =>
      rw [List.countP_cons_of_pos rfl]
      exact .step can does hrest
    | taken lines short does => exact .line does hrest
    | refused => cases hkept _ List.mem_cons_self

/-- With an output that takes everything, a step that succeeds is a turn. -/
theorem Progress.Open.goes_step (hopen : x.progress.Open) {s : Session} (hbelow : x.progress.steps < limit)
    (hcan : x.progress.session.canStep = true) (hdoes : x.progress.session.step = (s, none)) :
    ∃ t y, Goes limit x t y ∧ y.progress.session = s ∧ y.lines = x.lines ∧ y.progress.steps = x.progress.steps + 1 ∧
      y.progress.Open := by
  obtain ⟨added, hadded⟩ := x.progress.session.console_step
  rw [hdoes] at hadded
  exact ⟨_, _, .step hbelow hcan hdoes hadded (hopen.flush s).1, rfl, rfl, rfl, (hopen.flush s).2⟩

/-- With an output that takes everything, a short line that is taken is a turn. -/
theorem Progress.Open.goes_taken (hopen : x.progress.Open) {s : Session} {line : String} {rest : List String}
    (hlines : x.lines = line :: rest) (hshort : line.utf8ByteSize < lineLimit)
    (hdoes : x.progress.session.supply (lineText line) = (s, none)) :
    ∃ t y, Goes limit x t y ∧ y.progress.session = s ∧ y.lines = rest ∧ y.progress.steps = x.progress.steps ∧
      y.progress.Open :=
  ⟨_, _, .taken hlines hshort hdoes (hopen.flush s).1, rfl, rfl, rfl, (hopen.flush s).2⟩

/-- A run whose lines begin with those that feed its session goes the way that they feed it. -/
theorem Feeds.path {s u : Session} {n : Nat} {lines rest : List String} (h : Feeds s n lines u) (hs : x.progress.session = s)
    (hlines : x.lines = lines ++ rest) (hsteps : x.progress.steps + n ≤ limit) (hopen : x.progress.Open)
    (hshort : ∀ line ∈ lines, line.utf8ByteSize < lineLimit) :
    ∃ turns y, Path limit x turns y ∧ y.progress.session = u := by
  induction h generalizing x with
  | done => exact ⟨[], x, .nil, hs⟩
  | step can does _ ih =>
    subst hs
    obtain ⟨t, y, hgo, hy, hsame, hmore, hyopen⟩ := hopen.goes_step (show x.progress.steps < limit by omega) can does
    obtain ⟨turns, z, hpath, hz⟩ := ih hy (hsame.trans hlines) (by omega) hyopen hshort
    exact ⟨t :: turns, z, .cons hgo hpath, hz⟩
  | line does _ ih =>
    subst hs
    obtain ⟨t, y, hgo, hy, hrest, hsame, hyopen⟩ := hopen.goes_taken hlines (hshort _ List.mem_cons_self) does
    obtain ⟨turns, z, hpath, hz⟩ := ih hy hrest (by omega) hyopen fun l hl => hshort l (List.mem_cons_of_mem _ hl)
    exact ⟨t :: turns, z, .cons hgo hpath, hz⟩

/-- A session has the status of its end exactly when it waits for nothing and is at its end. -/
theorem status_eq_halted_iff (s : Session) : s.status = .halted ↔ s.now.pending = none ∧ s.atEnd = true := by
  unfold Session.status
  cases s.now.pending with
  | some w => simp
  | none =>
    cases s.atEnd with
    | true => simp
    | false => cases s.history.isEmpty <;> simp

/-- A run ends without a fault exactly when its session has the status of its end. -/
theorem Ends.fault_eq_none_iff (hend : Ends name limit x e) : e.fault = none ↔ x.progress.session.status = .halted := by
  rw [status_eq_halted_iff]
  cases hend with
  | halted ready ended => simp [ready, ended]
  | limited reached can => simp [(Session.ready_of_canStep can).2]
  | failed below can => simp [(Session.ready_of_canStep can).2]
  | stepUnwritten below can => simp [(Session.ready_of_canStep can).2]
  | starved waits => simp [waits]
  | overlong waits => simp [waits]
  | lineUnwritten waits => simp [waits]

/-- In a run of a loaded text the session is at the end exactly when its program has stopped. -/
theorem Path.status_iff {text : String} {s : Session} (hload : Session.load text = .ok s) {lines : List String}
    {outLimit : Option Nat} (hpath : Path limit (start name s lines outLimit) turns y) :
    y.progress.session.status = .halted ↔ y.progress.session.now.halted = true := by
  rw [hpath.tells.session]
  exact (Session.sound_of_load hload _).status

/-- The run on numbers ends without a fault exactly when the numbers feed the program to its stop. -/
theorem fault_eq_none_iff_feeds {text : String} {s : Session} (hload : Session.load text = .ok s) (name : String)
    (numbers : List String) (hnumbers : ∀ line ∈ numbers, isNumber line = true)
    (hlines : ∀ line ∈ numbers, line.utf8ByteSize < lineLimit) (maxSteps : Int) :
    (ofSession name s numbers maxSteps none).fault = none ↔
      ∃ n lines t, Feeds s n lines t ∧ n ≤ stepLimit maxSteps ∧ lines <+: numbers ∧ t.now.halted = true := by
  constructor
  · intro hfault
    obtain ⟨turns, y, hpath, hend⟩ := ofSession_eq_iff.1 (rfl : ofSession name s numbers maxSteps none = _)
    have hkept := hpath.kept_of_numbers hnumbers
    have hhalted := (hpath.status_iff hload).1 (hend.fault_eq_none_iff.1 hfault)
    exact ⟨_, _, _, hpath.feeds hkept, hpath.countP_isStep_le, ⟨y.lines, hpath.tells.lines.symm⟩, hhalted⟩
  · rintro ⟨n, lines, t, hfeeds, hn, ⟨rest, hrest⟩, hhalted⟩
    have hsteps : 0 + n ≤ stepLimit maxSteps := by omega
    obtain ⟨turns, y, hpath, rfl⟩ := hfeeds.path (x := start name s numbers none) rfl hrest.symm hsteps rfl
      fun l hl => hlines l (hrest ▸ List.mem_append_left _ hl)
    obtain ⟨hready, hended⟩ := (status_eq_halted_iff _).1 ((hpath.status_iff hload).2 hhalted)
    rw [ofSession_eq_iff.2 ⟨turns, y, hpath, .halted hready hended⟩]

/-! ## Runs on all lines and on the numbers -/

/-- The message of a turn that refuses a line. -/
def Turn.complaint? : Turn → Option String
  | refused line name => some (InputFault.notInteger (lineText line) name).message
  | _ => none

/-- The messages of a turn are the one on the line that it refuses. -/
theorem message?_notes (turns : List Turn) :
    (turns.flatMap Turn.notes).filterMap Note.message? = turns.filterMap Turn.complaint? := by
  induction turns with
  | nil => rfl
  | cons t turns ih =>
    rw [List.flatMap_cons, List.filterMap_append, ih]
    cases t <;> rfl

/-- Turns that refuse nothing note nothing. -/
theorem notes_kept (turns : List Turn) : (turns.filter fun t => !t.isRefused).flatMap Turn.notes = [] := by
  rw [List.flatMap_eq_nil_iff]
  intro t ht
  cases t with
  | refused => simp [Turn.isRefused] at ht
  | step => rfl
  | taken => rfl

/-- What a run gives whose output takes everything: the fault of its loop, and after the notes of the loop at most one record. -/
theorem run_of_open {text : String} {s : Session} (hload : Session.load text = .ok s) (name input : String) (maxSteps : Int)
    (dump : Bool) (hopen : (ofSession name s (inputLines input) maxSteps none).progress.Open) :
    (run name text input maxSteps dump none).fault = (ofSession name s (inputLines input) maxSteps none).fault ∧
    (run name text input maxSteps dump none).notes = (ofSession name s (inputLines input) maxSteps none).progress.notes ++
      if (ofSession name s (inputLines input) maxSteps none).fault.isNone then
        [.record (fileRecord "steptrace: program halted" name (ofSession name s (inputLines input) maxSteps none).progress.steps)]
      else [] := by
  simp only [run, hload]
  generalize ofSession name s (inputLines input) maxSteps none = e at hopen
  split
  · rename_i f hf
    simp [hf]
  · rename_i hf
    cases dump with
    | false => simp [hf]
    | true => simp [hf, Sink.write, Sink.fits, show e.progress.stream.sink.limit = none from hopen]

/-- At the start, the run on the numbers of an input stands beside the run on the input. -/
theorem twin_start (name : String) (s : Session) (input : String) :
    Twin (start name s (inputLines input) none) (start name s (inputLines (numbersOnly input)) none) where
  lines := by
    simp only [start]
    exact inputLines_numbersOnly input
  session := by simp only [start, Session.Alike]
  steps := by simp only [start]
  first := by simp only [start, Progress.Open, Stream.toSink, Sink.empty]
  second := by simp only [start, Progress.Open, Stream.toSink, Sink.empty]

/-- The two runs of a session, on an input and on its numbers, with an output that takes everything: the turns of the first, where
both ended, and the notes that both ended with. -/
structure SideBySide (name : String) (limit : Nat) (first second : Spot) (e clean : Ending) (turns : List Turn) (y y' : Spot)
    (closing : List Note) : Prop where
  path : Path limit first turns y
  ends : Ends name limit y e
  cleanPath : Path limit second (turns.filter fun t => !t.isRefused) y'
  twin : Twin y y'
  rests : Rests y e
  cleanRests : Rests y' clean
  fault : clean.fault = e.fault
  silent : closing.filterMap Note.message? = []
  notes : e.progress.notes = y.progress.notes ++ closing
  cleanNotes : clean.progress.notes = y'.progress.notes ++ closing

/-- The two runs go side by side to their ends. -/
theorem sideBySide (name : String) (s : Session) (input : String) (maxSteps : Int)
    (hlines : ∀ line ∈ inputLines input, line.utf8ByteSize < lineLimit) :
    ∃ turns y y' closing, SideBySide name (stepLimit maxSteps) (start name s (inputLines input) none)
      (start name s (inputLines (numbersOnly input)) none) (ofSession name s (inputLines input) maxSteps none)
      (ofSession name s (inputLines (numbersOnly input)) maxSteps none) turns y y' closing := by
  obtain ⟨turns, y, hpath, hend⟩ :=
    ofSession_eq_iff.1 (rfl : ofSession name s (inputLines input) maxSteps none = _)
  obtain ⟨y', hpath', htwin⟩ := (twin_start name s input).path hpath
  have hshort : ∀ line ∈ y.lines, line.utf8ByteSize < lineLimit := by
    intro line hline
    have hall : inputLines input = turns.filterMap Turn.line? ++ y.lines := hpath.tells.lines
    exact hlines line (hall ▸ List.mem_append_right _ hline)
  obtain ⟨e', closing, hend', hfault, hsilent, hnotes, hnotes'⟩ := htwin.ends hshort hend
  obtain rfl := ofSession_eq_iff.2 ⟨_, y', hpath', hend'⟩
  have hshort' : ∀ line ∈ y'.lines, line.utf8ByteSize < lineLimit := by
    intro line hline
    rw [htwin.lines] at hline
    exact hshort line (List.mem_of_mem_filter hline)
  exact ⟨turns, y, y', closing, hpath, hend, hpath', htwin, hend.rests htwin.first hshort,
    hend'.rests htwin.second hshort', hfault, hsilent, hnotes, hnotes'⟩

/-- The two runs end with alike sessions. -/
theorem SideBySide.alike {closing : List Note} (h : SideBySide name limit x x' e e' turns y y' closing) :
    e.progress.session.Alike e'.progress.session := by
  rw [h.rests.session, h.cleanRests.session]
  exact h.twin.session

/-- The two runs take the same number of steps. -/
theorem SideBySide.steps {closing : List Note} (h : SideBySide name limit x x' e e' turns y y' closing) :
    e'.progress.steps = e.progress.steps := by
  rw [h.rests.steps, h.cleanRests.steps]
  exact h.twin.steps

/-- What the two runs give: the same fault, and notes that differ in those on the refused lines. -/
theorem SideBySide.outcomes {text input : String} {s : Session} {maxSteps : Int} {closing : List Note}
    (h : SideBySide name limit (start name s (inputLines input) none) (start name s (inputLines (numbersOnly input)) none)
      (ofSession name s (inputLines input) maxSteps none) (ofSession name s (inputLines (numbersOnly input)) maxSteps none)
      turns y y' closing)
    (hload : Session.load text = .ok s) (dump : Bool) :
    (run name text (numbersOnly input) maxSteps dump none).fault = (run name text input maxSteps dump none).fault ∧
    ∃ last, last.filterMap Note.message? = [] ∧
      (run name text input maxSteps dump none).notes =
        (start name s (inputLines input) none).progress.notes ++ turns.flatMap Turn.notes ++ last ∧
      (run name text (numbersOnly input) maxSteps dump none).notes =
        (start name s (inputLines input) none).progress.notes ++ last := by
  obtain ⟨hfault, hnotes⟩ := run_of_open hload name input maxSteps dump h.rests.takes
  obtain ⟨hfault', hnotes'⟩ := run_of_open hload name (numbersOnly input) maxSteps dump h.cleanRests.takes
  rw [h.fault, h.steps, h.cleanNotes, h.cleanPath.tells.notes, notes_kept, List.append_nil] at hnotes'
  rw [h.notes, h.path.tells.notes] at hnotes
  refine ⟨by rw [hfault', hfault, h.fault], closing ++ _, ?_, by rw [hnotes, List.append_assoc], by rw [hnotes', List.append_assoc]; rfl⟩
  rw [List.filterMap_append, h.silent, List.nil_append]
  split <;> rfl

/-- A run ends, and lines that are no numbers do not matter. For a text that loads, a positive limit of steps, an input whose lines
can all be read and an output that takes everything:
- the loop makes a finite list of turns and then ends; it takes no more steps than the limit, and supplies each line at most once, in
  their order;
- the run has no fault exactly when the numbers among the lines, fed in their order, take the program to its stop within the limit;
- on the numbers alone the run has the same fault or none, and ends with the same variables, trace, step index and undo depth;
- the consoles differ in the lines that were refused, and the notes in those on these lines: one message for each of them. -/
theorem run_ends_and_ignores_refused_lines {text : String} {s : Session} (hload : Session.load text = .ok s) (name input : String)
    {maxSteps : Int} (hmax : 0 < maxSteps) (hlines : ∀ line ∈ inputLines input, line.utf8ByteSize < lineLimit) (dump : Bool) :
    let e := ofSession name s (inputLines input) maxSteps none
    let clean := ofSession name s (inputLines (numbersOnly input)) maxSteps none
    let outcome := run name text input maxSteps dump none
    let cleaned := run name text (numbersOnly input) maxSteps dump none
    (∃ turns y closing,
      (Path maxSteps.toNat (start name s (inputLines input) none) turns y ∧ Ends name maxSteps.toNat y e ∧
        e.progress.session = s.run (turns.map Turn.call) ∧ turns.countP Turn.isStep = e.progress.steps ∧
        e.progress.steps ≤ maxSteps.toNat ∧ turns.filterMap Turn.line? ++ e.unread = inputLines input) ∧
      (∀ t ∈ turns, ∀ line, t.line? = some line → t.isRefused = !isNumber line) ∧
      e.progress.session.now.console = addedBy turns ∧
      clean.progress.session.now.console = addedBy (turns.filter fun t => !t.isRefused) ∧
      outcome.notes = (start name s (inputLines input) none).progress.notes ++ turns.flatMap Turn.notes ++ closing ∧
      cleaned.notes = (start name s (inputLines input) none).progress.notes ++ closing ∧
      outcome.notes.filterMap Note.message? = turns.filterMap Turn.complaint? ∧
      cleaned.notes.filterMap Note.message? = []) ∧
    (outcome.fault = none ↔ ∃ n lines t, Feeds s n lines t ∧ n ≤ maxSteps.toNat ∧
      lines <+: (inputLines input).filter isNumber ∧ t.now.halted = true) ∧
    inputLines (numbersOnly input) = (inputLines input).filter isNumber ∧ cleaned.fault = outcome.fault ∧
    clean.progress.session.now.vars = e.progress.session.now.vars ∧
    clean.progress.session.now.trace = e.progress.session.now.trace ∧
    clean.progress.session.now.pc = e.progress.session.now.pc ∧
    clean.progress.session.undoDepth = e.progress.session.undoDepth := by
  intro e clean outcome cleaned
  have hlimit : stepLimit maxSteps = maxSteps.toNat := if_pos hmax
  rw [← hlimit]
  obtain ⟨turns, y, y', closing, h⟩ := sideBySide name s input maxSteps hlines
  obtain ⟨hfault, last, hsilent, hnotes, hnotes'⟩ := h.outcomes hload dump
  have htells := h.path.tells
  have hempty : s.now.console = "" := by
    obtain ⟨p, rfl, _⟩ := Session.regular_of_load hload
    rfl
  have hstop := fault_eq_none_iff_feeds hload name ((inputLines input).filter isNumber)
    (fun line hline => (List.mem_filter.1 hline).2) (fun line hline => hlines line (List.mem_of_mem_filter hline)) maxSteps
  refine ⟨⟨turns, y, last, ⟨h.path, h.ends, ?_, ?_, ?_, ?_⟩, h.path.isRefused, ?_, ?_, hnotes, hnotes', ?_, ?_⟩, ?_,
    inputLines_numbersOnly input, hfault, ?_⟩
  · exact h.rests.session.trans htells.session
  · exact (Nat.zero_add _).symm.trans (htells.steps.symm.trans h.rests.steps.symm)
  · exact h.rests.steps ▸ h.path.steps_le (Nat.zero_le _)
  · rw [h.rests.unread]
    exact htells.lines.symm
  · rw [h.rests.session, htells.console]
    exact congrArg (· ++ addedBy turns) hempty |>.trans String.empty_append
  · rw [h.cleanRests.session, h.cleanPath.tells.console]
    exact congrArg (· ++ addedBy _) hempty |>.trans String.empty_append
  · rw [hnotes, List.filterMap_append, List.filterMap_append, message?_notes, hsilent, List.append_nil]
    rfl
  · rw [hnotes', List.filterMap_append, hsilent, List.append_nil]
    rfl
  · rw [← hfault, (run_of_open hload name _ maxSteps dump h.cleanRests.takes).1, inputLines_numbersOnly]
    exact hstop
  · have halike := h.alike
    exact ⟨halike.congr (fun u => u.now.vars) fun _ => rfl, halike.congr (fun u => u.now.trace) fun _ => rfl,
      halike.congr (fun u => u.now.pc) fun _ => rfl, halike.congr Session.undoDepth fun u => by simp [Session.muted, Session.undoDepth]⟩

/-- Two lines that are no numbers, one of them too great for a number, are refused before the read takes its number. -/
theorem run_ends_and_ignores_refused_lines_asking :
    Session.load askText = .ok (.ofProgram askProgram) ∧
    inputLines "x\n9223372036854775808\n 7\r\nrest" = ["x", "9223372036854775808", " 7\r", "rest"] ∧
    numbersOnly "x\n9223372036854775808\n 7\r\nrest" = " 7\r\n" ∧
    (run "ask" askText " 7\r\n" 3 false none).fault = none ∧
    (run "ask" askText "x\n9223372036854775808\n 7\r\nrest" 3 false none).fault = none ∧
    (ofSession "ask" (.ofProgram askProgram) (inputLines "x\n9223372036854775808\n 7\r\nrest") 3 none).progress.session.now.vars =
      Env.single "N" (.int 7) := by
  have hinput : inputLines "x\n9223372036854775808\n 7\r\nrest" = ["x", "9223372036854775808", " 7\r", "rest"] := by
    decide +kernel
  have hnumbers : numbersOnly "x\n9223372036854775808\n 7\r\nrest" = " 7\r\n" := by decide +kernel
  have hclean : (run "ask" askText " 7\r\n" 3 false none).fault = none := by
    rw [run, load_askText]
    decide +kernel
  have hvars : (ofSession "ask" (.ofProgram askProgram) (inputLines " 7\r\n") 3 none).progress.session.now.vars =
      Env.single "N" (.int 7) := by decide +kernel
  have hshort : ∀ line ∈ inputLines "x\n9223372036854775808\n 7\r\nrest", line.utf8ByteSize < lineLimit := by
    rw [hinput]
    decide
  obtain ⟨_, _, _, hfault, hsame, _⟩ :=
    run_ends_and_ignores_refused_lines load_askText "ask" "x\n9223372036854775808\n 7\r\nrest" (by decide : (0 : Int) < 3)
      hshort false
  rw [hnumbers] at hfault hsame
  exact ⟨load_askText, hinput, hnumbers, hclean, hfault.symm.trans hclean, hsame.symm.trans hvars⟩

end Stepwise.Run
