import Stepwise.Proofs.Control

/-!
# The journal of a run

A session keeps its rows and its console, but not which step they come from or what was supplied to it. The journal of a run
does: it has one deed for each step that was carried out and not undone, with the node that was executed and, in their order, the
rows that were added and the texts that were supplied since. A step adds a deed, undo takes the last one away, and an input belongs
to the deed of the read that waits for it.

`journal_accounts` says that the journal accounts for the session: its rows are the trace, its texts the console, and the changes
of its rows the variables; and every row was recorded while the cursor stood on the node of its deed, under the cursor's label.
-/

namespace Stepwise

/-- Something that shows in a session: a row of the trace, or a text that was supplied to a waiting read. -/
inductive Event where
  | row (r : Row)
  | input (raw : String)
  deriving DecidableEq, Repr

namespace Event

/-- The row of an event. -/
def row? : Event → Option Row
  | row r => some r
  | input _ => none

/-- What an event puts on the console: the output of its row, or the text and a line break. -/
def shown : Event → String
  | row r => r.output
  | input raw => raw ++ "\n"

end Event

/-- What events put on the console, one after the other. -/
def shownBy : List Event → String
  | [] => ""
  | e :: es => e.shown ++ shownBy es

/-- The variables that rows leave behind: their changes, made one after the other from the empty environment. -/
def replay (rows : List Row) : Env :=
  rows.foldl (fun env r => env.update r.changed) Env.empty

/-- A step that was carried out: the node that was executed, and what has shown since. -/
structure Deed where
  node : Node
  events : List Event

/-- What has shown in a session with the given deeds, the last deed first, in its order. -/
def eventsOf (deeds : List Deed) : List Event :=
  deeds.reverse.flatMap Deed.events

namespace Session

/-- The rows that a call adds to the trace. -/
def newRows (s : Session) (c : Call) : List Row :=
  (s.apply c).now.trace.drop s.now.trace.length

/-- The deeds after a call. Only a step that is carried out is a deed, and only an input that is waited for shows. -/
def note (s : Session) (deeds : List Deed) : Call → List Deed
  | .step =>
    match s.focus? with
    | none => deeds
    | some f =>
      if s.canStep && s.step.2.isNone then ⟨f.node, (s.newRows .step).map .row⟩ :: deeds else deeds
  | .undo => deeds.tail
  | .supply raw =>
    match s.now.pending, deeds with
    | some _, d :: ds => { d with events := d.events ++ .input raw :: (s.newRows (.supply raw)).map .row } :: ds
    | _, _ => deeds

/-- The deeds after a run, the last one first. -/
def journal (s : Session) (deeds : List Deed) : List Call → List Deed
  | [] => deeds
  | c :: cs => (s.apply c).journal (s.note deeds c) cs

end Session

/-! ## Lists of events and rows -/

@[simp]
theorem shownBy_append (a b : List Event) : shownBy (a ++ b) = shownBy a ++ shownBy b := by
  induction a with
  | nil => simp [shownBy]
  | cons e a ih => simp [shownBy, ih, String.append_assoc]

@[simp]
theorem eventsOf_cons (d : Deed) (ds : List Deed) : eventsOf (d :: ds) = eventsOf ds ++ d.events := by
  simp [eventsOf]

@[simp]
theorem filterMap_row?_map (rows : List Row) : (rows.map Event.row).filterMap Event.row? = rows := by
  induction rows with
  | nil => rfl
  | cons r rows ih => simp [Event.row?, ih]

@[simp]
theorem replay_append (a b : List Row) :
    replay (a ++ b) = b.foldl (fun env r => env.update r.changed) (replay a) := by
  simp [replay]

/-! ## What an action adds -/

namespace State

/-- `st'` is `st` with its cursor elsewhere. -/
def Moved (st st' : State) : Prop :=
  ∃ pc frames sub, st' = { st with pc := pc, frames := frames, sub := sub }

variable {p : Program} {st st' : State} {f : Focus}

/-- Settling moves only the cursor. -/
theorem moved_settle (st : State) : st.Moved st.settle := by
  unfold settle
  split
  · exact ⟨_, _, _, rfl⟩
  · exact ⟨_, _, _, rfl⟩

/-- Moving to the next item moves only the cursor. -/
theorem moved_nextItem (st : State) : st.Moved st.nextItem := by
  unfold nextItem
  split
  · exact ⟨_, _, _, rfl⟩
  · exact ⟨_, _, _, rfl⟩

/-- Passing moves only the cursor. -/
theorem moved_pass (st : State) (labels : Nat) : st.Moved (st.pass labels) := by
  obtain ⟨pc, frames, sub, hnext⟩ := moved_nextItem st
  unfold pass
  rw [hnext]
  obtain ⟨pc', frames', sub', hsettle⟩ := moved_settle { st with pc := pc, frames := frames, sub := st.sub + labels }
  exact ⟨pc', frames', sub', hsettle⟩

/-- Entering a block moves only the cursor. -/
theorem moved_enter (st : State) (block : List Node) : st.Moved (st.enter block) := by
  obtain ⟨pc, frames, sub, hnext⟩ := moved_nextItem st
  unfold enter
  rw [hnext]
  obtain ⟨pc', frames', sub', hsettle⟩ := moved_settle { st with pc := pc, frames := ⟨block, 0⟩ :: frames, sub := sub }
  exact ⟨pc', frames', sub', hsettle⟩

/-- Moving the cursor does not change what is waited for. -/
theorem Moved.pending (h : st.Moved st') : st'.pending = st.pending := by
  obtain ⟨pc, frames, sub, rfl⟩ := h
  rfl

/-- A row that fits the node it was recorded for: the node is an action, only a print has output, and nothing but the name that
the node binds is changed. -/
structure RowOf (node : Node) (r : Row) : Prop where
  action : ∃ place a, node = .act place a
  output : (∀ place e, node ≠ .act place (.print e)) → r.output = ""
  changed : ∀ name, r.changed.get? name ≠ none → node.name? = some name

/-- From `st` to `st'` the given rows were added to the trace under one label, all fit one node, and they account for what was
added to the console and changed in the variables. -/
structure Adds (node : Node) (label : String) (st st' : State) (rows : List Row) : Prop where
  trace : st'.trace = st.trace ++ rows
  console : st'.console = st.console ++ shownBy (rows.map .row)
  vars : st'.vars = rows.foldl (fun env r => env.update r.changed) st.vars
  fits : ∀ r ∈ rows, RowOf node r ∧ r.label = label

/-- Moving the cursor adds nothing. -/
theorem Moved.adds (h : st.Moved st') (node : Node) (label : String) : Adds node label st st' [] := by
  obtain ⟨pc, frames, sub, rfl⟩ := h
  exact ⟨by simp [State.trace], by simp [shownBy], rfl, by simp⟩

/-- Recording a row adds it, when the console and the variables have changed as the row says; then the cursor may move. -/
theorem Moved.adds_record {mid : State} {r : Row} {node : Node} (h : (mid.record r.label r.output r.changed).Moved st')
    (hrows : mid.rows = st.rows) (hconsole : mid.console = st.console ++ r.output)
    (hvars : mid.vars = st.vars.update r.changed) (hr : RowOf node r) : Adds node r.label st st' [r] := by
  obtain ⟨pc, frames, sub, rfl⟩ := h
  refine ⟨?_, ?_, hvars, by simpa using hr⟩
  · simp [State.trace, record, hrows]
  · simp [record, hconsole, shownBy, Event.shown]

/-- An environment with one binding binds no other name. -/
theorem eq_of_get?_single {name other : String} {v : Value} (h : (Env.single name v).get? other ≠ none) : other = name := by
  by_cases heq : other = name
  · exact heq
  · have hb : (other == name) = false := by simpa using heq
    simp [Env.single, Env.get?, List.lookup_cons, hb] at h

/-- An executed action adds at most one row, under the label of the cursor. -/
theorem adds_of_exec (h : st.exec p f = .ok st') : ∃ rows, Adds f.node f.label st st' rows := by
  cases executes_of_exec h with
  | print node value =>
    refine ⟨_, Moved.adds_record (r := ⟨f.label, _, Env.empty⟩) (moved_pass _ 1) rfl rfl rfl ?_⟩
    exact ⟨⟨_, _, node⟩, fun hno => absurd node (hno _ _), by simp [Env.empty, Env.get?]⟩
  | assign node value =>
    refine ⟨_, Moved.adds_record (r := ⟨f.label, "", Env.single _ _⟩) (moved_pass _ 1) rfl (by simp) rfl ?_⟩
    exact ⟨⟨_, _, node⟩, fun _ => rfl, fun name hname => by rw [eq_of_get?_single hname, node]; rfl⟩
  | start node =>
    refine ⟨_, Moved.adds_record (r := ⟨f.label, "", Env.empty⟩) (moved_pass _ 1) rfl (by simp) rfl ?_⟩
    exact ⟨⟨_, _, node⟩, fun _ => rfl, by simp [Env.empty, Env.get?]⟩
  | stop node =>
    have hmoved := moved_pass (st.record f.label "" Env.empty) 1
    have hrow : RowOf f.node ⟨f.label, "", Env.empty⟩ := ⟨⟨_, _, node⟩, fun _ => rfl, by simp [Env.empty, Env.get?]⟩
    have hadds : Adds f.node f.label st ((st.record f.label "" Env.empty).pass 1) [⟨f.label, "", Env.empty⟩] :=
      Moved.adds_record (r := ⟨f.label, "", Env.empty⟩) hmoved rfl (by simp) rfl hrow
    exact ⟨_, hadds.trace, hadds.console, hadds.vars, hadds.fits⟩
  | read => exact ⟨[], by simp [State.trace], by simp [shownBy], rfl, by simp⟩
  | jump => exact ⟨[], Moved.adds ⟨_, _, _, rfl⟩ _ _⟩
  | enter => exact ⟨[], (moved_enter _ _).adds _ _⟩
  | skip => exact ⟨[], (moved_pass _ _).adds _ _⟩

/-- An accepted input adds one row, under the label of the read that waited for it. -/
theorem adds_answer {w : Pending} {place : Place} {node : Node} (hnode : node = .act place (.read w.name)) (n : Int64) :
    ∃ r, Adds node w.label st (st.answer w n) [r] := by
  refine ⟨_, Moved.adds_record (r := ⟨w.label, "", Env.single w.name (.int n)⟩) (moved_pass _ 1) rfl (by simp) rfl ?_⟩
  exact ⟨⟨_, _, hnode⟩, fun _ => rfl, fun name hname => by rw [eq_of_get?_single hname, hnode]; rfl⟩

/-- An executed action that leaves the state waiting leaves the cursor where it is. -/
theorem focus?_of_exec_waits {w : Pending} (hl : st.Live p) (h : st.exec p f = .ok st') (hw : st'.pending = some w) :
    st'.focus? p = st.focus? p := by
  -- every action but a read leaves the wait as it was, and there was none
  have hnone : st'.pending = st.pending → st'.focus? p = st.focus? p := by
    intro hsame
    rw [hw, hl.ready] at hsame
    cases hsame
  cases executes_of_exec h with
  | read => rfl
  | print => exact hnone (moved_pass _ 1).pending
  | assign => exact hnone (moved_pass _ 1).pending
  | start => exact hnone (moved_pass _ 1).pending
  | stop => exact hnone (moved_pass (st.record f.label "" Env.empty) 1).pending
  | jump => exact hnone rfl
  | enter => exact hnone (moved_enter _ _).pending
  | skip => exact hnone (moved_pass _ _).pending

/-- The rows that were added are those behind the earlier trace. -/
theorem Adds.drop {node : Node} {label : String} {rows : List Row} (h : Adds node label st st' rows) :
    st'.trace.drop st.trace.length = rows := by
  rw [h.trace, List.drop_left]

end State

/-! ## The journal accounts for the session -/

open State

/-- Deeds account for a state: their rows are its trace, their texts its console, and the changes of their rows its variables.
Every row fits the node of its deed, and was recorded under the label of the cursor in a state with the property `P` whose cursor
stood on that node. A state that waits is still at its last deed. -/
structure Accounts (p : Program) (P : State → Prop) (st : State) (deeds : List Deed) : Prop where
  state : P st
  trace : st.trace = (eventsOf deeds).filterMap Event.row?
  console : st.console = shownBy (eventsOf deeds)
  vars : st.vars = replay st.trace
  rows : ∀ d ∈ deeds, ∀ r, .row r ∈ d.events →
    RowOf d.node r ∧ ∃ at' f, P at' ∧ at'.focus? p = some f ∧ f.node = d.node ∧ f.label = r.label
  waits : ∀ w, st.pending = some w → ∃ d ds f, deeds = d :: ds ∧ st.focus? p = some f ∧ f.node = d.node

/-- Deeds account for the states of a session, the present one first: all of them for the present state, those before the last
one for the state before the last step, and so on. -/
inductive Told (p : Program) (P : State → Prop) : List State → List Deed → Prop where
  | first : Told p P [.initial] []
  | next {st : State} {states : List State} {d : Deed} {ds : List Deed} (now : Accounts p P st (d :: ds))
      (before : Told p P states ds) : Told p P (st :: states) (d :: ds)

section

variable {p : Program} {P : State → Prop} {st st' : State} {states : List State} {d : Deed} {ds deeds : List Deed}

/-- No deeds account for the state before the first step. -/
theorem accounts_initial (hP : Session.Kept p P) : Accounts p P .initial [] :=
  ⟨hP.initial, rfl, rfl, rfl, by simp, by simp [State.initial]⟩

/-- All deeds account for the present state. -/
theorem Told.accounts (hP : Session.Kept p P) (h : Told p P (st :: states) deeds) : Accounts p P st deeds := by
  cases h with
  | first => exact accounts_initial hP
  | next now => exact now

/-- There is one state more than there are deeds. -/
theorem Told.length_eq (h : Told p P states deeds) : states.length = deeds.length + 1 := by
  induction h with
  | first => rfl
  | next _ _ ih => rw [List.length_cons, ih, List.length_cons]

/-- The deeds before the last one account for the states before the present one. -/
theorem Told.tail (h : Told p P (st :: st' :: states) deeds) : Told p P (st' :: states) deeds.tail := by
  cases h with
  | next _ before => exact before

/-- The present state may be replaced together with the last deed. -/
theorem Told.replace (h : Told p P (st :: states) (d :: ds)) {d' : Deed} (hnew : Accounts p P st' (d' :: ds)) :
    Told p P (st' :: states) (d' :: ds) := by
  cases h with
  | next _ before => exact .next hnew before

/-- A deed that has not added anything yet changes nothing. -/
theorem Accounts.begin (h : Accounts p P st deeds) (hready : st.pending = none) (node : Node) :
    Accounts p P st (⟨node, []⟩ :: deeds) where
  state := h.state
  trace := by rw [h.trace, eventsOf_cons, List.append_nil]
  console := by rw [h.console, eventsOf_cons, List.append_nil]
  vars := h.vars
  rows := by
    intro d hd r hr
    rcases List.mem_cons.1 hd with rfl | hd
    · cases hr
    · exact h.rows d hd r hr
  waits := by simp [hready]

/-- The last deed goes on: what it adds to the state is added to its events. -/
theorem Accounts.add {f : Focus} {rows : List Row} (h : Accounts p P st (d :: ds)) (hf : st.focus? p = some f)
    (hnode : f.node = d.node) (hadds : Adds d.node f.label st st' rows) (hstate : P st')
    (hwaits : ∀ w, st'.pending = some w → st'.focus? p = some f) :
    Accounts p P st' ({ d with events := d.events ++ rows.map .row } :: ds) where
  state := hstate
  trace := by
    rw [hadds.trace, h.trace, eventsOf_cons, eventsOf_cons, List.filterMap_append, List.filterMap_append,
      List.filterMap_append, filterMap_row?_map, List.append_assoc]
  console := by
    rw [hadds.console, h.console, eventsOf_cons, eventsOf_cons, ← List.append_assoc, ← shownBy_append]
  vars := by
    rw [hadds.vars, hadds.trace, replay_append, ← h.vars]
  rows := by
    intro e he r hr
    rcases List.mem_cons.1 he with rfl | he
    · rcases List.mem_append.1 hr with hr | hr
      · exact h.rows d List.mem_cons_self r hr
      · obtain ⟨r', hr', hsame⟩ := List.mem_map.1 hr
        obtain rfl := Event.row.inj hsame
        obtain ⟨hfits, hlabel⟩ := hadds.fits r' hr'
        exact ⟨hfits, st, f, h.state, hf, hnode, hlabel.symm⟩
    · exact h.rows e (List.mem_cons_of_mem d he) r hr
  waits w hw := ⟨_, _, f, rfl, hwaits w hw, hnode⟩

/-- An executed action is a new deed. -/
theorem Accounts.exec {f : Focus} (hP : Session.Kept p P) (h : Accounts p P st deeds) (hl : st.Live p)
    (hf : st.focus? p = some f) (hx : st.exec p f = .ok st') :
    Accounts p P st' (⟨f.node, (st'.trace.drop st.trace.length).map .row⟩ :: deeds) := by
  obtain ⟨rows, hadds⟩ := adds_of_exec hx
  rw [hadds.drop]
  exact (h.begin hl.ready f.node).add hf rfl hadds (hP.exec h.state hl hf hx)
    fun w hw => (focus?_of_exec_waits hl hx hw).trans hf

/-- A text that is waited for belongs to the last deed. -/
theorem Accounts.echo {w : Pending} (hP : Session.Kept p P) (h : Accounts p P st (d :: ds)) (hw : st.pending = some w)
    (raw : String) : Accounts p P (st.echo raw) ({ d with events := d.events ++ [.input raw] } :: ds) where
  state := hP.echo raw h.state hw
  trace := by
    have htrace : (st.echo raw).trace = st.trace := rfl
    rw [htrace, h.trace, eventsOf_cons, eventsOf_cons, ← List.append_assoc, List.filterMap_append (l := eventsOf ds ++ d.events)]
    simp [Event.row?]
  console := by
    have hconsole : (st.echo raw).console = st.console ++ shownBy [.input raw] := by
      simp [State.echo, shownBy, Event.shown, String.append_assoc]
    rw [hconsole, h.console, eventsOf_cons, eventsOf_cons, ← List.append_assoc, ← shownBy_append]
  vars := h.vars
  rows := by
    intro e he r hr
    rcases List.mem_cons.1 he with rfl | he
    · have hr' : .row r ∈ d.events := by simpa using hr
      exact h.rows d List.mem_cons_self r hr'
    · exact h.rows e (List.mem_cons_of_mem d he) r hr
  waits := by
    intro w' hw'
    obtain ⟨d', ds', f, hdeeds, hf, hnode⟩ := h.waits w' hw'
    obtain ⟨rfl, rfl⟩ := List.cons.inj hdeeds
    exact ⟨_, _, f, rfl, hf, hnode⟩

/-- An accepted input completes the last deed. -/
theorem Accounts.answer {w : Pending} (hP : Session.Kept p P) (hcontrol : ∀ st, P st → st.Control p)
    (h : Accounts p P st (d :: ds)) (hw : st.pending = some w) (n : Int64) :
    Accounts p P (st.answer w n)
      ({ d with events := d.events ++ ((st.answer w n).trace.drop st.trace.length).map .row } :: ds) := by
  obtain ⟨d', ds', f, hdeeds, hf, hnode⟩ := h.waits w hw
  obtain ⟨rfl, rfl⟩ := List.cons.inj hdeeds
  obtain ⟨f', place, hf', hread, hlabel⟩ := (hcontrol st h.state).waits w hw
  obtain rfl := Option.some.inj (hf.symm.trans hf')
  have hrow : ∃ r, Adds d.node w.label st (st.answer w n) [r] := adds_answer (hnode.symm.trans hread) n
  obtain ⟨r, hadds⟩ := hrow
  rw [hadds.drop]
  refine h.add hf hnode (hlabel ▸ hadds) (hP.answer n h.state hw) fun w' hw' => ?_
  -- the wait is over
  rw [State.answer, (moved_pass _ 1).pending] at hw'
  cases hw'

end

namespace Session

variable {P : State → Prop} {s : Session} {deeds : List Deed}

/-- A step keeps the states accounted for: one that executes an action is a new deed. -/
theorem told_step (hP : Kept s.program P) (h : Told s.program P (s.now :: s.history) deeds) :
    Told s.program P ((s.apply .step).now :: (s.apply .step).history) (s.note deeds .step) := by
  rcases s.step_cases with ⟨he, hnot⟩ | ⟨f, st, hl, hf, hx, he⟩ | ⟨f, e, hl, hf, hx, he⟩
  · have hnote : s.note deeds .step = deeds := by
      rcases hnot with hnot | hnone
      · have hc : s.canStep = false := by
          rw [← Bool.not_eq_true, s.canStep_iff]
          exact hnot
        cases hf : s.focus? <;> simp [note, hf, hc]
      · simp [note, hnone]
    simp only [hnote, apply, he]
    exact h
  · have hnote : s.note deeds .step = ⟨f.node, (st.trace.drop s.now.trace.length).map .row⟩ :: deeds := by
      simp [note, hf, s.canStep_iff.2 hl, he, newRows, apply]
    simp only [hnote, apply, he]
    exact .next ((h.accounts hP).exec hP hl hf hx) h
  · have hnote : s.note deeds .step = deeds := by simp [note, hf, he]
    simp only [hnote, apply, he]
    exact h

/-- Going back keeps the states accounted for: the last deed is undone. -/
theorem told_undo (hall : s.Throughout P) (h : Told s.program P (s.now :: s.history) deeds) :
    Told s.program P ((s.apply .undo).now :: (s.apply .undo).history) (s.note deeds .undo) := by
  cases hh : s.history with
  | nil =>
    have hnone : deeds = [] := by
      have hlength := h.length_eq
      rw [hh, List.length_cons, List.length_nil] at hlength
      exact List.eq_nil_of_length_eq_zero (by omega)
    have hundo : s.undo = s := by simp [undo, hh]
    rw [note, apply, hundo, hnone, List.tail_nil, ← hnone]
    exact h
  | cons st rest =>
    -- a kept state waits for nothing, so clearing the wait gives the state itself
    have hsame : { st with pending := none } = st := by
      have hready := (hall.2 st (by simp [hh])).2.ready
      obtain ⟨pc, vars, console, rows, frames, sub, pending, halted⟩ := st
      cases hready
      rfl
    have hundo : s.undo = { s with now := st, history := rest } := by simp [undo, hh, hsame]
    rw [note, apply, hundo]
    rw [hh] at h
    exact h.tail

/-- An input keeps the states accounted for: the last deed takes it. -/
theorem told_supply (hP : Kept s.program P) (hcontrol : ∀ st, P st → st.Control s.program)
    (h : Told s.program P (s.now :: s.history) deeds) (raw : String) :
    Told s.program P ((s.apply (.supply raw)).now :: (s.apply (.supply raw)).history) (s.note deeds (.supply raw)) := by
  have hnow := h.accounts hP
  rcases s.supply_cases raw with ⟨hw, he⟩ | ⟨w, hw, _, he⟩ | ⟨w, n, hw, _, he⟩
  · have hnote : s.note deeds (.supply raw) = deeds := by simp [note, hw]
    rw [hnote, apply, he]
    exact h
  · obtain ⟨d, ds, _, rfl, _⟩ := hnow.waits w hw
    have hnote : s.note (d :: ds) (.supply raw) = { d with events := d.events ++ [.input raw] } :: ds := by
      simp [note, hw, newRows, apply, he, State.echo, State.trace]
    rw [hnote, apply, he]
    exact h.replace (hnow.echo hP hw raw)
  · obtain ⟨d, ds, _, rfl, _⟩ := hnow.waits w hw
    have hdone := (hnow.echo hP hw raw).answer hP hcontrol hw n
    have hnote : s.note (d :: ds) (.supply raw) = { d with events := d.events ++ [.input raw] ++
        (((s.now.echo raw).answer w n).trace.drop (s.now.echo raw).trace.length).map .row } :: ds := by
      simp [note, hw, newRows, apply, he, State.echo, State.trace]
    rw [hnote, apply, he]
    exact h.replace hdone

/-- One call keeps the states accounted for. -/
theorem told_apply (hP : Kept s.program P) (hcontrol : ∀ st, P st → st.Control s.program) (hall : s.Throughout P)
    (h : Told s.program P (s.now :: s.history) deeds) (c : Call) :
    Told s.program P ((s.apply c).now :: (s.apply c).history) (s.note deeds c) := by
  cases c with
  | step => exact told_step hP h
  | undo => exact told_undo hall h
  | supply raw => exact told_supply hP hcontrol h raw

/-- The journal of a run accounts for the session: all deeds for its state, and so on back through its history. -/
theorem told_run {p : Program} (hP : Kept p P) (hcontrol : ∀ st, P st → st.Control p) (calls : List Call) :
    Told p P (((ofProgram p).run calls).now :: ((ofProgram p).run calls).history) ((ofProgram p).journal [] calls) := by
  have hgen : ∀ (s : Session) (deeds : List Deed), s.program = p → s.Throughout P → Told p P (s.now :: s.history) deeds →
      Told p P ((s.run calls).now :: (s.run calls).history) (s.journal deeds calls) := by
    induction calls with
    | nil => exact fun _ _ _ _ h => h
    | cons c cs ih =>
      intro s deeds hs hall h
      subst hs
      exact ih (s.apply c) (s.note deeds c) (s.program_apply c) (hall.apply hP c) (told_apply hP hcontrol hall h c)
  exact hgen _ _ rfl ⟨hP.initial, by simp [ofProgram]⟩ .first

/-- The journal of a run accounts for the state that it ends in. -/
theorem journal_accounts {p : Program} (hP : Kept p P) (hcontrol : ∀ st, P st → st.Control p) (calls : List Call) :
    Accounts p P ((ofProgram p).run calls).now ((ofProgram p).journal [] calls) :=
  (told_run hP hcontrol calls).accounts hP

/-- There are as many deeds as steps that can be undone. -/
theorem journal_length (p : Program) (calls : List Call) :
    ((ofProgram p).journal [] calls).length = ((ofProgram p).run calls).undoDepth := by
  have h := (told_run (control_kept p) (fun _ h => h) calls).length_eq
  rw [List.length_cons] at h
  rw [undoDepth]
  omega

end Session

end Stepwise
