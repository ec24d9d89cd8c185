import Stepwise.Proofs.Journal
import Stepwise.Proofs.RunSafety
import Stepwise.Session.Display

/-!
# The trace explains the state

Whatever was stepped, undone and supplied, the variables are what the changes of the trace leave behind, and the console is what
the steps that were not undone have shown: the outputs of their rows and the texts supplied to them, in order. In a loaded program
every name that is bound or changed has a column in the trace table.
-/

namespace Stepwise

/-! ## Bound names come from changes -/

/-- A name that is bound after changes was bound before or is bound by the changes. -/
theorem Env.get?_update_ne_none {env changes : Env} {name : String} (h : (env.update changes).get? name ≠ none) :
    env.get? name ≠ none ∨ changes.get? name ≠ none := by
  obtain ⟨entries⟩ := changes
  simp only [update] at h
  induction entries generalizing env with
  | nil => exact Or.inl h
  | cons b entries ih =>
    obtain ⟨other, v⟩ := b
    by_cases heq : name = other
    · subst heq
      exact Or.inr (by simp [get?])
    · have hb : (name == other) = false := by simpa using heq
      rcases ih h with henv | hrest
      · rw [get?_insert, if_neg heq] at henv
        exact Or.inl henv
      · exact Or.inr (by simpa [get?, List.lookup_cons, hb] using hrest)

/-- A name that is bound after a replay was changed by a row. -/
theorem exists_changed_of_replay {rows : List Row} {name : String} (h : (replay rows).get? name ≠ none) :
    ∃ r ∈ rows, r.changed.get? name ≠ none := by
  have hgen : ∀ env : Env, (rows.foldl (fun env r => env.update r.changed) env).get? name ≠ none →
      env.get? name ≠ none ∨ ∃ r ∈ rows, r.changed.get? name ≠ none := by
    clear h
    induction rows with
    | nil => exact fun _ h => Or.inl h
    | cons r rows ih =>
      intro env h
      rcases ih (env.update r.changed) h with hbound | ⟨r', hr', hchanged⟩
      · exact (Env.get?_update_ne_none hbound).imp_right fun hchanged => ⟨r, List.mem_cons_self, hchanged⟩
      · exact Or.inr ⟨r', List.mem_cons_of_mem r hr', hchanged⟩
  rcases hgen Env.empty h with hempty | hrow
  · exact absurd rfl hempty
  · exact hrow

/-- A name that a line of the listing binds is among the names of the program, unless it is empty. -/
theorem Program.mem_varNames {p : Program} {e : Entry} (he : e ∈ p.listing) {name : String} (hn : e.node.name? = some name)
    (hne : name ≠ "") : name ∈ p.varNames := by
  rw [varNames, List.mem_eraseDups, List.mem_filter]
  exact ⟨List.mem_filterMap.2 ⟨e, he, hn⟩, by simpa using hne⟩

namespace Session

/-! ## Runs without input -/

/-- A call that supplies nothing adds no input to the deeds. -/
theorem input_mem_note {s : Session} {deeds : List Deed} {c : Call} (hc : ∀ raw, c ≠ .supply raw) {d : Deed}
    (hd : d ∈ s.note deeds c) {raw : String} (hraw : .input raw ∈ d.events) : ∃ d ∈ deeds, .input raw ∈ d.events := by
  cases c with
  | step =>
    simp only [note] at hd
    split at hd
    · exact ⟨d, hd, hraw⟩
    · split at hd
      · rcases List.mem_cons.1 hd with rfl | hd
        · simp at hraw
        · exact ⟨d, hd, hraw⟩
      · exact ⟨d, hd, hraw⟩
  | undo => exact ⟨d, List.mem_of_mem_tail hd, hraw⟩
  | supply raw => exact absurd rfl (hc raw)

/-- A run that supplies nothing has no input in its journal that was not there before. -/
theorem input_mem_journal {s : Session} {deeds : List Deed} {calls : List Call} (hcalls : ∀ raw, .supply raw ∉ calls)
    {d : Deed} (hd : d ∈ s.journal deeds calls) {raw : String} (hraw : .input raw ∈ d.events) :
    ∃ d ∈ deeds, .input raw ∈ d.events := by
  induction calls generalizing s deeds with
  | nil => exact ⟨d, hd, hraw⟩
  | cons c cs ih =>
    obtain ⟨d', hd', hraw'⟩ := ih (fun raw h => hcalls raw (List.mem_cons_of_mem c h)) hd
    exact input_mem_note (fun raw h => hcalls raw (h ▸ List.mem_cons_self)) hd' hraw'

/-- Events without inputs are rows. -/
theorem eq_map_row_of_no_input {es : List Event} (h : ∀ raw, .input raw ∉ es) : es = (es.filterMap Event.row?).map .row := by
  induction es with
  | nil => rfl
  | cons e es ih =>
    have hrest := ih fun raw hraw => h raw (List.mem_cons_of_mem e hraw)
    cases e with
    | row r =>
      have hhead : Event.row? (.row r) = some r := rfl
      rw [List.filterMap_cons_some hhead, List.map_cons, ← hrest]
    | input raw => exact absurd List.mem_cons_self (h raw)

/-! ## The trace table -/

/-- In a regular program, every name that a row of the journal changes is one of the program's names. -/
theorem mem_varNames_of_changed {p : Program} (hp : p.Regular) (calls : List Call) {r : Row}
    (hr : r ∈ ((ofProgram p).run calls).now.trace) {name : String} (hname : r.changed.get? name ≠ none) :
    name ∈ p.varNames := by
  have hacc := journal_accounts (State.control_kept p) (fun _ h => h) calls
  rw [hacc.trace, List.mem_filterMap] at hr
  obtain ⟨e, he, hrow⟩ := hr
  obtain rfl : e = .row r := by
    cases e with
    | row r' => rw [← Option.some.inj hrow]
    | input raw => cases hrow
  obtain ⟨d, hd, hevent⟩ := List.mem_flatMap.1 he
  obtain ⟨hfits, st, f, hcontrol, hfocus, hnode, _⟩ := hacc.rows d (List.mem_reverse.1 hd) r hevent
  obtain ⟨entry, hentry, hsame, _⟩ := hcontrol.focus_mem_listing hfocus
  have hbinds : entry.node.name? = some name := by
    rw [hsame, hnode]
    exact hfits.changed name hname
  exact Program.mem_varNames hentry hbinds (hp.name entry hentry name hbinds).ne_empty

/-- The trace explains the state, for every program and after any calls. Replaying the changes of the trace gives the variables.
The deeds of the journal are the steps that can still be undone; their rows are the trace, and what they have shown is the console:
the outputs of the rows, which only prints have, and every text supplied to a waiting read, taken or refused, with a line break.
Without inputs the console is the outputs of the trace. In a loaded program every name that is bound, or changed by a row, has a
column. -/
theorem trace_explains_state (p : Program) (calls : List Call) :
    replay ((ofProgram p).run calls).now.trace = ((ofProgram p).run calls).now.vars ∧
    ((ofProgram p).journal [] calls).length = ((ofProgram p).run calls).undoDepth ∧
    (eventsOf ((ofProgram p).journal [] calls)).filterMap Event.row? = ((ofProgram p).run calls).now.trace ∧
    shownBy (eventsOf ((ofProgram p).journal [] calls)) = ((ofProgram p).run calls).now.console ∧
    (∀ d ∈ (ofProgram p).journal [] calls, ∀ r, .row r ∈ d.events →
      (∀ place e, d.node ≠ .act place (.print e)) → r.output = "") ∧
    ((∀ raw, .supply raw ∉ calls) →
      ((ofProgram p).run calls).now.console = shownBy (((ofProgram p).run calls).now.trace.map .row)) ∧
    (∀ text, load text = .ok (ofProgram p) → ∀ name,
      (((ofProgram p).run calls).now.vars.get? name ≠ none ∨
        ∃ r ∈ ((ofProgram p).run calls).now.trace, r.changed.get? name ≠ none) →
      name ∈ ((ofProgram p).run calls).display.columns) := by
  have hacc := journal_accounts (State.control_kept p) (fun _ h => h) calls
  refine ⟨hacc.vars.symm, journal_length p calls, hacc.trace.symm, hacc.console.symm,
    fun d hd r hr => (hacc.rows d hd r hr).1.output, ?_, ?_⟩
  · intro hcalls
    have hrows : ∀ raw, .input raw ∉ eventsOf ((ofProgram p).journal [] calls) := by
      intro raw hraw
      obtain ⟨d, hd, hevent⟩ := List.mem_flatMap.1 hraw
      obtain ⟨_, hnone, _⟩ := input_mem_journal hcalls (List.mem_reverse.1 hd) hevent
      cases hnone
    rw [hacc.console, hacc.trace, ← eq_map_row_of_no_input hrows]
  · intro text hload name hname
    have hp : p.Regular := by
      obtain ⟨q, hq, hregular⟩ := regular_of_load hload
      obtain rfl : p = q := congrArg Session.program hq
      exact hregular
    have hchanged : ∃ r ∈ ((ofProgram p).run calls).now.trace, r.changed.get? name ≠ none := by
      rcases hname with hbound | hchanged
      · rw [hacc.vars] at hbound
        exact exists_changed_of_replay hbound
      · exact hchanged
    obtain ⟨r, hr, hchanged⟩ := hchanged
    have hcolumns : ((ofProgram p).run calls).display.columns = p.varNames := by
      rw [display, program_run, ofProgram]
    rw [hcolumns]
    exact mem_varNames_of_changed hp calls hr hchanged

end Session

end Stepwise
