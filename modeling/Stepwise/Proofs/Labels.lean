import Stepwise.Proofs.Journal
import Stepwise.Proofs.LabelCount
import Stepwise.Proofs.ListingLines
import Mathlib.Data.List.Nodup

/-!
# Labels are static and unique

A row of the trace carries the label of the action that made it. The label can be read off the text: it is the number of the step
and, in a block, a sub-label for the number of actions before the action in the block of the step. Two actions at different lines
of the text never have the same label, because the digits of a label and its letter can be told apart, for blocks of any length.
-/

namespace Stepwise

/-! ## The text of a label -/

/-- The number of a step is told by its label. -/
theorem stepLabel_toList (number : Nat) : (stepLabel number).toList = Nat.toDigits 10 number := by
  simp [stepLabel]

/-- A sub-label is the number of the step, a letter, and from the twenty-seventh action on another number. -/
theorem subLabel_toList (number sub : Nat) : (subLabel number sub).toList =
    Nat.toDigits 10 number ++ labelLetter sub :: if sub < 26 then [] else Nat.toDigits 10 (sub / 26) := by
  unfold subLabel
  split <;> simp

/-- A number is told by its digits. -/
theorem toDigits_injective {m n : Nat} (h : Nat.toDigits 10 m = Nat.toDigits 10 n) : m = n := by
  rw [← Nat.ofDigitChars_toDigits (b := 10) (by decide) (by decide) (n := m), h,
    Nat.ofDigitChars_toDigits (by decide) (by decide)]

/-- The letters of labels are told apart from digits. -/
theorem labelLetter_isDigit (sub : Nat) : (labelLetter sub).isDigit = false := by
  have hall : ∀ k < 26, (Char.ofNat ('a'.toNat + k)).isDigit = false := by decide
  exact hall (sub % 26) (Nat.mod_lt _ (by decide))

/-- The letters of labels repeat after twenty-six actions and not before. -/
theorem labelLetter_injective {i j : Nat} (h : labelLetter i = labelLetter j) : i % 26 = j % 26 := by
  have hall : ∀ a < 26, ∀ b < 26, Char.ofNat ('a'.toNat + a) = Char.ofNat ('a'.toNat + b) → a = b := by decide
  exact hall _ (Nat.mod_lt _ (by decide)) _ (Nat.mod_lt _ (by decide)) h

/-- The letter of a label is none of the digits of a number. -/
theorem labelLetter_notMem (sub number : Nat) : labelLetter sub ∉ Nat.toDigits 10 number := by
  intro hmem
  have hdigit := Nat.isDigit_of_mem_toDigits (by decide) (by decide) hmem
  rw [labelLetter_isDigit] at hdigit
  cases hdigit

/-- Different steps have different labels. -/
theorem stepLabel_injective {m n : Nat} (h : stepLabel m = stepLabel n) : m = n := by
  apply toDigits_injective
  rw [← stepLabel_toList, h, stepLabel_toList]

/-- Sub-labels differ when the steps do or the numbers of actions before them. -/
theorem subLabel_injective {m n i j : Nat} (h : subLabel m i = subLabel n j) : m = n ∧ i = j := by
  have hlist : (subLabel m i).toList = (subLabel n j).toList := by rw [h]
  rw [subLabel_toList, subLabel_toList] at hlist
  have hrest : labelLetter j ∉ if i < 26 then [] else Nat.toDigits 10 (i / 26) := by
    split
    · exact List.not_mem_nil
    · exact labelLetter_notMem j _
  obtain ⟨hnumber, hletter, htail⟩ := (List.append_cons_inj_of_notMem (labelLetter_notMem j m) hrest).1 hlist
  have hmod := labelLetter_injective hletter
  refine ⟨toDigits_injective hnumber, ?_⟩
  -- below twenty-six the letter is all there is, from there on the number behind it counts the rounds
  split at htail <;> split at htail
  · omega
  · exact absurd htail.symm Nat.toDigits_ne_nil
  · exact absurd htail Nat.toDigits_ne_nil
  · have hdiv := toDigits_injective htail
    omega

/-- No step has the label of an action in a block. -/
theorem stepLabel_ne_subLabel (m n sub : Nat) : stepLabel m ≠ subLabel n sub := by
  intro h
  have hlist : (stepLabel m).toList = (subLabel n sub).toList := by rw [h]
  rw [stepLabel_toList, subLabel_toList] at hlist
  apply labelLetter_notMem sub m
  rw [hlist]
  simp

/-! ## Places in the listing -/

/-- Two places that hold something of a kind, with as many of that kind before them, are the same place. -/
theorem eq_of_countP_eq {α : Type} {q : α → Bool} {before₁ before₂ after₁ after₂ : List α} {x y : α}
    (h : before₁ ++ x :: after₁ = before₂ ++ y :: after₂) (hx : q x = true) (hy : q y = true)
    (hcount : before₁.countP q = before₂.countP q) : x = y := by
  induction before₁ generalizing before₂ with
  | nil =>
    cases before₂ with
    | nil => exact (List.cons.inj h).1
    | cons b before₂ =>
      obtain ⟨rfl, _⟩ := List.cons.inj h
      rw [List.countP_nil, List.countP_cons_of_pos hx] at hcount
      omega
  | cons a before₁ ih =>
    cases before₂ with
    | nil =>
      obtain ⟨rfl, _⟩ := List.cons.inj h
      rw [List.countP_nil, List.countP_cons_of_pos hy] at hcount
      omega
    | cons b before₂ =>
      obtain ⟨rfl, htail⟩ := List.cons.inj h
      rw [List.countP_cons, List.countP_cons] at hcount
      exact ih htail (by omega)

mutual

/-- The lines of a node belong to its step and stand at least as deep as the node. -/
theorem Node.depth_of_mem_entries (n : Node) {step : Nat} {path : List Nat} {e : Entry} (he : e ∈ n.entries step path) :
    e.step = step ∧ path.length ≤ e.path.length := by
  cases n with
  | act place a =>
    obtain rfl := List.mem_singleton.1 he
    exact ⟨rfl, Nat.le_refl _⟩
  | branch place cond block =>
    rcases List.mem_cons.1 he with rfl | he
    · exact ⟨rfl, Nat.le_refl _⟩
    · obtain ⟨hstep, hdepth⟩ := depth_of_mem_blockEntries block he
      exact ⟨hstep, hdepth.le⟩

/-- The lines of a block belong to its step and stand deeper than the branch of the block. -/
theorem depth_of_mem_blockEntries (ns : List Node) {step : Nat} {path : List Nat} {position : Nat} {e : Entry}
    (he : e ∈ blockEntries step path position ns) : e.step = step ∧ path.length < e.path.length := by
  cases ns with
  | nil => cases he
  | cons n ns =>
    rcases List.mem_append.1 he with he | he
    · obtain ⟨hstep, hdepth⟩ := n.depth_of_mem_entries he
      rw [List.length_append] at hdepth
      exact ⟨hstep, hdepth⟩
    · exact depth_of_mem_blockEntries ns he

end

/-- The lines of a step stand together in the listing. -/
theorem entries_sublist_stepEntries {ss : List Step} {i : Nat} {s : Step} (h : ss[i]? = some s) (index : Nat) :
    (s.node.entries (index + i) []).Sublist (stepEntries index ss) := by
  induction ss generalizing i index with
  | nil => cases h
  | cons t ss ih =>
    rw [stepEntries]
    cases i with
    | zero =>
      obtain rfl := Option.some.inj h
      exact List.sublist_append_left _ _
    | succ i =>
      have hlater := ih (i := i) h (index + 1)
      rw [Nat.add_right_comm, Nat.add_assoc] at hlater
      exact hlater.trans (List.sublist_append_right _ _)

namespace Program

variable {p : Program} {text : String} {i : Nat} {step : Step}

/-- The lines of the block of a step are listed in their order. -/
theorem block_sublist_listing (h : p.steps[i]? = some step) :
    (blockEntries i [] 0 step.node.block).Sublist p.listing := by
  have hstep := entries_sublist_stepEntries h 0
  rw [Nat.zero_add, Node.entries_eq_cons] at hstep
  exact (List.sublist_cons_self _ _).trans hstep

/-- A line of the text is listed once. -/
theorem entry_eq_of_line_eq (h : parse text = .ok p) {a b : Entry} (ha : a ∈ p.listing) (hb : b ∈ p.listing)
    (hline : a.node.line = b.node.line) : a = b := by
  have hlines : (p.listing.map fun e => e.node.line).Nodup :=
    List.pairwise_map.2 ((listing_pairwise h).imp fun hlt => Nat.ne_of_lt hlt)
  exact List.inj_on_of_nodup_map hlines ha hb hline

/-! ## The label of a line -/

/-- The action at a line of the text has this label: the label of its step or, in a block, the sub-label of its step for the
number of actions before it in the block, in the order of the text. -/
inductive LineLabel (p : Program) (line : Nat) : String → Prop where
  | step {i : Nat} {step : Step} (at' : p.steps[i]? = some step) (own : step.node.line = line) :
      LineLabel p line (stepLabel step.number)
  | item {i : Nat} {step : Step} {before after : List Entry} {e : Entry} (at' : p.steps[i]? = some step)
      (listed : blockEntries i [] 0 step.node.block = before ++ e :: after) (action : e.isAction = true)
      (own : e.node.line = line) : LineLabel p line (subLabel step.number (before.countP Entry.isAction))

/-- The line in a block is listed, deeper than a step. -/
theorem mem_listing_of_block (h : p.steps[i]? = some step) {before after : List Entry} {e : Entry}
    (hlisted : blockEntries i [] 0 step.node.block = before ++ e :: after) :
    e ∈ p.listing ∧ e.step = i ∧ e.path ≠ [] := by
  have hmem : e ∈ blockEntries i [] 0 step.node.block := by
    rw [hlisted]
    simp
  obtain ⟨hstep, hdepth⟩ := depth_of_mem_blockEntries _ hmem
  exact ⟨(block_sublist_listing h).subset hmem, hstep, List.length_pos_iff.1 hdepth⟩

/-- In a block, what stands before a line is told by the line. -/
theorem before_eq_of_line_eq (hp : parse text = .ok p) (h : p.steps[i]? = some step)
    {before₁ before₂ after₁ after₂ : List Entry} {e : Entry}
    (h₁ : blockEntries i [] 0 step.node.block = before₁ ++ e :: after₁)
    (h₂ : blockEntries i [] 0 step.node.block = before₂ ++ e :: after₂) : before₁ = before₂ := by
  have hpairwise := (listing_pairwise hp).sublist (block_sublist_listing h)
  rw [h₁, List.pairwise_append, List.pairwise_cons] at hpairwise
  obtain ⟨_, ⟨hafter, _⟩, hbefore⟩ := hpairwise
  have hnotBefore : e ∉ before₁ := fun hmem => Nat.lt_irrefl _ (hbefore e hmem e List.mem_cons_self)
  have hnotAfter : e ∉ after₁ := fun hmem => Nat.lt_irrefl _ (hafter e hmem)
  exact ((List.append_cons_inj_of_notMem hnotBefore hnotAfter).1 (h₁.symm.trans h₂)).1

/-- A line has one label. -/
theorem LineLabel.label_eq (hp : parse text = .ok p) {line : Nat} {a b : String} (ha : p.LineLabel line a)
    (hb : p.LineLabel line b) : a = b := by
  cases ha with
  | step h₁ own₁ =>
    cases hb with
    | step h₂ own₂ =>
      have hsame := entry_eq_of_line_eq hp (step_mem_listing h₁) (step_mem_listing h₂) (own₁.trans own₂.symm)
      obtain ⟨rfl, _, _⟩ := Entry.mk.inj hsame
      rw [Option.some.inj (h₁.symm.trans h₂)]
    | item h₂ listed₂ _ own₂ =>
      obtain ⟨hmem, _, hpath⟩ := mem_listing_of_block h₂ listed₂
      have hsame := entry_eq_of_line_eq hp (step_mem_listing h₁) hmem (own₁.trans own₂.symm)
      exact absurd (hsame ▸ rfl) hpath
  | item h₁ listed₁ _ own₁ =>
    obtain ⟨hmem₁, hstep₁, hpath⟩ := mem_listing_of_block h₁ listed₁
    cases hb with
    | step h₂ own₂ =>
      have hsame := entry_eq_of_line_eq hp hmem₁ (step_mem_listing h₂) (own₁.trans own₂.symm)
      exact absurd (hsame ▸ rfl) hpath
    | item h₂ listed₂ _ own₂ =>
      obtain ⟨hmem₂, hstep₂, _⟩ := mem_listing_of_block h₂ listed₂
      obtain rfl := entry_eq_of_line_eq hp hmem₁ hmem₂ (own₁.trans own₂.symm)
      subst hstep₁ hstep₂
      obtain rfl := Option.some.inj (h₁.symm.trans h₂)
      rw [before_eq_of_line_eq hp h₁ listed₁ listed₂]

/-- A label belongs to one line. -/
theorem LineLabel.line_eq (hp : p.Regular) {line₁ line₂ : Nat} {label : String} (h₁ : p.LineLabel line₁ label)
    (h₂ : p.LineLabel line₂ label) : line₁ = line₂ := by
  -- the number of a step tells its place
  have hplace : ∀ {i j : Nat} {s t : Step}, p.steps[i]? = some s → p.steps[j]? = some t → s.number = t.number → i = j := by
    intro i j s t hs ht hnumber
    have hi := hp.number i s hs
    have hj := hp.number j t ht
    omega
  generalize hlabel : label = label' at h₂
  cases h₁ with
  | step at₁ own₁ =>
    cases h₂ with
    | step at₂ own₂ =>
      obtain rfl := hplace at₁ at₂ (stepLabel_injective hlabel)
      obtain rfl := Option.some.inj (at₁.symm.trans at₂)
      exact own₁.symm.trans own₂
    | item => exact absurd hlabel (stepLabel_ne_subLabel _ _ _)
  | item at₁ listed₁ action₁ own₁ =>
    cases h₂ with
    | step => exact absurd hlabel.symm (stepLabel_ne_subLabel _ _ _)
    | item at₂ listed₂ action₂ own₂ =>
      obtain ⟨hnumber, hcount⟩ := subLabel_injective hlabel
      obtain rfl := hplace at₁ at₂ hnumber
      obtain rfl := Option.some.inj (at₁.symm.trans at₂)
      obtain rfl := eq_of_countP_eq (listed₁.symm.trans listed₂) action₁ action₂ hcount
      exact own₁.symm.trans own₂

end Program

/-! ## Labels in a run -/

namespace State

variable {p : Program} {st : State}

/-- In a block, the item under the cursor is listed behind as many actions as the counter says. -/
theorem Control.listed_item (h : st.Control p) (hc : st.Counted) {f : Frame} {fs : List Frame} (hframes : st.frames = f :: fs) :
    ∃ step item before after, p.steps[st.pc]? = some step ∧ f.items[f.index]? = some item ∧
      blockEntries st.pc [] 0 step.node.block = before ++ ⟨st.pc, cursorPath st.frames, item⟩ :: after ∧
      st.sub = before.countP Entry.isAction := by
  obtain ⟨step, place, cond, root, hs, hn, ho⟩ := h.standing.opened hframes
  have hlt := (f.finished_eq_false_iff).1 (h.top f (by simp [hframes]))
  obtain ⟨item, hi⟩ : ∃ item, f.items[f.index]? = some item := ⟨_, List.getElem?_eq_getElem hlt⟩
  obtain ⟨before, after, hlisted, hcount⟩ := ho.listed_item hi st.pc
  refine ⟨step, item, before, after, hs, hi, ?_, ?_⟩
  · rw [hn, hframes]
    exact hlisted
  · rw [hcount, ← hframes]
    exact hc (by simp [hframes])

/-- An action under the cursor has the label of its line. -/
theorem Control.lineLabel (h : st.Control p) (hc : st.Counted) {f : Focus} (hf : st.focus? p = some f) {place : Place}
    {a : Action} (hn : f.node = .act place a) : p.LineLabel f.node.line f.label := by
  rcases h.focus_cases hf with ⟨step, hnil, hs, rfl⟩ | ⟨step, g, gs, hg, hs, hi, hlabel, _⟩
  · exact .step hs rfl
  · obtain ⟨step', item, before, after, hs', hi', hlisted, hcount⟩ := h.listed_item hc hg
    obtain rfl := Option.some.inj (hs.symm.trans hs')
    obtain rfl := Option.some.inj (hi.symm.trans hi')
    rw [hlabel, hcount]
    exact .item hs hlisted (by simp [Entry.isAction, hn]) rfl

end State

namespace Session

/-- A row that a run of a regular program has made has the label of the line that made it. -/
theorem lineLabel_of_row {p : Program} (hp : p.Regular) {calls : List Call} {d : Deed} {r : Row}
    (hd : d ∈ (ofProgram p).journal [] calls) (hr : .row r ∈ d.events) : p.LineLabel d.node.line r.label := by
  obtain ⟨hrow, st, f, ⟨hcontrol, hcounted⟩, hf, hnode, hlabel⟩ :=
    (journal_accounts (State.counted_kept hp) (fun _ h => h.1) calls).rows d hd r hr
  obtain ⟨place, a, hact⟩ := hrow.action
  rw [← hnode, ← hlabel]
  exact hcontrol.lineLabel hcounted hf (hnode.trans hact)

/-- Labels are static and unique, for every text that loads. After any calls that end in a block, the counter is the number of
actions before the current item in the block of the current step, in the order of the text, whatever was done to get there. The
rows of the trace are those of the journal, where each has the label of its line; so two rows, of the same run or of different
runs, have the same label exactly when they come from the same line. -/
theorem label_eq_iff_line_eq {text : String} {s : Session} (h : load text = .ok s) :
    (∀ calls f fs, (s.run calls).now.frames = f :: fs →
      ∃ step item before after, s.program.steps[(s.run calls).now.pc]? = some step ∧ f.items[f.index]? = some item ∧
        blockEntries (s.run calls).now.pc [] 0 step.node.block =
          before ++ ⟨(s.run calls).now.pc, cursorPath (s.run calls).now.frames, item⟩ :: after ∧
        (s.run calls).now.sub = before.countP Entry.isAction) ∧
    (∀ calls, (s.run calls).now.trace = (eventsOf (s.journal [] calls)).filterMap Event.row?) ∧
    (∀ calls, ∀ d ∈ s.journal [] calls, ∀ r, .row r ∈ d.events → s.program.LineLabel d.node.line r.label) ∧
    (∀ calls₁ calls₂, ∀ d₁ ∈ s.journal [] calls₁, ∀ d₂ ∈ s.journal [] calls₂, ∀ r₁ r₂,
      .row r₁ ∈ d₁.events → .row r₂ ∈ d₂.events → (r₁.label = r₂.label ↔ d₁.node.line = d₂.node.line)) := by
  obtain ⟨p, rfl, hparse, hp⟩ := parse_of_load h
  refine ⟨?_, ?_, fun calls d hd r hr => lineLabel_of_row hp hd hr, ?_⟩
  · intro calls f fs hframes
    obtain ⟨hcontrol, hcounted⟩ := (Throughout.run (State.counted_kept hp) calls).1
    exact hcontrol.listed_item hcounted hframes
  · intro calls
    exact (journal_accounts (State.control_kept p) (fun _ h => h) calls).trace
  · intro calls₁ calls₂ d₁ hd₁ d₂ hd₂ r₁ r₂ hr₁ hr₂
    have h₁ := lineLabel_of_row hp hd₁ hr₁
    have h₂ := lineLabel_of_row hp hd₂ hr₂
    constructor
    · intro hlabel
      rw [← hlabel] at h₂
      exact h₁.line_eq hp h₂
    · intro hline
      rw [← hline] at h₂
      exact h₁.label_eq hparse h₂

theorem label_eq_iff_line_eq_branching : ∃ s, load Check.branchingText = .ok s ∧
    ∀ calls₁ calls₂, ∀ d₁ ∈ s.journal [] calls₁, ∀ d₂ ∈ s.journal [] calls₂, ∀ r₁ r₂,
      .row r₁ ∈ d₁.events → .row r₂ ∈ d₂.events → (r₁.label = r₂.label ↔ d₁.node.line = d₂.node.line) := by
  have hnone : Check.problem? Check.branchingText = none := by decide +kernel
  obtain ⟨ss, hss⟩ := Check.accepted_of_problem?_eq_none hnone
  obtain ⟨p, hp, _⟩ := Check.parse_of_accepted hss
  have hload : load Check.branchingText = .ok (ofProgram p) := by rw [load, hnone, hp]
  exact ⟨ofProgram p, hload, (label_eq_iff_line_eq hload).2.2.2⟩

end Session

end Stepwise
