import Stepwise.Proofs.Listing
import Stepwise.Session.Load

/-!
# The check is a sound gate for the reader

A text that passes the check can be read, and the program that is read is regular. The check and the reader look at the same
lines in their own ways; the groups of `Stepwise.Proofs.Groups` are where the two meet.
-/

namespace Stepwise.Check

variable {first : Nat}

/-! ## What the rules say about groups -/

/-- The steps among the statements of groups are their first lines. -/
theorem stepsOf_groups (gs : List (Group first)) :
    stepsOf ((gs.flatMap Group.marks).map Mark.statement) = gs.map fun g => g.lead.statement := by
  induction gs with
  | nil => rfl
  | cons g gs ih =>
    have hitems : stepsOf ((g.items.flatMap Item.marks).map Mark.statement) = [] := by
      refine List.filter_eq_nil_iff.2 fun s hs => ?_
      obtain ⟨m, hm, rfl⟩ := List.mem_map.1 hs
      obtain ⟨i, _, hm⟩ := List.mem_flatMap.1 hm
      rcases List.mem_cons.1 hm with rfl | hm
      · simp [i.inBlock]
      · simp [(i.deeper m hm).1]
    unfold stepsOf at ih hitems ⊢
    rw [List.flatMap_cons, Group.marks, List.map_append, List.filter_append, ih, List.map_cons,
      List.filter_cons_of_pos (by simp [g.isStep]), hitems, List.map_cons]
    rfl

/-- Steps whose numbering has no problem are numbered one by one, and none has a number above 99. -/
theorem numbering_groups {expected : Nat} {gs : List (Group first)}
    (h : numbering expected (gs.map fun g => g.lead.statement) = none) :
    ∀ (i : Nat) (g : Group first), gs[i]? = some g → g.head.number = expected + i ∧ g.head.number ≤ 99 := by
  induction gs generalizing expected with
  | nil => intro i g hg; simp at hg
  | cons g gs ih =>
    rw [List.map_cons, numbering, g.isStep] at h
    simp only at h
    split at h
    · cases h
    · rename_i hmax
      split at h
      · cases h
      · split at h
        · cases h
        · rename_i hexpected
          intro i g' hg'
          cases i with
          | zero =>
            obtain rfl := Option.some.inj hg'
            exact ⟨by simpa using hexpected, Nat.le_of_not_lt hmax⟩
          | succ i =>
            obtain ⟨hnum, hle⟩ := ih h i g' hg'
            exact ⟨by omega, hle⟩

/-- A number that passed is read by the reader. -/
theorem readNumeral?_of_le {g : Group first} (h : g.head.number ≤ 99) :
    Text.readNumeral? g.head.digits = some g.head.number := by
  obtain ⟨_, hnum, hnumber, _⟩ := g.lead.of_head g.isStep
  have hgreatest : Text.greatestInt64 = 9223372036854775807 := rfl
  have hvalue : g.head.number = Text.numeralValue g.head.digits ∧
      Text.numeralValue g.head.digits ≤ Text.greatestInt64 := by
    rw [hnumber, stepNumber] at h ⊢
    omega
  rw [Text.readNumeral?, if_pos ⟨hnum, hvalue.2⟩, hvalue.1]

/-- When the order of stops has no problem, the last step and only the last one begins with `stop`. -/
theorem stopOrder_groups {gs : List (Group first)} (h : stopOrder (gs.map fun g => g.lead.statement) = none) :
    ∀ (i : Nat) (g : Group first), gs[i]? = some g → (isStop g.lead.statement = true ↔ i + 1 = gs.length) := by
  induction gs with
  | nil => intro i g hg; simp at hg
  | cons g gs ih =>
    cases gs with
    | nil =>
      intro i g' hg'
      simp only [List.map_cons, List.map_nil, stopOrder] at h
      cases i with
      | zero =>
        obtain rfl := Option.some.inj hg'
        split at h
        · simpa
        · cases h
      | succ i => simp at hg'
    | cons g₂ gs =>
      simp only [List.map_cons, stopOrder] at h
      split at h
      · cases h
      · rename_i hstop
        intro i g' hg'
        cases i with
        | zero =>
          obtain rfl := Option.some.inj hg'
          simp [hstop]
        | succ i =>
          rw [ih h i g' hg']
          simp

/-- When start and stop have no problem, the first step is `start`, and the last step and only the last one begins with
`stop`. -/
theorem startStop_groups {gs : List (Group first)} (h : startStop (gs.map fun g => g.lead.statement) = none) :
    (∀ g, gs[0]? = some g → g.lead.statement.content = "start".toList) ∧
      ∀ (i : Nat) (g : Group first), gs[i]? = some g → (isStop g.lead.statement = true ↔ i + 1 = gs.length) := by
  cases gs with
  | nil => exact ⟨by simp, stopOrder_groups rfl⟩
  | cons g₀ gs =>
    rw [List.map_cons, startStop] at h
    split at h
    · cases h
    · rename_i hcontent
      refine ⟨fun g hg => ?_, stopOrder_groups h⟩
      obtain rfl := Option.some.inj hg
      exact Decidable.not_not.1 hcontent

/-- When the targets have no problem, every jump has a number among those given. -/
theorem targets_eq_none {numbers : List Nat} {ss : List Statement} (h : targets numbers ss = none) :
    ∀ s ∈ ss, ∀ digits, gotoDigits? s.content = some digits → ∃ n ∈ numbers, Text.readNumeral? digits = some n := by
  induction ss with
  | nil => intro s hs; cases hs
  | cons t ts ih =>
    rw [targets] at h
    intro s hs digits hd
    cases ht : gotoDigits? t.content with
    | none =>
      rw [ht] at h
      rcases List.mem_cons.1 hs with rfl | hs
      · rw [ht] at hd
        cases hd
      · exact ih h s hs digits hd
    | some ds =>
      rw [ht] at h
      simp only at h
      split at h
      · rename_i n hn
        split at h
        · rename_i hmem
          rcases List.mem_cons.1 hs with rfl | hs
          · rw [ht] at hd
            obtain rfl := Option.some.inj hd
            exact ⟨n, by simpa using hmem, hn⟩
          · exact ih h s hs digits hd
        · cases h
      · cases h

/-- When the targets of numbered groups have no problem, every jump has the number of a step. -/
theorem targets_groups {gs : List (Group first)}
    (hnumbers : ∀ (i : Nat) (g : Group first), gs[i]? = some g → g.head.number = 1 + i)
    (h : targets ((gs.map fun g => g.lead.statement).filterMap fun s => s.head.map Head.number)
      ((gs.flatMap Group.marks).map Mark.statement) = none) :
    ∀ g ∈ gs, ∀ m ∈ g.marks, ∀ digits, gotoDigits? m.statement.content = some digits →
      ∃ n, Text.readNumeral? digits = some n ∧ 1 ≤ n ∧ n ≤ gs.length := by
  intro g hg m hm digits hdigits
  have hstatement : m.statement ∈ (gs.flatMap Group.marks).map Mark.statement :=
    List.mem_map_of_mem (List.mem_flatMap.2 ⟨g, hg, hm⟩)
  obtain ⟨n, hn, hread⟩ := targets_eq_none h _ hstatement digits hdigits
  refine ⟨n, hread, ?_⟩
  obtain ⟨s, hs, hnum⟩ := List.mem_filterMap.1 hn
  obtain ⟨g', hg', rfl⟩ := List.mem_map.1 hs
  rw [g'.isStep] at hnum
  obtain rfl := Option.some.inj hnum
  obtain ⟨i, hi⟩ := List.mem_iff_getElem?.1 hg'
  have hnumber := hnumbers i g' hi
  obtain ⟨hlt, _⟩ := List.getElem?_eq_some_iff.1 hi
  omega

/-- What the rules say about the groups of an accepted text. -/
structure Ruled (gs : List (Group first)) : Prop where
  nonempty : gs ≠ []
  /-- The steps are numbered from 1 to at most 99. -/
  numbered : ∀ (i : Nat) (g : Group first), gs[i]? = some g → g.head.number = i + 1 ∧ g.head.number ≤ 99
  /-- The first step is a start, and no other step stands on its line. -/
  begins : ∀ g, gs[0]? = some g → g.lead.statement.content = "start".toList
  opening : ∀ (i : Nat) (g : Group first), gs[i]? = some g → g.lead.statement.line = first → i = 0
  /-- The last step and no other begins with `stop`. -/
  ends : ∀ (i : Nat) (g : Group first), gs[i]? = some g → (isStop g.lead.statement = true ↔ i + 1 = gs.length)
  /-- Every jump has the number of a step. -/
  jumps : ∀ g ∈ gs, ∀ m ∈ g.marks, ∀ digits, gotoDigits? m.statement.content = some digits →
    ∃ n, Text.readNumeral? digits = some n ∧ 1 ≤ n ∧ n ≤ gs.length

namespace Ruled

variable {gs : List (Group first)} {i : Nat} {g : Group first}

/-- The first step is read as a start. -/
theorem node_first (hg : Ruled gs) (h : gs[0]? = some g) : ∃ place, g.node = .act place .start := by
  have hstrip : Text.strip g.lead.statement.content = "start".toList := by
    rw [hg.begins g h]
    rfl
  unfold Group.node
  rw [hstrip]
  exact ⟨_, rfl⟩

/-- The last step is read as a stop. -/
theorem node_last (hg : Ruled gs) (h : gs[i]? = some g) (hlast : i + 1 = gs.length) : ∃ place, g.node = .act place .stop := by
  have hstrip : Text.strip g.lead.statement.content = "stop".toList := by
    rw [g.lead.passes.eq_stop ((hg.ends i g h).2 hlast)]
    rfl
  unfold Group.node
  rw [hstrip]
  exact ⟨_, rfl⟩

/-- The first step is not the last one. -/
theorem two_le (hg : Ruled gs) : 2 ≤ gs.length := by
  cases hgs : gs with
  | nil => exact absurd hgs hg.nonempty
  | cons g rest =>
    cases rest with
    | cons => simp
    | nil =>
      have hzero : gs[0]? = some g := by rw [hgs]; rfl
      have hstop := (hg.ends 0 g hzero).2 (by rw [hgs]; rfl)
      rw [isStop, hg.begins g hzero] at hstop
      cases hstop

/-- There are at most 99 steps. -/
theorem le_max (hg : Ruled gs) : gs.length ≤ 99 := by
  have htwo := hg.two_le
  have hlast : gs[gs.length - 1]? = some (gs.get ⟨gs.length - 1, by omega⟩) := List.getElem?_eq_getElem _
  have hnumber := hg.numbered _ _ hlast
  omega

/-- The step with a number is found right before the number's place. -/
theorem indexOf (hg : Ruled gs) (text : String) {n : Nat} (hpos : 1 ≤ n) (hle : n ≤ gs.length) :
    Program.indexOf? ⟨gs.map Group.step, text⟩ n = some (n - 1) := by
  refine List.findIdx?_eq_some_iff_getElem.2 ⟨by rw [List.length_map]; omega, ?_, fun j hj => ?_⟩
  · have hnumber := hg.numbered (n - 1) _ (List.getElem?_eq_getElem (by omega))
    simp only [List.getElem_map, Group.step, beq_iff_eq]
    omega
  · have hnumber := hg.numbered j _ (List.getElem?_eq_getElem (by omega))
    simp only [List.getElem_map, Group.step, beq_iff_eq]
    omega

/-- The first step is the only start, at any depth. -/
theorem start_iff (hg : Ruled gs) {text : String} {e : Entry} (he : e ∈ Program.listing ⟨gs.map Group.step, text⟩) :
    (∃ place, e.node = .act place .start) ↔ e.step = 0 ∧ e.path = [] := by
  obtain ⟨g, hstep, _, m, _, hmeans, ⟨hpath, hnode, rfl⟩ | ⟨hpath, hhead⟩⟩ := mem_listing_groups he
  · refine ⟨fun ⟨place, hstart⟩ => ⟨?_, hpath⟩, fun ⟨hzero, _⟩ => hnode ▸ hg.node_first (hzero ▸ hstep)⟩
    obtain ⟨_, _, hfirst⟩ := (hstart ▸ hmeans).promises
    rw [Bool.and_eq_true, beq_iff_eq] at hfirst
    exact hg.opening e.step g hstep hfirst.2
  · refine ⟨fun ⟨place, hstart⟩ => ?_, fun ⟨_, hnil⟩ => absurd hnil hpath⟩
    obtain ⟨_, htop, _⟩ := (hstart ▸ hmeans).promises
    rw [hhead] at htop
    cases htop

/-- The last step is the only stop, at any depth. -/
theorem stop_iff (hg : Ruled gs) {text : String} {e : Entry} (he : e ∈ Program.listing ⟨gs.map Group.step, text⟩) :
    (∃ place, e.node = .act place .stop) ↔ e.step + 1 = gs.length ∧ e.path = [] := by
  obtain ⟨g, hstep, _, m, _, hmeans, ⟨hpath, hnode, rfl⟩ | ⟨hpath, hhead⟩⟩ := mem_listing_groups he
  · refine ⟨fun ⟨place, hstop⟩ => ⟨?_, hpath⟩, fun ⟨hlast, _⟩ => hnode ▸ hg.node_last hstep hlast⟩
    obtain ⟨hcontent, _⟩ := (hstop ▸ hmeans).promises
    refine (hg.ends e.step g hstep).1 ?_
    rw [isStop, hcontent]
    rfl
  · refine ⟨fun ⟨place, hstop⟩ => ?_, fun ⟨_, hnil⟩ => absurd hnil hpath⟩
    obtain ⟨_, htop⟩ := (hstop ▸ hmeans).promises
    rw [hhead] at htop
    cases htop

/-- A program read from groups that keep the rules is regular. -/
theorem regular (hg : Ruled gs) (text : String) : Program.Regular ⟨gs.map Group.step, text⟩ where
  two_le := by
    rw [List.length_map]
    exact hg.two_le
  le_max := by
    rw [List.length_map]
    exact hg.le_max
  number := by
    intro i step hstep
    rw [List.getElem?_map] at hstep
    obtain ⟨g, hi, rfl⟩ := Option.map_eq_some_iff.1 hstep
    exact (hg.numbered i g hi).1
  indexOf := by
    intro n hpos hle
    rw [List.length_map] at hle
    exact hg.indexOf text hpos hle
  start e he := hg.start_iff he
  stop e he := by
    rw [List.length_map]
    exact hg.stop_iff he
  known := by
    intro e he place text' hnode
    obtain ⟨_, _, _, _, _, hmeans, _⟩ := mem_listing_groups he
    exact (hnode ▸ hmeans).promises
  filled := by
    intro e he place cond block hnode
    obtain ⟨_, _, _, _, _, hmeans, _⟩ := mem_listing_groups he
    exact (hnode ▸ hmeans).filled
  shallow := by
    intro e he
    obtain ⟨_, _, hshallow, _⟩ := mem_listing_groups he
    exact hshallow
  target := by
    intro e he place target raw hnode
    obtain ⟨g, hstep, _, m, hm, hmeans, _⟩ := mem_listing_groups he
    obtain ⟨digits, hdigits, rfl⟩ := (hnode ▸ hmeans).promises
    rw [List.length_map]
    exact hg.jumps g (List.mem_of_getElem? hstep) m hm digits hdigits
  name := by
    intro e he name hname
    obtain ⟨_, _, _, _, _, hmeans, _⟩ := mem_listing_groups he
    exact hmeans.isVariable hname
  printed := by
    intro e he place value hnode
    obtain ⟨_, _, _, _, _, hmeans, _⟩ := mem_listing_groups he
    exact (hnode ▸ hmeans).promises
  assigned := by
    intro e he place name value hnode
    obtain ⟨_, _, _, _, _, hmeans, _⟩ := mem_listing_groups he
    exact (hnode ▸ hmeans).promises.2

end Ruled

/-! ## What the check accepts -/

/-- When a rule and those after it find no problem, neither does the rule nor do those after it. -/
theorem problem_step_none {found rest : Option Problem}
    (h : (match found with | some p => some p | none => rest) = none) : found = none ∧ rest = none := by
  cases found with
  | some p => cases h
  | none => exact ⟨rfl, h⟩

/-- Statements without a problem keep every rule. -/
theorem rules_eq_none {ss : List Statement} (h : rules ss = none) :
    numbering 1 (stepsOf ss) = none ∧ startStop (stepsOf ss) = none ∧ indentationOf none ss = none ∧
      contents (((stepsOf ss).head?.map Statement.line).getD 0) ss = none ∧ variableCount ss = none ∧
      targets ((stepsOf ss).filterMap fun s => s.head.map Head.number) ss = none := by
  unfold rules at h
  obtain ⟨hnumbering, h⟩ := problem_step_none h
  obtain ⟨hstart, h⟩ := problem_step_none h
  obtain ⟨hindentation, h⟩ := problem_step_none h
  obtain ⟨hcontents, h⟩ := problem_step_none h
  obtain ⟨hcount, htargets⟩ := problem_step_none h
  exact ⟨hnumbering, hstart, hindentation, hcontents, hcount, htargets⟩

/-- An accepted text has lines and statements that keep the rules, and not all of its lines are indented. -/
theorem accepted_eq_ok {text : String} {ss : List Statement} (h : accepted text = .ok ss) :
    ∃ ls, load text = .ok ls ∧ (∃ l ∈ ls, isIndented l.text = false) ∧ statements ls = .ok ss ∧ rules ss = none := by
  unfold accepted at h
  split at h
  · cases h
  · rename_i ls hload
    split at h
    · cases h
    · rename_i ss' hheaders
      split at h
      · cases h
      · rename_i hrules
        obtain rfl := Except.ok.inj h
        unfold headers at hheaders
        split at hheaders
        · cases hheaders
        · rename_i hindented
          exact ⟨ls, hload, by simpa using hindented, hheaders, hrules⟩

/-- Only the first step stands on the line of the first step, since later lines have greater numbers. -/
theorem opening_groups {gs : List (Group first)}
    (hlines : ((gs.flatMap Group.marks).map Mark.line).Pairwise fun a b => a.number < b.number)
    (hfirst : first = ((gs.map fun g => g.lead.statement).head?.map Statement.line).getD 0) :
    ∀ (i : Nat) (g : Group first), gs[i]? = some g → g.lead.statement.line = first → i = 0 := by
  intro i g hg hline
  cases gs with
  | nil => simp at hg
  | cons g₀ gs =>
    cases i with
    | zero => rfl
    | succ i =>
      have hmem : g ∈ gs := List.mem_of_getElem? hg
      have hlead : g.lead.line ∈ (g₀.items.flatMap Item.marks ++ gs.flatMap Group.marks).map Mark.line :=
        List.mem_map_of_mem (List.mem_append_right _ (List.mem_flatMap.2 ⟨g, hmem, List.mem_cons_self⟩))
      rw [List.flatMap_cons, Group.marks, List.cons_append, List.map_cons, List.pairwise_cons] at hlines
      have hlt := hlines.1 _ hlead
      simp only [List.map_cons, List.head?_cons, Option.map_some, Option.getD_some] at hfirst
      rw [Mark.statement_line] at hline hfirst
      omega

/-- An accepted text consists of groups that keep the rules, with nothing but empty lines around them. -/
theorem exists_groups {text : String} {ss : List Statement} (h : accepted text = .ok ss) :
    ∃ (first : Nat) (gs : List (Group first)) (before after : List Line),
      sourceLines text = before ++ (gs.flatMap Group.marks).map Mark.line ++ after ∧ (∀ l ∈ before ++ after, l.text = []) ∧
      (gs.flatMap Group.marks).map Mark.statement = ss ∧ Ruled gs := by
  obtain ⟨ls, hload, ⟨l, hl, _⟩, hread, hrules⟩ := accepted_eq_ok h
  obtain ⟨hnumbering, hstart, hindentation, hcontents, _, htargets⟩ := rules_eq_none hrules
  obtain ⟨⟨before, after, hlines, hempty⟩, hfilled⟩ := load_eq_ok hload
  -- The marks depend on the line of the first step, so it gets a name before the statements are replaced.
  obtain ⟨first, hfirst⟩ : ∃ first, first = ((stepsOf ss).head?.map Statement.line).getD 0 := ⟨_, rfl⟩
  rw [← hfirst] at hcontents
  obtain ⟨ms, rfl, rfl⟩ := exists_marks hread hfilled hcontents
  obtain ⟨gs, rfl⟩ := groups_or_continues none ms hindentation
  rw [stepsOf_groups] at hnumbering hstart htargets hfirst
  have hnumbers := numbering_groups hnumbering
  have hordered : ((gs.flatMap Group.marks).map Mark.line).Pairwise fun a b => a.number < b.number := by
    have hall := numberLines_pairwise 1 (splitLines text.toList)
    rw [show numberLines 1 (splitLines text.toList) = sourceLines text from rfl, hlines] at hall
    exact (List.pairwise_append.1 (List.pairwise_append.1 hall).1).2.1
  refine ⟨first, gs, before, after, hlines, hempty, rfl, ?_⟩
  constructor
  case nonempty =>
    rintro rfl
    cases hl
  case numbered =>
    intro i g hg
    obtain ⟨hnumber, hle⟩ := hnumbers i g hg
    exact ⟨by omega, hle⟩
  case begins => exact (startStop_groups hstart).1
  case opening => exact opening_groups hordered hfirst
  case ends => exact (startStop_groups hstart).2
  case jumps => exact targets_groups (fun i g hg => (hnumbers i g hg).1) htargets

/-- An accepted text can be read; the program is regular and binds the names that the check counted. -/
theorem parse_of_accepted {text : String} {ss : List Statement} (h : accepted text = .ok ss) :
    ∃ p, Program.parse text = .ok p ∧ p.Regular ∧ p.varNames = names ss := by
  obtain ⟨first, gs, before, after, hlines, hempty, rfl, hruled⟩ := exists_groups h
  have hnumerals : ∀ g ∈ gs, Text.readNumeral? g.head.digits = some g.head.number := by
    intro g hg
    obtain ⟨i, hi⟩ := List.mem_iff_getElem?.1 hg
    exact readNumeral?_of_le (hruled.numbered i g hi).2
  have hsteps : Program.readSteps (sourceLines text) = .ok (gs.map Group.step) := by
    rw [hlines, List.append_assoc,
      Program.readSteps_append_empty fun l hl => hempty l (List.mem_append_left after hl)]
    exact readSteps_groups gs (fun l hl => hempty l (List.mem_append_right before hl)) hnumerals
  refine ⟨⟨gs.map Group.step, text⟩, ?_, hruled.regular text, varNames_groups gs text⟩
  unfold Program.parse
  rw [hsteps]
  cases gs with
  | nil => exact absurd rfl hruled.nonempty
  | cons => rfl

/-- An accepted text binds at most six names. -/
theorem names_length_of_accepted {text : String} {ss : List Statement} (h : accepted text = .ok ss) :
    (names ss).length ≤ 6 := by
  obtain ⟨_, _, _, _, hrules⟩ := accepted_eq_ok h
  obtain ⟨_, _, _, _, hcount, _⟩ := rules_eq_none hrules
  unfold variableCount at hcount
  split at hcount
  · cases hcount
  · rename_i hle
    exact Nat.le_of_not_lt hle

/-- A text without a problem is accepted. -/
theorem accepted_of_problem?_eq_none {text : String} (h : problem? text = none) : ∃ ss, accepted text = .ok ss := by
  unfold problem? at h
  split at h
  · cases h
  · rename_i ss hss
    exact ⟨ss, hss⟩

/-- The check is a sound gate for the reader: a text without a problem is read into a regular program that binds the names that
the check counted, at most six of them, and loads as a session of that program. So no text is refused by the reader. -/
theorem sound_gate (text : String) :
    (problem? text = none → ∃ p ss, Program.parse text = .ok p ∧ p.Regular ∧ accepted text = .ok ss ∧
      p.varNames = names ss ∧ (names ss).length ≤ 6 ∧ Session.load text = .ok (Session.ofProgram p)) ∧
    ∀ e, Session.load text ≠ .error (.unreadable e) := by
  constructor
  · intro hnone
    obtain ⟨ss, hss⟩ := accepted_of_problem?_eq_none hnone
    obtain ⟨p, hp, hregular, hnames⟩ := parse_of_accepted hss
    refine ⟨p, ss, hp, hregular, hss, hnames, names_length_of_accepted hss, ?_⟩
    rw [Session.load, hnone, hp]
  · intro e he
    unfold Session.load at he
    split at he
    · cases he
    · rename_i hnone
      obtain ⟨ss, hss⟩ := accepted_of_problem?_eq_none hnone
      obtain ⟨p, hp, _⟩ := parse_of_accepted hss
      rw [hp] at he
      cases he

/-- A text with a jump out of a block and a block inside a block. -/
def branchingText : String :=
  "step-1: start\nstep-2: read A\nstep-3: if (A > 1):\n          if (A > 2):\n            print A\n" ++
    "          goto step-2\nstep-4: stop\n"

theorem sound_gate_branching : problem? branchingText = none ∧ ∃ p, Program.parse branchingText = .ok p ∧ p.Regular := by
  have hnone : problem? branchingText = none := by decide +kernel
  obtain ⟨p, _, hp, hregular, _⟩ := (sound_gate branchingText).1 hnone
  exact ⟨hnone, p, hp, hregular⟩

end Stepwise.Check
