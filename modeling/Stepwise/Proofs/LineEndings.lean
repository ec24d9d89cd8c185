import Stepwise.Check.Rules
import Stepwise.Program.Parser
import Stepwise.Proofs.Lines

/-!
# Line endings

Reading a program cuts its text at every kind of line break, so a text and the same text with line feeds only are read alike. The
check looks for tabs before it cuts, and counts only line feeds when it does: behind a carriage return that stands alone, the line of
the first tab is counted too low.
-/

namespace Stepwise

variable {s : String}

/-! ## Writing a text with line feeds only -/

/-- The text with every carriage return and line feed that follow each other written as a line feed. -/
def joinPairs : List Char → List Char
  | [] => []
  | '\r' :: '\n' :: cs => '\n' :: joinPairs cs
  | c :: cs => c :: joinPairs cs

/-- The text with pairs joined first, and then with every carriage return that is left written as a line feed. -/
def withLineFeeds (s : String) : String :=
  String.ofList ((joinPairs s.toList).map fun c => if c = '\r' then '\n' else c)

/-- How many carriage returns have no line feed behind them. -/
def loneReturns (cs : List Char) : Nat := (joinPairs cs).count '\r'

theorem toList_withLineFeeds (s : String) : (withLineFeeds s).toList = unifyBreaks s.toList := by
  rw [withLineFeeds, String.toList_ofList]
  generalize s.toList = cs
  fun_induction unifyBreaks cs with
  | case1 => rfl
  | case2 cs ih => rw [joinPairs, List.map_cons, ih, if_neg (by decide)]
  | case3 cs hpair ih =>
    rw [joinPairs.eq_3 _ _ (fun cs' _ heq => hpair cs' heq), List.map_cons, ih, if_pos rfl]
  | case4 c cs _ hsingle ih =>
    rw [joinPairs.eq_3 _ _ (fun _ hc _ => hsingle hc), List.map_cons, ih, if_neg hsingle]

theorem sourceLines_withLineFeeds (s : String) : sourceLines (withLineFeeds s) = sourceLines s := by
  rw [sourceLines, sourceLines, splitLines, splitLines, toList_withLineFeeds,
    unifyBreaks_eq_self (return_notMem_unifyBreaks s.toList)]

theorem Program.parse_withLineFeeds (s : String) :
    parse (withLineFeeds s) = (parse s).map fun p => { p with source := withLineFeeds s } := by
  rw [parse, parse, sourceLines_withLineFeeds]
  rcases readSteps (sourceLines s) with e | steps
  · rfl
  · cases steps <;> rfl

/-! ## The line of the first tab -/

/-- A test that takes the two breaks for the same holds of all characters before and after. -/
theorem all_unifyBreaks {p : Char → Bool} (hp : p '\r' = p '\n') (cs : List Char) : (unifyBreaks cs).all p = cs.all p := by
  fun_induction unifyBreaks cs with
  | case1 => rfl
  | case2 cs ih => rw [List.all_cons, List.all_cons, List.all_cons, ih, hp, ← Bool.and_assoc, Bool.and_self]
  | case3 cs _ ih => rw [List.all_cons, List.all_cons, ih, hp]
  | case4 c cs _ _ ih => rw [List.all_cons, List.all_cons, ih]

/-- A test that lets breaks through cuts a text at the same place before and after. -/
theorem takeWhile_unifyBreaks {p : Char → Bool} (hr : p '\r' = true) (hn : p '\n' = true) (cs : List Char) :
    (unifyBreaks cs).takeWhile p = unifyBreaks (cs.takeWhile p) := by
  fun_induction unifyBreaks cs with
  | case1 => rfl
  | case2 cs ih => rw [List.takeWhile_cons_of_pos hn, List.takeWhile_cons_of_pos hr, List.takeWhile_cons_of_pos hn, ih, unifyBreaks]
  | case3 cs hpair ih =>
    -- what is kept of the rest begins as the rest does, so the return still stands alone
    have hkept : ∀ cs', cs.takeWhile p = '\n' :: cs' → False := by
      intro cs' heq
      obtain ⟨t, ht⟩ := List.takeWhile_prefix (l := cs) p
      exact hpair (cs' ++ t) (by rw [← ht, heq, List.cons_append])
    rw [List.takeWhile_cons_of_pos hn, List.takeWhile_cons_of_pos hr, ih, unifyBreaks.eq_3 _ hkept]
  | case4 c cs _ hsingle ih =>
    by_cases hc : p c = true
    · rw [List.takeWhile_cons_of_pos hc, List.takeWhile_cons_of_pos hc, ih, unifyBreaks.eq_4 _ _ (fun _ h _ => hsingle h) hsingle]
    · rw [List.takeWhile_cons_of_neg hc, List.takeWhile_cons_of_neg hc, unifyBreaks]

/-- Every lone carriage return gives a line feed more. -/
theorem count_unifyBreaks (cs : List Char) : (unifyBreaks cs).count '\n' = cs.count '\n' + loneReturns cs := by
  rw [loneReturns]
  fun_induction unifyBreaks cs with
  | case1 => rfl
  | case2 cs ih => simp [joinPairs, ih]; omega
  | case3 cs hpair ih =>
    rw [joinPairs.eq_3 _ _ (fun cs' _ heq => hpair cs' heq)]
    simp [ih]; omega
  | case4 c cs _ hsingle ih =>
    rw [joinPairs.eq_3 _ _ (fun _ hc _ => hsingle hc)]
    rw [List.count_cons, List.count_cons, List.count_cons_of_ne hsingle, ih, Nat.add_right_comm]

namespace Check

/-- The first tab of the text with line feeds only stands as many lines further down as there are lone carriage returns before
it. -/
theorem tabLine?_withLineFeeds (s : String) :
    tabLine? (withLineFeeds s).toList =
      (tabLine? s.toList).map (· + loneReturns (s.toList.takeWhile (· != '\t'))) := by
  have htab : (unifyBreaks s.toList).contains '\t' = s.toList.contains '\t' := by
    rw [List.contains_eq_any_beq, List.contains_eq_any_beq, List.any_eq_not_all_not, List.any_eq_not_all_not, all_unifyBreaks rfl]
  rw [tabLine?, tabLine?, toList_withLineFeeds, htab, takeWhile_unifyBreaks rfl rfl, count_unifyBreaks]
  by_cases h : s.toList.contains '\t' = true
  · rw [if_pos h, if_pos h, Option.map_some, Nat.add_right_comm]
  · rw [if_neg h, if_neg h, Option.map_none]

/-- The text has something to read and a tab, so that the check stops at the tab. -/
def StopsAtTab (s : String) : Prop := s.toList.all Text.isBlank = false ∧ '\t' ∈ s.toList

theorem all_isBlank_withLineFeeds (s : String) : (withLineFeeds s).toList.all Text.isBlank = s.toList.all Text.isBlank := by
  rw [toList_withLineFeeds, all_unifyBreaks (by decide)]

/-- The problem of a text that the check leaves at a tab is the line of its first tab. -/
theorem problem?_of_tabLine? {n : Nat} (hfilled : s.toList.all Text.isBlank = false) (h : tabLine? s.toList = some n) :
    problem? s = some (.onLine n .tab) := by
  rw [problem?, accepted, load, if_neg (by simp [hfilled])]
  simp only [h]

/-- There the lone carriage returns before the tab are missing in the number. -/
theorem problem?_of_stopsAtTab (h : StopsAtTab s) :
    ∃ n, problem? s = some (.onLine n .tab) ∧
      problem? (withLineFeeds s) = some (.onLine (n + loneReturns (s.toList.takeWhile (· != '\t'))) .tab) := by
  have htab : tabLine? s.toList = some ((s.toList.takeWhile (· != '\t')).count '\n' + 1) :=
    if_pos (List.contains_iff_mem.2 h.2)
  have htab' := tabLine?_withLineFeeds s
  rw [htab, Option.map_some] at htab'
  exact ⟨_, problem?_of_tabLine? h.1 htab, problem?_of_tabLine? ((all_isBlank_withLineFeeds s).trans h.1) htab'⟩

/-- Everywhere else the check sees only the lines. -/
theorem problem?_withLineFeeds (h : ¬ StopsAtTab s) : problem? (withLineFeeds s) = problem? s := by
  have hload : load (withLineFeeds s) = load s := by
    rw [load, load, all_isBlank_withLineFeeds, sourceLines_withLineFeeds, tabLine?_withLineFeeds]
    by_cases hblank : s.toList.all Text.isBlank = true
    · rw [if_pos hblank, if_pos hblank]
    · have hnone : tabLine? s.toList = none :=
        if_neg fun hmem => h ⟨Bool.eq_false_iff.2 hblank, List.contains_iff_mem.1 hmem⟩
      rw [hnone, Option.map_none]
  rw [problem?, problem?, accepted, accepted, hload]

/-- Line endings do not matter to reading: a text and the same text with line feeds only have the same program, or the same error.
The check gives them the same answer exactly if no carriage return stands alone before a tab that the check stops at; else the line
that it names lies too low by the number of those. -/
theorem line_endings_agree (s : String) :
    Program.parse (withLineFeeds s) = (Program.parse s).map (fun p => { p with source := withLineFeeds s }) ∧
    (problem? (withLineFeeds s) = problem? s ↔ (StopsAtTab s → loneReturns (s.toList.takeWhile (· != '\t')) = 0)) ∧
    (StopsAtTab s → ∃ n, problem? s = some (.onLine n .tab) ∧
      problem? (withLineFeeds s) = some (.onLine (n + loneReturns (s.toList.takeWhile (· != '\t'))) .tab)) := by
  refine ⟨Program.parse_withLineFeeds s, ?_, problem?_of_stopsAtTab⟩
  by_cases h : StopsAtTab s
  · obtain ⟨n, hn, hn'⟩ := problem?_of_stopsAtTab h
    rw [hn, hn']
    constructor
    · intro heq _
      have hline : n + loneReturns (s.toList.takeWhile (· != '\t')) = n := by simpa [Problem.onLine] using heq
      omega
    · intro hzero
      rw [hzero h, Nat.add_zero]
  · exact ⟨fun _ hstops => absurd hstops h, fun _ => problem?_withLineFeeds h⟩

/-- A carriage return ends the first line, and the tab of the second line is announced for the first. -/
theorem line_endings_disagree :
    problem? "step-1: start\r\tprint 1\rstep-2: stop" = some (.onLine 1 .tab) ∧
      problem? (withLineFeeds "step-1: start\r\tprint 1\rstep-2: stop") = some (.onLine 2 .tab) := by
  decide +kernel

end Check

end Stepwise
