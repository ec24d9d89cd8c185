import Stepwise.Proofs.Marks

/-!
# The layout of an accepted text

The check follows the indentation of a text line by line with a small state. What it accepts has a shape: groups of lines, each
a step with the items of its block, each item a line with the lines nested under it. The reader, which cuts blocks out by their
least indentation, finds the same shape. So the steps that are read can be written down group by group.
-/

namespace Stepwise.Check

variable {first : Nat}

/-- A line of a block at the column `base` with the lines nested under it. Nested lines stand two columns further and are no
branches; there are some exactly under a branch. -/
structure Item (first base : Nat) where
  lead : Mark first
  nested : List (Mark first)
  inBlock : lead.statement.head = none
  column : lead.statement.indent = base
  deeper : ∀ m ∈ nested, m.statement.head = none ∧ m.statement.indent = base + 2 ∧ isIf m.statement.content = false
  opens : isIf lead.statement.content = true ↔ nested ≠ []

/-- The line of a step with the items of its block, of which there are some exactly under a branch. -/
structure Group (first : Nat) where
  lead : Mark first
  head : Head
  isStep : lead.statement.head = some head
  items : List (Item first (Program.blockColumn head.digits.length))
  opens : isIf lead.statement.content = true ↔ items ≠ []

/-- The lines of an item. -/
def Item.marks {base : Nat} (i : Item first base) : List (Mark first) := i.lead :: i.nested

/-- The lines of a group. -/
def Group.marks (g : Group first) : List (Mark first) := g.lead :: g.items.flatMap Item.marks

/-! ## From the check to groups -/

/-- What the lines after an open block are: lines nested under its last item, further items, and further groups. There are
nested lines only under an open branch, which has some when it ends; and the block has an item when it ends. -/
def Continues (b : Block) (ms : List (Mark first)) : Prop :=
  ∃ (nested : List (Mark first)) (items : List (Item first b.base)) (gs : List (Group first)),
    ms = nested ++ items.flatMap Item.marks ++ gs.flatMap Group.marks ∧
    (∀ m ∈ nested, m.statement.head = none ∧ m.statement.indent = b.base + 2 ∧ isIf m.statement.content = false) ∧
    (b.nested = none → nested = []) ∧ (b.nested ≠ none → b.nestedItems + nested.length ≠ 0) ∧ b.items + items.length ≠ 0

variable {b : Block} {m : Mark first} {ms : List (Mark first)}

/-- A nested block that may end has an item. -/
theorem nestedItems_of_closeNested (h : b.closeNested = none) (hn : b.nested ≠ none) : b.nestedItems ≠ 0 := by
  unfold Block.closeNested at h
  split at h
  · split at h
    · cases h
    · assumption
  · contradiction

/-- A block that may end has an item, and its nested block may end. -/
theorem of_close (h : b.close = none) : b.closeNested = none ∧ b.items ≠ 0 := by
  unfold Block.close at h
  split at h
  · cases h
  · rename_i hn
    split at h
    · cases h
    · exact ⟨hn, by assumption⟩

/-- A block that may end is followed by groups. -/
theorem Continues.of_close (h : b.close = none) {gs : List (Group first)} (hms : ms = gs.flatMap Group.marks) :
    Continues b ms := by
  obtain ⟨hn, hitems⟩ := Check.of_close h
  refine ⟨[], [], gs, by simpa using hms, by simp, fun _ => rfl, fun hne => ?_, by simpa using hitems⟩
  simpa using nestedItems_of_closeNested hn hne

/-- A line at the column of the block is its next item. -/
theorem Continues.item (hclose : b.closeNested = none) (hm : m.statement.head = none) (hcol : m.statement.indent = b.base)
    {opened : Option Nat} (hopen : isIf m.statement.content = true ↔ opened ≠ none)
    (h : Continues { b with items := b.items + 1, nested := opened, nestedItems := 0 } ms) : Continues b (m :: ms) := by
  obtain ⟨nested, items, gs, rfl, hdeep, hnone, hsome, _⟩ := h
  have hiff : isIf m.statement.content = true ↔ nested ≠ [] := by
    rw [hopen]
    constructor
    · intro ho hnil
      exact hsome ho (by simp [hnil])
    · intro hne ho
      exact hne (hnone ho)
  refine ⟨[], ⟨m, nested, hm, hcol, hdeep, hiff⟩ :: items, gs, by simp [Item.marks], by simp, fun _ => rfl, fun hne => ?_,
    by simp⟩
  simpa using nestedItems_of_closeNested hclose hne

/-- A line two columns further under an open branch is nested there. -/
theorem Continues.deeper (hm : m.statement.head = none) (hcol : m.statement.indent = b.base + 2)
    (hif : isIf m.statement.content = false) (hopen : b.nested ≠ none)
    (h : Continues { b with nestedItems := b.nestedItems + 1 } ms) : Continues b (m :: ms) := by
  obtain ⟨nested, items, gs, rfl, hdeep, _, _, hitems⟩ := h
  refine ⟨m :: nested, items, gs, by simp, ?_, fun hn => absurd hn hopen, by simp, hitems⟩
  intro n hn
  rcases List.mem_cons.1 hn with rfl | hn
  · exact ⟨hm, hcol, hif⟩
  · exact hdeep n hn

/-- The line of a step with what follows its block is a group followed by groups. -/
theorem Continues.group {h : Head} (hm : m.statement.head = some h) (hif : isIf m.statement.content = true) {line : Nat}
    (hc : Continues (.ofStep line h) ms) : ∃ gs : List (Group first), m :: ms = gs.flatMap Group.marks := by
  obtain ⟨nested, items, gs, rfl, _, hnone, _, hitems⟩ := hc
  obtain rfl := hnone rfl
  have hne : items ≠ [] := by
    rintro rfl
    exact hitems rfl
  exact ⟨⟨m, h, hm, items, ⟨fun _ => hne, fun _ => hif⟩⟩ :: gs, rfl⟩

/-- Indentation without a problem: outside a block there are groups, inside one the block goes on. The induction is on the
lines, with one case for each way the check goes on. -/
theorem groups_or_continues (block : Option Block) (ms : List (Mark first))
    (h : indentationOf block (ms.map Mark.statement) = none) :
    match block with
    | none => ∃ gs : List (Group first), ms = gs.flatMap Group.marks
    | some b => Continues b ms := by
  induction ms generalizing block with
  | nil =>
    cases block with
    | none => exact ⟨[], rfl⟩
    | some b => exact Continues.of_close h (show [] = List.flatMap Group.marks [] from rfl)
  | cons m ms ih =>
    rw [List.map_cons] at h
    unfold indentationOf at h
    cases hm : m.statement.head with
    | some hd =>
      simp only [hm] at h
      split at h
      · cases h
      · rename_i hclose
        have hgroups : ∃ gs : List (Group first), m :: ms = gs.flatMap Group.marks := by
          cases hif : isIf m.statement.content with
          | true =>
            rw [hif, if_pos rfl] at h
            exact (ih _ h).group hm hif
          | false =>
            rw [hif, if_neg (by decide)] at h
            obtain ⟨gs, rfl⟩ := ih _ h
            exact ⟨⟨m, hd, hm, [], by simp [hif]⟩ :: gs, rfl⟩
        obtain ⟨gs, hgs⟩ := hgroups
        cases block with
        | none => exact ⟨gs, hgs⟩
        | some b => exact Continues.of_close hclose hgs
    | none =>
      simp only [hm] at h
      cases block with
      | none => cases h
      | some b =>
        simp only at h
        split at h
        · rename_i hcol
          split at h
          · cases h
          · rename_i hclose
            refine (ih _ h).item hclose hm hcol ?_
            cases isIf m.statement.content <;> simp
        · split at h
          · cases h
          · rename_i n hn
            split at h
            · rename_i hcol
              split at h
              · cases h
              · rename_i hif
                exact (ih _ h).deeper hm hcol (by simpa using hif) (by simp [hn])
            · cases h

end Stepwise.Check
