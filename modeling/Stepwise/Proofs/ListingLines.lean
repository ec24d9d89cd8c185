import Stepwise.Proofs.Marks

/-!
# The listing of a text that was read

The lines of the listing are the lines of the text that are not empty, with their numbers and in their order, whether or not the
text was checked. So a line of the text belongs to one place of the listing.
-/

namespace Stepwise

/-- The line of the text that a line of the listing was read from. -/
def Entry.written (e : Entry) : Line := ⟨e.node.line, e.node.source.toList⟩

/-- The items of a block are read from the lines of the block, one after the other. -/
theorem written_blockItems (ls : List Line) (step : Nat) (path : List Nat) (position : Nat) :
    (blockEntries step path position (Program.blockItems ls)).map Entry.written = ls := by
  fun_induction Program.blockItems ls generalizing path position with
  | case1 => rfl
  | case2 l ls indent content place arg harg ihinner ihouter =>
    rw [blockEntries, Node.entries, List.map_append, List.map_cons, ihinner, ihouter, List.cons_append,
      List.takeWhile_append_dropWhile]
    simp [Entry.written, Node.line, Node.source, Node.place, place]
  | case3 l ls indent content place harg ih =>
    rw [blockEntries, Node.entries, List.map_append, ih]
    simp [Entry.written, Node.line, Node.source, Node.place, place]

/-- A step with its block is read from its own line and from the lines of its block. -/
theorem written_stepNode (l : Line) (h : Header) (below : List Line) (step : Nat) :
    ∃ block after, (∀ b ∈ block, b.text ≠ []) ∧ below = block ++ after ∧ Program.afterStep h below = after ∧
      ((Program.stepNode l h below).entries step []).map Entry.written = l :: block := by
  unfold Program.stepNode Program.afterStep
  split
  · refine ⟨below.takeWhile (Program.inBlock (Program.blockColumn h.digits.length)), _, ?_,
      (List.takeWhile_append_dropWhile).symm, rfl, ?_⟩
    · intro b hb hempty
      have hin := List.mem_takeWhile_imp hb
      simp [Program.inBlock, hempty] at hin
    · rw [Node.entries, List.map_cons, written_blockItems]
      simp [Entry.written, Node.line, Node.source, Node.place]
  · refine ⟨[], below, by simp, rfl, rfl, ?_⟩
    simp [Node.entries, Entry.written, Node.line, Node.source, Node.place]

/-- The steps of a text are read from its lines that are not empty. -/
theorem written_readSteps {ls : List Line} {steps : List Step} (h : Program.readSteps ls = .ok steps) (index : Nat) :
    (stepEntries index steps).map Entry.written = ls.filter fun l => !l.text.isEmpty := by
  fun_induction Program.readSteps ls generalizing steps index with
  | case1 =>
    obtain rfl := Except.ok.inj h
    rfl
  | case2 l ls hempty ih => rw [ih h index, List.filter_cons_of_neg (by simp [hempty])]
  | case3 => cases h
  | case4 => cases h
  | case5 => cases h
  | case6 => cases h
  | case7 l ls hfilled _ hd _ n _ rest hrest ih =>
    obtain rfl := Except.ok.inj h
    obtain ⟨block, after, hblock, hbelow, hafter, hwritten⟩ := written_stepNode l hd ls index
    have hkept : block.filter (fun l => !l.text.isEmpty) = block :=
      List.filter_eq_self.2 fun b hb => by simpa using hblock b hb
    rw [stepEntries, List.map_append, hwritten, ih hrest, hafter, List.filter_cons_of_pos (by simpa using hfilled), hbelow,
      List.filter_append, hkept, List.cons_append]

namespace Program

/-- The listing of a program is the lines of its text that are not empty. -/
theorem listing_written {text : String} {p : Program} (h : parse text = .ok p) :
    p.listing.map Entry.written = (sourceLines text).filter fun l => !l.text.isEmpty := by
  unfold parse at h
  split at h
  · cases h
  · cases h
  · rename_i steps _ hsteps
    obtain rfl := Except.ok.inj h
    exact written_readSteps hsteps 0

/-- Down the listing the numbers of the lines go up. -/
theorem listing_pairwise {text : String} {p : Program} (h : parse text = .ok p) :
    p.listing.Pairwise fun a b => a.node.line < b.node.line := by
  have hlines : ((sourceLines text).filter fun l => !l.text.isEmpty).Pairwise fun a b => a.number < b.number :=
    (numberLines_pairwise 1 (splitLines text.toList)).filter _
  rw [← listing_written h, List.pairwise_map] at hlines
  exact hlines

end Program

end Stepwise
