import Stepwise.Proofs.Commands

/-!
# Regular programs

What an accepted text promises about the program that is read from it, said about the lines of its listing: the steps and the
items of their blocks at every depth.
-/

namespace Stepwise

/-! ## The lines of a listing -/

/-- A node is the first of its lines. -/
theorem Node.self_mem_entries (step : Nat) (path : List Nat) (n : Node) : ⟨step, path, n⟩ ∈ n.entries step path := by
  cases n <;> simp [Node.entries]

/-- The lines of a block are those of its items. -/
theorem mem_blockEntries {step : Nat} {path : List Nat} {position : Nat} {ns : List Node} {e : Entry} :
    e ∈ blockEntries step path position ns ↔
      ∃ (j : Nat) (n : Node), ns[j]? = some n ∧ e ∈ n.entries step (path ++ [position + j]) := by
  induction ns generalizing position with
  | nil => simp [blockEntries]
  | cons n ns ih =>
    rw [blockEntries, List.mem_append, ih]
    constructor
    · rintro (he | ⟨j, m, hj, he⟩)
      · exact ⟨0, n, rfl, he⟩
      · exact ⟨j + 1, m, hj, by rwa [Nat.add_right_comm, Nat.add_assoc] at he⟩
    · rintro ⟨j, m, hj, he⟩
      cases j with
      | zero =>
        obtain rfl := Option.some.inj hj
        exact Or.inl he
      | succ j => exact Or.inr ⟨j, m, hj, by rwa [Nat.add_right_comm, Nat.add_assoc]⟩

/-- The lines of steps are those of their nodes. -/
theorem mem_stepEntries {index : Nat} {ss : List Step} {e : Entry} :
    e ∈ stepEntries index ss ↔ ∃ (i : Nat) (s : Step), ss[i]? = some s ∧ e ∈ s.node.entries (index + i) [] := by
  induction ss generalizing index with
  | nil => simp [stepEntries]
  | cons s ss ih =>
    rw [stepEntries, List.mem_append, ih]
    constructor
    · rintro (he | ⟨i, t, hi, he⟩)
      · exact ⟨0, s, rfl, he⟩
      · exact ⟨i + 1, t, hi, by rwa [Nat.add_right_comm, Nat.add_assoc] at he⟩
    · rintro ⟨i, t, hi, he⟩
      cases i with
      | zero =>
        obtain rfl := Option.some.inj hi
        exact Or.inl he
      | succ i => exact Or.inr ⟨i, t, hi, by rwa [Nat.add_right_comm, Nat.add_assoc]⟩

mutual

/-- The items of a branch among the lines of a node are among them too. -/
theorem Node.child_mem_entries (n : Node) {step : Nat} {path : List Nat} {e : Entry} (he : e ∈ n.entries step path)
    {place : Place} {cond : Excerpt} {block : List Node} (hn : e.node = .branch place cond block) {j : Nat} {m : Node}
    (hj : block[j]? = some m) : ⟨step, e.path ++ [j], m⟩ ∈ n.entries step path := by
  cases n with
  | act p a =>
    simp only [Node.entries, List.mem_singleton] at he
    rw [he] at hn
    cases hn
  | branch p c b =>
    rw [Node.entries] at he ⊢
    rcases List.mem_cons.1 he with rfl | he
    · obtain ⟨rfl, rfl, rfl⟩ := Node.branch.inj hn
      refine List.mem_cons_of_mem _ (mem_blockEntries.2 ⟨j, m, hj, ?_⟩)
      rw [Nat.zero_add]
      exact Node.self_mem_entries step _ m
    · exact List.mem_cons_of_mem _ (child_mem_blockEntries b he hn hj)

/-- The items of a branch among the lines of a block are among them too. -/
theorem child_mem_blockEntries (ns : List Node) {step : Nat} {path : List Nat} {position : Nat} {e : Entry}
    (he : e ∈ blockEntries step path position ns) {place : Place} {cond : Excerpt} {block : List Node}
    (hn : e.node = .branch place cond block) {j : Nat} {m : Node} (hj : block[j]? = some m) :
    ⟨step, e.path ++ [j], m⟩ ∈ blockEntries step path position ns := by
  cases ns with
  | nil => simp [blockEntries] at he
  | cons n ns =>
    rw [blockEntries, List.mem_append] at he ⊢
    rcases he with he | he
    · exact Or.inl (Node.child_mem_entries n he hn hj)
    · exact Or.inr (child_mem_blockEntries ns he hn hj)

end

namespace Program

variable {p : Program}

/-- Every step has a line in the listing. -/
theorem step_mem_listing {i : Nat} {s : Step} (h : p.steps[i]? = some s) : ⟨i, [], s.node⟩ ∈ p.listing := by
  refine mem_stepEntries.2 ⟨i, s, h, ?_⟩
  rw [Nat.zero_add]
  exact Node.self_mem_entries i [] s.node

/-- Every item of a branch in the listing has a line there. -/
theorem item_mem_listing {e : Entry} (he : e ∈ p.listing) {place : Place} {cond : Excerpt} {block : List Node}
    (hn : e.node = .branch place cond block) {j : Nat} {m : Node} (hj : block[j]? = some m) :
    ∃ i, ⟨i, e.path ++ [j], m⟩ ∈ p.listing := by
  obtain ⟨i, s, hi, he⟩ := mem_stepEntries.1 he
  exact ⟨0 + i, mem_stepEntries.2 ⟨i, s, hi, Node.child_mem_entries s.node he hn hj⟩⟩

/-- A program as an accepted text gives it. -/
structure Regular (p : Program) : Prop where
  /-- There are between 2 and 99 steps. -/
  two_le : 2 ≤ p.steps.length
  le_max : p.steps.length ≤ 99
  /-- The steps are numbered from 1, so the step with a number is found right before the number's place. -/
  number : ∀ (i : Nat) (step : Step), p.steps[i]? = some step → step.number = i + 1
  indexOf : ∀ n, 1 ≤ n → n ≤ p.steps.length → p.indexOf? n = some (n - 1)
  /-- The first step is the only start, at any depth. -/
  start : ∀ e ∈ p.listing, (∃ place, e.node = .act place .start) ↔ e.step = 0 ∧ e.path = []
  /-- The last step is the only stop, at any depth. -/
  stop : ∀ e ∈ p.listing, (∃ place, e.node = .act place .stop) ↔ e.step + 1 = p.steps.length ∧ e.path = []
  /-- There is no unknown command. -/
  known : ∀ e ∈ p.listing, ∀ place text, e.node ≠ .act place (.unknown text)
  /-- No block is empty. -/
  filled : ∀ e ∈ p.listing, ∀ place cond block, e.node = .branch place cond block → block ≠ []
  /-- Blocks nest at most two deep. -/
  shallow : ∀ e ∈ p.listing, e.path.length ≤ 2
  /-- Every jump goes to a step. -/
  target : ∀ e ∈ p.listing, ∀ place target raw, e.node = .act place (.jump target raw) →
    ∃ n, target = some n ∧ 1 ≤ n ∧ n ≤ p.steps.length
  /-- Every name that is read or assigned is the name of a variable. -/
  name : ∀ e ∈ p.listing, ∀ name, e.node.name? = some name → IsVariable name
  /-- Every expression that is printed or assigned has a text. -/
  printed : ∀ e ∈ p.listing, ∀ place value, e.node = .act place (.print value) → value.text ≠ ""
  assigned : ∀ e ∈ p.listing, ∀ place name value, e.node = .act place (.assign name value) → value.text ≠ ""

end Program

end Stepwise
