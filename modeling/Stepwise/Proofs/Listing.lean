import Stepwise.Proofs.Reading
import Stepwise.Proofs.Regular

/-!
# The listing of an accepted text

What the lines of a text that passed the check mean when they are read: each line of the listing keeps the promises of the
check, and together they bind the names that the check counts.
-/

namespace Stepwise.Check

variable {first base : Nat}

/-! ## What the lines of an accepted text mean -/

/-- A node says what the line says: it is a branch with a block, or an action that keeps the promises of the check and binds the
name that the check counts. -/
def Mark.Means (m : Mark first) (n : Node) : Prop :=
  (isIf m.statement.content = true ∧ ∃ place cond block, n = .branch place cond block ∧ block ≠ []) ∨
  (isIf m.statement.content = false ∧ ∃ place a, n = .act place a ∧
    Promises m.statement.head.isSome (m.statement.head.isSome && m.statement.line == first) m.statement.content a ∧
    a.name? = nameOf? m.statement.content)

/-- A node binds the name that the check counts for its line. -/
theorem Mark.Means.name? {m : Mark first} {n : Node} (h : m.Means n) : n.name? = nameOf? m.statement.content := by
  rcases h with ⟨hif, place, cond, block, rfl, _⟩ | ⟨_, place, a, rfl, _, hname⟩
  · exact (m.passes.nameOf?_of_isIf hif).symm
  · exact hname

/-- An action keeps the promises of the check for its line. -/
theorem Mark.Means.promises {m : Mark first} {place : Place} {a : Action} (h : m.Means (.act place a)) :
    Promises m.statement.head.isSome (m.statement.head.isSome && m.statement.line == first) m.statement.content a := by
  rcases h with ⟨_, _, _, _, hnode, _⟩ | ⟨_, _, _, hnode, hkept, _⟩
  · cases hnode
  · obtain ⟨_, rfl⟩ := Node.act.inj hnode
    exact hkept

/-- The block of a branch is not empty. -/
theorem Mark.Means.filled {m : Mark first} {place : Place} {cond : Excerpt} {block : List Node}
    (h : m.Means (.branch place cond block)) : block ≠ [] := by
  rcases h with ⟨_, _, _, _, hnode, hblock⟩ | ⟨_, _, _, hnode, _⟩
  · obtain ⟨_, _, rfl⟩ := Node.branch.inj hnode
    exact hblock
  · cases hnode

/-- A name that a node binds is the name of a variable. -/
theorem Mark.Means.isVariable {m : Mark first} {n : Node} (h : m.Means n) {name : String} (hn : n.name? = some name) :
    IsVariable name := by
  cases n with
  | branch => cases hn
  | act place a =>
    have hkept := h.promises
    cases a with
    | read v =>
      obtain rfl := Option.some.inj hn
      exact hkept
    | assign v value =>
      obtain rfl := Option.some.inj hn
      exact hkept.1
    | _ => cases hn

/-- The action of a line that is no branch. -/
theorem Mark.means_act {m : Mark first} (hif : isIf m.statement.content = false) : m.Means m.act :=
  Or.inr ⟨hif, _, _, rfl, m.passes.promises hif _ _⟩

/-- The node of an item says what its first line says. -/
theorem Item.means (i : Item first base) : i.lead.Means i.node := by
  unfold Item.node
  split
  · rename_i arg harg
    have hif := i.lead.passes.isIf_iff.2 ⟨arg, harg⟩
    refine Or.inl ⟨hif, _, _, _, rfl, ?_⟩
    simpa using i.opens.1 hif
  · rename_i hnone
    exact Mark.means_act (i.lead.passes.isIf_eq_false hnone)

/-- The node of a step says what its first line says. -/
theorem Group.means (g : Group first) : g.lead.Means g.node := by
  unfold Group.node
  split
  · rename_i arg harg
    have hif := g.lead.passes.strip.isIf_iff.2 ⟨arg, harg⟩
    refine Or.inl ⟨hif, _, _, _, rfl, ?_⟩
    simpa using g.opens.1 hif
  · rename_i hnone
    have hif := g.lead.passes.strip.isIf_eq_false hnone
    exact Or.inr ⟨hif, _, _, rfl, g.lead.passes.strip.promises hif _ _⟩

/-! ## The listing of an accepted text -/

/-- The lines of the node of an item: its own, then those nested under it. -/
theorem Item.entries (i : Item first base) (step : Nat) (path : List Nat) :
    i.node.entries step path = ⟨step, path, i.node⟩ :: blockEntries step path 0 (i.nested.map Mark.act) := by
  unfold Item.node
  split
  · rw [Node.entries]
  · rename_i hnone
    rw [Item.nested_eq_nil hnone, List.map_nil, blockEntries, Mark.act, Node.entries]

/-- The lines of the node of a step: its own, then those of its items. -/
theorem Group.entries (g : Group first) (step : Nat) (path : List Nat) :
    g.node.entries step path = ⟨step, path, g.node⟩ :: blockEntries step path 0 (g.items.map Item.node) := by
  unfold Group.node
  split
  · rw [Node.entries]
  · rename_i hnone
    rw [Group.items_eq_nil hnone, List.map_nil, blockEntries, Node.entries]

/-- Every line of the listing stands at most two deep and says what a line of the text says, which is the first one of its
step exactly when the line does not stand in a block. -/
theorem mem_listing_groups {gs : List (Group first)} {text : String} {e : Entry}
    (he : e ∈ Program.listing ⟨gs.map Group.step, text⟩) :
    ∃ g, gs[e.step]? = some g ∧ e.path.length ≤ 2 ∧ ∃ m ∈ g.marks, m.Means e.node ∧
      ((e.path = [] ∧ e.node = g.node ∧ m = g.lead) ∨ (e.path ≠ [] ∧ m.statement.head = none)) := by
  obtain ⟨i, s, hi, he⟩ := mem_stepEntries.1 he
  rw [List.getElem?_map] at hi
  obtain ⟨g, hg, rfl⟩ := Option.map_eq_some_iff.1 hi
  rw [Group.step, Group.entries, Nat.zero_add] at he
  rcases List.mem_cons.1 he with rfl | he
  · exact ⟨g, hg, by simp, g.lead, List.mem_cons_self, g.means, Or.inl ⟨rfl, rfl, rfl⟩⟩
  obtain ⟨j, n, hj, he⟩ := mem_blockEntries.1 he
  rw [List.getElem?_map] at hj
  obtain ⟨it, hit, rfl⟩ := Option.map_eq_some_iff.1 hj
  have hitem : it ∈ g.items := List.mem_of_getElem? hit
  rw [Item.entries] at he
  rcases List.mem_cons.1 he with rfl | he
  · refine ⟨g, hg, by simp, it.lead, ?_, it.means, Or.inr ⟨by simp, it.inBlock⟩⟩
    exact List.mem_cons_of_mem _ (List.mem_flatMap.2 ⟨it, hitem, List.mem_cons_self⟩)
  obtain ⟨k, n, hk, he⟩ := mem_blockEntries.1 he
  rw [List.getElem?_map] at hk
  obtain ⟨m, hm, rfl⟩ := Option.map_eq_some_iff.1 hk
  have hnested : m ∈ it.nested := List.mem_of_getElem? hm
  rw [Mark.act, Node.entries, List.mem_singleton] at he
  subst he
  obtain ⟨hhead, _, hif⟩ := it.deeper m hnested
  refine ⟨g, hg, by simp, m, ?_, Mark.means_act hif, Or.inr ⟨by simp, hhead⟩⟩
  exact List.mem_cons_of_mem _ (List.mem_flatMap.2 ⟨it, hitem, List.mem_cons_of_mem _ hnested⟩)

/-- The names that the lines of the listing bind, in order, are those that the check counts. -/
theorem filterMap_name?_act (ms : List (Mark first)) (hif : ∀ m ∈ ms, isIf m.statement.content = false) (step : Nat)
    (path : List Nat) (position : Nat) :
    (blockEntries step path position (ms.map Mark.act)).filterMap (fun e => e.node.name?) =
      ms.filterMap fun m => nameOf? m.statement.content := by
  induction ms generalizing position with
  | nil => rfl
  | cons m ms ih =>
    rw [List.map_cons, blockEntries, List.filterMap_append, ih fun n hn => hif n (List.mem_cons_of_mem m hn)]
    have hname := (Mark.means_act (hif m List.mem_cons_self)).name?
    rw [Mark.act] at hname ⊢
    rw [Node.entries, List.filterMap_cons, List.filterMap_nil, hname]
    cases hn : nameOf? m.statement.content <;> simp [hn]

/-- The names that an item binds. -/
theorem Item.filterMap_name? (i : Item first base) (step : Nat) (path : List Nat) :
    (i.node.entries step path).filterMap (fun e => e.node.name?) =
      i.marks.filterMap fun m => nameOf? m.statement.content := by
  rw [Item.entries, Item.marks, List.filterMap_cons, List.filterMap_cons, i.means.name?,
    filterMap_name?_act _ (fun m hm => (i.deeper m hm).2.2)]

/-- The names that the items of a block bind. -/
theorem filterMap_name?_items (items : List (Item first base)) (step : Nat) (path : List Nat) (position : Nat) :
    (blockEntries step path position (items.map Item.node)).filterMap (fun e => e.node.name?) =
      (items.flatMap Item.marks).filterMap fun m => nameOf? m.statement.content := by
  induction items generalizing position with
  | nil => rfl
  | cons i items ih =>
    rw [List.map_cons, blockEntries, List.filterMap_append, ih, i.filterMap_name?, List.flatMap_cons, List.filterMap_append]

/-- The names that the steps bind. -/
theorem filterMap_name?_groups (gs : List (Group first)) (index : Nat) :
    (stepEntries index (gs.map Group.step)).filterMap (fun e => e.node.name?) =
      (gs.flatMap Group.marks).filterMap fun m => nameOf? m.statement.content := by
  induction gs generalizing index with
  | nil => rfl
  | cons g gs ih =>
    rw [List.map_cons, stepEntries, List.filterMap_append, ih, List.flatMap_cons, List.filterMap_append, Group.step,
      Group.entries, Group.marks, List.filterMap_cons, List.filterMap_cons, g.means.name?, filterMap_name?_items]

/-- The program binds the names that the check counts. -/
theorem varNames_groups (gs : List (Group first)) (text : String) :
    Program.varNames ⟨gs.map Group.step, text⟩ = names ((gs.flatMap Group.marks).map Mark.statement) := by
  simp only [Program.varNames, Program.listing, names, filterMap_name?_groups, List.filterMap_map]
  rfl

end Stepwise.Check
