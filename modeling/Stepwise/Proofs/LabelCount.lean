import Stepwise.Proofs.RunSafety

/-!
# What the label counter counts

Inside a block the session counts up the labels it has used: one for each action it executes, and the length of its block for a
branch that does not hold. In a program whose blocks nest at most two deep the two agree with the text: the counter is always the
number of actions that stand before the cursor in the block of the current step, in the order of the text, whatever branches were
taken on the way.
-/

namespace Stepwise

/-! ## Actions of a block -/

/-- The line is an action, not a branch. -/
def Entry.isAction (e : Entry) : Bool :=
  match e.node with
  | .act _ _ => true
  | .branch _ _ _ => false

mutual

/-- How many actions a node has: itself, or those of its block. -/
def Node.actions : Node → Nat
  | .act _ _ => 1
  | .branch _ _ block => blockActions block

/-- How many actions a block has, nested ones included. -/
def blockActions : List Node → Nat
  | [] => 0
  | n :: ns => n.actions + blockActions ns

end

mutual

/-- The actions of a node are those among its lines. -/
theorem Node.countP_entries (n : Node) (step : Nat) (path : List Nat) :
    (n.entries step path).countP Entry.isAction = n.actions := by
  cases n with
  | act place a => rfl
  | branch place cond block =>
    rw [Node.entries, List.countP_cons_of_neg (by simp [Entry.isAction]), countP_blockEntries block, Node.actions]

/-- The actions of a block are those among its lines. -/
theorem countP_blockEntries (ns : List Node) (step : Nat) (path : List Nat) (position : Nat) :
    (blockEntries step path position ns).countP Entry.isAction = blockActions ns := by
  cases ns with
  | nil => rfl
  | cons n ns => rw [blockEntries, List.countP_append, Node.countP_entries n, countP_blockEntries ns, blockActions]

end

/-- The actions of a block are counted part by part. -/
theorem blockActions_append (a b : List Node) : blockActions (a ++ b) = blockActions a + blockActions b := by
  induction a with
  | nil => simp [blockActions]
  | cons n a ih => rw [List.cons_append, blockActions, ih, blockActions, Nat.add_assoc]

/-- Up to and with an item, a block has the actions before the item and those of the item. -/
theorem blockActions_take_succ {ns : List Node} {k : Nat} {n : Node} (h : ns[k]? = some n) :
    blockActions (ns.take (k + 1)) = blockActions (ns.take k) + n.actions := by
  rw [List.take_add_one, h, blockActions_append]
  rfl

/-- A block without branches has as many actions as items. -/
theorem blockActions_eq_length {ns : List Node} (h : ∀ n ∈ ns, ∃ place a, n = .act place a) :
    blockActions ns = ns.length := by
  induction ns with
  | nil => rfl
  | cons n ns ih =>
    obtain ⟨place, a, rfl⟩ := h n List.mem_cons_self
    rw [blockActions, ih fun m hm => h m (List.mem_cons_of_mem _ hm), Node.actions, List.length_cons, Nat.add_comm]

/-- The lines of a block are listed part by part. -/
theorem blockEntries_append (step : Nat) (path : List Nat) (position : Nat) (a b : List Node) :
    blockEntries step path position (a ++ b) =
      blockEntries step path position a ++ blockEntries step path (position + a.length) b := by
  induction a generalizing position with
  | nil => rfl
  | cons n a ih =>
    rw [List.cons_append, blockEntries, ih, blockEntries, List.append_assoc, List.length_cons, Nat.add_assoc,
      Nat.add_comm 1]

/-- The lines of a block are those before an item, those of the item, and those after it. -/
theorem blockEntries_split {ns : List Node} {k : Nat} {n : Node} (h : ns[k]? = some n) (step : Nat) (path : List Nat) :
    ∃ after, blockEntries step path 0 ns =
      blockEntries step path 0 (ns.take k) ++ n.entries step (path ++ [k]) ++ after := by
  obtain ⟨hlt, rfl⟩ := List.getElem?_eq_some_iff.1 h
  refine ⟨blockEntries step path (k + 1) (ns.drop (k + 1)), ?_⟩
  conv_lhs => rw [← List.take_append_drop k ns, List.drop_eq_getElem_cons hlt, blockEntries_append, blockEntries]
  rw [List.length_take_of_le hlt.le, Nat.zero_add, List.append_assoc]

/-- The lines of a node are its own and those of its block; an action has no block. -/
theorem Node.entries_eq_cons (n : Node) (step : Nat) (path : List Nat) :
    n.entries step path = ⟨step, path, n⟩ :: blockEntries step path 0 n.block := by
  cases n with
  | act place a => rfl
  | branch place cond block => rfl

/-! ## Where the frames stand in the text -/

/-- The positions that lead to the innermost block: in each outer block, that of the branch before the cursor. -/
def outerPath (frames : List Frame) : List Nat :=
  (frames.map fun f => f.index - 1).reverse

/-- The positions that lead to the item under the cursor. -/
def cursorPath : List Frame → List Nat
  | [] => []
  | f :: fs => outerPath fs ++ [f.index]

/-- How many actions stand before the innermost block, in each outer block before the branch that was entered. -/
def passedActions : List Frame → Nat
  | [] => 0
  | f :: fs => blockActions (f.items.take (f.index - 1)) + passedActions fs

/-- How many actions stand before the item under the cursor. -/
def usedActions : List Frame → Nat
  | [] => 0
  | f :: fs => blockActions (f.items.take f.index) + passedActions fs

namespace Opened

variable {root : List Node} {frames : List Frame}

/-- The innermost block stands in the text behind the actions that were passed. -/
theorem listed_block (h : Opened root frames) (step : Nat) : ∀ f fs, frames = f :: fs → ∃ before after,
    blockEntries step [] 0 root = before ++ blockEntries step (outerPath fs) 0 f.items ++ after ∧
      before.countP Entry.isAction = passedActions fs := by
  induction h with
  | bottom =>
    intro f fs hframes
    obtain ⟨rfl, rfl⟩ := List.cons.inj hframes
    exact ⟨[], [], by simp [outerPath], rfl⟩
  | @inner g gs place cond block k i below cursor branch _ ih =>
    intro f fs hframes
    obtain ⟨rfl, rfl⟩ := List.cons.inj hframes
    obtain ⟨before, after, hroot, hcount⟩ := ih g gs rfl
    obtain ⟨rest, hitems⟩ := blockEntries_split branch step (outerPath gs)
    refine ⟨before ++ blockEntries step (outerPath gs) 0 (g.items.take k) ++
      [⟨step, outerPath gs ++ [k], .branch place cond block⟩], rest ++ after, ?_, ?_⟩
    · have hpath : outerPath (g :: gs) = outerPath gs ++ [k] := by simp [outerPath, cursor]
      rw [hroot, hitems, Node.entries, hpath]
      simp only [List.append_assoc, List.cons_append, List.nil_append]
    · rw [List.countP_append, List.countP_append, hcount, countP_blockEntries, passedActions, cursor, Nat.add_sub_cancel]
      simp only [List.countP_singleton, Entry.isAction, Bool.false_eq_true, if_false]
      omega

/-- The item under the cursor stands in the text behind the actions that were used up. -/
theorem listed_item {f : Frame} {fs : List Frame} (h : Opened root (f :: fs)) {item : Node}
    (hi : f.items[f.index]? = some item) (step : Nat) : ∃ before after,
    blockEntries step [] 0 root = before ++ ⟨step, cursorPath (f :: fs), item⟩ :: after ∧
      before.countP Entry.isAction = usedActions (f :: fs) := by
  obtain ⟨before, after, hroot, hcount⟩ := h.listed_block step f fs rfl
  obtain ⟨rest, hitems⟩ := blockEntries_split hi step (outerPath fs)
  refine ⟨before ++ blockEntries step (outerPath fs) 0 (f.items.take f.index),
    blockEntries step (cursorPath (f :: fs)) 0 item.block ++ rest ++ after, ?_, ?_⟩
  · rw [hroot, hitems, item.entries_eq_cons, cursorPath]
    simp only [List.append_assoc, List.cons_append]
  · rw [List.countP_append, hcount, countP_blockEntries, usedActions, Nat.add_comm]

/-- Leaving finished blocks leaves the actions before the cursor the same: all of a finished block has been used up, and it is
what the frame below has just passed. -/
theorem usedActions_dropWhile (h : Opened root frames) {g : Frame} {gs : List Frame}
    (hd : frames.dropWhile Frame.finished = g :: gs) : usedActions frames = usedActions (g :: gs) := by
  induction h with
  | bottom =>
    rw [List.dropWhile_cons] at hd
    split at hd
    · cases hd
    · rw [hd]
  | @inner f fs place cond block k i below cursor branch le ih =>
    rw [List.dropWhile_cons] at hd
    split at hd
    · rename_i hfinished
      have hall : i = block.length := by
        have hge : block.length ≤ i := by simpa [Frame.finished] using hfinished
        omega
      rw [← ih hd, usedActions, usedActions, passedActions, cursor, Nat.add_sub_cancel, blockActions_take_succ branch, hall,
        List.take_length, Node.actions]
      omega
    · rw [hd]

end Opened

namespace State

/-- In a block, the labels used up are as many as the actions before the cursor. -/
def Counted (st : State) : Prop :=
  st.frames ≠ [] → st.sub = usedActions st.frames

variable {p : Program} {st st' : State} {f : Focus}

/-- Leaving finished blocks keeps the count. -/
theorem counted_settle (hs : st.Standing p) (hsub : st.sub = usedActions st.frames) : st.settle.Counted := by
  unfold settle
  split
  · exact fun hne => absurd rfl hne
  · rename_i g gs hd
    intro _
    rcases hs with hnil | ⟨_, _, _, _, _, _, ho⟩
    · simp [hnil] at hd
    · exact hsub.trans (ho.usedActions_dropWhile hd)

/-- Passing an item keeps the count when it uses up as many labels as the item has actions. -/
theorem counted_pass (h : st.Steady p) (hc : st.Counted) {labels : Nat}
    (hlabels : ∀ g item, st.frames.head? = some g → g.items[g.index]? = some item → item.actions = labels) :
    (st.pass labels).Counted := by
  unfold pass nextItem
  split
  · rename_i hnil
    intro hne
    simp [settle, hnil] at hne
  · rename_i g gs hg
    have hlt := (g.finished_eq_false_iff).1 (h.top g (by simp [hg]))
    have hi := List.getElem?_eq_getElem hlt
    obtain ⟨step, place, cond, root, hs, hn, ho⟩ := h.standing.opened hg
    refine counted_settle (p := p) (Or.inr ⟨step, place, cond, root, hs, hn, ho.advance hlt⟩) ?_
    have hsub : st.sub = usedActions (g :: gs) := hg ▸ hc (by simp [hg])
    simp only [usedActions] at hsub ⊢
    rw [blockActions_take_succ hi, hlabels g _ (by simp [hg]) hi, hsub]
    omega

/-- Entering a block keeps the count: what stands before the branch stands before its first item. -/
theorem counted_enter {place : Place} {cond : Excerpt} {block : List Node} (h : st.Control p) (hc : st.Counted)
    (hf : st.focus? p = some f) (hn : f.node = .branch place cond block) : (st.enter block).Counted := by
  unfold enter nextItem
  rcases h.focus_cases hf with ⟨step, hnil, hs, rfl⟩ | ⟨step, g, gs, hg, hs, hi, _, _⟩
  · simp only [hnil]
    refine counted_settle (p := p) (Or.inr ⟨step, place, cond, block, hs, hn, Opened.bottom (Nat.zero_le _)⟩) ?_
    exact h.flat hnil
  · simp only [hg]
    obtain ⟨step', place', cond', root, hs', hn', ho⟩ := h.standing.opened hg
    refine counted_settle (p := p) (Or.inr ⟨step', place', cond', root, hs', hn', ho.enter (hn ▸ hi)⟩) ?_
    have hsub : st.sub = usedActions (g :: gs) := hg ▸ hc (by simp [hg])
    simp only [usedActions, passedActions, List.take_zero, blockActions, Nat.add_sub_cancel, Nat.zero_add] at hsub ⊢
    exact hsub

/-- In a block, the item under the cursor is what the cursor points at. -/
theorem Control.item_eq (h : st.Control p) (hf : st.focus? p = some f) {g : Frame} {item : Node}
    (hg : st.frames.head? = some g) (hi : g.items[g.index]? = some item) : item = f.node := by
  rcases h.focus_cases hf with ⟨_, hnil, _, _⟩ | ⟨_, g', gs, hg', _, hi', _, _⟩
  · rw [hnil] at hg
    cases hg
  · rw [hg', List.head?_cons] at hg
    obtain rfl := Option.some.inj hg
    exact Option.some.inj (hi.symm.trans hi')

/-- In a block of a regular program, a branch has as many actions as items, since no branch stands in its block. -/
theorem Control.actions_of_branch (hp : p.Regular) (h : st.Control p) (hf : st.focus? p = some f) {place : Place}
    {cond : Excerpt} {block : List Node} (hn : f.node = .branch place cond block) (hblock : st.frames ≠ []) :
    f.node.actions = block.length := by
  obtain ⟨e, he, hnode, hnested⟩ := h.focus_mem_listing hf
  have hpath : e.path ≠ [] := by
    rcases h.focus_cases hf with ⟨_, hnil, _, _⟩ | ⟨_, _, _, _, _, _, _, htrue⟩
    · exact absurd hnil hblock
    · exact hnested.1 htrue
  rw [hn, Node.actions]
  refine blockActions_eq_length fun m hm => ?_
  obtain ⟨j, hj⟩ := List.mem_iff_getElem?.1 hm
  obtain ⟨i, hitem⟩ := Program.item_mem_listing he (hnode.trans hn) hj
  cases m with
  | act place' a => exact ⟨place', a, rfl⟩
  | branch place' cond' inner =>
    -- an item of the inner block would stand three deep
    exfalso
    obtain ⟨n, rest, hinner⟩ := List.exists_cons_of_ne_nil (hp.filled _ hitem _ _ _ rfl)
    have hfirst : inner[0]? = some n := by rw [hinner]; rfl
    obtain ⟨_, hdeep⟩ := Program.item_mem_listing hitem rfl hfirst
    have hshallow := hp.shallow _ hdeep
    have hpos := List.length_pos_iff.2 hpath
    simp only [List.length_append, List.length_cons, List.length_nil] at hshallow
    omega

/-- An executed action of a regular program keeps the count. -/
theorem counted_exec (hp : p.Regular) (h : st.Control p) (hc : st.Counted) (hl : st.Live p) (hf : st.focus? p = some f)
    (hx : st.exec p f = .ok st') : st'.Counted := by
  have hst : st.Steady p := ⟨hl.ready, hl.running, h.standing, h.top⟩
  -- an action uses up one label and has one action: itself
  have hone : ∀ {place a}, f.node = .act place a →
      ∀ g item, st.frames.head? = some g → g.items[g.index]? = some item → item.actions = 1 := by
    intro place a node g item hg hi
    rw [h.item_eq hf hg hi, node]
    rfl
  cases executes_of_exec hx with
  | print node =>
    refine counted_pass (p := p) ?_ ?_ ?_
    · exact ⟨hst.ready, hst.running, hst.standing, hst.top⟩
    · exact hc
    · exact hone node
  | assign node =>
    refine counted_pass (p := p) ?_ ?_ ?_
    · exact ⟨hst.ready, hst.running, hst.standing, hst.top⟩
    · exact hc
    · exact hone node
  | start node =>
    refine counted_pass (p := p) ?_ ?_ ?_
    · exact ⟨hst.ready, hst.running, hst.standing, hst.top⟩
    · exact hc
    · exact hone node
  | stop node =>
    refine counted_pass (p := p) ?_ ?_ ?_
    · exact ⟨hst.ready, hst.running, hst.standing, hst.top⟩
    · exact hc
    · exact hone node
  | read => exact hc
  | jump => exact fun hne => absurd rfl hne
  | enter node => exact counted_enter h hc hf node
  | skip node =>
    refine counted_pass hst hc fun g item hg hi => ?_
    have hblock : st.frames ≠ [] := by
      intro hnil
      rw [hnil] at hg
      cases hg
    rw [h.item_eq hf hg hi]
    exact h.actions_of_branch hp hf node hblock

/-- Throughout every run of a regular program the counter counts the actions before the cursor. -/
theorem counted_kept (hp : p.Regular) : Session.Kept p fun st => st.Control p ∧ st.Counted where
  initial := ⟨(control_kept p).initial, fun hne => absurd rfl hne⟩
  exec h hl hf hx := ⟨control_exec h.1 hl hf hx, counted_exec hp h.1 h.2 hl hf hx⟩
  echo raw h hw := ⟨(control_kept p).echo raw h.1 hw, h.2⟩
  answer n h hw := by
    refine ⟨(control_kept p).answer n h.1 hw, ?_⟩
    obtain ⟨f, place, hf, node, _⟩ := h.1.waits _ hw
    refine counted_pass (p := p) ?_ ?_ ?_
    · exact ⟨rfl, h.1.running_of_pending hw, h.1.standing, h.1.top⟩
    · exact h.2
    · intro g item hg hi
      rw [h.1.item_eq hf hg hi, node]
      rfl

end State

end Stepwise
