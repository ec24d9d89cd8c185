import Stepwise.Proofs.Labels
import Stepwise.Proofs.Reading

/-!
# The offside rule

Blocks are read by a recursion that takes lines as long as they are indented far enough. `Program.block_offside` says the same
without the recursion: the block of a step is the run of lines below it that are indented past the word `if`, and a line of the
block is an item of the last branch above it that covers it, that is, from which all lines down to it are indented two columns
further than the branch.
-/

namespace Stepwise

/-! ## The rule -/

/-- The line is in the run of lines right below `top` that are not empty and indented by at least `least` spaces. -/
def InRun (lines : List Line) (top : Line) (least : Nat) (j : Line) : Prop :=
  j ∈ lines ∧ top.number < j.number ∧
    ∀ m ∈ lines, top.number < m.number → m.number ≤ j.number → m.text ≠ [] ∧ least ≤ indentation m.text

/-- Line `k` begins a branch above line `j`, and below it all lines down to `j` are indented two columns further. -/
structure Covers (lines : List Line) (k j : Line) : Prop where
  mem : k ∈ lines
  branch : Text.startsWith "if ".toList (k.text.dropWhile Text.isIndent) = true
  above : k.number < j.number
  deeper : ∀ m ∈ lines, k.number < m.number → m.number ≤ j.number → indentation k.text + 2 ≤ indentation m.text

/-- The line is the last one of a class. -/
def Line.IsLast (k : Line) (P : Line → Prop) : Prop := P k ∧ ∀ m, P m → m.number ≤ k.number

/-- The line is the item at a position of the block of an entry. -/
def Entry.Holds (f : Entry) (position : Nat) (j : Line) : Prop :=
  ∃ n, f.node.block[position]? = some n ∧ (⟨f.step, f.path ++ [position], n⟩ : Entry).written = j

/-- The block of a step, given by its entry, follows the offside rule. -/
structure Offside (p : Program) (lines : List Line) (least : Nat) (top : Entry) : Prop where
  /-- The items of the block, at every depth, are the lines of the run below the step. -/
  run : ∀ j, InRun lines top.written least j ↔ ∃ f ∈ p.listing, f.step = top.step ∧ ∃ a, f.Holds a j
  /-- A line of the run is an item once. -/
  once : ∀ j, InRun lines top.written least j → ∃! spot : Entry × Nat, spot.1 ∈ p.listing ∧ spot.1.Holds spot.2 j
  /-- A line is an item of the last line of the run that covers it, and of the step if no line covers it. -/
  parent : ∀ f ∈ p.listing, f.step = top.step → ∀ a j, f.Holds a j →
    (f = top ∧ ∀ k, InRun lines top.written least k → ¬Covers lines k j) ∨
      f.written.IsLast fun k => InRun lines top.written least k ∧ Covers lines k j
  /-- The items of a block are in the order of the text. -/
  order : ∀ f ∈ p.listing, f.step = top.step → ∀ a b j k, f.Holds a j → f.Holds b k → a < b → j.number < k.number

/-! ## Positions in the listing -/

/-- The node that positions lead to, block by block. -/
def Node.follow? (n : Node) : List Nat → Option Node
  | [] => some n
  | a :: path => n.block[a]?.bind fun m => m.follow? path

mutual

/-- The positions of a line of a node lead to it. -/
theorem Node.follow?_of_mem_entries (n : Node) {step : Nat} {path : List Nat} {e : Entry} (he : e ∈ n.entries step path) :
    ∃ tail, e.path = path ++ tail ∧ n.follow? tail = some e.node := by
  cases n with
  | act place a =>
    obtain rfl := List.mem_singleton.1 he
    exact ⟨[], (List.append_nil _).symm, rfl⟩
  | branch place cond block =>
    rcases List.mem_cons.1 he with rfl | he
    · exact ⟨[], (List.append_nil _).symm, rfl⟩
    · obtain ⟨a, m, tail, hm, hpath, hfollow⟩ := follow?_of_mem_blockEntries block he
      refine ⟨(0 + a) :: tail, hpath, ?_⟩
      rw [Nat.zero_add, Node.follow?, Node.block, hm]
      exact hfollow

/-- The positions of a line of a block lead to it from one of the items. -/
theorem follow?_of_mem_blockEntries (ns : List Node) {step : Nat} {path : List Nat} {position : Nat} {e : Entry}
    (he : e ∈ blockEntries step path position ns) :
    ∃ a m tail, ns[a]? = some m ∧ e.path = path ++ (position + a) :: tail ∧ m.follow? tail = some e.node := by
  cases ns with
  | nil => cases he
  | cons n ns =>
    rcases List.mem_append.1 he with he | he
    · obtain ⟨tail, hpath, hfollow⟩ := n.follow?_of_mem_entries he
      exact ⟨0, n, tail, rfl, by rw [hpath, List.append_assoc]; rfl, hfollow⟩
    · obtain ⟨a, m, tail, hm, hpath, hfollow⟩ := follow?_of_mem_blockEntries ns he
      exact ⟨a + 1, m, tail, hm, by rw [hpath, Nat.add_right_comm, Nat.add_assoc], hfollow⟩

end

/-- The lines of a node that positions lead to are lines of the node they start from, in the same order. -/
theorem Node.entries_sublist_of_follow? {n m : Node} {tail : List Nat} (h : n.follow? tail = some m) (step : Nat)
    (path : List Nat) : (m.entries step (path ++ tail)).Sublist (n.entries step path) := by
  induction tail generalizing n path with
  | nil =>
    obtain rfl := Option.some.inj h
    rw [List.append_nil]
  | cons a tail ih =>
    obtain ⟨k, hk, hfollow⟩ := Option.bind_eq_some_iff.1 h
    have hdeeper := ih hfollow (path ++ [a])
    rw [List.append_assoc] at hdeeper
    obtain ⟨after, hsplit⟩ := blockEntries_split hk step path
    rw [Node.entries_eq_cons n, hsplit]
    refine hdeeper.trans (List.Sublist.trans ?_ (List.sublist_cons_self _ _))
    exact (List.sublist_append_right _ _).trans (List.sublist_append_left _ _)

/-- Positions are followed part by part. -/
theorem Node.follow?_append (n : Node) (front back : List Nat) :
    n.follow? (front ++ back) = (n.follow? front).bind fun m => m.follow? back := by
  induction front generalizing n with
  | nil => rfl
  | cons a front ih =>
    rw [List.cons_append, Node.follow?, Node.follow?, Option.bind_assoc]
    exact congrArg _ (funext ih)

namespace Program

variable {p : Program}

/-- A line is listed where its positions lead to it. -/
theorem mem_listing_iff {e : Entry} :
    e ∈ p.listing ↔ ∃ s, p.steps[e.step]? = some s ∧ s.node.follow? e.path = some e.node := by
  constructor
  · intro he
    obtain ⟨i, s, hi, he⟩ := mem_stepEntries.1 he
    obtain ⟨hstep, _⟩ := s.node.depth_of_mem_entries he
    obtain ⟨tail, hpath, hfollow⟩ := s.node.follow?_of_mem_entries he
    rw [Nat.zero_add] at hstep
    rw [List.nil_append] at hpath
    exact ⟨s, hstep ▸ hi, hpath ▸ hfollow⟩
  · rintro ⟨s, hs, hfollow⟩
    refine mem_stepEntries.2 ⟨e.step, s, hs, ?_⟩
    rw [Nat.zero_add]
    exact (Node.entries_sublist_of_follow? hfollow e.step []).subset (e.node.self_mem_entries e.step e.path)

/-- A place of the listing has one line. -/
theorem entry_eq_of_path_eq {e f : Entry} (he : e ∈ p.listing) (hf : f ∈ p.listing) (hstep : e.step = f.step)
    (hpath : e.path = f.path) : e = f := by
  obtain ⟨s, hs, hfollow⟩ := mem_listing_iff.1 he
  obtain ⟨t, ht, hfollow'⟩ := mem_listing_iff.1 hf
  obtain ⟨step, path, node⟩ := e
  obtain rfl : step = f.step := hstep
  obtain rfl : path = f.path := hpath
  obtain rfl := Option.some.inj (hs.symm.trans ht)
  obtain rfl : node = f.node := Option.some.inj (hfollow.symm.trans hfollow')
  rfl

/-- The items of a listed block are listed. -/
theorem item_listed {f : Entry} (hf : f ∈ p.listing) {a : Nat} {n : Node} (hn : f.node.block[a]? = some n) :
    ⟨f.step, f.path ++ [a], n⟩ ∈ p.listing := by
  obtain ⟨s, hs, hfollow⟩ := mem_listing_iff.1 hf
  refine mem_listing_iff.2 ⟨s, hs, ?_⟩
  rw [Node.follow?_append, hfollow, Option.bind_some, Node.follow?, hn]
  rfl

/-- A line of the listing that is no step is an item of a listed block. -/
theorem exists_parent {e : Entry} (he : e ∈ p.listing) (hpath : e.path ≠ []) :
    ∃ f ∈ p.listing, f.step = e.step ∧ ∃ a, e.path = f.path ++ [a] ∧ f.node.block[a]? = some e.node := by
  obtain ⟨s, hs, hfollow⟩ := mem_listing_iff.1 he
  obtain ⟨front, a, hlast⟩ := (List.eq_nil_or_concat' e.path).resolve_left hpath
  rw [hlast, Node.follow?_append] at hfollow
  obtain ⟨n, hn, hitem⟩ := Option.bind_eq_some_iff.1 hfollow
  obtain ⟨m, hm, rfl⟩ : ∃ m, n.block[a]? = some m ∧ m = e.node := by
    obtain ⟨m, hm, hself⟩ := Option.bind_eq_some_iff.1 hitem
    exact ⟨m, hm, Option.some.inj hself⟩
  exact ⟨⟨e.step, front, n⟩, mem_listing_iff.2 ⟨s, hs, hn⟩, rfl, a, hlast, hm⟩

/-- The lines of a listed node are listed in their order. -/
theorem entries_sublist_listing {e : Entry} (he : e ∈ p.listing) : (e.node.entries e.step e.path).Sublist p.listing := by
  obtain ⟨s, hs, hfollow⟩ := mem_listing_iff.1 he
  have hstep := entries_sublist_stepEntries hs 0
  rw [Nat.zero_add] at hstep
  exact (Node.entries_sublist_of_follow? hfollow e.step []).trans hstep

/-- What holds between lines of a block in their order holds between its items in their order. -/
theorem rel_of_pairwise_blockEntries {R : Entry → Entry → Prop} {step : Nat} {path : List Nat} {ns : List Node}
    (h : (blockEntries step path 0 ns).Pairwise R) {a b : Nat} (hab : a < b) {m n : Node} (hm : ns[a]? = some m)
    (hn : ns[b]? = some n) : R ⟨step, path ++ [a], m⟩ ⟨step, path ++ [b], n⟩ := by
  obtain ⟨after, hsplit⟩ := blockEntries_split hn step path
  rw [hsplit, List.append_assoc] at h
  refine (List.pairwise_append.1 h).2.2 _ ?_ _ (List.mem_append_left _ (n.self_mem_entries step _))
  refine mem_blockEntries.2 ⟨a, m, by rw [List.getElem?_take_of_lt hab, hm], ?_⟩
  rw [Nat.zero_add]
  exact m.self_mem_entries step _

/-! ## Lines and the blocks that hold them -/

variable {text : String} {f g : Entry} {a b : Nat} {j k : Line}

/-- A line that a block holds is listed. -/
theorem listed_of_holds (hf : f ∈ p.listing) (h : f.Holds a j) :
    ∃ e ∈ p.listing, e.step = f.step ∧ e.path = f.path ++ [a] ∧ e.written = j := by
  obtain ⟨n, hn, hj⟩ := h
  exact ⟨_, item_listed hf hn, rfl, rfl, hj⟩

/-- A line of the listing that is no step is held by a block. -/
theorem exists_holder {e : Entry} (he : e ∈ p.listing) (hpath : e.path ≠ []) :
    ∃ f ∈ p.listing, f.step = e.step ∧ ∃ a, f.Holds a e.written := by
  obtain ⟨f, hf, hstep, a, _, hn⟩ := exists_parent he hpath
  exact ⟨f, hf, hstep, a, e.node, hn, rfl⟩

/-- One block holds a line, at one position. -/
theorem holder_unique (h : parse text = .ok p) (hf : f ∈ p.listing) (hg : g ∈ p.listing) (hfa : f.Holds a j)
    (hgb : g.Holds b j) : f = g ∧ a = b := by
  obtain ⟨e, he, hestep, hepath, hewritten⟩ := listed_of_holds hf hfa
  obtain ⟨d, hd, hdstep, hdpath, hdwritten⟩ := listed_of_holds hg hgb
  have hline : e.node.line = d.node.line := congrArg Line.number (hewritten.trans hdwritten.symm)
  obtain rfl := entry_eq_of_line_eq h he hd hline
  obtain ⟨hpath, hlast⟩ := List.append_inj' (hepath.symm.trans hdpath) rfl
  exact ⟨entry_eq_of_path_eq hf hg (hestep.symm.trans hdstep) hpath, List.singleton_inj.1 hlast⟩

/-- The lines that a block holds go down with its positions. -/
theorem number_lt_of_holds (h : parse text = .ok p) (hf : f ∈ p.listing) (ha : f.Holds a j) (hb : f.Holds b k) (hab : a < b) :
    j.number < k.number := by
  obtain ⟨m, hm, rfl⟩ := ha
  obtain ⟨n, hn, rfl⟩ := hb
  have hlines := (listing_pairwise h).sublist (entries_sublist_listing hf)
  rw [Node.entries_eq_cons] at hlines
  exact rel_of_pairwise_blockEntries (List.pairwise_cons.1 hlines).2 hab hm hn

end Program

/-! ## Which lines cover a line -/

/-- Lines in the order of their numbers. -/
def Ascending (ls : List Line) : Prop := ls.Pairwise fun a b => a.number < b.number

variable {l j k : Line} {ls inner outer : List Line}

/-- The first line has the least number. -/
theorem Ascending.head_le (h : Ascending (l :: ls)) (hj : j ∈ l :: ls) : l.number ≤ j.number := by
  rcases List.mem_cons.1 hj with rfl | hj
  · exact Nat.le_refl _
  · exact ((List.pairwise_cons.1 h).1 j hj).le

/-- The first lines of an ascending list that meet a condition. -/
theorem Ascending.mem_takeWhile_iff (h : Ascending ls) (q : Line → Bool) :
    j ∈ ls.takeWhile q ↔ j ∈ ls ∧ ∀ m ∈ ls, m.number ≤ j.number → q m = true := by
  induction ls with
  | nil => simp
  | cons l ls ih =>
    obtain ⟨hl, hls⟩ := List.pairwise_cons.1 h
    by_cases hq : q l = true
    · rw [List.takeWhile_cons_of_pos hq, List.mem_cons, ih hls, List.mem_cons, List.forall_mem_cons]
      constructor
      · rintro (rfl | ⟨hj, hall⟩)
        · exact ⟨Or.inl rfl, fun _ => hq, fun m hm hmj => absurd (hl m hm) (Nat.not_lt.2 hmj)⟩
        · exact ⟨Or.inr hj, fun _ => hq, hall⟩
      · rintro ⟨rfl | hj, _, hall⟩
        · exact Or.inl rfl
        · exact Or.inr ⟨hj, hall⟩
    · rw [List.takeWhile_cons_of_neg hq]
      constructor
      · intro hj
        cases hj
      · rintro ⟨hj, hall⟩
        exact absurd (hall l List.mem_cons_self (h.head_le hj)) hq

/-- No line covers the first one. -/
theorem not_covers_head (h : Ascending (l :: ls)) : ¬Covers (l :: ls) k l := by
  intro hc
  exact Nat.not_lt.2 (h.head_le hc.mem) hc.above

/-- Which lines of a part of an ascending list cover each other does not depend on the lines around the part. -/
theorem covers_part {whole : List Line} (before after : List Line) (h : Ascending whole)
    (hwhole : whole = before ++ ls ++ after) (hk : k ∈ ls) (hj : j ∈ ls) : Covers whole k j ↔ Covers ls k j := by
  subst hwhole
  obtain ⟨hfront, _, hafter⟩ := List.pairwise_append.1 h
  obtain ⟨_, _, hbefore⟩ := List.pairwise_append.1 hfront
  constructor
  · intro hc
    refine ⟨hk, hc.branch, hc.above, fun m hm => hc.deeper m ?_⟩
    exact List.mem_append_left _ (List.mem_append_right _ hm)
  · intro hc
    refine ⟨List.mem_append_left _ (List.mem_append_right _ hk), hc.branch, hc.above, fun m hm habove hbelow => ?_⟩
    -- the lines between `k` and `j` are lines of the part
    rcases List.mem_append.1 hm with hm | hm
    · rcases List.mem_append.1 hm with hm | hm
      · exact absurd habove (Nat.lt_asymm (hbefore m hm k hk))
      · exact hc.deeper m hm habove hbelow
    · exact absurd (hafter j (List.mem_append_right _ hj) m hm) (Nat.not_lt.2 hbelow)

/-- A line that is no branch covers nothing. -/
theorem covers_cons_act (h : Ascending (l :: ls)) (hact : Text.after? "if ".toList (l.text.dropWhile Text.isIndent) = none)
    (hj : j ∈ ls) : Covers (l :: ls) k j ↔ Covers ls k j := by
  have hpart : k ∈ ls → (Covers (l :: ls) k j ↔ Covers ls k j) := fun hk =>
    covers_part [l] [] h (by simp) hk hj
  constructor
  · intro hc
    rcases List.mem_cons.1 hc.mem with rfl | hk
    · have hbranch := hc.branch
      rw [Text.startsWith, hact] at hbranch
      cases hbranch
    · exact (hpart hk).1 hc
  · intro hc
    exact (hpart hc.mem).2 hc

section

variable (h : Ascending (l :: (inner ++ outer))) (hinner : ∀ m ∈ inner, indentation l.text + 2 ≤ indentation m.text)

include h hinner

/-- A line of the block of a branch is covered by the branch and by the lines of the block that cover it there. -/
theorem covers_inner (hbranch : Text.startsWith "if ".toList (l.text.dropWhile Text.isIndent) = true) (hj : j ∈ inner) :
    Covers (l :: (inner ++ outer)) k j ↔ k = l ∨ Covers inner k j := by
  obtain ⟨hl, hrest⟩ := List.pairwise_cons.1 h
  obtain ⟨_, _, hborder⟩ := List.pairwise_append.1 hrest
  have hpart : k ∈ inner → (Covers (l :: (inner ++ outer)) k j ↔ Covers inner k j) := fun hk =>
    covers_part [l] outer h rfl hk hj
  constructor
  · intro hc
    rcases List.mem_cons.1 hc.mem with rfl | hk
    · exact Or.inl rfl
    · rcases List.mem_append.1 hk with hk | hk
      · exact Or.inr ((hpart hk).1 hc)
      · exact absurd hc.above (Nat.lt_asymm (hborder j hj k hk))
  · rintro (rfl | hc)
    · refine ⟨List.mem_cons_self, hbranch, hl j (List.mem_append_left _ hj), fun m hm habove hbelow => ?_⟩
      rcases List.mem_cons.1 hm with rfl | hm
      · exact absurd habove (Nat.lt_irrefl _)
      · rcases List.mem_append.1 hm with hm | hm
        · exact hinner m hm
        · exact absurd (hborder j hj m hm) (Nat.not_lt.2 hbelow)
    · exact (hpart hc.mem).2 hc

/-- A line after the block of a branch is covered by lines after the block only. -/
theorem covers_outer (houter : ∀ o, outer.head? = some o → indentation o.text < indentation l.text + 2) (hj : j ∈ outer) :
    Covers (l :: (inner ++ outer)) k j ↔ Covers outer k j := by
  obtain ⟨hl, hrest⟩ := List.pairwise_cons.1 h
  obtain ⟨_, hup, hborder⟩ := List.pairwise_append.1 hrest
  have hpart : k ∈ outer → (Covers (l :: (inner ++ outer)) k j ↔ Covers outer k j) := fun hk =>
    covers_part (l :: inner) [] h (by simp) hk hj
  -- the first line after the block stands between, and it is not indented far enough
  obtain ⟨o, os, rfl⟩ := List.exists_cons_of_ne_nil (List.ne_nil_of_mem hj)
  have hoj : o.number ≤ j.number := Ascending.head_le hup hj
  have hshallow := houter o rfl
  constructor
  · intro hc
    rcases List.mem_cons.1 hc.mem with rfl | hk
    · have hdeep := hc.deeper o (by simp) (hl o (by simp)) hoj
      omega
    · rcases List.mem_append.1 hk with hk | hk
      · have hdeep := hc.deeper o (by simp) (hborder k hk o List.mem_cons_self) hoj
        have hfar := hinner k hk
        omega
      · exact (hpart hk).1 hc
  · intro hc
    exact (hpart hc.mem).2 hc

end

/-! ## The blocks that are read -/

namespace Program

/-- The lines of a block are indented as far as the block. -/
theorem indentation_of_mem_takeWhile (least : Nat) (ls : List Line) :
    ∀ m ∈ ls.takeWhile (inBlock least), least ≤ indentation m.text := by
  intro m hm
  have hin := List.mem_takeWhile_imp hm
  rw [inBlock, Bool.and_eq_true, decide_eq_true_eq] at hin
  exact hin.2

/-- The line after a block is not indented as far as the block. -/
theorem indentation_of_head?_dropWhile {least : Nat} (hpos : 0 < least) (ls : List Line) :
    ∀ o, (ls.dropWhile (inBlock least)).head? = some o → indentation o.text < least := by
  intro o ho
  by_contra hdeep
  have hfilled : o.text.isEmpty = false := by
    cases htext : o.text with
    | nil =>
      rw [htext] at hdeep
      exact absurd hpos hdeep
    | cons c cs => rfl
  have hin : inBlock least o = true := by simp [inBlock, hfilled, Nat.not_lt.1 hdeep]
  have hout := List.head?_dropWhile_not (inBlock least) ls
  rw [ho] at hout
  simp [hin] at hout

/-- The entry of a node that is read from a line. -/
theorem written_of_place (step : Nat) (path : List Nat) {n : Node} {col : Nat}
    (hn : n.place = ⟨l.number, col, String.ofList l.text⟩) : Entry.written ⟨step, path, n⟩ = l := by
  simp [Entry.written, Node.line, Node.source, hn]

/-- The lines of items are those that the items are read from. -/
theorem written_mem {step : Nat} {path : List Nat} {position : Nat} {e : Entry}
    (he : e ∈ blockEntries step path position (blockItems ls)) : e.written ∈ ls := by
  have hmem := List.mem_map_of_mem (f := Entry.written) he
  rwa [written_blockItems] at hmem

/-- In the block at `path`, the entry is an item that no line covers, or an item of the last line that covers it. -/
def Owned (ls : List Line) (entries : List Entry) (path : List Nat) (e : Entry) : Prop :=
  ((∃ a, e.path = path ++ [a]) ∧ ∀ k, ¬Covers ls k e.written) ∨
    ∃ f ∈ entries, (∃ a, e.path = f.path ++ [a]) ∧ f.written.IsLast fun k => Covers ls k e.written

/-- The same lines cover the entry in a longer block. -/
theorem Owned.widen {part : List Line} {some all : List Entry} {path : List Nat} {e : Entry} (ho : Owned part some path e)
    (hcovers : ∀ k, Covers ls k e.written ↔ Covers part k e.written) (hsub : some ⊆ all) : Owned ls all path e := by
  unfold Owned
  simp only [hcovers]
  exact ho.imp_right fun ⟨f, hf, hlast⟩ => ⟨f, hsub hf, hlast⟩

/-- In the block of a branch, an entry that no line of the block covers belongs to the branch. -/
theorem Owned.nest {block : List Line} {some all : List Entry} {path : List Nat} {e own : Entry} (hown : own.written = l)
    (ho : Owned block some own.path e) (hcovers : ∀ k, Covers ls k e.written ↔ k = l ∨ Covers block k e.written)
    (hbelow : ∀ f ∈ some, l.number < f.written.number) (hsub : some ⊆ all) (hmem : own ∈ all) : Owned ls all path e := by
  subst hown
  unfold Owned
  simp only [hcovers]
  rcases ho with ⟨hpath, hnone⟩ | ⟨f, hf, hpath, hc, hlast⟩
  · refine Or.inr ⟨own, hmem, hpath, Or.inl rfl, ?_⟩
    rintro k (rfl | hk)
    · exact Nat.le_refl _
    · exact absurd hk (hnone k)
  · refine Or.inr ⟨f, hsub hf, hpath, Or.inr hc, ?_⟩
    rintro k (rfl | hk)
    · exact (hbelow f hf).le
    · exact hlast k hk

/-- Every item of a block stands where the lines that cover it say. -/
theorem owned_blockItems (ls : List Line) (h : Ascending ls) (step : Nat) (path : List Nat) (position : Nat) :
    ∀ e ∈ blockEntries step path position (blockItems ls),
      Owned ls (blockEntries step path position (blockItems ls)) path e := by
  fun_induction blockItems ls generalizing path position with
  | case1 =>
    intro e he
    cases he
  | case2 l ls indent content place arg harg ihinner ihouter =>
    intro e he
    have hinner := indentation_of_mem_takeWhile (indent + 2) ls
    have houter := indentation_of_head?_dropWhile (Nat.succ_pos (indent + 1)) ls
    have hbranch : Text.startsWith "if ".toList content = true := by rw [Text.startsWith, harg]; rfl
    have hcut := List.takeWhile_append_dropWhile (p := inBlock (indent + 2)) (l := ls)
    have h' : Ascending (l :: (ls.takeWhile (inBlock (indent + 2)) ++ ls.dropWhile (inBlock (indent + 2)))) := by
      rw [hcut]
      exact h
    have hup := List.pairwise_append.1 (List.pairwise_cons.1 h').2
    have hown := written_of_place step (path ++ [position]) (l := l)
      (n := .branch place (condition l.number (indent + 1) arg) (blockItems (ls.takeWhile (inBlock (indent + 2))))) rfl
    rcases List.mem_cons.1 he with rfl | he
    · refine Or.inl ⟨⟨position, rfl⟩, fun k => ?_⟩
      rw [hown]
      exact not_covers_head h
    · rcases List.mem_append.1 he with he | he
      · have hcovers := fun k => covers_inner (k := k) h' hinner hbranch (written_mem he)
        rw [hcut] at hcovers
        refine Owned.nest hown (ihinner hup.1 (path ++ [position]) 0 e he) hcovers (fun f hf => ?_)
          (fun f hf => List.mem_cons_of_mem _ (List.mem_append_left _ hf)) List.mem_cons_self
        exact (List.pairwise_cons.1 h').1 _ (List.mem_append_left _ (written_mem hf))
      · have hcovers := fun k => covers_outer (k := k) h' hinner houter (written_mem he)
        rw [hcut] at hcovers
        exact (ihouter hup.2.1 path (position + 1) e he).widen hcovers
          fun f hf => List.mem_cons_of_mem _ (List.mem_append_right _ hf)
  | case3 l ls indent content place harg ih =>
    intro e he
    rcases List.mem_cons.1 he with rfl | he
    · refine Or.inl ⟨⟨position, rfl⟩, fun k => ?_⟩
      rw [written_of_place step (path ++ [position]) (l := l) rfl]
      exact not_covers_head h
    · exact (ih (List.pairwise_cons.1 h).2 path (position + 1) e he).widen
        (fun k => covers_cons_act h harg (written_mem he)) (List.subset_cons_self _ _)

/-! ## The block of a step -/

/-- The lines after a step are the last ones of those below it. -/
theorem afterStep_suffix (h : Header) (below : List Line) : afterStep h below <:+ below := by
  unfold afterStep
  split
  · exact List.dropWhile_suffix _
  · exact List.suffix_refl _

/-- A step is read from one of the lines. -/
theorem exists_line_of_step {steps : List Step} (h : readSteps ls = .ok steps) {i : Nat} {s : Step} (hs : steps[i]? = some s) :
    ∃ before l below hd, ls = before ++ l :: below ∧ header? l.text = some hd ∧
      Text.readNumeral? hd.digits = some s.number ∧ s.node = stepNode l hd below := by
  fun_induction readSteps ls generalizing steps i with
  | case1 =>
    obtain rfl := Except.ok.inj h
    cases hs
  | case2 l ls _ ih =>
    obtain ⟨before, k, below, hd, hls, hstep⟩ := ih h hs
    exact ⟨l :: before, k, below, hd, by rw [hls, List.cons_append], hstep⟩
  | case3 => cases h
  | case4 => cases h
  | case5 => cases h
  | case6 => cases h
  | case7 l ls _ _ hd hhd n hn rest hrest ih =>
    obtain rfl := Except.ok.inj h
    cases i with
    | zero =>
      obtain rfl := Option.some.inj hs
      exact ⟨[], l, ls, hd, rfl, hhd, hn, rfl⟩
    | succ i =>
      obtain ⟨before, k, below, hd', hls, hstep⟩ := ih hrest hs
      obtain ⟨block, hblock⟩ := afterStep_suffix hd ls
      exact ⟨l :: block ++ before, k, below, hd', by rw [← hblock, hls]; simp, hstep⟩

/-- The run below a line is the lines that reading takes as a block. -/
theorem inRun_iff {before below : List Line} (h : Ascending (before ++ l :: below)) (least : Nat) :
    InRun (before ++ l :: below) l least j ↔ j ∈ below.takeWhile (inBlock least) := by
  obtain ⟨_, hup, hbefore⟩ := List.pairwise_append.1 h
  obtain ⟨hl, hbelow⟩ := List.pairwise_cons.1 hup
  have hmem : ∀ m ∈ before ++ l :: below, l.number < m.number → m ∈ below := by
    intro m hm hlt
    rcases List.mem_append.1 hm with hm | hm
    · exact absurd (hbefore m hm l List.mem_cons_self) (Nat.lt_asymm hlt)
    · rcases List.mem_cons.1 hm with rfl | hm
      · exact absurd hlt (Nat.lt_irrefl _)
      · exact hm
  have hin : ∀ m ∈ below, m ∈ before ++ l :: below := by
    intro m hm
    exact List.mem_append_right _ (List.mem_cons_of_mem l hm)
  have hblock : ∀ m, inBlock least m = true ↔ m.text ≠ [] ∧ least ≤ indentation m.text := by simp [inBlock]
  rw [Ascending.mem_takeWhile_iff hbelow]
  simp only [hblock]
  constructor
  · rintro ⟨hj, hlt, hall⟩
    exact ⟨hmem j hj hlt, fun m hm hmj => hall m (hin m hm) (hl m hm) hmj⟩
  · rintro ⟨hj, hall⟩
    exact ⟨hin j hj, hl j hj, fun m hm hlt hmj => hall m (hmem m hm hlt) hmj⟩

/-- The place and the block of a step that is a branch. -/
theorem stepNode_eq_branch {hd : Header} {below : List Line} {place : Place} {cond : Excerpt} {block : List Node}
    (h : stepNode l hd below = .branch place cond block) : place = ⟨l.number, hd.col, String.ofList l.text⟩ ∧
      block = blockItems (below.takeWhile (inBlock (blockColumn hd.digits.length))) := by
  unfold stepNode at h
  split at h
  · obtain ⟨hplace, _, hblock⟩ := Node.branch.inj h
    exact ⟨hplace.symm, hblock.symm⟩
  · cases h

section

variable {text : String} {p : Program} {i : Nat} {s : Step}

/-- The listed lines of a step but its own are those of its block. -/
theorem mem_blockEntries_of_listed (hs : p.steps[i]? = some s) {e : Entry} (he : e ∈ p.listing) (hstep : e.step = i)
    (hpath : e.path ≠ []) : e ∈ blockEntries i [] 0 s.node.block := by
  obtain ⟨t, ht, hfollow⟩ := mem_listing_iff.1 he
  obtain rfl := Option.some.inj (hs.symm.trans (hstep ▸ ht))
  have hmem := (Node.entries_sublist_of_follow? hfollow e.step []).subset (e.node.self_mem_entries e.step e.path)
  rw [hstep, Node.entries_eq_cons] at hmem
  rcases List.mem_cons.1 hmem with heq | hmem
  · exact absurd (congrArg Entry.path heq) hpath
  · exact hstep ▸ hmem

section

variable {block : List Line} (hs : p.steps[i]? = some s) (hblock : s.node.block = blockItems block)

include hs hblock

/-- What a block of the step holds is read from the lines of its block. -/
theorem item_of_holds {f : Entry} (hf : f ∈ p.listing) (hstep : f.step = i) {a : Nat} (hj : f.Holds a j) :
    ∃ e ∈ blockEntries i [] 0 (blockItems block), e.path = f.path ++ [a] ∧ e.written = j := by
  obtain ⟨e, he, hestep, hepath, hewritten⟩ := listed_of_holds hf hj
  have hmem := mem_blockEntries_of_listed hs he (hestep.trans hstep) (by simp [hepath])
  exact ⟨e, hblock ▸ hmem, hepath, hewritten⟩

/-- The lines of the block of a step are those that its blocks hold. -/
theorem mem_block_iff : j ∈ block ↔ ∃ f ∈ p.listing, f.step = i ∧ ∃ a, f.Holds a j := by
  constructor
  · intro hj
    rw [← written_blockItems block i [] 0, ← hblock] at hj
    obtain ⟨e, he, rfl⟩ := List.mem_map.1 hj
    obtain ⟨hstep, hdepth⟩ := depth_of_mem_blockEntries _ he
    obtain ⟨f, hf, hfstep, hholds⟩ := exists_holder ((block_sublist_listing hs).subset he) (List.length_pos_iff.1 hdepth)
    exact ⟨f, hf, hfstep.trans hstep, hholds⟩
  · rintro ⟨f, hf, hstep, a, hj⟩
    obtain ⟨e, he, _, rfl⟩ := item_of_holds hs hblock hf hstep hj
    exact written_mem he

/-- A line of the block of a step is an item of the last line of the block that covers it, or of the step. -/
theorem parent_of_holds (hup : Ascending block) {f : Entry} (hf : f ∈ p.listing) (hstep : f.step = i) {a : Nat}
    (hj : f.Holds a j) :
    (f = ⟨i, [], s.node⟩ ∧ ∀ k, ¬Covers block k j) ∨ f.written.IsLast fun k => Covers block k j := by
  obtain ⟨e, he, hepath, rfl⟩ := item_of_holds hs hblock hf hstep hj
  rcases owned_blockItems block hup i [] 0 e he with ⟨⟨b, hpath⟩, hnone⟩ | ⟨g, hg, ⟨b, hpath⟩, hlast⟩
  · obtain ⟨hroot, _⟩ := List.append_inj' (hepath.symm.trans hpath) rfl
    exact Or.inl ⟨entry_eq_of_path_eq hf (step_mem_listing hs) hstep hroot, hnone⟩
  · -- the owner stands at the place of `f`
    have hg := hblock ▸ hg
    obtain ⟨hgstep, _⟩ := depth_of_mem_blockEntries _ hg
    obtain ⟨hsame, _⟩ := List.append_inj' (hepath.symm.trans hpath) rfl
    obtain rfl := entry_eq_of_path_eq hf ((block_sublist_listing hs).subset hg) (hstep.trans hgstep.symm) hsame
    exact Or.inr hlast

end

/-- The block of a step follows the offside rule if it is read from the lines below the step that are indented far enough. -/
theorem offside_of_lines (h : parse text = .ok p) (hs : p.steps[i]? = some s) {before below : List Line} {least : Nat}
    (hlines : sourceLines text = before ++ l :: below) (hown : Entry.written ⟨i, [], s.node⟩ = l)
    (hblock : s.node.block = blockItems (below.takeWhile (inBlock least))) :
    Offside p (sourceLines text) least ⟨i, [], s.node⟩ := by
  have hup : Ascending (before ++ l :: below) := hlines ▸ numberLines_pairwise 1 (splitLines text.toList)
  have hrun : ∀ j, InRun (sourceLines text) (Entry.written ⟨i, [], s.node⟩) least j ↔
      j ∈ below.takeWhile (inBlock least) := by
    intro j
    rw [hown, hlines]
    exact inRun_iff hup least
  have hwhole : before ++ l :: below =
      (before ++ [l]) ++ below.takeWhile (inBlock least) ++ below.dropWhile (inBlock least) := by
    rw [List.append_assoc, List.takeWhile_append_dropWhile, List.append_assoc, List.singleton_append]
  have hblockUp : Ascending (below.takeWhile (inBlock least)) := by
    rw [hwhole] at hup
    exact (List.pairwise_append.1 (List.pairwise_append.1 hup).1).2.1
  refine ⟨fun j => (hrun j).trans (mem_block_iff hs hblock), ?_, ?_, ?_⟩
  · intro j hj
    obtain ⟨f, hf, _, a, hholds⟩ := (mem_block_iff hs hblock).1 ((hrun j).1 hj)
    refine ⟨(f, a), ⟨hf, hholds⟩, ?_⟩
    rintro ⟨g, b⟩ ⟨hg, hgb⟩
    obtain ⟨rfl, rfl⟩ := holder_unique h hg hf hgb hholds
    rfl
  · intro f hf hstep a j hj
    have hjmem := (mem_block_iff hs hblock).2 ⟨f, hf, hstep, a, hj⟩
    have hcovers : ∀ k, InRun (sourceLines text) (Entry.written ⟨i, [], s.node⟩) least k ∧ Covers (sourceLines text) k j ↔
        Covers (below.takeWhile (inBlock least)) k j := by
      intro k
      rw [hrun, hlines]
      constructor
      · rintro ⟨hk, hc⟩
        exact (covers_part _ _ hup hwhole hk hjmem).1 hc
      · intro hc
        exact ⟨hc.mem, (covers_part _ _ hup hwhole hc.mem hjmem).2 hc⟩
    simp only [← not_and, hcovers]
    exact parent_of_holds hs hblock hblockUp hf hstep hj
  · intro f hf _ a b j k ha hb hab
    exact number_lt_of_holds h hf ha hb hab

/-- The block of every step that is a branch follows the offside rule. -/
theorem block_offside (h : parse text = .ok p) (hs : p.steps[i]? = some s) {place : Place} {cond : Excerpt} {block : List Node}
    (hbranch : s.node = .branch place cond block) :
    ∃ hd, header? place.source.toList = some hd ∧ Text.readNumeral? hd.digits = some s.number ∧
      Offside p (sourceLines text) (blockColumn hd.digits.length) ⟨i, [], s.node⟩ := by
  obtain ⟨before, l, below, hd, hlines, hheader, hnumber, hnode⟩ := exists_line_of_step (readSteps_of_parse h).1 hs
  obtain ⟨rfl, rfl⟩ := stepNode_eq_branch (hnode.symm.trans hbranch)
  refine ⟨hd, by rwa [String.toList_ofList], hnumber, offside_of_lines h hs hlines ?_ ?_⟩
  · rw [hbranch]
    exact written_of_place i [] rfl
  · rw [hbranch, Node.block]

end

/-- A text with a branch in a branch, and a line that is indented between the two. -/
def nestedText : String :=
  "step-1: if A > 0:\n          if B > 0:\n            print A\n           print B\nstep-2: stop"

theorem block_offside_nested : ∃ p s hd, parse nestedText = .ok p ∧ p.steps[0]? = some s ∧
    header? s.node.source.toList = some hd ∧
      Offside p (sourceLines nestedText) (blockColumn hd.digits.length) ⟨0, [], s.node⟩ := by
  have hbranch : ((parse nestedText).toOption.any fun p => p.steps[0]?.any fun s => !s.node.block.isEmpty) = true := by
    decide +kernel
  cases hparse : parse nestedText with
  | error e =>
    rw [hparse] at hbranch
    cases hbranch
  | ok p =>
    rw [hparse] at hbranch
    have hstep : (p.steps[0]?.any fun s => !s.node.block.isEmpty) = true := hbranch
    obtain ⟨s, hs, hblock⟩ := (Option.any_eq_true _ _).1 hstep
    cases hnode : s.node with
    | act place a =>
      rw [hnode] at hblock
      cases hblock
    | branch place cond block =>
      obtain ⟨hd, hheader, _, hoffside⟩ := block_offside hparse hs hnode
      exact ⟨p, s, hd, rfl, hs, hnode ▸ hheader, hoffside⟩

end Program

end Stepwise
