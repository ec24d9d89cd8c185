import Stepwise.Source.Lines
import Mathlib.Data.List.DropRight

/-!
# Lines and line breaks

The lines of a text have no line breaks and no blanks at their ends, and they are numbered from 1. Lines of this kind are found again
in the text that joins them.
-/

namespace Stepwise

/-! ## The characters of lines -/

/-- Unifying line breaks adds nothing but line feeds. -/
theorem mem_of_mem_unifyBreaks {c : Char} {cs : List Char} (h : c ∈ unifyBreaks cs) : c ∈ cs ∨ c = '\n' := by
  fun_induction unifyBreaks cs with
  | case1 => cases h
  | case2 cs ih =>
    rcases List.mem_cons.1 h with h | h
    · exact Or.inr h
    · exact (ih h).imp (fun h => by simp [h]) id
  | case3 cs _ ih =>
    rcases List.mem_cons.1 h with h | h
    · exact Or.inr h
    · exact (ih h).imp (fun h => by simp [h]) id
  | case4 c cs _ _ ih =>
    rcases List.mem_cons.1 h with h | h
    · exact Or.inl (by simp [h])
    · exact (ih h).imp (fun h => by simp [h]) id

/-- Unifying line breaks leaves no carriage return. -/
theorem return_notMem_unifyBreaks (cs : List Char) : '\r' ∉ unifyBreaks cs := by
  fun_induction unifyBreaks cs with
  | case1 => simp
  | case2 cs ih => simpa using ih
  | case3 cs _ ih => simpa using ih
  | case4 c cs hpair hsingle ih =>
    rw [List.mem_cons, not_or]
    exact ⟨fun hc => hsingle hc.symm, ih⟩

/-- A text without carriage returns has its line breaks as they are. -/
theorem unifyBreaks_eq_self {cs : List Char} (h : '\r' ∉ cs) : unifyBreaks cs = cs := by
  fun_induction unifyBreaks cs with
  | case1 => rfl
  | case2 => simp at h
  | case3 => simp at h
  | case4 c cs _ _ ih =>
    rw [List.mem_cons, not_or] at h
    rw [ih h.2]

/-- The pieces of a text hold only characters of the text. -/
theorem mem_of_mem_splitOn {c sep : Char} {cs piece : List Char} (hp : piece ∈ cs.splitOn sep) (hc : c ∈ piece) : c ∈ cs := by
  induction cs generalizing piece with
  | nil =>
    simp only [List.splitOn_nil, List.mem_singleton] at hp
    rw [hp] at hc
    exact hc
  | cons d ds ih =>
    rw [List.splitOn_cons_eq_if_modifyHead] at hp
    split at hp
    · rcases List.mem_cons.1 hp with rfl | hp
      · cases hc
      · exact List.mem_cons_of_mem d (ih hp hc)
    · cases hs : ds.splitOn sep with
      | nil => simp [hs] at hp
      | cons first rest =>
        rw [hs, List.modifyHead_cons] at hp
        rcases List.mem_cons.1 hp with rfl | hp
        · rcases List.mem_cons.1 hc with rfl | hc
          · exact List.mem_cons_self
          · exact List.mem_cons_of_mem d (ih (by simp [hs]) hc)
        · exact List.mem_cons_of_mem d (ih (by simp [hs, hp]) hc)

/-- No piece has the character that a text is cut at. -/
theorem sep_notMem_of_mem_splitOn {sep : Char} {cs piece : List Char} (h : piece ∈ cs.splitOn sep) : sep ∉ piece := by
  induction cs generalizing piece with
  | nil =>
    rw [List.splitOn_nil, List.mem_singleton] at h
    simp [h]
  | cons c cs ih =>
    rw [List.splitOn_cons_eq_if_modifyHead] at h
    split at h
    · rcases List.mem_cons.1 h with rfl | h
      · simp
      · exact ih h
    · rename_i hc
      obtain ⟨first, rest, hpieces⟩ := List.exists_cons_of_ne_nil (List.splitOn_ne_nil sep cs)
      rw [hpieces, List.modifyHead_cons] at h
      rcases List.mem_cons.1 h with rfl | h
      · have hfirst := ih (hpieces ▸ List.mem_cons_self)
        simp only [List.mem_cons, not_or]
        exact ⟨fun heq => hc (by simp [heq]), hfirst⟩
      · exact ih (hpieces ▸ List.mem_cons_of_mem _ h)

/-- The lines of a text hold only characters of the text. -/
theorem mem_of_mem_sourceLines {s : String} {l : Line} {c : Char} (hl : l ∈ sourceLines s) (hc : c ∈ l.text) :
    c ∈ s.toList ∨ c = '\n' := by
  have hmem : l.text ∈ splitLines s.toList := by
    rw [← numberLines_map_text 1 (splitLines s.toList)]
    exact List.mem_map_of_mem hl
  obtain ⟨piece, hpiece, heq⟩ := List.mem_map.1 hmem
  have hsub : l.text <+: piece := heq ▸ List.rdropWhile_prefix Text.isIndent piece
  exact mem_of_mem_unifyBreaks (mem_of_mem_splitOn hpiece (hsub.subset hc))

/-- A line has no line break in it and no blanks at its end. -/
theorem tidy_of_mem_splitLines {cs l : List Char} (h : l ∈ splitLines cs) :
    '\n' ∉ l ∧ '\r' ∉ l ∧ Text.trimRight Text.isIndent l = l := by
  obtain ⟨piece, hpiece, rfl⟩ := List.mem_map.1 h
  have hsub : Text.trimRight Text.isIndent piece <+: piece := List.rdropWhile_prefix Text.isIndent piece
  refine ⟨?_, ?_, List.rdropWhile_idempotent Text.isIndent piece⟩
  · intro hmem
    exact sep_notMem_of_mem_splitOn hpiece (hsub.subset hmem)
  · intro hmem
    exact return_notMem_unifyBreaks cs (mem_of_mem_splitOn hpiece (hsub.subset hmem))

/-! ## The numbers of lines -/

/-- Lines are numbered part by part. -/
theorem numberLines_append (first : Nat) (as bs : List (List Char)) :
    numberLines first (as ++ bs) = numberLines first as ++ numberLines (first + as.length) bs := by
  induction as generalizing first with
  | nil => rfl
  | cons a as ih =>
    rw [List.cons_append, numberLines, ih, numberLines, List.cons_append, List.length_cons, Nat.add_assoc,
      Nat.add_comm 1]

/-- Numbering adds no lines. -/
theorem text_mem_of_mem_numberLines {first : Nat} {ls : List (List Char)} {l : Line} (h : l ∈ numberLines first ls) :
    l.text ∈ ls := by
  rw [← numberLines_map_text first ls]
  exact List.mem_map_of_mem h

/-- A numbered line stands at the place that its number says. -/
theorem mem_numberLines {first : Nat} {ls : List (List Char)} {l : Line} :
    l ∈ numberLines first ls ↔ ∃ n, ls[n]? = some l.text ∧ l.number = first + n := by
  induction ls generalizing first with
  | nil => simp [numberLines]
  | cons t ts ih =>
    rw [numberLines, List.mem_cons, ih]
    constructor
    · rintro (rfl | ⟨n, hn, hnumber⟩)
      · exact ⟨0, rfl, rfl⟩
      · exact ⟨n + 1, hn, by omega⟩
    · rintro ⟨n, hn, hnumber⟩
      cases n with
      | zero =>
        obtain ⟨number, text⟩ := l
        obtain rfl : t = text := Option.some.inj hn
        exact Or.inl (by rw [show number = first from hnumber])
      | succ n => exact Or.inr ⟨n, hn, by omega⟩

/-- The numbers of lines go up. -/
theorem numberLines_pairwise (first : Nat) (ls : List (List Char)) :
    (numberLines first ls).Pairwise fun a b => a.number < b.number := by
  induction ls generalizing first with
  | nil => exact List.Pairwise.nil
  | cons t ts ih =>
    refine List.Pairwise.cons (fun l hl => ?_) (ih (first + 1))
    obtain ⟨n, _, hnumber⟩ := mem_numberLines.1 hl
    exact Nat.lt_of_lt_of_le (Nat.lt_succ_self first) (hnumber ▸ Nat.le_add_right (first + 1) n)

/-! ## Joined lines -/

/-- The characters of joined lines are those of the lines and the one between them. -/
theorem mem_intercalate {sep c : Char} {ls : List (List Char)} (h : c ∈ [sep].intercalate ls) :
    c = sep ∨ ∃ l ∈ ls, c ∈ l := by
  induction ls with
  | nil => simp at h
  | cons l ls ih =>
    cases ls with
    | nil => exact Or.inr ⟨l, List.mem_cons_self, by simpa using h⟩
    | cons l' ls =>
      rw [List.intercalate_cons_cons, List.mem_append, List.mem_append, List.mem_singleton] at h
      rcases h with (h | h) | h
      · exact Or.inr ⟨l, List.mem_cons_self, h⟩
      · exact Or.inl h
      · rcases ih h with h | ⟨k, hk, hc⟩
        · exact Or.inl h
        · exact Or.inr ⟨k, List.mem_cons_of_mem l hk, hc⟩

/-- Lines that each end with a line break are found again, with an empty piece behind the last one. -/
theorem splitOn_flatMap_lineFeed {ls : List (List Char)} (h : ∀ l ∈ ls, '\n' ∉ l) :
    (ls.flatMap fun l => l ++ ['\n']).splitOn '\n' = ls ++ [[]] := by
  have hjoined : (ls.flatMap fun l => l ++ ['\n']) = ['\n'].intercalate (ls ++ [[]]) := by
    clear h
    induction ls with
    | nil => rfl
    | cons l ls ih =>
      rw [List.flatMap_cons, ih, List.cons_append, List.intercalate_cons_of_ne_nil (by simp), List.append_assoc]
  rw [hjoined]
  refine List.splitOn_intercalate '\n' ?_ (by simp)
  intro piece hpiece
  rcases List.mem_append.1 hpiece with hpiece | hpiece
  · exact h piece hpiece
  · simp [List.mem_singleton.1 hpiece]

/-- Lines that are joined by line breaks are found again, if none of them has a line break and none ends with blanks. -/
theorem sourceLines_intercalate {ls : List String} (hne : ls ≠ [])
    (h : ∀ l ∈ ls, '\n' ∉ l.toList ∧ '\r' ∉ l.toList ∧ Text.trimRight Text.isIndent l.toList = l.toList) :
    sourceLines ("\n".intercalate ls) = numberLines 1 (ls.map String.toList) := by
  have hlines : ∀ l ∈ ls.map String.toList, '\n' ∉ l ∧ '\r' ∉ l ∧ Text.trimRight Text.isIndent l = l := by
    intro l hl
    obtain ⟨s, hs, rfl⟩ := List.mem_map.1 hl
    exact h s hs
  have htext : ("\n".intercalate ls).toList = ['\n'].intercalate (ls.map String.toList) := String.toList_intercalate
  have hbreaks : '\r' ∉ ['\n'].intercalate (ls.map String.toList) := by
    intro hmem
    rcases mem_intercalate hmem with heq | ⟨l, hl, hc⟩
    · cases heq
    · exact (hlines l hl).2.1 hc
  rw [sourceLines, htext, splitLines, unifyBreaks_eq_self hbreaks,
    List.splitOn_intercalate '\n' (fun l hl => (hlines l hl).1) (by simpa using hne)]
  rw [List.map_congr_left fun l hl => (hlines l hl).2.2, List.map_id']

end Stepwise
