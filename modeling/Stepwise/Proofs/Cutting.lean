import Stepwise.Program.Command
import Mathlib.Data.List.DropRight

/-!
# Cutting and reading commute

The check looks at a command as it is written, the reader at the command without the blanks around it. These are the lemmas
that carry a fact from one to the other: what is left of a text when blanks are cut off its ends, what a text begins with, and
where the equals sign of an assignment stands.
-/

namespace Stepwise.Text

variable {p : Char → Bool}

/-! ## The end of a text -/

/-- Cutting the end of a text cannot reach beyond a part that is not cut away whole. -/
theorem trimRight_append {b : List Char} (h : trimRight p b ≠ []) (a : List Char) :
    trimRight p (a ++ b) = a ++ trimRight p b := by
  have hb : (b.reverse.dropWhile p).isEmpty = false := by
    rw [List.isEmpty_eq_false_iff]
    intro hnil
    exact h (by simp [trimRight, hnil])
  simp [trimRight, List.dropWhile_append, hb]

/-- A character outside the class stays. -/
theorem trimRight_cons {c : Char} (hc : p c = false) (b : List Char) : trimRight p (c :: b) = c :: trimRight p b := by
  by_cases h : trimRight p b = []
  · have hall : b.reverse.dropWhile p = [] := by simpa [trimRight] using h
    simp [trimRight, List.dropWhile_append, hall, hc]
  · exact trimRight_append h [c]

/-- Cutting the end and cutting the beginning commute. -/
theorem dropWhile_trimRight (p : Char → Bool) (cs : List Char) :
    (trimRight p cs).dropWhile p = trimRight p (cs.dropWhile p) := by
  induction cs with
  | nil => rfl
  | cons c cs ih =>
    cases hc : p c with
    | false => rw [trimRight_cons hc, List.dropWhile_cons_of_neg (by simp [hc]), List.dropWhile_cons_of_neg (by simp [hc]),
        trimRight_cons hc]
    | true =>
      rw [List.dropWhile_cons_of_pos hc]
      by_cases h : trimRight p cs = []
      · have hall : cs.reverse.dropWhile p = [] := by simpa [trimRight] using h
        have hnil : trimRight p (c :: cs) = [] := by simp [trimRight, List.dropWhile_append, hall, hc]
        rw [hnil, ← ih, h]
      · have happ := trimRight_append h [c]
        rw [List.singleton_append, List.singleton_append] at happ
        rw [happ, List.dropWhile_cons_of_pos hc, ih]

/-! ## Texts without the blanks around them -/

/-- The blanks at the end do not count. -/
theorem strip_trimRight (cs : List Char) : strip (trimRight isBlank cs) = strip cs := by
  simp only [strip, trim]
  rw [dropWhile_trimRight]
  exact List.rdropWhile_idempotent isBlank _

/-- A text with something left is not cut away whole at its end. -/
theorem trimRight_ne_nil_of_strip {cs : List Char} (h : strip cs ≠ []) : trimRight isBlank cs ≠ [] := by
  intro hnil
  apply h
  rw [← strip_trimRight, hnil]
  rfl

/-- A text that begins with a character that is not blank is cut only at its end. -/
theorem strip_cons {c : Char} (hc : isBlank c = false) (cs : List Char) : strip (c :: cs) = c :: trimRight isBlank cs := by
  simp only [strip, trim]
  rw [List.dropWhile_cons_of_neg (by simp [hc]), trimRight_cons hc]

/-- A word before a text with something left stays as it is. -/
theorem strip_append {c : Char} (hc : isBlank c = false) (ws : List Char) {cs : List Char} (h : strip cs ≠ []) :
    strip (c :: ws ++ cs) = c :: ws ++ trimRight isBlank cs := by
  rw [List.cons_append, strip_cons hc, trimRight_append (trimRight_ne_nil_of_strip h), List.cons_append]

/-- A text with something left begins, after its blanks, with the first character that is left. -/
theorem dropWhile_of_strip_eq_cons {cs rest : List Char} {c : Char} (h : strip cs = c :: rest) :
    ∃ tail, cs.dropWhile isBlank = c :: tail := by
  obtain ⟨tail, ht⟩ : strip cs <+: cs.dropWhile isBlank := List.rdropWhile_prefix isBlank _
  exact ⟨rest ++ tail, by rw [← ht, h, List.cons_append]⟩

/-- What is left of a text begins with no blank. -/
theorem isBlank_head_strip {cs rest : List Char} {c : Char} (h : strip cs = c :: rest) : isBlank c = false := by
  obtain ⟨tail, htail⟩ := dropWhile_of_strip_eq_cons h
  have hhead := List.head?_dropWhile_not isBlank cs
  rwa [htail] at hhead

/-- Nothing more is cut off a text without the blanks around it. -/
theorem strip_strip (cs : List Char) : strip (strip cs) = strip cs := by
  calc strip (strip cs) = strip (cs.dropWhile isBlank) := strip_trimRight _
    _ = strip cs := by rw [strip, trim, List.dropWhile_idempotent, strip, trim]

/-- A text that begins and ends with no blank has no blanks to cut off. -/
theorem strip_eq_self {c d : Char} {cs : List Char} (hfirst : cs.head? = some c) (hc : isBlank c = false)
    (hlast : cs.getLast? = some d) (hd : isBlank d = false) : strip cs = cs := by
  obtain ⟨rest, rfl⟩ := List.head?_eq_some_iff.1 hfirst
  rw [strip, trim, List.dropWhile_cons_of_neg (by simp [hc]), trimRight_of_last hlast hd]

/-- A blank before a text is cut off. -/
theorem strip_cons_blank {c : Char} (hc : isBlank c = true) (cs : List Char) : strip (c :: cs) = strip cs := by
  rw [strip, trim, List.dropWhile_cons_of_pos hc, strip, trim]

/-- A blank behind a text is cut off. -/
theorem strip_append_blank {c : Char} (hc : isBlank c = true) (cs : List Char) : strip (cs ++ [c]) = strip cs := by
  have hcut : trimRight isBlank (cs ++ [c]) = trimRight isBlank cs := by
    rw [trimRight, List.reverse_append, List.reverse_singleton, List.singleton_append, List.dropWhile_cons_of_pos hc,
      trimRight]
  rw [← strip_trimRight, hcut, strip_trimRight]

/-! ## The beginning of a text -/

/-- A text begins with a word exactly when it is cut into the word and a rest. -/
theorem startsWith_iff {word cs : List Char} : startsWith word cs = true ↔ ∃ rest, cs = word ++ rest := by
  simp only [startsWith, Option.isSome_iff_exists, after?_eq_some_iff]

end Stepwise.Text

namespace Stepwise

/-! ## The equals sign of an assignment -/

section

variable {quoted : Bool} {prev c : Char} {cs left right : List Char}

/-- In a string literal, a backslash and the character after it are passed together. -/
theorem findAssignment_escape (prev d : Char) (ds : List Char) :
    findAssignment true prev ('\\' :: d :: ds) = (findAssignment true d ds).map fun (l, r) => ('\\' :: d :: l, r) := by
  simp [findAssignment]

/-- A quote begins or ends a string literal. -/
theorem findAssignment_quote (quoted : Bool) (prev : Char) (cs : List Char) :
    findAssignment quoted prev ('"' :: cs) = (findAssignment (!quoted) '"' cs).map fun (l, r) => ('"' :: l, r) := by
  cases cs <;> simp [findAssignment]

/-- Two equals signs are a comparison. -/
theorem findAssignment_equal (prev : Char) (cs : List Char) :
    findAssignment false prev ('=' :: '=' :: cs) = (findAssignment false '=' cs).map fun (l, r) => ('=' :: '=' :: l, r) := by
  simp [findAssignment]

/-- An equals sign that no other one follows belongs to the comparison sign before it, or else is the one. -/
theorem findAssignment_single (prev : Char) (h : cs.head? ≠ some '=') :
    findAssignment false prev ('=' :: cs) =
      if prev = '!' ∨ prev = '<' ∨ prev = '>' then (findAssignment false '=' cs).map fun (l, r) => ('=' :: l, r)
      else some ([], cs) := by
  cases cs with
  | nil => simp [findAssignment]
  | cons d ds =>
    have hd : d ≠ '=' := by simpa using h
    rw [findAssignment]
    simp only [true_and, if_false, if_true, Bool.false_eq_true, and_false, Char.reduceEq]
    split
    · rename_i heq
      exact absurd (List.cons.inj heq).1 hd
    · rfl

/-- Every other character is passed. -/
theorem findAssignment_other (h1 : ¬ (c = '\\' ∧ quoted = true)) (h2 : c ≠ '"') (h3 : ¬ (c = '=' ∧ quoted = false))
    (prev : Char) (cs : List Char) :
    findAssignment quoted prev (c :: cs) = (findAssignment quoted c cs).map fun (l, r) => (c :: l, r) := by
  cases cs <;> simp [findAssignment, h1, h2, h3]

/-- The equals sign of an assignment is found where the texts before and after it meet, and what follows it does not matter
as long as no second equals sign makes a comparison of it. -/
theorem findAssignment_eq_some (h : findAssignment quoted prev cs = some (left, right)) :
    cs = left ++ '=' :: right ∧ right.head? ≠ some '=' ∧
      ∀ right', right'.head? ≠ some '=' → findAssignment quoted prev (left ++ '=' :: right') = some (left, right') := by
  fun_induction findAssignment quoted prev cs generalizing left right with
  | case1 => cases h
  | case2 => cases h
  | case3 quoted prev c hc d ds ih =>
    obtain ⟨⟨l, r⟩, hrec, heq⟩ := Option.map_eq_some_iff.1 h
    cases heq
    obtain ⟨rfl, hright, hany⟩ := ih hrec
    obtain ⟨rfl, rfl⟩ := hc
    refine ⟨rfl, hright, fun right' hr => ?_⟩
    rw [List.cons_append, List.cons_append, findAssignment_escape, hany right' hr]
    rfl
  | case4 quoted prev cs hc ih =>
    obtain ⟨⟨l, r⟩, hrec, heq⟩ := Option.map_eq_some_iff.1 h
    cases heq
    obtain ⟨rfl, hright, hany⟩ := ih hrec
    refine ⟨rfl, hright, fun right' hr => ?_⟩
    rw [List.cons_append, findAssignment_quote, hany right' hr]
    rfl
  | case5 quoted prev c hc hq he ds ih =>
    obtain ⟨⟨l, r⟩, hrec, heq⟩ := Option.map_eq_some_iff.1 h
    cases heq
    obtain ⟨rfl, hright, hany⟩ := ih hrec
    obtain ⟨rfl, rfl⟩ := he
    refine ⟨rfl, hright, fun right' hr => ?_⟩
    rw [List.cons_append, List.cons_append, findAssignment_equal, hany right' hr]
    rfl
  | case6 quoted prev c hc hq he ds hds hprev ih =>
    obtain ⟨⟨l, r⟩, hrec, heq⟩ := Option.map_eq_some_iff.1 h
    cases heq
    obtain ⟨rfl, hright, hany⟩ := ih hrec
    obtain ⟨rfl, rfl⟩ := he
    refine ⟨rfl, hright, fun right' hr => ?_⟩
    -- the text before the sign is not empty here, so the next character does not depend on what follows the sign
    have hhead : (l ++ '=' :: right').head? ≠ some '=' := by
      cases l with
      | nil => exact absurd rfl (hds right)
      | cons d l =>
        intro hd
        rw [List.cons_append, List.head?_cons, Option.some.injEq] at hd
        exact hds (l ++ '=' :: right) (by rw [hd, List.cons_append])
    rw [List.cons_append, findAssignment_single prev hhead, if_pos hprev, hany right' hr]
    rfl
  | case7 quoted prev c hc hq he ds hds hprev =>
    cases h
    obtain ⟨rfl, rfl⟩ := he
    refine ⟨rfl, ?_, fun right' hr => ?_⟩
    · intro hhead
      obtain ⟨es, hes⟩ := List.head?_eq_some_iff.1 hhead
      exact hds es hes
    · rw [List.nil_append, findAssignment_single prev hr, if_neg hprev]
  | case8 quoted prev c cs hc hq he ih =>
    obtain ⟨⟨l, r⟩, hrec, heq⟩ := Option.map_eq_some_iff.1 h
    cases heq
    obtain ⟨rfl, hright, hany⟩ := ih hrec
    refine ⟨rfl, hright, fun right' hr => ?_⟩
    rw [List.cons_append, findAssignment_other hc hq he, hany right' hr]
    rfl

/-- A blank before a text does not count for its equals sign. -/
theorem assignment?_cons_blank (hc : Text.isBlank c = true) (cs : List Char) :
    assignment? (c :: cs) = (assignment? cs).map fun (l, r) => (c :: l, r) := by
  have hsign : ∀ d ∈ ['\\', '"', '=', '!', '<', '>'], c ≠ d := by
    rintro d hd rfl
    revert hc
    simp only [List.mem_cons, List.not_mem_nil, or_false] at hd
    rcases hd with rfl | rfl | rfl | rfl | rfl | rfl <;> decide
  have hprev : findAssignment false c cs = findAssignment false ' ' cs := by
    cases cs with
    | nil => simp [findAssignment]
    | cons d ds =>
      by_cases hq : d = '"'
      · rw [hq, findAssignment_quote, findAssignment_quote]
      · by_cases he : d = '='
        · subst he
          by_cases hds : ds.head? = some '='
          · obtain ⟨es, rfl⟩ := List.head?_eq_some_iff.1 hds
            rw [findAssignment_equal, findAssignment_equal]
          · rw [findAssignment_single c hds, findAssignment_single ' ' hds, if_neg, if_neg (by decide)]
            simp [hsign]
        · rw [findAssignment_other (by simp) hq (by simp [he]), findAssignment_other (by simp) hq (by simp [he])]
  unfold assignment?
  rw [findAssignment_other (by simp) (hsign '"' (by simp)) (by simp [hsign]), hprev]

/-- The equals sign stands in the same place after the blanks before a text are cut off. -/
theorem assignment?_dropWhile (h : assignment? cs = some (left, right)) :
    assignment? (cs.dropWhile Text.isBlank) = some (left.dropWhile Text.isBlank, right) := by
  induction cs generalizing left with
  | nil => cases h
  | cons c cs ih =>
    cases hc : Text.isBlank c with
    | true =>
      rw [assignment?_cons_blank hc] at h
      obtain ⟨⟨l, r⟩, hrec, heq⟩ := Option.map_eq_some_iff.1 h
      cases heq
      rw [List.dropWhile_cons_of_pos hc, List.dropWhile_cons_of_pos hc, ih hrec]
    | false =>
      have hsplit := (findAssignment_eq_some h).1
      rw [List.dropWhile_cons_of_neg (by simp [hc]), h]
      cases left with
      | nil => rfl
      | cons d l =>
        obtain ⟨rfl, _⟩ := List.cons.inj hsplit
        rw [List.dropWhile_cons_of_neg (by simp [hc])]

/-- The equals sign stands in the same place in a text without the blanks around it. -/
theorem assignment?_strip (h : assignment? cs = some (left, right)) :
    assignment? (Text.strip cs) = some (left.dropWhile Text.isBlank, Text.trimRight Text.isBlank right) := by
  have hdrop := assignment?_dropWhile h
  obtain ⟨hsplit, hhead, hany⟩ := findAssignment_eq_some hdrop
  have hcut : Text.strip cs = left.dropWhile Text.isBlank ++ '=' :: Text.trimRight Text.isBlank right := by
    simp only [Text.strip, Text.trim, hsplit]
    rw [Text.trimRight_append, Text.trimRight_cons (by decide)]
    rw [Text.trimRight_cons (by decide)]
    exact List.cons_ne_nil _ _
  rw [hcut]
  refine hany _ fun hsign => hhead ?_
  obtain ⟨tail, ht⟩ : Text.trimRight Text.isBlank right <+: right := List.rdropWhile_prefix Text.isBlank right
  rw [← ht, List.head?_append, hsign]
  rfl

end

end Stepwise
