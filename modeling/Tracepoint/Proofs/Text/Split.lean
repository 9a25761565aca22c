import Mathlib.Data.List.Basic
import Mathlib.Tactic.Common
import Tracepoint.Text.Identifier
import Tracepoint.Text.Search

/-!
# Splitting a text at a separator

A dotted name is split at its dots, and a path at its slashes. The parts of a dotted name
are identifiers, which hold no separators.

Results:

* `not_mem_of_isIdentifier`: what an identifier does not hold.
* `splitAll_append`, `splitAll_of_not_mem`: the pieces between the separators of a text.
* `exists_mem_splitAll_iff`, `not_mem_of_mem_splitAll`: the characters of the pieces.
* `splitAll_eq_cons_iff`: the pieces of a text, without the function that finds them.
* `splitAll_flatMap`, `not_mem_of_length_flatMap`: splitting pieces that were joined, and how many
  there are if they hold separators themselves.
* `splitFirst?_eq_some`, `splitFirst?_append`, `splitFirst?_eq_none`: the first separator of a text.
* `splitLast?_eq_some_iff`, `splitLast?_eq_none_iff`: the last separator of a text.
* `afterLast_mem_splitAll`: what follows the last separator is one of the pieces.
-/

namespace Tracepoint.Text

/-- There is no character in an identifier that cannot stand there. -/
theorem not_mem_of_isIdentifier {s : List Char} (h : isIdentifier s = true) {c : Char}
    (hc : isIdentifierPart c = false) : c ∉ s := by
  intro hmem
  have hpart : isIdentifierPart c = true := by
    cases s with
    | nil => cases hmem
    | cons d s =>
      rw [isIdentifier, Bool.and_eq_true, List.all_eq_true] at h
      rcases List.mem_cons.1 hmem with rfl | hmem
      · exact isIdentifierPart_of_start h.1
      · exact h.2 c hmem
  rw [hc] at hpart
  cases hpart

/-! ## All separators -/

theorem splitAll_cons (sep c : Char) (s : List Char) :
    splitAll sep (c :: s) = if c = sep then [] :: splitAll sep s
      else match splitAll sep s with
        | [] => [[c]]
        | piece :: more => (c :: piece) :: more := rfl

theorem splitAll_ne_nil (sep : Char) (s : List Char) : splitAll sep s ≠ [] := by
  cases s with
  | nil => simp [splitAll]
  | cons c s =>
    rw [splitAll_cons]
    split_ifs
    · simp
    · split <;> simp

/-- A separator ends an empty piece. -/
theorem splitAll_cons_self (sep : Char) (s : List Char) :
    splitAll sep (sep :: s) = [] :: splitAll sep s := by
  rw [splitAll_cons, if_pos rfl]

/-- Any other character goes to the front of the first piece. -/
theorem exists_splitAll_cons {sep c : Char} (hc : c ≠ sep) (s : List Char) :
    ∃ first more, splitAll sep s = first :: more ∧ splitAll sep (c :: s) = (c :: first) :: more := by
  obtain ⟨first, more, hs⟩ := List.exists_cons_of_ne_nil (splitAll_ne_nil sep s)
  exact ⟨first, more, hs, by rw [splitAll_cons, if_neg hc, hs]⟩

theorem splitAll_append (sep : Char) (a b : List Char) :
    splitAll sep (a ++ sep :: b) = splitAll sep a ++ splitAll sep b := by
  induction a with
  | nil => exact splitAll_cons_self sep b
  | cons c a ih =>
    rw [List.cons_append]
    by_cases hc : c = sep
    · rw [hc, splitAll_cons_self, splitAll_cons_self, ih, List.cons_append]
    · obtain ⟨first, more, ha, hcons⟩ := exists_splitAll_cons hc a
      rw [splitAll_cons, if_neg hc, ih, ha, hcons]
      rfl

theorem splitAll_of_not_mem {sep : Char} {s : List Char} (h : sep ∉ s) : splitAll sep s = [s] := by
  induction s with
  | nil => rfl
  | cons c s ih =>
    rw [List.mem_cons, not_or] at h
    rw [splitAll_cons, if_neg (Ne.symm h.1), ih h.2]

/-- There is one piece more than separators. -/
theorem length_splitAll (sep : Char) (s : List Char) :
    (splitAll sep s).length = s.count sep + 1 := by
  induction s with
  | nil => rfl
  | cons c s ih =>
    by_cases hc : c = sep
    · rw [hc, splitAll_cons_self, List.length_cons, ih, List.count_cons_self]
    · obtain ⟨first, more, hs, hcons⟩ := exists_splitAll_cons hc s
      rw [hs] at ih
      rw [hcons, List.count_cons_of_ne hc]
      exact ih

/-- Pieces that each end in a separator: nothing follows the last one. -/
theorem splitAll_flatMap (sep : Char) (pieces : List (List Char)) :
    splitAll sep (pieces.flatMap (· ++ [sep])) = pieces.flatMap (splitAll sep) ++ [[]] := by
  induction pieces with
  | nil => rfl
  | cons piece pieces ih =>
    rw [List.flatMap_cons, List.append_assoc, List.singleton_append, splitAll_append, ih,
      List.flatMap_cons, List.append_assoc]

/-- Pieces without separators are not split. -/
theorem flatMap_splitAll_of_not_mem {sep : Char} {pieces : List (List Char)}
    (h : ∀ piece ∈ pieces, sep ∉ piece) : pieces.flatMap (splitAll sep) = pieces := by
  induction pieces with
  | nil => rfl
  | cons piece pieces ih =>
    rw [List.forall_mem_cons] at h
    rw [List.flatMap_cons, splitAll_of_not_mem h.1, ih h.2]
    rfl

theorem length_le_flatMap_splitAll (sep : Char) (pieces : List (List Char)) :
    pieces.length ≤ (pieces.flatMap (splitAll sep)).length := by
  induction pieces with
  | nil => exact Nat.le_refl _
  | cons piece pieces ih =>
    rw [List.flatMap_cons, List.length_append, length_splitAll, List.length_cons]
    omega

/-- If splitting pieces once more makes no more of them, there are no separators in them. -/
theorem not_mem_of_length_flatMap {sep : Char} {pieces : List (List Char)}
    (h : (pieces.flatMap (splitAll sep)).length ≤ pieces.length) :
    ∀ piece ∈ pieces, sep ∉ piece := by
  induction pieces with
  | nil => simp
  | cons piece pieces ih =>
    have hle := length_le_flatMap_splitAll sep pieces
    rw [List.flatMap_cons, List.length_append, length_splitAll, List.length_cons] at h
    rw [List.forall_mem_cons]
    exact ⟨List.count_eq_zero.1 (by omega), ih (by omega)⟩

/-- The characters of the pieces are those of the text, separators not counted. -/
theorem exists_mem_splitAll_iff {sep c : Char} {s : List Char} (hsep : c ≠ sep) :
    (∃ piece ∈ splitAll sep s, c ∈ piece) ↔ c ∈ s := by
  induction s with
  | nil => simp [splitAll]
  | cons d s ih =>
    by_cases hd : d = sep
    · rw [hd, splitAll_cons_self, List.exists_mem_cons_iff, ih]
      simp [hsep]
    · obtain ⟨first, more, hs, hcons⟩ := exists_splitAll_cons hd s
      rw [hs, List.exists_mem_cons_iff] at ih
      rw [hcons, List.exists_mem_cons_iff, List.mem_cons, List.mem_cons, ← ih, or_assoc]

theorem not_mem_of_mem_splitAll {sep : Char} {s : List Char} :
    ∀ piece ∈ splitAll sep s, sep ∉ piece := by
  induction s with
  | nil => simp [splitAll]
  | cons c s ih =>
    by_cases hc : c = sep
    · rw [hc, splitAll_cons_self, List.forall_mem_cons]
      exact ⟨List.not_mem_nil, ih⟩
    · obtain ⟨first, more, hs, hcons⟩ := exists_splitAll_cons hc s
      rw [hs, List.forall_mem_cons] at ih
      rw [hcons, List.forall_mem_cons, List.mem_cons, not_or]
      exact ⟨⟨Ne.symm hc, ih.1⟩, ih.2⟩

/-- The pieces of a text hold no separator, and the text has them in order with a separator before
    each of them but the first. -/
theorem splitAll_eq_cons_iff {sep : Char} {s first : List Char} {more : List (List Char)} :
    splitAll sep s = first :: more ↔
      s = first ++ more.flatMap (sep :: ·) ∧ ∀ piece ∈ first :: more, sep ∉ piece := by
  constructor
  · intro h
    refine ⟨?_, h ▸ not_mem_of_mem_splitAll⟩
    induction s generalizing first more with
    | nil => simp_all [splitAll]
    | cons c s ih =>
      by_cases hc : c = sep
      · rw [hc, splitAll_cons_self, List.cons.injEq] at h
        obtain ⟨rfl, h⟩ := h
        obtain ⟨next, rest, hs⟩ := List.exists_cons_of_ne_nil (splitAll_ne_nil sep s)
        rw [← h, hs, List.flatMap_cons, List.nil_append, List.cons_append, ← ih hs, hc]
      · obtain ⟨next, rest, hs, hcons⟩ := exists_splitAll_cons hc s
        rw [hcons, List.cons.injEq] at h
        rw [← h.1, ← h.2, List.cons_append, ← ih hs]
  · rintro ⟨rfl, h⟩
    induction more generalizing first with
    | nil =>
      rw [List.flatMap_nil, List.append_nil]
      exact splitAll_of_not_mem (h first (List.mem_cons_self ..))
    | cons next more ih =>
      rw [List.forall_mem_cons] at h
      rw [List.flatMap_cons, List.cons_append, splitAll_append, splitAll_of_not_mem h.1,
        ih h.2, List.singleton_append]

/-! ## The first and the last separator -/

theorem splitFirst?_eq_some {sep : Char} {s a b : List Char}
    (h : splitFirst? sep s = some (a, b)) : s = a ++ sep :: b ∧ sep ∉ a := by
  induction s generalizing a with
  | nil => simp [splitFirst?] at h
  | cons c cs ih =>
    rw [splitFirst?] at h
    split_ifs at h with hc
    · cases h
      exact ⟨by rw [hc]; rfl, by simp⟩
    · obtain ⟨⟨x, y⟩, hxy, heq⟩ := Option.map_eq_some_iff.1 h
      cases heq
      obtain ⟨rfl, hsep⟩ := ih hxy
      exact ⟨rfl, by simp [Ne.symm hc, hsep]⟩

theorem splitFirst?_append {sep : Char} {a : List Char} (h : sep ∉ a) (b : List Char) :
    splitFirst? sep (a ++ sep :: b) = some (a, b) := by
  induction a with
  | nil => simp [splitFirst?]
  | cons c a ih =>
    rw [List.mem_cons, not_or] at h
    rw [List.cons_append, splitFirst?, if_neg (Ne.symm h.1), ih h.2]
    rfl

theorem splitFirst?_eq_none {sep : Char} {s : List Char} (h : splitFirst? sep s = none) :
    sep ∉ s := by
  induction s with
  | nil => simp
  | cons c cs ih =>
    rw [splitFirst?] at h
    split_ifs at h with hc
    rw [Option.map_eq_none_iff] at h
    simp [Ne.symm hc, ih h]

/-- The last separator is the one that no separator follows. -/
theorem splitLast?_eq_some_iff {sep : Char} {s a b : List Char} :
    splitLast? sep s = some (a, b) ↔ s = a ++ sep :: b ∧ sep ∉ b := by
  unfold splitLast?
  rw [Option.map_eq_some_iff]
  constructor
  · rintro ⟨⟨x, y⟩, hfirst, heq⟩
    cases heq
    obtain ⟨hs, hsep⟩ := splitFirst?_eq_some hfirst
    exact ⟨by simpa using congrArg List.reverse hs, by simpa using hsep⟩
  · rintro ⟨rfl, hsep⟩
    have hfirst := splitFirst?_append (a := b.reverse) (by simpa using hsep) a.reverse
    exact ⟨(b.reverse, a.reverse), by simpa using hfirst, by simp⟩

theorem splitLast?_eq_none_iff {sep : Char} {s : List Char} :
    splitLast? sep s = none ↔ sep ∉ s := by
  constructor
  · intro h
    rw [splitLast?, Option.map_eq_none_iff] at h
    simpa using splitFirst?_eq_none h
  · intro h
    by_contra hne
    obtain ⟨⟨a, b⟩, hsome⟩ := Option.ne_none_iff_exists'.1 hne
    rw [(splitLast?_eq_some_iff.1 hsome).1] at h
    simp at h

/-- There is no separator after the last one. -/
theorem not_mem_afterLast (sep : Char) (s : List Char) : sep ∉ afterLast sep s := by
  unfold afterLast splitLast?
  cases h : splitFirst? sep s.reverse with
  | none => simpa using splitFirst?_eq_none h
  | some p => simpa using (splitFirst?_eq_some h).2

/-- What follows the last separator is the last piece. -/
theorem afterLast_mem_splitAll (sep : Char) (s : List Char) :
    afterLast sep s ∈ splitAll sep s := by
  unfold afterLast splitLast?
  cases h : splitFirst? sep s.reverse with
  | none =>
    have hsep : sep ∉ s := by simpa using splitFirst?_eq_none h
    simp [splitAll_of_not_mem hsep]
  | some p =>
    obtain ⟨hs, hsep⟩ := splitFirst?_eq_some h
    have hsplit : s = p.2.reverse ++ sep :: p.1.reverse := by
      rw [← List.reverse_reverse s, hs]
      simp
    have hlast : splitAll sep p.1.reverse = [p.1.reverse] :=
      splitAll_of_not_mem (by simpa using hsep)
    rw [hsplit, splitAll_append, hlast]
    simp

end Tracepoint.Text
