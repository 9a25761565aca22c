import Tracepoint.Text.Search

/-!
# Byte offsets

Positions in a source text are offsets into its UTF-8 form. An offset inside a
character is no position: cutting there has no result.

Results:

* `cut?_eq_some_iff`: cutting at an offset splits the text into a part of that
  size and the rest.
* `isBoundary_iff`: the positions in a text are the sizes of its starts.
-/

namespace Tracepoint.Text

/-- The number of bytes of a text. -/
def byteSize : List Char → Nat
  | [] => 0
  | c :: s => c.utf8Size + byteSize s

@[simp] theorem byteSize_nil : byteSize [] = 0 := rfl

@[simp] theorem byteSize_cons (c : Char) (s : List Char) :
    byteSize (c :: s) = c.utf8Size + byteSize s := rfl

@[simp] theorem byteSize_append (s t : List Char) :
    byteSize (s ++ t) = byteSize s + byteSize t := by
  induction s with
  | nil => simp
  | cons c s ih => simp [ih, Nat.add_assoc]

/-- Of two starts of a text, the one with fewer bytes starts the other. -/
theorem exists_append_of_byteSize_le {a b c d : List Char} (h : a ++ b = c ++ d)
    (hle : byteSize a ≤ byteSize c) : ∃ m, c = a ++ m ∧ b = m ++ d := by
  rcases List.append_eq_append_iff.1 h with ⟨m, hc, hb⟩ | ⟨m, ha, hd⟩
  · exact ⟨m, hc, hb⟩
  · have hm : byteSize m = 0 := by
      rw [ha, byteSize_append] at hle
      omega
    cases m with
    | nil => exact ⟨[], by simpa using ha.symm, by simpa using hd.symm⟩
    | cons x m =>
      have hx := Char.utf8Size_pos x
      simp only [byteSize_cons] at hm
      omega

/-- The parts of a text before and after a byte offset. -/
def cut? : List Char → Nat → Option (List Char × List Char)
  | s, 0 => some ([], s)
  | [], _ + 1 => none
  | c :: s, n + 1 =>
    if c.utf8Size ≤ n + 1 then
      (cut? s (n + 1 - c.utf8Size)).map fun p => (c :: p.1, p.2)
    else none

theorem cut?_eq_some_iff {s : List Char} {n : Nat} {a b : List Char} :
    cut? s n = some (a, b) ↔ s = a ++ b ∧ byteSize a = n := by
  induction s generalizing n a with
  | nil =>
    cases n with
    | zero => cases a <;> simp [cut?, eq_comm]
    | succ n => cases a <;> simp [cut?]
  | cons c s ih =>
    have hc : 0 < c.utf8Size := Char.utf8Size_pos c
    cases n with
    | zero =>
      cases a with
      | nil => simp [cut?, eq_comm]
      | cons x xs =>
        have hx : 0 < x.utf8Size := Char.utf8Size_pos x
        simp only [cut?, Option.some.injEq, Prod.mk.injEq, byteSize_cons]
        constructor
        · rintro ⟨h, _⟩; cases h
        · rintro ⟨_, h⟩; omega
    | succ n =>
      rw [cut?]
      split
      · rename_i hle
        rw [Option.map_eq_some_iff]
        constructor
        · rintro ⟨⟨x, y⟩, h, he⟩
          cases he
          obtain ⟨hs, hn⟩ := ih.1 h
          exact ⟨by rw [hs]; rfl, by simp only [byteSize_cons]; omega⟩
        · rintro ⟨h, hn⟩
          cases a with
          | nil => simp at hn
          | cons x xs =>
            simp only [List.cons_append, List.cons.injEq] at h
            obtain ⟨rfl, rfl⟩ := h
            simp only [byteSize_cons] at hn
            exact ⟨(xs, b), ih.2 ⟨rfl, by omega⟩, rfl⟩
      · rename_i hlt
        constructor
        · intro h; cases h
        · rintro ⟨h, hn⟩
          cases a with
          | nil => simp at hn
          | cons x xs =>
            simp only [List.cons_append, List.cons.injEq] at h
            obtain ⟨rfl, rfl⟩ := h
            simp only [byteSize_cons] at hn
            omega

/-- Whether an offset is the start of a character or the end of the text. -/
def isBoundary (s : List Char) (n : Nat) : Bool := (cut? s n).isSome

theorem isBoundary_iff {s : List Char} {n : Nat} :
    isBoundary s n = true ↔ ∃ a b, s = a ++ b ∧ byteSize a = n := by
  rw [isBoundary, Option.isSome_iff_exists]
  constructor
  · rintro ⟨⟨a, b⟩, h⟩
    exact ⟨a, b, cut?_eq_some_iff.1 h⟩
  · rintro ⟨a, b, h⟩
    exact ⟨(a, b), cut?_eq_some_iff.2 h⟩

theorem isBoundary_zero (s : List Char) : isBoundary s 0 = true :=
  isBoundary_iff.2 ⟨[], s, rfl, rfl⟩

/-- The part of a text between two byte offsets. -/
def slice? (s : List Char) (start stop : Nat) : Option (List Char) :=
  if start ≤ stop then do
    let (_, rest) ← cut? s start
    let (middle, _) ← cut? rest (stop - start)
    return middle
  else none

/-- The part of a text between two byte offsets, empty where an offset is no position. -/
def slice (s : List Char) (start stop : Nat) : List Char := (slice? s start stop).getD []

/-- The number of the line that holds an offset, counted from 1. Only `\n` ends a line. -/
def lineAt (s : List Char) (offset : Nat) : Nat :=
  (slice s 0 offset).count '\n' + 1

/-- The spaces and tabs that open the line which holds an offset. -/
def indentAt (s : List Char) (offset : Nat) : List Char :=
  let start := byteSize ((slice s 0 offset).reverse.dropWhile (· != '\n')).reverse
  (((cut? s start).map (·.2)).getD []).takeWhile fun c => c == ' ' || c == '\t'

end Tracepoint.Text
