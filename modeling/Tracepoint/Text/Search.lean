/-!
# Finding and cutting pieces of a text

Plain searching in lists of characters: removing a known start or end,
splitting at a separator, and replacing one text by another.

Results:

* `dropStart?_eq_some_iff`, `dropEnd?_eq_some_iff`: what removing a start or an
  end returns.
* `startsWith_iff_prefix`, `endsWith_iff_suffix`: what a text starts and ends with.
* `occursIn_iff`: a text that occurs in another one is an infix of it.
-/

namespace Tracepoint.Text

/-- The rest of `s` after the start `p`, if `s` starts with `p`. -/
def dropStart? : List Char → List Char → Option (List Char)
  | [], s => some s
  | _ :: _, [] => none
  | p :: ps, c :: cs => if p = c then dropStart? ps cs else none

theorem dropStart?_eq_some_iff {p s r : List Char} : dropStart? p s = some r ↔ s = p ++ r := by
  induction p generalizing s with
  | nil => simp [dropStart?, eq_comm]
  | cons a p ih =>
    cases s with
    | nil => simp [dropStart?]
    | cons c cs =>
      by_cases h : a = c
      · subst h; simp [dropStart?, ih]
      · simp [dropStart?, h, Ne.symm h]

/-- The part of `s` before the end `q`, if `s` ends with `q`. -/
def dropEnd? (q s : List Char) : Option (List Char) :=
  (dropStart? q.reverse s.reverse).map List.reverse

theorem dropEnd?_eq_some_iff {q s r : List Char} : dropEnd? q s = some r ↔ s = r ++ q := by
  rw [dropEnd?, Option.map_eq_some_iff]
  constructor
  · rintro ⟨t, h, rfl⟩
    have := congrArg List.reverse (dropStart?_eq_some_iff.1 h)
    simpa using this
  · rintro rfl
    exact ⟨r.reverse, dropStart?_eq_some_iff.2 (by simp), by simp⟩

/-- Whether `s` starts with `p`. -/
def startsWith (p s : List Char) : Bool := (dropStart? p s).isSome

/-- Whether `s` ends with `q`. -/
def endsWith (q s : List Char) : Bool := (dropEnd? q s).isSome

theorem startsWith_iff_prefix {p s : List Char} : startsWith p s = true ↔ p <+: s := by
  rw [startsWith, Option.isSome_iff_exists]
  simp only [dropStart?_eq_some_iff]
  exact exists_congr fun _ => eq_comm

theorem endsWith_iff_suffix {q s : List Char} : endsWith q s = true ↔ q <:+ s := by
  rw [endsWith, Option.isSome_iff_exists]
  simp only [dropEnd?_eq_some_iff]
  exact exists_congr fun _ => eq_comm

/-- Whether `p` occurs in `s`. -/
def occursIn (p : List Char) : List Char → Bool
  | [] => p.isEmpty
  | c :: cs => startsWith p (c :: cs) || occursIn p cs

theorem occursIn_iff {p : List Char} : ∀ {s : List Char}, occursIn p s = true ↔ p <:+: s
  | [] => by simp [occursIn]
  | c :: s => by
    rw [occursIn, Bool.or_eq_true, startsWith_iff_prefix, occursIn_iff, List.infix_cons_iff]

/-- The pieces of `s` between the occurrences of `sep`, in order. -/
def splitAll (sep : Char) (s : List Char) : List (List Char) :=
  s.foldr
    (fun c acc =>
      if c = sep then [] :: acc
      else match acc with
        | [] => [[c]]
        | piece :: more => (c :: piece) :: more)
    [[]]

/-- The parts before and after the first `sep`. -/
def splitFirst? (sep : Char) : List Char → Option (List Char × List Char)
  | [] => none
  | c :: cs =>
    if c = sep then some ([], cs) else (splitFirst? sep cs).map fun p => (c :: p.1, p.2)

/-- The parts before and after the first occurrence of `p`. -/
def splitText? (p : List Char) : List Char → Option (List Char × List Char)
  | [] => if p.isEmpty then some ([], []) else none
  | c :: cs =>
    match dropStart? p (c :: cs) with
    | some rest => some ([], rest)
    | none => (splitText? p cs).map fun q => (c :: q.1, q.2)

/-- The parts before and after the last `sep`. -/
def splitLast? (sep : Char) (s : List Char) : Option (List Char × List Char) :=
  (splitFirst? sep s.reverse).map fun p => (p.2.reverse, p.1.reverse)

/-- The part after the last `sep`, or all of `s` if there is none. -/
def afterLast (sep : Char) (s : List Char) : List Char :=
  ((splitLast? sep s).map (·.2)).getD s

/-- The pieces joined with `sep` between them. -/
def joinWith (sep : List Char) : List (List Char) → List Char
  | [] => []
  | [p] => p
  | p :: q :: more => p ++ sep ++ joinWith sep (q :: more)

/-- Every occurrence of the non-empty text `old`, from left to right, becomes `new`. -/
def replaceAll (old new : List Char) : List Char → List Char
  | [] => []
  | c :: cs =>
    if startsWith old (c :: cs) && !old.isEmpty then
      new ++ replaceAll old new (cs.drop (old.length - 1))
    else c :: replaceAll old new cs
  termination_by s => s.length
  decreasing_by all_goals grind

/-- The lines of a text: `\n` ends a line, and a last line may lack it. A `\r` before the
    `\n` belongs to the line end. -/
def lines (s : List Char) : List (List Char) :=
  let pieces := splitAll '\n' s
  let ended := pieces.dropLast.map fun line => (dropEnd? ['\r'] line).getD line
  ended ++ (pieces.getLast?.filter (· ≠ [])).toList

end Tracepoint.Text
