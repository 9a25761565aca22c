/-!
# Similar names

How much two names resemble each other, between 0 and 1: the share of characters
that they have in common near the same place, less those that are out of order,
raised for names that start alike. Used to suggest a known name for an unknown
one.
-/

namespace Tracepoint.Text

/-- The first index in a window of `b` that holds `c` and is not taken. -/
def partner? (b : List Char) (taken : List Nat) (low high : Nat) (c : Char) : Option Nat :=
  (b.zipIdx.find? fun (x, j) => low ≤ j && j < high && x == c && !taken.contains j).map (·.2)

/-- Pairs the characters of `a`, from index `i` on, with equal ones of `b` at most `range`
    places away: the characters of `a` that found a partner and the indices of the partners,
    both newest first. -/
def pairUp (b : List Char) (range : Nat) :
    Nat → List Char → List Char → List Nat → List Char × List Nat
  | _, [], found, taken => (found, taken)
  | i, c :: a, found, taken =>
    match partner? b taken (i - range) (min b.length (i + range + 1)) c with
    | some j => pairUp b range (i + 1) a (c :: found) (j :: taken)
    | none => pairUp b range (i + 1) a found taken

/-- The resemblance without regard to how the names start. -/
def commonShare (a b : List Char) : Float :=
  if a.isEmpty && b.isEmpty then 1.0
  else if a.isEmpty || b.isEmpty then 0.0
  else
    let range := max a.length b.length / 2 - 1
    let (found, taken) := pairUp b range 0 a [] []
    let others := (b.zipIdx.filter fun (_, j) => taken.contains j).map (·.1)
    let moved := ((found.reverse.zip others).countP fun (x, y) => x != y) / 2
    let matched := found.length
    if matched = 0 then 0.0
    else
      (matched.toFloat / a.length.toFloat + matched.toFloat / b.length.toFloat +
        (matched - moved).toFloat / matched.toFloat) / 3.0

/-- How much two names resemble each other. -/
def similarity (a b : String) : Float :=
  let share := commonShare a.toList b.toList
  if share > 0.7 then
    let alike := (((a.toList.take 4).zip b.toList).takeWhile fun (x, y) => x == y).length
    share + 0.1 * alike.toFloat * (1.0 - share)
  else share

/-- The least resemblance of a name that is suggested. -/
def suggestionThreshold : Float := 0.8

/-- The candidate that resembles a name most, if it does so enough. Of equals the last is
    taken. -/
def closest? (name : String) (candidates : List String) : Option String :=
  let scored := (candidates.map fun c => (similarity name c, c)).filter
    fun p => p.1 >= suggestionThreshold
  let best := scored.foldl
    (fun (best : Option (Float × String)) p =>
      match best with
      | some b => if b.1 > p.1 then some b else some p
      | none => some p)
    none
  best.map (·.2)

end Tracepoint.Text
