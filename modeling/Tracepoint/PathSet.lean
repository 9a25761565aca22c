import Tracepoint.Path

/-!
# Sets of paths

A set holds paths in order, and of paths with the same components only the one
that came first. Paths are ordered by their components: the root, `.` and `..`
come before names, and names are ordered as texts.

Results:

* `contains_insert`, `contains_erase`: inserting adds a path and erasing removes
  one; other paths stay as they are.
-/

namespace Tracepoint

namespace Path

/-- The place of a component among the others, and its name. -/
def Component.rank : Component → Nat × String
  | .root => (0, "")
  | .here => (1, "")
  | .up => (2, "")
  | .name text => (3, text)

/-- Whether a component comes before another. -/
def Component.before (a b : Component) : Bool :=
  a.rank.1 < b.rank.1 || (a.rank.1 = b.rank.1 && a.rank.2 < b.rank.2)

/-- Whether components come before others: at the first place where they differ, or by
    ending first. -/
def componentsBefore : List Component → List Component → Bool
  | [], [] => false
  | [], _ :: _ => true
  | _ :: _, [] => false
  | a :: as, b :: bs => if a = b then componentsBefore as bs else a.before b

/-- Whether a path comes before another. -/
def before (a b : Path) : Bool := componentsBefore a.components b.components

end Path

/-- A set of paths, in order. -/
structure PathSet where
  paths : List Path := []
deriving DecidableEq, Repr, Inhabited

namespace PathSet

def size (s : PathSet) : Nat := s.paths.length

def isEmpty (s : PathSet) : Bool := s.paths.isEmpty

def contains (s : PathSet) (p : Path) : Bool := s.paths.any (·.same p)

/-- A list with a path at its place, unless it holds that path. -/
def place (p : Path) : List Path → List Path
  | [] => [p]
  | q :: qs =>
    if q.same p then q :: qs
    else if p.before q then p :: q :: qs
    else q :: place p qs

/-- Adds a path. -/
def insert (s : PathSet) (p : Path) : PathSet := ⟨place p s.paths⟩

/-- Removes a path. -/
def erase (s : PathSet) (p : Path) : PathSet := ⟨s.paths.filter (!·.same p)⟩

/-- The paths that are not in another set. -/
def difference (s t : PathSet) : PathSet := ⟨s.paths.filter (!t.contains ·)⟩

theorem any_place (p q : Path) (ps : List Path) :
    (place p ps).any (·.same q) = (p.same q || ps.any (·.same q)) := by
  induction ps with
  | nil => simp [place]
  | cons r rs ih =>
    simp only [place]
    split
    · rename_i h
      have e : r.components = p.components := by simpa [Path.same] using h
      simp [Path.same, e]
    · split
      · simp
      · simp only [List.any_cons, ih, Bool.or_left_comm]

theorem contains_insert (s : PathSet) (p q : Path) :
    (s.insert p).contains q = (p.same q || s.contains q) := by
  simp [insert, contains, any_place]

theorem contains_erase (s : PathSet) (p q : Path) :
    (s.erase p).contains q = (s.contains q && !p.same q) := by
  rw [Bool.eq_iff_iff]
  simp only [erase, contains, List.any_filter, List.any_eq_true, Bool.and_eq_true,
    Bool.not_eq_true', Path.same, beq_iff_eq, beq_eq_false_iff_ne]
  constructor
  · rintro ⟨r, hr, hp, hq⟩
    exact ⟨⟨r, hr, hq⟩, fun h => hp (hq.trans h.symm)⟩
  · rintro ⟨⟨r, hr, hq⟩, hp⟩
    exact ⟨r, hr, fun h => hp (h.symm.trans hq), hq⟩

end PathSet

end Tracepoint
