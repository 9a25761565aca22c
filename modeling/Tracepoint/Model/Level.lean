import Tracepoint.Error
import Tracepoint.Java.Shape
import Tracepoint.Language

/-!
# Language levels

A table says which kinds of constructs need a minimum language level, a 32-bit number. A tree that
has such a construct is refused below the level. Of several entries for one kind, those that the
level meets do not count, and of the others the first names the construct and its level.
-/

namespace Tracepoint.Model

open Java

/-- An entry of the table: the name of a kind, what it is called, and the level it needs. -/
structure Gate where
  kind : String
  label : String
  level : UInt32
deriving DecidableEq, Repr, Inhabited

/-- The entry for a construct of a language. -/
def Gate.ofFeature (f : Feature) : Gate := ⟨f.kind.label, f.label, f.level.toUInt32⟩

/-- What a construct is called that no entry is for. -/
def Gate.unnamed (level : UInt32) : Gate := ⟨"", "language feature", level⟩

/-- The entries that need more than a level. -/
def gatesAbove (gates : List Gate) (level : UInt32) : List Gate :=
  gates.filter fun g => level < g.level

/-- The entry for the first construct of a tree that needs more than a level. -/
def firstAbove? (gates : List Gate) (root : Shape) (level : UInt32) : Option Gate :=
  let above := gatesAbove gates level
  if above.isEmpty then none
  else
    (root.find? fun n => above.any (·.kind = n.kind)).map fun n =>
      (above.find? (·.kind = n.kind)).getD (.unnamed (level + 1))

/-- Fails if a tree has a construct that needs more than a level. -/
def checkGates (gates : List Gate) (root : Shape) (path : Path) (level : UInt32) :
    Except Error Unit :=
  match firstAbove? gates root level with
  | some g => .error (.compliance path g.label g.level.toNat level.toNat)
  | none => .ok ()

end Tracepoint.Model
