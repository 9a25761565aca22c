import Tracepoint.Text.Blank
import Tracepoint.Text.Search

/-!
# Import declarations

An import is read from the text of its declaration. Blanks between the parts of
its path do not count; comments are kept as part of the path.
-/

namespace Tracepoint.Source

open Text

structure Import where
  path : String
  isStatic : Bool
  /-- Whether the declaration ends in `.*`. -/
  wildcard : Bool
  line : Nat
deriving DecidableEq, Repr, Inhabited

namespace Import

/-- A text without the semicolons at its end. -/
def dropSemicolons (s : List Char) : List Char := (s.reverse.dropWhile (· == ';')).reverse

/-- Whether a text starts with the word `static` and a blank, and what follows. -/
def splitStatic (s : List Char) : Bool × List Char :=
  match dropStart? "static".toList s with
  | some (c :: rest) => if isBlank c then (true, trim (c :: rest)) else (false, s)
  | _ => (false, s)

/-- Reads the text of an import declaration that starts on a line. -/
def parse? (text : List Char) (line : Nat) : Option Import := do
  let body ← dropStart? "import".toList (trim text)
  let (isStatic, body) := splitStatic (trim (dropSemicolons (trim body)))
  let path := squeeze body
  match dropEnd? ['.', '*'] path with
  | some package => return ⟨String.ofList package, isStatic, true, line⟩
  | none => return ⟨String.ofList path, isStatic, false, line⟩

/-- The type or package that has to exist for the import to make sense: the owner of the
    member for a static import of one member, and otherwise the path. -/
def target (i : Import) : String :=
  if i.isStatic && !i.wildcard then
    match splitLast? '.' i.path.toList with
    | some (owner, _) => String.ofList owner
    | none => i.path
  else i.path

end Import

/-- The part of a dotted name after its last dot. -/
def simpleName (name : String) : String := String.ofList (afterLast '.' name.toList)

/-- The part of a dotted name before its last dot. -/
def packageOf? (name : String) : Option String :=
  (splitLast? '.' name.toList).map fun p => String.ofList p.1

end Tracepoint.Source
