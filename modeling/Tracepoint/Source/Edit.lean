import Tracepoint.Text.Offset
import Tracepoint.Source.Import

/-!
# Edits

An edit inserts a text at a byte offset of a source. Edits apply in the order of
their offsets; those at one offset stay in the order in which they were
recorded. Offsets past the end count as the end.

Results:

* `applyEdits_nil`: without edits the source stays as it is.
-/

namespace Tracepoint.Source

open Text

/-- A text to insert at a byte offset. -/
structure Edit where
  offset : Nat
  text : String
deriving DecidableEq, Repr, Inhabited

/-- Edits in the order in which they apply. -/
def inOrder (edits : List Edit) : List Edit := edits.mergeSort fun a b => a.offset ≤ b.offset

/-- Applies ordered edits to what is left of a source of `size` bytes after `position`. -/
def applyFrom (size position : Nat) (rest : List Char) : List Edit → Option (List Char)
  | [] => some rest
  | e :: es => do
    let offset := max position (min e.offset size)
    let (before, after) ← cut? rest (offset - position)
    let tail ← applyFrom size offset after es
    return before ++ e.text.toList ++ tail

/-- A source with edits applied; none if an offset lies inside a character. -/
def applyEdits (source : List Char) (edits : List Edit) : Option (List Char) :=
  applyFrom (byteSize source) 0 source (inOrder edits)

theorem applyEdits_nil (source : List Char) : applyEdits source [] = some source := by
  simp [applyEdits, inOrder, applyFrom]

/-! ## The edits of a unit -/

/-- What is to change in one compilation unit. -/
structure UnitEdits where
  edits : List Edit := []
  /-- The qualified names to import, in order of first use. -/
  imports : List String := []
  /-- Whether types are referred to by their simple name and imported. -/
  autoImports : Bool := false
deriving DecidableEq, Repr, Inhabited

namespace UnitEdits

def insert (u : UnitEdits) (offset : Nat) (text : String) : UnitEdits :=
  { u with edits := u.edits ++ [⟨offset, text⟩] }

/-- The name by which to refer to a type, and the edits with its import recorded. -/
def reference (u : UnitEdits) (name : String) : String × UnitEdits :=
  if !u.autoImports then (name, u)
  else if u.imports.contains name then (simpleName name, u)
  else (simpleName name, { u with imports := u.imports ++ [name] })

def isEmpty (u : UnitEdits) : Bool := u.edits.isEmpty && u.imports.isEmpty

def clear (u : UnitEdits) : UnitEdits := { u with edits := [], imports := [] }

end UnitEdits

end Tracepoint.Source
