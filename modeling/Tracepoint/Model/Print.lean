import Tracepoint.Model.Build
import Tracepoint.Source.Render

/-!
# Printing a model

Writes the text of every unit, with its edits, below a directory. A file that
already has this text is left alone.
-/

namespace Tracepoint.Model

open Source

/-- Where a unit is printed. -/
def outputPath (output : Path) (u : CompilationUnit) : Path := output.join u.relativePath

/-- Writes a file, unless it has this content already, and says whether it was written. -/
def writeChanged (target : Path) (content : ByteArray) : Action Bool := do
  match ← Action.attempt (Action.read target) with
  | .ok existing =>
    if existing.data = content.data then
      Action.debug s!"Unchanged output {target.text}"
      return false
    else
      Action.makeParent target
      Action.write target content
      return true
  | .error _ =>
    Action.makeParent target
    Action.write target content
    return true

/-- Prints one unit. -/
def printUnit (output : Path) (u : CompilationUnit) (edits : UnitEdits) : Action Bool := do
  match u.render edits with
  | none => throw .offBoundary
  | some text => writeChanged (outputPath output u) (String.ofList text).toUTF8

/-- Prints all units below a directory, and says how many files were written. -/
def print (output : Path) (m : Model) : Action Nat := do
  let written ← m.units.mapM fun (u, edits) => printUnit output u edits
  return written.countP id

end Tracepoint.Model
