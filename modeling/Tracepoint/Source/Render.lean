import Tracepoint.Source.Edit
import Tracepoint.Source.Unit

/-!
# Rendering a unit

The text of a unit with its edits: first the imports that are missing, after the
package declaration or the last import, then the inserted texts.
-/

namespace Tracepoint.Source

open Text

/-- Whether an import makes a name of a package known. -/
def Import.covers (i : Import) (name package : String) : Bool :=
  !i.isStatic && ((!i.wildcard && i.path == name) || (i.wildcard && i.path == package))

namespace CompilationUnit

variable (u : CompilationUnit)

/-- Whether a qualified name has to be imported to be known by its simple name. -/
def needsImport (name : String) : Bool :=
  match packageOf? name with
  | none => false
  | some package =>
    !(package == "java.lang" || u.package == some package) &&
      !(u.imports.any (·.covers name package))

/-- The lines that import some names. -/
def importBlock (names : List String) : String :=
  String.intercalate "\n" (names.map fun name => s!"import {name};")

/-- The edit that adds imports. -/
def importEdit (names : List String) : Edit :=
  let block := importBlock names
  let text :=
    if u.importAnchor = 0 then block ++ "\n\n"
    else if u.imports.isEmpty then "\n\n" ++ block
    else "\n" ++ block
  ⟨u.importAnchor, text⟩

/-- The names that have to be imported for some edits. -/
def missingImports (edits : UnitEdits) : List String :=
  if edits.autoImports then edits.imports.filter u.needsImport else []

/-- All edits of a unit, imports first. -/
def allEdits (edits : UnitEdits) : List Edit :=
  let missing := u.missingImports edits
  (if missing.isEmpty then [] else [u.importEdit missing]) ++ edits.edits

/-- The text of a unit with its edits; none if an offset lies inside a character. -/
def render (edits : UnitEdits) : Option (List Char) :=
  applyEdits u.parsed.source (u.allEdits edits)

end CompilationUnit

end Tracepoint.Source
