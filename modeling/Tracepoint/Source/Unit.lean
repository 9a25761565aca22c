import Tracepoint.Error
import Tracepoint.Java.Parse
import Tracepoint.Language
import Tracepoint.Source.Import
import Tracepoint.Source.Naming

/-!
# Compilation units

A compilation unit is a parsed file with its package, its imports, the names of
the types it declares and the offset after which further imports can stand.
-/

namespace Tracepoint.Source

open Java Text

/-- One parsed file. -/
structure CompilationUnit where
  path : Path
  /-- The path below the source root. -/
  relativePath : Path
  language : Language
  parsed : ParsedText
  package : Option String
  imports : List Import
  /-- The qualified names of all types declared in the unit, in document order. -/
  declaredTypes : List String
  /-- The end of the package declaration or of the last import, 0 if there is neither. -/
  importAnchor : Nat
deriving Inhabited

namespace CompilationUnit

/-- The name in a package declaration. -/
def packageName? (t : ParsedText) (declaration : Node) : Option String :=
  let names := declaration.children.filter fun c => c.kind == .name || c.kind == .qualifiedName
  names.getLast?.map t.nodeText

/-- The package of a file: the last declaration counts. -/
def findPackage (t : ParsedText) : Option String :=
  let declarations := (t.root.places.map (·.node)).filter (·.kind == .packageDeclaration)
  (declarations.filterMap (packageName? t)).getLast?

/-- The imports of a file in document order. -/
def findImports (t : ParsedText) : List Import :=
  let declarations := (t.root.places.map (·.node)).filter (·.kind == .importDeclaration)
  declarations.filterMap fun n => Import.parse? (n.text t.source) (lineAt t.source n.span.start)

/-- The end of the last package or import declaration. -/
def findAnchor (t : ParsedText) : Nat :=
  let heads := (t.root.places.map (·.node)).filter fun n =>
    n.kind == .packageDeclaration || n.kind == .importDeclaration
  (heads.map (·.span.stop)).foldl max 0

/-- A name below an optional package. -/
def qualify (package : Option String) (name : String) : String :=
  match package with
  | some p => p ++ "." ++ name
  | none => name

/-- The qualified name of a type declaration. -/
def qualifiedTypeName? (t : ParsedText) (package : Option String) (p : Place) :
    Option String := do
  let name ← t.declaredName? p.node
  return qualify package (String.intercalate "." (name :: t.enclosingTypes p).reverse)

/-- The qualified names of the types declared in a file. -/
def findTypes (t : ParsedText) (package : Option String) : List String :=
  (t.root.places.filter (·.node.kind.isTypeDeclaration)).filterMap (qualifiedTypeName? t package)

/-- The unit of a parsed file. -/
def ofParsed (path relativePath : Path) (language : Language) (t : ParsedText) :
    CompilationUnit :=
  if language.outlines then
    let package := findPackage t
    ⟨path, relativePath, language, t, package, findImports t, findTypes t package, findAnchor t⟩
  else ⟨path, relativePath, language, t, none, [], [], 0⟩

/-- Parses the text of a file. -/
def ofSource (path relativePath : Path) (language : Language) (source : List Char) :
    Except Error CompilationUnit :=
  match parse source with
  | .ok root => .ok (ofParsed path relativePath language ⟨source, root⟩)
  | .error e => .error (.parse path e.line e.message)

variable (u : CompilationUnit)

/-- Whether a type with this simple name is declared at any depth. -/
def declaresSimpleName (simple : String) : Bool :=
  u.declaredTypes.any (simpleName · == simple)

/-- The methods and constructors of a unit in document order, with or without a body. -/
def callables : List Place := u.parsed.root.places.filter (·.node.kind.isCallable)

end CompilationUnit

end Tracepoint.Source
