import Tracepoint.Java.Tree
import Tracepoint.Path

/-!
# Languages

A language says which files it takes, which constructs need a minimum language
level, and which packages come with the platform. A language may parse files
without being able to outline them, that is, to find their packages, imports,
types and methods.

A registry finds languages by name and by file extension. Of two languages that
take one extension, the one registered later gets it.
-/

namespace Tracepoint

open Java

/-- A construct that needs a minimum language level. -/
structure Feature where
  kind : Kind
  label : String
  level : Nat
deriving DecidableEq, Repr, Inhabited

structure Language where
  name : String
  extensions : List String
  features : List Feature := []
  /-- How the names of platform packages start. -/
  platformPackages : List String := []
  /-- Whether packages, imports, types and methods can be found in a parsed file. -/
  outlines : Bool := false
deriving DecidableEq, Repr, Inhabited

/-- The Java language. -/
def Language.java : Language where
  name := "java"
  extensions := ["java"]
  features := [
    ⟨.lambda, "lambda expression", 8⟩,
    ⟨.methodReference, "method reference", 8⟩,
    ⟨.recordDeclaration, "record declaration", 16⟩]
  platformPackages :=
    ["java.", "javax.", "jdk.", "sun.", "com.sun.", "org.w3c.dom", "org.xml.sax"]
  outlines := true

/-- Languages by name, and names by extension. -/
structure Registry where
  languages : List Language
  extensions : List (String × String)
deriving Repr, Inhabited

namespace Registry

/-- Adds a language. It replaces one of the same name and takes over its extensions. -/
def register (r : Registry) (l : Language) : Registry where
  languages := r.languages.filter (·.name ≠ l.name) ++ [l]
  extensions := r.extensions.filter (fun e => !l.extensions.contains e.1) ++
    l.extensions.map (·, l.name)

/-- The registry that knows Java alone. -/
def standard : Registry := register ⟨[], []⟩ .java

def byName? (r : Registry) (name : String) : Option Language :=
  r.languages.find? (·.name = name)

def byExtension? (r : Registry) (ext : String) : Option Language := do
  r.byName? (← r.extensions.lookup ext)

def forFile? (r : Registry) (p : Path) : Option Language := do
  r.byExtension? (← p.extension?)

/-- Whether files of this name can be parsed. -/
def supports (r : Registry) (p : Path) : Bool := (r.forFile? p).isSome

end Registry

end Tracepoint
