import Tracepoint.Datum
import Tracepoint.Text.Blank

/-!
# Projects and dependencies

What a build descriptor says about a project, once it has been read: its
coordinates and its dependencies, each with the scope in which it is needed.
-/

namespace Tracepoint.Maven

/-- Where a dependency is needed. -/
inductive Scope where
  | compile
  | provided
  | runtime
  | test
  | system
  | imported
deriving DecidableEq, Repr, Inhabited

namespace Scope

/-- All scopes. -/
def all : List Scope := [.compile, .provided, .runtime, .test, .system, .imported]

def name : Scope → String
  | compile => "compile"
  | provided => "provided"
  | runtime => "runtime"
  | test => "test"
  | system => "system"
  | imported => "import"

/-- The scope of a name. -/
def ofName? (name : String) : Option Scope := all.find? (·.name = name)

/-- The scope that a text names, whatever its case and the blanks around it. -/
def parse? (text : String) : Option Scope := ofName? (Text.trimmed text).toLower

/-- Whether dependencies of a scope are visible when main sources are compiled. -/
def isCompiled : Scope → Bool
  | compile | provided | system => true
  | _ => false

end Scope

structure Dependency where
  groupId : String
  artifactId : String
  version : Option String := none
  scope : Scope := .compile
  isOptional : Bool := false
  /-- Where the archive of a dependency of the system scope lies. -/
  systemPath : Option Path := none
deriving DecidableEq, Repr, Inhabited

/-- Group, artifact and version. -/
def Dependency.coordinates (d : Dependency) : String :=
  s!"{d.groupId}:{d.artifactId}:" ++ d.version.getD "?"

structure Project where
  groupId : Option String := none
  artifactId : String
  version : Option String := none
  manifestPath : Path
  dependencies : List Dependency := []
deriving DecidableEq, Repr, Inhabited

/-- The dependencies needed to compile the main sources, optional ones included. -/
def Project.compileDependencies (p : Project) : List Dependency :=
  p.dependencies.filter (·.scope.isCompiled)

/-! ## From data -/

/-- A scope by its exact name, or as the only field of a record, without a value. -/
def Scope.decode : Decoder Scope
  | .text name => ofName? name
  | .record [(name, .null)] => ofName? name
  | _ => none

def Dependency.decode : Decoder Dependency := fun d => do
  let names := ["group_id", "artifact_id", "version", "scope", "optional", "system_path"]
  let f ← Fields.of? names true d
  return {
    groupId := ← f.required "group_id" Decoder.text
    artifactId := ← f.required "artifact_id" Decoder.text
    version := ← f.optional "version" Decoder.text
    scope := ← f.required "scope" Scope.decode
    isOptional := ← f.required "optional" Decoder.boolean
    systemPath := ← f.optional "system_path" Decoder.path }

def Project.decode : Decoder Project := fun d => do
  let names := ["group_id", "artifact_id", "version", "manifest_path", "dependencies"]
  let f ← Fields.of? names true d
  return {
    groupId := ← f.optional "group_id" Decoder.text
    artifactId := ← f.required "artifact_id" Decoder.text
    version := ← f.optional "version" Decoder.text
    manifestPath := ← f.required "manifest_path" Decoder.path
    dependencies := ← f.required "dependencies" (Decoder.list Dependency.decode) }

end Tracepoint.Maven
