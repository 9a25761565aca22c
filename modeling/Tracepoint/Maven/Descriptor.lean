import Tracepoint.Maven.Project
import Tracepoint.Maven.Properties
import Tracepoint.World
import Tracepoint.Xml.Document

/-!
# Build descriptors

A build descriptor inherits from its parent descriptor: properties, managed
versions and scopes, and dependencies, which come before its own. After all
descriptors up the chain are read, references to properties are replaced, and
versions and scopes that a dependency leaves open are taken from those managed.
-/

namespace Tracepoint.Maven

open Text

/-- A dependency as it is written. -/
structure WrittenDependency where
  groupId : String
  artifactId : String
  version : Option String
  scope : Option String
  isOptional : Bool
  systemPath : Option String
deriving DecidableEq, Repr, Inhabited

/-- What a chain of descriptors says. -/
structure Descriptor where
  groupId : Option String := none
  artifactId : String := ""
  version : Option String := none
  properties : Properties := []
  /-- The managed dependencies, at most one for each written group and artifact. -/
  managed : List WrittenDependency := []
  dependencies : List WrittenDependency := []
deriving DecidableEq, Repr, Inhabited

/-! ## Reading one document -/

/-- The text of a child element without blanks around it, if there is any. -/
def childText? (n : Xml.Node) (name : String) : Option String := do
  let content := trim (← (← n.child? name).leadingText?)
  if content.isEmpty then none else some (String.ofList content)

def readDependency (n : Xml.Node) : WrittenDependency where
  groupId := (childText? n "groupId").getD ""
  artifactId := (childText? n "artifactId").getD ""
  version := childText? n "version"
  scope := childText? n "scope"
  isOptional := childText? n "optional" == some "true"
  systemPath := childText? n "systemPath"

/-- The dependencies listed in an element. -/
def readDependencies (n : Option Xml.Node) : List WrittenDependency :=
  let children := (n.map (·.children)).getD []
  (children.filter (·.name? = some "dependency")).map readDependency

/-- Managed dependencies with one added. It replaces one of the same written coordinates. -/
def manage (managed : List WrittenDependency) (d : WrittenDependency) : List WrittenDependency :=
  managed.filter (fun m => m.groupId ≠ d.groupId || m.artifactId ≠ d.artifactId) ++ [d]

/-- The properties that a document defines, in order. -/
def readProperties (root : Xml.Node) : Properties :=
  let children := ((root.child? "properties").map (·.children)).getD []
  children.filterMap fun n =>
    n.name?.map fun name => (name, String.ofList (trim (n.leadingText?.getD [])))

/-- What a descriptor says about its parent, as properties. -/
def parentProperties (parent : Option Xml.Node) : Properties :=
  [("groupId", "project.parent.groupId"), ("version", "project.parent.version")].filterMap
    fun (name, key) => do return (key, ← childText? (← parent) name)

/-- Adds a document to what the descriptors above it say. -/
def Descriptor.extend (above : Descriptor) (root : Xml.Node) : Descriptor :=
  let parent := root.child? "parent"
  let own (name : String) : Option String :=
    (childText? root name).orElse fun _ => parent.bind (childText? · name)
  let groupId := (own "groupId").orElse fun _ => above.groupId
  let artifactId := (childText? root "artifactId").getD ""
  let version := (own "version").orElse fun _ => above.version
  let builtins : Properties :=
    (groupId.map ("project.groupId", ·)).toList ++ [("project.artifactId", artifactId)] ++
      (version.map ("project.version", ·)).toList
  let defined := parentProperties parent ++ readProperties root ++ builtins
  let management := (root.child? "dependencyManagement").bind (·.child? "dependencies")
  { groupId := groupId
    artifactId := artifactId
    version := version
    properties := defined.foldl (fun ps p => ps.put p.1 p.2) above.properties
    managed := (readDependencies management).foldl manage above.managed
    dependencies := above.dependencies ++ readDependencies (root.child? "dependencies") }

/-! ## Reading a chain of documents -/

/-- The root element of the descriptor in a file. -/
def readDocument (path : Path) : Action Xml.Node := do
  match ← Action.attempt (Action.readText path) with
  | .error (.io fault) => throw (.resolution s!"Cannot read {path.text}: {fault.message}")
  | .error e => throw e
  | .ok text =>
    match Xml.parse? text.toList with
    | none => throw (.descriptor path .malformed)
    | some root =>
      let name := root.name?.getD ""
      if name = "project" then return root else throw (.descriptor path (.wrongRoot name))

/-- Where the parent of a descriptor lies. -/
def parentPath (path : Path) (parent : Xml.Node) : Action Path := do
  let written := (childText? parent "relativePath").getD "../pom.xml"
  let directory := path.parent?.getD ⟨"."⟩
  let p := directory.join ⟨written⟩
  if ← Action.isDirectory p then return p.join ⟨"pom.xml"⟩ else return p

/-- The most parents that are followed. -/
def maxParents : Nat := 8

/-- Reads a descriptor and at most `parents` descriptors above it. -/
def readChain : Nat → Path → Action Descriptor
  | 0, path => return ({} : Descriptor).extend (← readDocument path)
  | parents + 1, path => do
    let root ← readDocument path
    match root.child? "parent" with
    | some parent =>
      let p ← parentPath path parent
      if ← Action.isFile p then
        let above ← readChain parents p
        return above.extend root
      else
        Action.debug s!"Parent descriptor {p.text} not found"
        return ({} : Descriptor).extend root
    | none => return ({} : Descriptor).extend root

/-! ## The project -/

/-- The managed dependency with given coordinates, after `expand`. The last one counts. -/
def managedFor? (expand : String → String) (managed : List WrittenDependency)
    (groupId artifactId : String) : Option WrittenDependency :=
  managed.reverse.find? fun m => expand m.groupId = groupId && expand m.artifactId = artifactId

/-- A dependency with references replaced and what is managed filled in. -/
def settleDependency (expand : String → String) (managed : List WrittenDependency)
    (d : WrittenDependency) : Dependency :=
  let groupId := expand d.groupId
  let artifactId := expand d.artifactId
  let m := managedFor? expand managed groupId artifactId
  let version := d.version.orElse fun _ => m.bind (·.version)
  let scope := d.scope.orElse fun _ => m.bind (·.scope)
  { groupId := groupId
    artifactId := artifactId
    version := version.map expand
    scope := ((scope.map expand).bind Scope.parse?).getD .compile
    isOptional := d.isOptional
    systemPath := d.systemPath.map fun p => ⟨expand p⟩ }

/-- The project that a chain of descriptors describes. -/
def Descriptor.project (d : Descriptor) (environment : Properties) (path : Path) : Project :=
  let expand := interpolate d.properties environment
  { groupId := d.groupId.map expand
    artifactId := expand d.artifactId
    version := d.version.map expand
    manifestPath := path
    dependencies := d.dependencies.map (settleDependency expand d.managed) }

/-- Reads the project that a descriptor describes. -/
def readProject (path : Path) : Action Project := do
  if ← Action.isFile path then
    let d ← readChain maxParents path
    return d.project (← get).environment path
  else throw (.resolution s!"Build descriptor not found: {path.text}")

end Tracepoint.Maven
