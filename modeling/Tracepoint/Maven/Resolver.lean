import Tracepoint.Classpath
import Tracepoint.Maven.Descriptor

/-!
# Resolving a classpath

A resolver reads the project that a descriptor describes and finds the archives
of its dependencies. The classpath of a project is made of those that are found
and needed to compile, in order, and of the entries given by hand.
-/

namespace Tracepoint.Maven

open Text

/-- A way to read projects and to find archives. -/
structure Resolver where
  /-- The name used in logs. -/
  name : String
  project : Path → Action Project
  locate : Dependency → Action (Option Path)

/-! ## The local repository -/

/-- The names of the files that are build descriptors. -/
def manifestNames : List String := ["pom.xml"]

/-- Whether a file is a build descriptor by its name. -/
def isManifest (p : Path) : Bool := (p.fileName?.map manifestNames.contains).getD false

/-- The local repository: where the environment says, or below the home directory. -/
def repository? : Action (Option Path) := do
  match ← Action.lookupVariable "M2_REPO" with
  | some repository => return some ⟨repository⟩
  | none =>
    match ← Action.lookupVariable "HOME" with
    | some home => return some ((⟨home⟩ : Path).join ⟨".m2/repository"⟩)
    | none => return none

/-- Where the archive of a dependency lies in a repository. -/
def archivePath (repository : Path) (d : Dependency) (version : String) : Path :=
  let group := (splitAll '.' d.groupId.toList).map String.ofList
  let file := s!"{d.artifactId}-{version}.jar"
  (group ++ [d.artifactId, version, file]).foldl (fun p part => p.join ⟨part⟩) repository

/-- A path, if there is a file. -/
def existing? (p : Path) : Action (Option Path) := do
  return if ← Action.isFile p then some p else none

/-- The archive of a dependency. -/
def findArchive (repository : Option Path) (d : Dependency) : Action (Option Path) := do
  if d.scope = .system then
    match d.systemPath with
    | some p => existing? p
    | none => return none
  else
    match d.version, repository with
    | some version, some root =>
      if hasReference version.toList || hasReference d.groupId.toList then return none
      else existing? (archivePath root d version)
    | _, _ => return none

/-- The resolver that looks in a local repository. -/
def Resolver.ofRepository (repository : Option Path) : Resolver where
  name := "maven"
  project := readProject
  locate := findArchive repository

/-- A resolver with fixed dependencies, whatever the descriptor says. -/
def Resolver.fixed (dependencies : List (Dependency × Option Path)) : Resolver where
  name := "fixed"
  project := fun path => return {
    artifactId := "fixed", manifestPath := path, dependencies := dependencies.map (·.1) }
  locate := fun d => return dependencies.lookup d |>.join

/-! ## The classpath -/

/-- Adds the archive of a dependency to a classpath, if it is found. -/
def Resolver.addDependency (r : Resolver) (c : Classpath) (d : Dependency) : Action Classpath := do
  match ← r.locate d with
  | some p => return (c.push p).2
  | none =>
    Action.warn s!"Could not locate {d.coordinates} in the local repository"
    return c

/-- The classpath of the project that a descriptor describes, with further entries. -/
def Resolver.classpath (r : Resolver) (manifest : Path) (manual : List Path) :
    Action Classpath := do
  let project ← r.project manifest
  let found ← project.compileDependencies.foldlM r.addDependency {}
  let c := manual.foldl (fun c p => (c.push p).2) found
  Action.debug s!"{r.name}: {c.size} classpath entries for {project.artifactId}"
  return c

end Tracepoint.Maven
