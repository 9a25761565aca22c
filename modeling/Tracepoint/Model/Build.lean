import Tracepoint.Classpath
import Tracepoint.Model.Level
import Tracepoint.Source.Edit
import Tracepoint.Source.Unit
import Tracepoint.Walk

/-!
# Building a model

A model is the set of units parsed from some source units, each a file or a
whole tree. A file is accepted if it parses and uses no construct above the
language level. In strict mode every import must also resolve: against the
platform, the types and packages of the model, or the classpath.
-/

namespace Tracepoint

open Source

/-- Units, each with the edits recorded for it. -/
structure Model where
  units : List (CompilationUnit × UnitEdits)
deriving Inhabited

namespace Model

/-- The model of units without edits. -/
def ofUnits (units : List CompilationUnit) (autoImports : Bool) : Model :=
  ⟨units.map fun u => (u, { autoImports := autoImports })⟩

def size (m : Model) : Nat := m.units.length

/-- The names of all types declared in a model. -/
def declaredTypes (m : Model) : List String := m.units.flatMap (·.1.declaredTypes)

/-- The packages that units of a model belong to. -/
def declaredPackages (m : Model) : List String := m.units.filterMap (·.1.package)

/-! ## What a model is built from -/

/-- A file or tree to build from, and the root its paths are relative to. -/
structure SourceUnit where
  path : Path
  root : Path
deriving DecidableEq, Repr, Inhabited

/-- A whole tree. -/
def SourceUnit.tree (root : Path) : SourceUnit := ⟨root, root⟩

/-- How imports that do not resolve are treated. -/
inductive Mode where
  /-- Every import must resolve. -/
  | strict
  /-- Imports that do not resolve are tolerated. -/
  | lenient
deriving DecidableEq, Repr, Inhabited

structure Settings where
  mode : Mode
  classpath : ClasspathIndex
  autoImports : Bool
  level : Nat
deriving Repr, Inhabited

/-! ## Language levels -/

/-- Fails if a unit uses a construct above a level. -/
def checkLevel (u : CompilationUnit) (level : Nat) : Except Error Unit :=
  checkGates (u.language.features.map Gate.ofFeature) u.parsed.root.shape u.path level.toUInt32

/-! ## Imports -/

/-- Whether an import of a unit resolves in a model. -/
def resolves (m : Model) (classpath : ClasspathIndex) (u : CompilationUnit) (i : Import) : Bool :=
  u.language.platformPackages.any (fun p => Text.startsWith p.toList i.path.toList) ||
    m.declaredTypes.contains i.target || classpath.hasClass i.target ||
    (i.wildcard && !i.isStatic &&
      (m.declaredPackages.contains i.target || classpath.hasPackage i.target))

/-- The imports of a model that do not resolve, in order, with their units. -/
def unresolved (m : Model) (classpath : ClasspathIndex) : List (CompilationUnit × Import) :=
  m.units.flatMap fun (u, _) =>
    (u.imports.filter (!resolves m classpath u ·)).map (u, ·)

/-- Fails at the first import that does not resolve. -/
def checkImports (m : Model) (classpath : ClasspathIndex) : Except Error Unit :=
  match unresolved m classpath with
  | (u, i) :: _ => .error (.unresolvedImport u.path i.path)
  | [] => .ok ()

/-! ## Building -/

/-- Succeeds with a value or fails with an error. -/
def settled {α : Type} : Except Error α → Action α
  | .ok a => pure a
  | .error e => throw e

/-- Reads a file of a known language. -/
def readSource (registry : Registry) (path : Path) : Action (Language × List Char) := do
  match registry.forFile? path with
  | none => throw (.parse path 0 "unsupported source language")
  | some language => return (language, (← Action.readText path).toList)

/-- The unit in a file. -/
def parseUnit (registry : Registry) (path root : Path) (level : Nat) :
    Action CompilationUnit := do
  let (language, source) ← readSource registry path
  let u ← settled (CompilationUnit.ofSource path (Path.locate root path) language source)
  settled (checkLevel u level)
  return u

/-- The units of a source unit. -/
def parseSourceUnit (registry : Registry) (level : Nat) (s : SourceUnit) :
    Action (List CompilationUnit) := do
  (← sourceFiles registry s.path).mapM fun path => parseUnit registry path s.root level

/-- Treats the imports of a model as the mode says. -/
def settleImports (settings : Settings) (m : Model) : Action Unit := do
  match settings.mode with
  | .strict => settled (checkImports m settings.classpath)
  | .lenient =>
    for (u, i) in unresolved m settings.classpath do
      Action.debug s!"Ignoring unresolved import {i.path} at {u.path.text}:{i.line}"

/-- The model of some source units. -/
def build (units : List SourceUnit) (settings : Settings) : Action Model := do
  let parsed ← units.mapM (parseSourceUnit .standard settings.level)
  let m := Model.ofUnits parsed.flatten settings.autoImports
  settleImports settings m
  Action.debug s!"Built model with {m.size} compilation units"
  return m

end Model

end Tracepoint
