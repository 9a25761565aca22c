import Tracepoint.Config.Configuration
import Tracepoint.Instrument.Options
import Tracepoint.Maven.Resolver
import Tracepoint.Model.Print
import Tracepoint.PathSet

/-!
# Instrumenters

An instrumenter holds what stays from one run to the next: the identifiers, the
files that failed, the index of the classpath, and whether the output is
prepared. A step of a run is a `Job`: it reads and changes an instrumenter and the
world around it. When a job fails, what it did before stays done.
-/

namespace Tracepoint.Instrument

open Config Detect Model Source

/-- Where detectors get identifiers from. -/
inductive IdSource where
  /-- They were never given any. -/
  | none
  /-- From the instrumenter. -/
  | instrumenter
  /-- From an instrumenter that is no longer in use. -/
  | former (ids : IdMap)
deriving Inhabited

/-- A model that was asked for, and how many units were built. -/
structure Request where
  units : List SourceUnit
  settings : Settings
  built : Option Nat
deriving Inhabited

structure Instrumenter where
  options : Options
  config : Configuration
  resolver : Maven.Resolver
  ids : IdMap := ⟨{}, []⟩
  /-- Where the detectors of the configuration get identifiers from. -/
  source : IdSource := .none
  /-- What failed when it was last tried. -/
  failed : PathSet := {}
  classpath : ClasspathIndex := {}
  /-- Whether the output directory is prepared. -/
  prepared : Bool := false
  /-- All models that were asked for, oldest first. -/
  requests : List Request := []

namespace Instrumenter

/-- A fresh instrumenter. The resolver looks in the repository of the options, or else in the
    usual one. -/
def start (options : Options) (config : Configuration) : Action Instrumenter := do
  let repository ← match options.mavenRepo with
    | some repository => pure (some repository)
    | none => Maven.repository?
  return { options := options, config := config, resolver := .ofRepository repository }

/-- A fresh instrumenter for the same configuration. Detectors keep the identifiers they
    have. -/
def restart (i : Instrumenter) : Instrumenter :=
  { options := i.options, config := i.config, resolver := i.resolver, requests := i.requests
    source := match i.source with
      | .instrumenter => .former i.ids
      | source => source }

/-- The instrumenter with another configuration. -/
def configure (i : Instrumenter) (config : Configuration) : Instrumenter :=
  { i with config := config, source := .none }

/-- Forgets that the output is prepared. -/
def clean (i : Instrumenter) : Instrumenter := { i with prepared := false }

/-- Forgets all identifiers. -/
def resetIds (i : Instrumenter) : Instrumenter := { i with ids := ⟨{}, []⟩ }

/-- The identifiers that detectors use. -/
def detectorIds (i : Instrumenter) : Option IdMap :=
  match i.source with
  | .none => Option.none
  | .instrumenter => some i.ids
  | .former ids => some ids

/-- The instrumenter after detectors gave out identifiers. -/
def setDetectorIds (i : Instrumenter) (ids : IdMap) : Instrumenter :=
  match i.source with
  | .none => i
  | .instrumenter => { i with ids := ids }
  | .former _ => { i with source := .former ids }

/-- The instrumenter with other detectors. -/
def setDetectors (i : Instrumenter) (detectors : List MethodDetector) : Instrumenter :=
  { i with config := { i.config with detectors := detectors } }

/-- Adds the listeners that are routed to a kind of event. -/
def routeKind (routes : ListenerTable) (d : MethodDetector) (kind : String) : MethodDetector :=
  (routes.listenersFor kind).foldl (fun d l => d.addListener kind l) d

/-- Adds the listeners that are routed to the kinds of events that a detector emits. -/
def routeDetector (routes : ListenerTable) (d : MethodDetector) : MethodDetector :=
  d.emits.foldl (routeKind routes) d

/-- Gives detectors the identifiers of the instrumenter and their listeners. -/
def wire (i : Instrumenter) : Instrumenter :=
  { i.setDetectors (i.config.detectors.map (routeDetector i.config.routes)) with
    source := .instrumenter }

/-- How a model is built. -/
def settings (i : Instrumenter) (mode : Mode) : Settings where
  mode := mode
  classpath := i.classpath
  autoImports := i.options.autoImports
  level := i.options.complianceLevel

/-- Whether the classpath counts. -/
def usesClasspath (i : Instrumenter) : Bool := i.options.useClasspath || i.options.fileByFile

/-- Where instrumented sources are printed. -/
def sourceOutput (i : Instrumenter) : Path := i.options.outputDir.join i.config.sourceDir

end Instrumenter

/-! ## Jobs -/

/-- A step of a run. -/
abbrev Job := ExceptT Error (StateM (Instrumenter × World))

namespace Job

/-- Acts on the world alone. -/
def act {α : Type} (a : Action α) : Job α := fun (i, w) =>
  match a w with
  | (r, w') => (r, (i, w'))

def instrumenter : Job Instrumenter := do return (← get).1

/-- Changes the instrumenter alone. -/
def change (f : Instrumenter → Instrumenter) : Job Unit := modify fun (i, w) => (f i, w)

/-- The result of a job, as a value. -/
def attempt {α : Type} (j : Job α) : Job (Except Error α) := fun s =>
  match j s with
  | (r, s') => (.ok r, s')

/-- Does a job with an instrumenter that is not needed afterwards. -/
def on {α : Type} (j : Job α) (i : Instrumenter) : Action α := fun w =>
  match j (i, w) with
  | (r, (_, w')) => (r, w')

end Job

end Tracepoint.Instrument
