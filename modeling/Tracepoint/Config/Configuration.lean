import Tracepoint.Config.Logger
import Tracepoint.Detect.Catalog
import Tracepoint.Text.Quoted
import Tracepoint.Toml.Document

/-!
# Configurations

A configuration says which detectors run over which sources, which listeners get
which events, and which files the logger needs. It is read from TOML and checked:
every kind of event that is routed must be one that a detector emits.
-/

namespace Tracepoint.Config

open Detect Text

/-- Where sources lie in a project, unless configured otherwise. -/
def defaultSourceDir : Path := ⟨"src/main/java"⟩

structure Configuration where
  description : String := ""
  sourceDir : Path := defaultSourceDir
  detectors : List MethodDetector := []
  routes : ListenerTable := {}
  loggerFiles : List LoggerFile := []
  loggerProperties : Option LoggerProperties := none
deriving Inhabited

namespace Configuration

/-- The kinds of events that some detector emits. -/
def emitted (c : Configuration) : List String := c.detectors.flatMap (·.emits)

/-- Fails at the first routed kind of event that no detector emits. -/
def check (c : Configuration) : Except Error Configuration :=
  match c.routes.kinds.find? (!c.emitted.contains ·) with
  | some kind => .error (.config (.unknownEvent kind (closest? kind c.emitted)))
  | none => .ok c

end Configuration

/-! ## Files -/

/-- A detector or listener as it is configured: its name and its parameters. -/
structure Component where
  name : String
  params : Toml.Table
deriving Repr, Inhabited

/-- A listener with the kinds of events that are routed to it. -/
structure Route where
  events : List String
  listener : Component
deriving Repr, Inhabited

/-- A configuration file. -/
structure File where
  description : String
  sourceDir : Option Path
  detectors : List Component
  routes : List Route
  loggerFiles : List LoggerFile
  loggerProperties : Option LoggerProperties
deriving Repr, Inhabited

/-- The component in a table, without the given keys among its parameters. -/
def readComponent (reserved : List String) (v : Toml.Value) : Option Component := do
  let table ← v.table?
  let name ← (← table.lookup "type").text?
  return ⟨name, table.filter fun e => e.1 ≠ "type" && !reserved.contains e.1⟩

/-- One kind of event, or a list of them. -/
def readEvents (v : Toml.Value) : Option (List String) :=
  match v with
  | .text event => some [event]
  | .array events => events.mapM (·.text?)
  | _ => none

def readRoute (v : Toml.Value) : Option Route := do
  let table ← v.table?
  return ⟨← readEvents (← table.lookup "event"), ← readComponent ["event"] v⟩

/-- The values of an array that may be left out. -/
def readArray {α : Type} (table : Toml.Table) (key : String) (read : Toml.Value → Option α) :
    Option (List α) :=
  match table.lookup key with
  | none => some []
  | some v => do (← v.array?).mapM read

/-- The file in a table; none if a value has the wrong shape. -/
def readFile? (table : Toml.Table) : Option File := do
  let fields : Fields := ⟨Datum.ofTomlTable table, false⟩
  return {
    description := ← fields.orDefault "description" Decoder.text ""
    sourceDir := ← fields.optional "source_dir" Decoder.path
    detectors := ← readArray table "detectors" (readComponent [])
    routes := ← readArray table "listeners" readRoute
    loggerFiles := ← fields.orDefault "logger_files" (Decoder.list (LoggerFile.decode false)) []
    loggerProperties := ← fields.optional "logger_properties" (LoggerProperties.decode false) }

/-- Routes the events of one listener. -/
def addRoute (table : ListenerTable) (l : Listener) (events : List String) : ListenerTable :=
  events.foldl (fun t event => (t.add event l).2) table

/-- Creates the listeners of routes, the first with a given handle, and routes their events. -/
def addRoutes (catalog : Catalog) :
    Nat → ListenerTable → List Route → Except Error ListenerTable
  | _, table, [] => .ok table
  | handle, table, r :: rs => do
    let logger ← catalog.createListener r.listener.name r.listener.params
    addRoutes catalog (handle + 1) (addRoute table ⟨handle, logger⟩ r.events) rs

namespace Configuration

/-- The configuration that a file describes. Sources of logger files are relative to a
    directory. -/
def ofFile (file : File) (base : Path) (catalog : Catalog) : Except Error Configuration := do
  let detectors ← file.detectors.mapM fun c => catalog.createDetector c.name c.params
  let routes ← addRoutes catalog 0 {} file.routes
  check {
    description := file.description
    sourceDir := file.sourceDir.getD defaultSourceDir
    detectors := detectors
    routes := routes
    loggerFiles := file.loggerFiles.map fun f => { f with source := base.join f.source }
    loggerProperties := file.loggerProperties }

/-- Reads a configuration from text. -/
def parse (content : String) (base : Path) (catalog : Catalog) : Except Error Configuration :=
  match Toml.parse? content.toList with
  | none => .error (.toml "malformed document")
  | some table =>
    match readFile? table with
    | none => .error (.toml "value of the wrong shape")
    | some file => ofFile file base catalog

/-- Reads a configuration file. -/
def load (path : Path) (catalog : Catalog) : Action Configuration := do
  let content ← Action.readText path
  match parse content (path.parent?.getD ⟨"."⟩) catalog with
  | .ok c => return c
  | .error e => throw e

/-- A description on one line. -/
def summary (c : Configuration) : String :=
  let names := String.intercalate ", " (c.detectors.map fun _ => quoted MethodDetector.name)
  let file (f : LoggerFile) :=
    s!"LoggerFile \x7b source: {quoted f.source.text}, target: {quoted f.target.text} \x7d"
  let files := String.intercalate ", " (c.loggerFiles.map file)
  s!"Configuration \x7b description: {quoted c.description}, " ++
    s!"source_dir: {quoted c.sourceDir.text}, detectors: [{names}], " ++
    s!"routes: {c.routes.size}, logger_files: [{files}] \x7d"

end Configuration

end Tracepoint.Config
