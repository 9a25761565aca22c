import Tracepoint.Build.Tool
import Tracepoint.Instrument.Injection
import Tracepoint.Instrument.Output

/-!
# Runs

A run prepares the output, resolves the classpath, wires detectors to listeners
and injects: into the whole source tree at once, or file by file. Files that fail
one by one with the classpath are tried again without it. At the end the id file
and the properties of the logger are written.
-/

namespace Tracepoint.Instrument

open Config Model

/-- What came of a run. -/
structure Report where
  total : Injection := {}
  /-- Files that succeeded only without the classpath. -/
  retried : List Path := []
  /-- Files that failed throughout. -/
  failed : List Path := []
  idFile : Path
deriving DecidableEq, Repr, Inhabited

/-! ## The classpath -/

/-- Resolves the classpath and indexes it. -/
def resolveClasspath : Job Unit := do
  let i ← Job.instrumenter
  let descriptor := i.options.descriptorPath
  let index ← Job.act do
    if !(← Action.isFile descriptor) then
      throw (.resolution s!"Build descriptor not found: {descriptor.text}")
    let classpath ← i.resolver.classpath descriptor i.options.classpath
    Action.info s!"Resolved {classpath.size} classpath entries from {descriptor.text}"
    ClasspathIndex.build classpath
  Job.change fun i => { i with classpath := index }

/-! ## File by file -/

/-- Injects into one file. A failure is remembered and does not stop the run. -/
def launchFile (root : Path) (mode : Mode) (path : Path) : Job Injection := do
  match ← Job.attempt (launch [⟨path, root⟩] mode) with
  | .ok injection => return injection
  | .error e =>
    if mode = .lenient then Job.act (Action.warn s!"Giving up on {path.text}: {e.message}")
    return {}

/-- Injects into the files below a root that are of interest, one by one. -/
def launchFiles (root : Path) (mode : Mode) (wanted : Path → Bool) : Job Injection := do
  let files := (← Job.act (sourceFiles .standard root)).filter wanted
  let injections ← files.mapM (launchFile root mode)
  return injections.foldl Injection.add {}

/-- Tries the files that failed again, without the classpath. -/
def retryFailed (root : Path) : Job Injection := do
  let retry := (← Job.instrumenter).failed
  if retry.isEmpty then return {}
  else
    Job.act (Action.info s!"Retrying {retry.size} files without classpath")
    launchFiles root .lenient retry.contains

/-- Injects into the files below a root one by one, and says which files were tried again with
    success. -/
def injectEach (root : Path) (mode : Mode) : Job (Injection × List Path) := do
  Job.act (Action.info s!"Instrumenting {root.text} file by file")
  let first ← launchFiles root mode fun _ => true
  let retry := (← Job.instrumenter).failed
  let second ← retryFailed root
  let failed := (← Job.instrumenter).failed
  return (first.add second, (retry.difference failed).paths)

/-- Injects into all files below a root at once. -/
def injectAll (root : Path) (mode : Mode) : Job (Injection × List Path) := do
  Job.act (Action.info s!"Instrumenting {root.text}")
  return (← launch [.tree root] mode, [])

/-! ## Runs -/

/-- Prepares, resolves and wires, and gives the absolute source root. -/
def prepareRun : Job Path := do
  Job.change fun i => { i with failed := {} }
  prepareOutput
  let i ← Job.instrumenter
  if i.usesClasspath then resolveClasspath
  let root ← Job.act (Action.absolute (i.options.sourceRoot i.config.sourceDir))
  Job.change (·.wire)
  return root

/-- Writes the id file and the properties of the logger, and gives the path of the id file. -/
def finishRun : Job Path := do
  let i ← Job.instrumenter
  let idFile ← writeIdFile i.options.idFile
  match i.config.loggerProperties with
  | some p =>
    let _ ← writeLoggerProperties p
    return idFile
  | none => return idFile

/-- Instruments a project. -/
def run : Job Report := do
  let root ← prepareRun
  let i ← Job.instrumenter
  let mode := if i.usesClasspath then Mode.strict else .lenient
  let (total, retried) ← if i.options.fileByFile then injectEach root mode else injectAll root mode
  let failed := (← Job.instrumenter).failed.paths
  let idFile ← finishRun
  let found := s!"{total.units} units: {total.detected} elements detected"
  Job.act (Action.info
    s!"Instrumented {found}, {total.written} files written, {failed.length} failed")
  return ⟨total, retried, failed, idFile⟩

/-! ## Building the output -/

/-- The build tool of some options. -/
def Options.tool (o : Options) : Build.Tool where
  program := o.buildProgram
  phases := o.buildPhases
  limit := Build.limitOfSeconds o.buildTimeout
  verbose := o.verboseBuild

/-- A time in seconds with one decimal place, rounded. -/
def secondsText (milliseconds : Nat) : String :=
  let tenths := (milliseconds + 50) / 100
  s!"{tenths / 10}.{tenths % 10}s"

/-- Compiles and tests the output. -/
def runTests : Job Build.Success := do
  let o := (← Job.instrumenter).options
  match ← Job.act (Action.attempt (o.tool.run o.outputDir)) with
  | .ok success =>
    Job.act (Action.info s!"Build succeeded in {secondsText success.milliseconds}")
    return success
  | .error e =>
    Job.act (Action.warn e.message)
    throw e

end Tracepoint.Instrument
