import Tracepoint.Instrument.Instrumenter

/-!
# Injection

One injection builds a model of some source units, lets every detector process
every unit, and prints the model if anything was detected. Whatever comes of it,
the counts of the detectors are 0 afterwards, and the first unit is among the
failed ones exactly if the injection failed.
-/

namespace Tracepoint.Instrument

open Config Detect Model Source

/-- What came of an injection. -/
structure Injection where
  units : Nat := 0
  detected : Nat := 0
  /-- How many files were written. -/
  written : Nat := 0
deriving DecidableEq, Repr, Inhabited

def Injection.add (a b : Injection) : Injection :=
  ⟨a.units + b.units, a.detected + b.detected, a.written + b.written⟩

/-! ## Processing units -/

/-- Detectors and their identifiers while they process units, and the error that stopped
    them, if any. -/
structure Pass where
  detectors : List MethodDetector
  ids : Option IdMap
  failure : Option Error := none
deriving Inhabited

/-- Lets detectors process a unit one after the other. -/
def processUnit (u : CompilationUnit) :
    List MethodDetector → Option IdMap → UnitEdits → Pass × UnitEdits
  | [], ids, edits => (⟨[], ids, none⟩, edits)
  | d :: ds, ids, edits =>
    let (d', p) := d.process u ids edits
    let ids' := ids.map fun _ => p.ids
    match p.failure with
    | some e => (⟨d' :: ds, ids', some e⟩, p.edits)
    | none =>
      let (pass, edits') := processUnit u ds ids' p.edits
      ({ pass with detectors := d' :: pass.detectors }, edits')

/-- Lets detectors process units one after the other. -/
def processUnits : List (CompilationUnit × UnitEdits) → Pass →
    Pass × List (CompilationUnit × UnitEdits)
  | [], pass => (pass, [])
  | (u, edits) :: rest, pass =>
    match processUnit u pass.detectors pass.ids edits with
    | (pass', edits') =>
      match pass'.failure with
      | some _ => (pass', (u, edits') :: rest)
      | none =>
        let (last, done) := processUnits rest pass'
        (last, (u, edits') :: done)

/-! ## Injections -/

/-- Builds a model, and remembers that it was asked for. -/
def requestModel (units : List SourceUnit) (settings : Settings) : Job Model := do
  let result ← Job.act (Action.attempt (Model.build units settings))
  let built := result.toOption.map (·.size)
  Job.change fun i => { i with requests := i.requests ++ [⟨units, settings, built⟩] }
  Job.act (settled result)

/-- Lets all detectors process a model. -/
def processModel (m : Model) : Job Model := do
  let i ← Job.instrumenter
  let (pass, units) := processUnits m.units ⟨i.config.detectors, i.detectorIds, none⟩
  Job.change fun i =>
    let i := i.setDetectors pass.detectors
    match pass.ids with
    | some ids => i.setDetectorIds ids
    | none => i
  match pass.failure with
  | some e => throw e
  | none => return ⟨units⟩

/-- How many elements the detectors found. -/
def detectedCount : List MethodDetector → Nat
  | [] => 0
  | d :: ds => d.detected + detectedCount ds

/-- Builds, processes and prints, without the settlement of what failed. -/
def inject (units : List SourceUnit) (mode : Mode) : Job Injection := do
  let m ← requestModel units ((← Job.instrumenter).settings mode)
  let m ← processModel m
  let i ← Job.instrumenter
  let detected := detectedCount i.config.detectors
  let written ← if detected > 0 then Job.act (Model.print i.sourceOutput m) else pure 0
  Job.act (Action.debug s!"{m.size} units, {detected} detected, {written} written")
  return ⟨m.size, detected, written⟩

/-- Sets the counts of all detectors to 0. -/
def Instrumenter.resetDetectors (i : Instrumenter) : Instrumenter :=
  i.setDetectors (i.config.detectors.map (·.reset))

/-- Remembers what came of an injection for its first unit. -/
def settleFirst (units : List SourceUnit) (result : Except Error Injection) : Job Unit :=
  match units.head?, result with
  | none, _ => pure ()
  | some first, .ok _ => Job.change fun i => { i with failed := i.failed.erase first.path }
  | some first, .error e => do
    Job.act (Action.warn s!"Failed to instrument {first.path.text}: {e.message}")
    Job.change fun i => { i with failed := i.failed.insert first.path }

/-- Runs an injection over some units. -/
def launch (units : List SourceUnit) (mode : Mode) : Job Injection := do
  let result ← Job.attempt (inject units mode)
  Job.change (·.resetDetectors)
  settleFirst units result
  Job.act (settled result)

end Tracepoint.Instrument
