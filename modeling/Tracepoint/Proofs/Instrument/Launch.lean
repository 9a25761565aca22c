import Tracepoint.Instrument.Injection
import Tracepoint.Proofs.Instrument.Pass
import Tracepoint.Proofs.Model.Build

/-!
# Launches

A launch builds the model of one source unit, lets the detectors process it and prints
what they leave, if they found anything.

Results:

* `inject_of_error`, `inject_of_ok`: an injection up to its printing.
* `Launch.exists_finish`: all that a launch does to the disk is to print its units.
* `Launch.exists_units`: a launch adds the keys of some units and prints no others.
-/

namespace Tracepoint.Instrument

open Config Detect Model Source

/-! ## The steps of an injection -/

/-- The instrumenter after it was asked for a model. -/
def Instrumenter.asked (i : Instrumenter) (units : List SourceUnit) (settings : Settings)
    (result : Except Error Model) : Instrumenter :=
  { i with requests := i.requests ++ [⟨units, settings, result.toOption.map (·.size)⟩] }

theorem requestModel_apply (units : List SourceUnit) (settings : Settings)
    (s : Instrumenter × World) :
    requestModel units settings s = ((Model.build units settings s.2).1,
      (s.1.asked units settings (Model.build units settings s.2).1,
        (Model.build units settings s.2).2)) := by
  show Job.act (settled (Model.build units settings s.2).1) (_, _) = _
  rw [Job.act_apply, settled_apply]
  rfl

/-- The instrumenter after its detectors processed some units. -/
def Instrumenter.passed (i : Instrumenter) (us : List CompilationUnit) : Instrumenter :=
  { i.setDetectors (i.config.detectors.map (counted us)) with
    ids := i.ids.addKeys (keysIn i.config.detectors us) }

theorem processModel_ofUnits {i : Instrumenter} (hi : i.source = .instrumenter) (auto : Bool)
    {us : List CompilationUnit} (hus : ∀ u ∈ us, u.Fits) (w : World) :
    processModel (ofUnits us auto) (i, w) =
      (.ok ⟨us.map fun u => (u, editsFor i.config.detectors auto (i.passed us).ids u)⟩,
        (i.passed us, w)) := by
  have hids : i.detectorIds = some i.ids := by rw [Instrumenter.detectorIds, hi]
  rw [processModel, Effect.bind_of_ok (Job.instrumenter_apply _)]
  simp only [hids, processUnits_ofUnits auto us hus]
  rw [Effect.bind_of_ok (Job.change_apply _ _)]
  simp [Instrumenter.setDetectorIds, Instrumenter.setDetectors, hi, Effect.pure_apply,
    Instrumenter.passed]

/-- The options are the same, and so are the configurations except for their detectors. -/
structure SameSetup (i i' : Instrumenter) : Prop where
  options : i'.options = i.options
  config : { i'.config with detectors := [] } = { i.config with detectors := [] }

instance : Std.Refl SameSetup := ⟨fun _ => ⟨rfl, rfl⟩⟩

instance : IsTrans Instrumenter SameSetup where
  trans := fun _ _ _ h h' => ⟨h'.options.trans h.options, h'.config.trans h.config⟩

namespace SameSetup

variable {i i' : Instrumenter}

theorem sourceDir (h : SameSetup i i') : i'.config.sourceDir = i.config.sourceDir := by
  have hdir := congrArg Configuration.sourceDir h.config
  exact hdir

theorem sourceOutput (h : SameSetup i i') : i'.sourceOutput = i.sourceOutput := by
  rw [Instrumenter.sourceOutput, h.options, h.sourceDir, Instrumenter.sourceOutput]

end SameSetup

/-! ## Launches -/

/-- An injection into one source unit, and where it starts. -/
structure Launch where
  source : SourceUnit
  mode : Mode
  start : Instrumenter × World

namespace Launch

variable (l : Launch)

/-- Builds the model and lets the detectors process it. -/
def process : Job Model := do
  processModel (← requestModel [l.source] (l.start.1.settings l.mode))

/-- The units that a launch prints, with their edits. -/
def printed : List (CompilationUnit × UnitEdits) :=
  match l.process l.start with
  | (.ok m, (i, _)) => if detectedCount i.config.detectors > 0 then m.units else []
  | (.error _, _) => []

/-- What printing them comes to. -/
def printing : Except Error Nat × World :=
  Model.print l.start.1.sourceOutput ⟨l.printed⟩ (l.process l.start).2.2

/-- The state that a launch ends in. -/
def finish : Instrumenter × World := (launch [l.source] l.mode l.start).2

theorem sameSetup_setDetectorIds (i : Instrumenter) (ds : List MethodDetector) (ids : IdMap) :
    SameSetup i ((i.setDetectors ds).setDetectorIds ids) := by
  unfold Instrumenter.setDetectorIds
  split <;> exact ⟨rfl, rfl⟩

theorem sameSetup_processModel (m : Model) : Job.Keeps SameSetup (processModel m) := by
  refine Job.Keeps.bind Job.Keeps.instrumenter fun i => ?_
  refine Job.Keeps.bind (Job.Keeps.change fun j => ?_) fun _ => ?_
  · dsimp only
    cases (processUnits m.units ⟨i.config.detectors, i.detectorIds, none⟩).1.ids with
    | none => exact ⟨rfl, rfl⟩
    | some ids => exact sameSetup_setDetectorIds j _ ids
  · cases (processUnits m.units ⟨i.config.detectors, i.detectorIds, none⟩).1.failure with
    | none => exact Job.Keeps.pure _
    | some e => exact Job.Keeps.throw e

theorem sameSetup_process : SameSetup l.start.1 (l.process l.start).2.1 := by
  have hrequest : Job.Keeps SameSetup (requestModel [l.source] (l.start.1.settings l.mode)) :=
    fun s => by rw [requestModel_apply]; exact ⟨rfl, rfl⟩
  exact (hrequest.bind sameSetup_processModel) l.start

/-- Prints a model if anything was found. -/
def printFound (i : Instrumenter) (m : Model) : Job Nat :=
  if detectedCount i.config.detectors > 0 then Job.act (Model.print i.sourceOutput m) else pure 0

theorem inject_eq_bind : inject [l.source] l.mode l.start = (do
    let m ← l.process
    let i ← Job.instrumenter
    let written ← printFound i m
    let detected := detectedCount i.config.detectors
    Job.act (Action.debug s!"{m.size} units, {detected} detected, {written} written")
    return (⟨m.size, detected, written⟩ : Injection) : Job Injection) l.start := by
  rw [inject, Effect.bind_of_ok (Job.instrumenter_apply _), process]
  simp only [bind_assoc]
  refine congrFun (congrArg _ (funext fun m => congrArg _ (funext fun m => congrArg _
    (funext fun i => ?_)))) _
  unfold printFound
  split_ifs <;> rfl

theorem inject_of_error {e : Error} {s : Instrumenter × World}
    (h : l.process l.start = (.error e, s)) :
    inject [l.source] l.mode l.start = (.error e, s) := by
  rw [inject_eq_bind, Effect.bind_of_error h]

/-- An injection that gets as far as printing does nothing but print its units. -/
theorem inject_of_ok {m : Model} {i : Instrumenter} {w : World}
    (h : l.process l.start = (.ok m, (i, w))) :
    ∃ lines, inject [l.source] l.mode l.start =
      (l.printing.1.map fun n => ⟨m.size, detectedCount i.config.detectors, n⟩,
        (i, l.printing.2.logged lines)) := by
  have hout : i.sourceOutput = l.start.1.sourceOutput := by
    have hsetup := l.sameSetup_process
    rw [h] at hsetup
    exact hsetup.sourceOutput
  have hprint : printFound i m (i, w) = (l.printing.1, (i, l.printing.2)) := by
    unfold printFound printing printed
    simp only [h, ← hout]
    split_ifs <;> rfl
  rw [inject_eq_bind, Effect.bind_of_ok h, Effect.bind_of_ok (Job.instrumenter_apply _)]
  rcases hp : l.printing with ⟨e | n, w'⟩
  · rw [hp] at hprint
    exact ⟨[], by rw [Effect.bind_of_error hprint, World.logged_nil]; rfl⟩
  · rw [hp] at hprint
    refine ⟨[⟨.debug, s!"{m.size} units, {detectedCount i.config.detectors} detected, {n} written"⟩],
      ?_⟩
    rw [Effect.bind_of_ok hprint]
    rfl

end Launch

/-- The instrumenter after a launch into a source unit. -/
def Instrumenter.settledAt (i : Instrumenter) (path : Path) (succeeded : Bool) : Instrumenter :=
  { i.resetDetectors with
    failed := if succeeded then i.failed.erase path else i.failed.insert path }

theorem launch_apply (source : SourceUnit) (mode : Mode) (s : Instrumenter × World) :
    ∃ lines, launch [source] mode s = ((inject [source] mode s).1,
      ((inject [source] mode s).2.1.settledAt source.path (inject [source] mode s).1.isOk,
        (inject [source] mode s).2.2.logged lines)) := by
  rw [launch, Effect.bind_of_ok (Job.attempt_apply _ _), Effect.bind_of_ok (Job.change_apply _ _)]
  rcases inject [source] mode s with ⟨e | n, i, w⟩
  · exact ⟨[⟨.warn, s!"Failed to instrument {source.path.text}: {e.message}"⟩], rfl⟩
  · exact ⟨[], by rw [World.logged_nil]; rfl⟩

namespace Launch

variable (l : Launch)

/-- Building the model of a launch. -/
def building : Except Error Model × World :=
  Model.build [l.source] (l.start.1.settings l.mode) l.start.2

theorem process_of_error {e : Error} {w : World} (h : l.building = (.error e, w)) :
    l.process l.start =
      (.error e, (l.start.1.asked [l.source] (l.start.1.settings l.mode) (.error e), w)) := by
  have hrequest := requestModel_apply [l.source] (l.start.1.settings l.mode) l.start
  rw [show Model.build [l.source] (l.start.1.settings l.mode) l.start.2 = _ from h] at hrequest
  exact Effect.bind_of_error hrequest _

theorem process_of_ok (hi : l.start.1.source = .instrumenter) {auto : Bool}
    {us : List CompilationUnit} (hus : ∀ u ∈ us, u.Fits) {w : World}
    (h : l.building = (.ok (ofUnits us auto), w)) :
    let i := l.start.1.asked [l.source] (l.start.1.settings l.mode) (.ok (ofUnits us auto))
    l.process l.start =
      (.ok ⟨us.map fun u => (u, editsFor i.config.detectors auto (i.passed us).ids u)⟩,
        (i.passed us, w)) := by
  intro i
  have hrequest := requestModel_apply [l.source] (l.start.1.settings l.mode) l.start
  rw [show Model.build [l.source] (l.start.1.settings l.mode) l.start.2 = _ from h] at hrequest
  rw [process, Effect.bind_of_ok hrequest]
  exact processModel_ofUnits (i := i) hi auto hus w

/-- A launch builds the model of units that fit their texts, or none. -/
theorem building_cases :
    (∃ e w, l.building = (.error e, w)) ∨
      ∃ us w, (∀ u ∈ us, u.Fits) ∧ l.building = (.ok (ofUnits us l.start.1.options.autoImports), w) := by
  rcases hb : l.building with ⟨e | m, w⟩
  · exact .inl ⟨e, w, rfl⟩
  · obtain ⟨us, hus, rfl⟩ := build_of_ok hb
    exact .inr ⟨us, w, hus, rfl⟩

/-- Printing leaves the instrumenter as it is. -/
theorem inject_instrumenter :
    (inject [l.source] l.mode l.start).2.1 = (l.process l.start).2.1 := by
  rcases hp : l.process l.start with ⟨e | m, i, w⟩
  · rw [l.inject_of_error hp]
  · obtain ⟨lines, hinject⟩ := l.inject_of_ok hp
    rw [hinject]

theorem finish_instrumenter : ∃ succeeded,
    l.finish.1 = (l.process l.start).2.1.settledAt l.source.path succeeded := by
  obtain ⟨lines, h⟩ := launch_apply l.source l.mode l.start
  exact ⟨_, by rw [finish, h, inject_instrumenter]⟩

theorem sameSetup_settledAt (i : Instrumenter) (path : Path) (succeeded : Bool) :
    SameSetup i (i.settledAt path succeeded) := ⟨rfl, rfl⟩

theorem sameSetup_finish : SameSetup l.start.1 l.finish.1 := by
  obtain ⟨succeeded, h⟩ := l.finish_instrumenter
  rw [h]
  exact IsTrans.trans _ _ _ l.sameSetup_process (sameSetup_settledAt _ _ _)

/-- A launch gives out identifiers for the keys of some units and prints nothing but these
    units, with the calls for their own elements. -/
theorem exists_units (hi : l.start.1.source = .instrumenter) :
    ∃ us : List CompilationUnit, (∀ u ∈ us, u.Fits) ∧ l.finish.1.source = .instrumenter ∧
      l.finish.1.ids = l.start.1.ids.addKeys (keysIn l.start.1.config.detectors us) ∧
      ∀ x ∈ l.printed, ∃ u ∈ us, x = (u, editsFor l.start.1.config.detectors
        l.start.1.options.autoImports l.finish.1.ids u) := by
  obtain ⟨succeeded, hfinish⟩ := l.finish_instrumenter
  rcases l.building_cases with ⟨e, w, hb⟩ | ⟨us, w, hus, hb⟩
  · have hp := l.process_of_error hb
    refine ⟨[], by simp, ?_, ?_, ?_⟩
    · rw [hfinish, hp]; exact hi
    · rw [hfinish, hp]; rfl
    · intro x hx
      unfold printed at hx
      rw [hp] at hx
      simp at hx
  · have hp := l.process_of_ok hi hus hb
    refine ⟨us, hus, ?_, ?_, ?_⟩
    · rw [hfinish, hp]; exact hi
    · rw [hfinish, hp]; rfl
    · intro x hx
      unfold printed at hx
      rw [hp] at hx
      simp only at hx
      split_ifs at hx
      · obtain ⟨u, hu, rfl⟩ := List.mem_map.1 hx
        exact ⟨u, hu, by rw [hfinish, hp]; rfl⟩
      · simp at hx

/-- A launch ends in the world in which printing does, except for log lines. -/
theorem exists_finish : ∃ lines, l.finish.2 = l.printing.2.logged lines := by
  obtain ⟨lines, h⟩ := launch_apply l.source l.mode l.start
  rw [finish, h]
  rcases hp : l.process l.start with ⟨e | m, i, w⟩
  · refine ⟨lines, ?_⟩
    rw [l.inject_of_error hp]
    unfold printing printed
    rw [hp]
    rfl
  · obtain ⟨lines', hinject⟩ := l.inject_of_ok hp
    exact ⟨lines' ++ lines, by rw [hinject, World.logged_logged]⟩

/-- Processing a model leaves the world as building it does. -/
theorem world_process : (l.process l.start).2.2 = l.building.2 := by
  have hrequest := requestModel_apply [l.source] (l.start.1.settings l.mode) l.start
  have hprocess : ∀ m s, (processModel m s).2.2 = s.2 := by
    intro m s
    rw [processModel, Effect.bind_of_ok (Job.instrumenter_apply _)]
    simp only
    rw [Effect.bind_of_ok (Job.change_apply _ _)]
    cases (processUnits m.units ⟨s.1.config.detectors, s.1.detectorIds, none⟩).1.failure <;> rfl
  unfold building
  rcases hb : Model.build [l.source] (l.start.1.settings l.mode) l.start.2 with ⟨e | m, w⟩
  · rw [hb] at hrequest
    rw [process, Effect.bind_of_error hrequest]
  · rw [hb] at hrequest
    rw [process, Effect.bind_of_ok hrequest, hprocess]

end Launch

end Tracepoint.Instrument
