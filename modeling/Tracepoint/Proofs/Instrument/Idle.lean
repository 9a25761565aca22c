import Tracepoint.Proofs.Instrument.Launch

/-!
# Launches of a wired instrumenter

An instrumenter whose detectors are wired to its identifiers and have counted nothing yet
is idle. A launch leaves an idle instrumenter idle: it adds the keys of the units that were
built, and remembers whether it failed, and that is all.

Results:

* `launch_of_error`, `launch_of_built`: what a launch of an idle instrumenter leaves.
-/

namespace Tracepoint.Instrument

open Config Detect Model Source

/-- The detectors get their identifiers from the instrumenter and have counted nothing. -/
structure Idle (i : Instrumenter) : Prop where
  source : i.source = .instrumenter
  counts : ∀ d ∈ i.config.detectors, d.detected = 0

theorem detected_routeKind (routes : ListenerTable) (d : MethodDetector) (kind : String) :
    (Instrumenter.routeKind routes d kind).detected = d.detected := by
  unfold Instrumenter.routeKind
  induction routes.listenersFor kind generalizing d with
  | nil => rfl
  | cons l ls ih => exact ih (d.addListener kind l)

theorem detected_routeDetector (routes : ListenerTable) (d : MethodDetector) :
    (Instrumenter.routeDetector routes d).detected = d.detected := by
  unfold Instrumenter.routeDetector
  induction d.emits generalizing d with
  | nil => rfl
  | cons kind kinds ih =>
    rw [List.foldl_cons, ih, detected_routeKind]

/-- Wiring makes an instrumenter idle whose detectors have counted nothing. -/
theorem idle_wire {i : Instrumenter} (h : ∀ d ∈ i.config.detectors, d.detected = 0) :
    Idle i.wire := by
  refine ⟨rfl, fun d hd => ?_⟩
  obtain ⟨d', hd', rfl⟩ := List.mem_map.1 (show d ∈ i.config.detectors.map _ from hd)
  rw [detected_routeDetector, h d' hd']

/-- An instrumenter with other identifiers, failures and requests. -/
def Instrumenter.leaving (i : Instrumenter) (ids : IdMap) (failed : PathSet)
    (requests : List Request) : Instrumenter :=
  { i with ids := ids, failed := failed, requests := requests }

theorem Idle.leaving {i : Instrumenter} (h : Idle i) (ids : IdMap) (failed : PathSet)
    (requests : List Request) : Idle (i.leaving ids failed requests) :=
  ⟨h.source, h.counts⟩

theorem foundIn_append (ds : List MethodDetector) (us vs : List CompilationUnit) :
    foundIn ds (us ++ vs) = foundIn ds us + foundIn ds vs := by
  simp [foundIn]

theorem keysIn_append (ds : List MethodDetector) (us vs : List CompilationUnit) :
    keysIn ds (us ++ vs) = keysIn ds us ++ keysIn ds vs := by
  simp [keysIn]

/-- Units with the edits that detectors record in them. -/
def outputsFor (ds : List MethodDetector) (auto : Bool) (ids : IdMap)
    (us : List CompilationUnit) : List (CompilationUnit × UnitEdits) :=
  us.map fun u => (u, editsFor ds auto ids u)

/-- Whether detectors report anything in a unit. -/
def reports (ds : List MethodDetector) (u : CompilationUnit) : Bool := !(elementsIn ds u).isEmpty

/-- Edits stay the same when further keys get identifiers. -/
theorem outputsFor_addKeys (ds : List MethodDetector) (auto : Bool) (ids : IdMap)
    {us vs : List CompilationUnit} (hv : ∀ v ∈ vs, v ∈ us) (keys : List String) :
    outputsFor ds auto ((ids.addKeys (keysIn ds us)).addKeys keys) vs =
      outputsFor ds auto (ids.addKeys (keysIn ds us)) vs := by
  refine List.map_congr_left fun v hvs => ?_
  rw [editsFor_of_kept auto (IdMap.kept_addKeys _ keys) fun e he => ?_]
  exact IdMap.isSome_get?_addKeys ids
    (List.mem_flatMap.2 ⟨v, hv v hvs, List.mem_map_of_mem he⟩)

theorem reset_counted (us : List CompilationUnit) {d : MethodDetector} (h : d.detected = 0) :
    (counted us d).reset = d := by
  obtain ⟨constructors, listeners, detected⟩ := d
  obtain rfl : detected = 0 := h
  rfl

theorem detectedCount_eq_zero {ds : List MethodDetector} (h : ∀ d ∈ ds, d.detected = 0) :
    detectedCount ds = 0 := by
  induction ds with
  | nil => rfl
  | cons d ds ih =>
    rw [detectedCount, h d List.mem_cons_self, ih fun d hd => h d (List.mem_cons_of_mem _ hd)]

namespace Idle

variable {i : Instrumenter}

theorem detectedCount_counted (hi : Idle i) (us : List CompilationUnit) :
    detectedCount (i.config.detectors.map (counted us)) = foundIn i.config.detectors us := by
  rw [Instrument.detectedCount_counted, detectedCount_eq_zero hi.counts, Nat.zero_add]

theorem asked (hi : Idle i) (units : List SourceUnit) (settings : Settings)
    (result : Except Error Model) : Idle (i.asked units settings result) :=
  ⟨hi.source, hi.counts⟩

theorem resetDetectors_eq (hi : Idle i) : i.resetDetectors = i := by
  have hmap : i.config.detectors.map (·.reset) = i.config.detectors := by
    conv_rhs => rw [← List.map_id i.config.detectors]
    refine List.map_congr_left fun d hd => ?_
    have hreset := reset_counted [] (hi.counts d hd)
    rwa [counted_nil] at hreset
  rw [Instrumenter.resetDetectors, hmap]
  rfl

theorem resetDetectors_passed (hi : Idle i) (us : List CompilationUnit) :
    (i.passed us).resetDetectors =
      { i with ids := i.ids.addKeys (keysIn i.config.detectors us) } := by
  have hmap : (i.config.detectors.map (counted us)).map (·.reset) = i.config.detectors := by
    rw [List.map_map]
    conv_rhs => rw [← List.map_id i.config.detectors]
    exact List.map_congr_left fun d hd => reset_counted us (hi.counts d hd)
  show Instrumenter.setDetectors _ ((i.config.detectors.map (counted us)).map (·.reset)) = _
  rw [hmap]
  rfl

theorem settledAt_passed (hi : Idle i) (us : List CompilationUnit) (path : Path)
    (succeeded : Bool) :
    (i.passed us).settledAt path succeeded =
      i.leaving (i.ids.addKeys (keysIn i.config.detectors us))
        (if succeeded then i.failed.erase path else i.failed.insert path) i.requests := by
  rw [Instrumenter.settledAt, hi.resetDetectors_passed us]
  rfl

end Idle

namespace Launch

variable (l : Launch)

theorem printed_of_error {e : Error} {w : World} (hb : l.building = (.error e, w)) :
    l.printed = [] := by
  unfold printed
  rw [l.process_of_error hb]

theorem printed_of_ok (hi : Idle l.start.1) {auto : Bool} {us : List CompilationUnit}
    (hus : ∀ u ∈ us, u.Fits) {w : World} (hb : l.building = (.ok (ofUnits us auto), w)) :
    l.printed = if 0 < foundIn l.start.1.config.detectors us
      then outputsFor l.start.1.config.detectors auto
        (l.start.1.ids.addKeys (keysIn l.start.1.config.detectors us)) us else [] := by
  unfold printed
  rw [l.process_of_ok hi.source hus hb]
  show (if detectedCount (l.start.1.config.detectors.map (counted us)) > 0 then _ else _) = _
  rw [hi.detectedCount_counted us]
  rfl

/-- A launch that cannot build its model leaves its source unit among the failed ones. -/
theorem launch_of_error (hi : Idle l.start.1) {e : Error} {w : World}
    (hb : l.building = (.error e, w)) :
    ∃ requests lines, launch [l.source] l.mode l.start = (.error e,
      (l.start.1.leaving l.start.1.ids (l.start.1.failed.insert l.source.path) requests,
        w.logged lines)) := by
  obtain ⟨lines, h⟩ := launch_apply l.source l.mode l.start
  rw [l.inject_of_error (l.process_of_error hb)] at h
  have hreset := (hi.asked [l.source] (l.start.1.settings l.mode) (.error e)).resetDetectors_eq
  exact ⟨_, lines, h.trans (by rw [Instrumenter.settledAt, hreset]; rfl)⟩

/-- A launch that can build its model leaves the keys of its units, and it counts as failed
    exactly if it cannot print them. -/
theorem launch_of_built (hi : Idle l.start.1) {auto : Bool} {us : List CompilationUnit}
    (hus : ∀ u ∈ us, u.Fits) {w : World} (hb : l.building = (.ok (ofUnits us auto), w)) :
    ∃ requests lines, launch [l.source] l.mode l.start =
      (l.printing.1.map fun n => ⟨us.length, foundIn l.start.1.config.detectors us, n⟩,
        (l.start.1.leaving (l.start.1.ids.addKeys (keysIn l.start.1.config.detectors us))
          (if l.printing.1.isOk then l.start.1.failed.erase l.source.path
            else l.start.1.failed.insert l.source.path) requests, l.printing.2.logged lines)) := by
  let i := l.start.1.asked [l.source] (l.start.1.settings l.mode) (.ok (ofUnits us auto))
  have hasked : Idle i := hi.asked _ _ _
  obtain ⟨lines', hinject⟩ := l.inject_of_ok (l.process_of_ok hi.source hus hb)
  obtain ⟨lines, h⟩ := launch_apply l.source l.mode l.start
  rw [hinject, World.logged_logged] at h
  have hok : ∀ f : Nat → Injection, (l.printing.1.map f).isOk = l.printing.1.isOk := by
    intro f
    cases l.printing.1 <;> rfl
  have hlaunch : launch [l.source] l.mode l.start =
      (l.printing.1.map fun n =>
        ⟨(us.map fun u => (u, editsFor i.config.detectors auto (i.passed us).ids u)).length,
          detectedCount (i.config.detectors.map (counted us)), n⟩,
        ((i.passed us).settledAt l.source.path (Except.isOk (l.printing.1.map _)),
          l.printing.2.logged (lines' ++ lines))) := h
  rw [hok, hasked.settledAt_passed, hasked.detectedCount_counted, List.length_map] at hlaunch
  exact ⟨i.requests, lines' ++ lines, hlaunch⟩

/-- A launch that can build and print its model leaves the keys of its units and does not count
    as failed. -/
theorem launch_of_ok (hi : Idle l.start.1) {auto : Bool} {us : List CompilationUnit}
    (hus : ∀ u ∈ us, u.Fits) {w w' : World} (hb : l.building = (.ok (ofUnits us auto), w))
    {n : Nat} (hprint : l.printing = (.ok n, w')) :
    ∃ requests lines, launch [l.source] l.mode l.start =
      (.ok ⟨us.length, foundIn l.start.1.config.detectors us, n⟩,
        (l.start.1.leaving (l.start.1.ids.addKeys (keysIn l.start.1.config.detectors us))
          (l.start.1.failed.erase l.source.path) requests, w'.logged lines)) := by
  obtain ⟨requests, lines, h⟩ := l.launch_of_built hi hus hb
  rw [hprint] at h
  exact ⟨requests, lines, h⟩

end Launch

end Tracepoint.Instrument
