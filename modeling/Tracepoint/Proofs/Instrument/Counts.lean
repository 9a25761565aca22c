import Tracepoint.Proofs.Instrument.FileByFile
import Tracepoint.Proofs.Reading

/-!
# What launches count

Detectors count the events that they fire, and a launch can stop after some of them have
counted some of its units. It sets all counts back whatever comes of it, so each launch
counts from 0: what it reports is the number of events that were fired for its own units. If
there were none, it leaves the disk as it is. Of the files that failed it remembers or forgets
the first that it was asked for, and no other.

Results:

* `fired`: the events that detectors fire in a launch, up to the failure that ends it.
* `detectedCount_processUnits`: detectors count what they fire.
* `launch_settles`: what one launch comes to.
* `launches_settle`: what each launch of a history comes to.
-/

namespace Tracepoint.Instrument

open Config Detect Model Source

/-! ## Events -/

/-- The events that detectors fire for a unit, up to the failure of one of them. -/
def firedIn (u : CompilationUnit) :
    List MethodDetector → Option IdMap → UnitEdits → List Event
  | [], _, _ => []
  | d :: ds, ids, edits =>
    let p := (d.process u ids edits).2
    match p.failure with
    | some _ => p.events
    | none => p.events ++ firedIn u ds (ids.map fun _ => p.ids) p.edits

/-- The events that detectors fire for some units, up to a failure. -/
def firedOver : List (CompilationUnit × UnitEdits) → Pass → List Event
  | [], _ => []
  | (u, edits) :: rest, pass =>
    let pass' := (processUnit u pass.detectors pass.ids edits).1
    let events := firedIn u pass.detectors pass.ids edits
    match pass'.failure with
    | some _ => events
    | none => events ++ firedOver rest pass'

/-- The events that detectors fire in a launch: those for the units that are built for it, and
    none if these cannot be built. -/
def fired (units : List SourceUnit) (mode : Mode) (s : Instrumenter × World) : List Event :=
  match (Model.build units (s.1.settings mode) s.2).1 with
  | .error _ => []
  | .ok m => firedOver m.units ⟨s.1.config.detectors, s.1.detectorIds, none⟩

/-! ## Counting -/

theorem detected_report (d : MethodDetector) (u : CompilationUnit) (es : List Element) :
    ∀ p : MethodDetector.Progress, (d.report u es p).detected + p.events.length =
      p.detected + (d.report u es p).events.length := by
  induction es with
  | nil => intro p; rfl
  | cons e es ih =>
    intro p
    simp only [MethodDetector.report]
    generalize (⟨e.kind, e.key, (p.ids.getOrCreate e.key).1, e.offset, e.indent, e.span⟩ :
      Event) = event
    generalize d.listeners.dispatch u event p.edits = dispatched
    obtain ⟨edits, failure | error⟩ := dispatched
    · have hrest :=
        ih ⟨p.detected + 1, (p.ids.getOrCreate e.key).2, edits, p.events ++ [event], none⟩
      simp only [List.length_append, List.length_singleton] at hrest ⊢
      omega
    · simp only [List.length_append, List.length_singleton]
      omega

/-- A detector counts the events that it fires, also if it fails. -/
theorem detected_process (d : MethodDetector) (u : CompilationUnit) (ids : Option IdMap)
    (edits : UnitEdits) : (d.process u ids edits).1.detected =
      d.detected + (d.process u ids edits).2.events.length := by
  unfold MethodDetector.process
  cases MethodDetector.obstacle? u ids with
  | some e => rfl
  | none =>
    have hreport := detected_report d u (elements u d.constructors)
      ⟨d.detected, ids.getD ⟨{}, []⟩, edits, [], none⟩
    rw [List.length_nil, Nat.add_zero] at hreport
    exact hreport

theorem detectedCount_processUnit (u : CompilationUnit) (ds : List MethodDetector) :
    ∀ ids edits, detectedCount (processUnit u ds ids edits).1.detectors =
      detectedCount ds + (firedIn u ds ids edits).length := by
  induction ds with
  | nil => intro ids edits; rfl
  | cons d ds ih =>
    intro ids edits
    have hfirst := detected_process d u ids edits
    simp only [processUnit, firedIn]
    generalize d.process u ids edits = r at hfirst ⊢
    obtain ⟨d', p⟩ := r
    cases hfailure : p.failure with
    | some e =>
      simp only [detectedCount] at hfirst ⊢
      omega
    | none =>
      have hrest := ih (ids.map fun _ => p.ids) p.edits
      simp only [detectedCount, List.length_append] at hfirst ⊢
      omega

/-- Detectors count the events that they fire, up to where one of them fails. -/
theorem detectedCount_processUnits (xs : List (CompilationUnit × UnitEdits)) :
    ∀ pass : Pass, detectedCount (processUnits xs pass).1.detectors =
      detectedCount pass.detectors + (firedOver xs pass).length := by
  induction xs with
  | nil => intro pass; rfl
  | cons x xs ih =>
    intro pass
    obtain ⟨u, edits⟩ := x
    have hunit := detectedCount_processUnit u pass.detectors pass.ids edits
    simp only [processUnits, firedOver]
    generalize processUnit u pass.detectors pass.ids edits = r at hunit ⊢
    obtain ⟨pass', edits'⟩ := r
    cases hfailure : pass'.failure with
    | some e => simpa only [hfailure] using hunit
    | none =>
      have hrest := ih pass'
      simp only [List.length_append] at hunit ⊢
      omega

/-! ## Injections -/

/-- Building a model leaves the disk as it is, whatever it is built from. -/
theorem readsOnly_build (units : List SourceUnit) (settings : Settings) :
    (Model.build units settings).ReadsOnly := by
  have hparse : ∀ path root level, (parseUnit .standard path root level).ReadsOnly := by
    intro path root level w
    rw [parseUnit_apply]
    rfl
  have hfiles : ∀ path, (sourceFiles .standard path).ReadsOnly := by
    intro path w
    obtain ⟨lines, h⟩ := exists_sourceFiles_snd .standard path w
    show (sourceFiles .standard path w).2.disk = w.disk
    rw [h, World.disk_logged]
  have himports : ∀ m, (settleImports settings m).ReadsOnly := by
    intro m w
    obtain ⟨lines, h⟩ := settleImports_apply settings m w
    show (settleImports settings m w).2.disk = w.disk
    rw [h, World.disk_logged]
  have hsource : ∀ s, (parseSourceUnit .standard settings.level s).ReadsOnly :=
    fun s => .bind (hfiles s.path) fun ps => .mapM (fun p => hparse p s.root settings.level) ps
  exact .bind (.mapM hsource units) fun parsed => .bind (himports _) fun _ =>
    .bind (.log _ _) fun _ => .pure _

/-- What detectors do to a model: the counts are theirs, and the failures that are remembered and
    the world stay as they are. -/
theorem processModel_apply (m : Model) (s : Instrumenter × World) :
    let out := processUnits m.units ⟨s.1.config.detectors, s.1.detectorIds, none⟩
    ∃ i, processModel m s =
        (out.1.failure.elim (.ok ⟨out.2⟩) .error, (i, s.2)) ∧
      i.config.detectors = out.1.detectors ∧ i.failed = s.1.failed := by
  intro out
  have hout : processUnits m.units ⟨s.1.config.detectors, s.1.detectorIds, none⟩ = out := rfl
  clear_value out
  let i := s.1.setDetectors out.1.detectors
  have hids : ∀ ids, (i.setDetectorIds ids).config.detectors = out.1.detectors ∧
      (i.setDetectorIds ids).failed = s.1.failed := by
    intro ids
    unfold Instrumenter.setDetectorIds
    split <;> exact ⟨rfl, rfl⟩
  refine ⟨out.1.ids.elim i i.setDetectorIds, ?_, ?_⟩
  · rw [processModel, Effect.bind_of_ok (Job.instrumenter_apply _)]
    simp only
    rw [Effect.bind_of_ok (Job.change_apply _ _)]
    simp only [hout]
    cases out.1.failure <;> cases out.1.ids <;> rfl
  · cases out.1.ids with
    | none => exact ⟨rfl, rfl⟩
    | some ids => exact hids ids

/-- What an injection comes to, before it is settled. -/
structure Injects (units : List SourceUnit) (mode : Mode) (s : Instrumenter × World)
    (r : Except Error Injection × (Instrumenter × World)) : Prop where
  detected : ∀ injection, r.1 = .ok injection →
    injection.detected = (fired units mode s).length
  quiet : fired units mode s = [] →
    r.2.2.disk = s.2.disk ∧ ∀ injection, r.1 = .ok injection → injection.written = 0
  failed : r.2.1.failed = s.1.failed

theorem inject_injects (units : List SourceUnit) (mode : Mode) {s : Instrumenter × World}
    (hs : ∀ d ∈ s.1.config.detectors, d.detected = 0) :
    Injects units mode s (inject units mode s) := by
  have hdisk : (Model.build units (s.1.settings mode) s.2).2.disk = s.2.disk :=
    readsOnly_build units (s.1.settings mode) s.2
  have hrequest := requestModel_apply units (s.1.settings mode) s
  rcases hb : Model.build units (s.1.settings mode) s.2 with ⟨e | m, w⟩
  all_goals rw [hb] at hdisk hrequest
  · -- nothing was built
    have hinject : inject units mode s =
        (.error e, s.1.asked units (s.1.settings mode) (.error e), w) := by
      rw [inject, Effect.bind_of_ok (Job.instrumenter_apply _), Effect.bind_of_error hrequest]
    rw [hinject]
    exact ⟨fun _ h => (by cases h), fun _ => ⟨hdisk, fun _ h => (by cases h)⟩, rfl⟩
  have hfired : fired units mode s =
      firedOver m.units ⟨s.1.config.detectors, s.1.detectorIds, none⟩ := by
    rw [fired, hb]
  have hcount := detectedCount_processUnits m.units ⟨s.1.config.detectors, s.1.detectorIds, none⟩
  rw [← hfired, detectedCount_eq_zero hs, Nat.zero_add] at hcount
  obtain ⟨i, hprocess, hdetectors, hfailed⟩ :=
    processModel_apply m (s.1.asked units (s.1.settings mode) (.ok m), w)
  replace hdetectors : i.config.detectors =
    (processUnits m.units ⟨s.1.config.detectors, s.1.detectorIds, none⟩).1.detectors := hdetectors
  rw [← hdetectors] at hcount
  rw [inject, Effect.bind_of_ok (Job.instrumenter_apply _), Effect.bind_of_ok hrequest]
  generalize Option.elim _ _ _ = result at hprocess
  cases result with
  | error e =>
    -- a detector failed, and nothing is printed
    rw [Effect.bind_of_error hprocess]
    exact ⟨fun _ h => (by cases h), fun _ => ⟨hdisk, fun _ h => (by cases h)⟩, hfailed⟩
  | ok m' =>
    rw [Effect.bind_of_ok hprocess, Effect.bind_of_ok (Job.instrumenter_apply _)]
    simp only [hcount]
    split_ifs with hpositive
    · have hfound : fired units mode s ≠ [] := List.length_pos_iff.1 hpositive
      rcases hprint : (Job.act (Model.print i.sourceOutput m') : Job Nat) (i, w) with ⟨e | n, s'⟩
      · rw [Effect.bind_of_error hprint]
        have hi := (Job.act_eq.1 hprint).1
        exact ⟨fun _ h => (by cases h), fun h => absurd h hfound, by rw [hi]; exact hfailed⟩
      · rw [Effect.bind_of_ok hprint]
        have hi := (Job.act_eq.1 hprint).1
        refine ⟨?_, fun h => absurd h hfound, ?_⟩
        · rintro injection ⟨⟩
          rfl
        · show s'.1.failed = _
          rw [hi]
          exact hfailed
    · have hnone : (fired units mode s).length = 0 := by omega
      rw [pure_bind]
      refine ⟨?_, fun _ => ⟨hdisk, ?_⟩, hfailed⟩
      · rintro injection ⟨⟩
        rfl
      · rintro injection ⟨⟩
        rfl

/-! ## Launches -/

/-- What a launch comes to. -/
structure Settles (units : List SourceUnit) (mode : Mode) (s : Instrumenter × World)
    (r : Except Error Injection × (Instrumenter × World)) : Prop where
  /-- All counts are 0 again. -/
  counts : ∀ d ∈ r.2.1.config.detectors, d.detected = 0
  /-- What it reports is what was fired for its own units. -/
  detected : ∀ injection, r.1 = .ok injection →
    injection.detected = (fired units mode s).length
  /-- If nothing was fired, nothing is written. -/
  quiet : fired units mode s = [] →
    r.2.2.disk = s.2.disk ∧ ∀ injection, r.1 = .ok injection → injection.written = 0
  /-- The first unit counts as failed exactly if the launch failed, and for all other paths what
      was remembered stays. -/
  failed : ∀ p : Path, r.2.1.failed.contains p =
    if units.head?.any (·.path.same p) then !r.1.isOk else s.1.failed.contains p

/-- Detectors whose counts are 0 have counts of 0 after a launch, and it reports what they have
    fired for its own units. -/
theorem launch_settles (units : List SourceUnit) (mode : Mode) {s : Instrumenter × World}
    (hs : ∀ d ∈ s.1.config.detectors, d.detected = 0) :
    Settles units mode s (launch units mode s) := by
  have hinject := inject_injects units mode hs
  rw [launch, Effect.bind_of_ok (Job.attempt_apply _ _), Effect.bind_of_ok (Job.change_apply _ _)]
  generalize inject units mode s = r at hinject ⊢
  obtain ⟨result, i, w⟩ := r
  obtain ⟨hdetected, hquiet, hfailed⟩ := hinject
  have hcounts : ∀ d ∈ i.resetDetectors.config.detectors, d.detected = 0 := by
    intro d hd
    obtain ⟨d', -, rfl⟩ := List.mem_map.1 (show d ∈ i.config.detectors.map (·.reset) from hd)
    rfl
  replace hfailed : i.resetDetectors.failed = s.1.failed := hfailed
  cases hhead : units.head? with
  | none =>
    have hforget : ∀ (result : Except Error Injection) (p : Path),
        i.resetDetectors.failed.contains p =
          if units.head?.any (·.path.same p) then !result.isOk else s.1.failed.contains p := by
      intro result p
      rw [hhead, hfailed]
      rfl
    cases result with
    | error e =>
      simp only [settleFirst, hhead]
      exact ⟨hcounts, hdetected, hquiet, hforget _⟩
    | ok injection =>
      simp only [settleFirst, hhead]
      exact ⟨hcounts, hdetected, hquiet, hforget _⟩
  | some first =>
    cases result with
    | error e =>
      simp only [settleFirst, hhead]
      refine ⟨hcounts, hdetected, hquiet, fun p => ?_⟩
      show (i.resetDetectors.failed.insert first.path).contains p = _
      rw [PathSet.contains_insert, hfailed, hhead, Option.any_some]
      cases first.path.same p <;> rfl
    | ok injection =>
      simp only [settleFirst, hhead]
      refine ⟨hcounts, hdetected, hquiet, fun p => ?_⟩
      show (i.resetDetectors.failed.erase first.path).contains p = _
      rw [PathSet.contains_erase, hfailed, hhead, Option.any_some]
      cases first.path.same p with
      | false => exact Bool.and_true _
      | true => exact Bool.and_false _

/-! ## Histories -/

/-- A launch that is asked for after something else may have changed the world. -/
structure Call where
  units : List SourceUnit
  mode : Mode
  elsewhere : World → World := id

namespace Call

/-- Where a call starts. -/
def start (c : Call) (s : Instrumenter × World) : Instrumenter × World := (s.1, c.elsewhere s.2)

/-- What comes of a call, and what it leaves. -/
def outcome (c : Call) (s : Instrumenter × World) :
    Except Error Injection × (Instrumenter × World) := launch c.units c.mode (c.start s)

/-- What some calls leave. -/
def leave (calls : List Call) (s : Instrumenter × World) : Instrumenter × World :=
  calls.foldl (fun s c => (c.outcome s).2) s

end Call

/-- Over a history of calls that fail or succeed, in any order, from detectors whose counts are 0:
    each call leaves all counts at 0 and reports what was fired for its own units, it leaves the
    disk as it is if that was nothing, and of its units it remembers the first as failed exactly
    if it failed. -/
theorem launches_settle (calls : List Call) (c : Call) {s : Instrumenter × World}
    (hs : ∀ d ∈ s.1.config.detectors, d.detected = 0) :
    Settles c.units c.mode (c.start (Call.leave calls s)) (c.outcome (Call.leave calls s)) := by
  have hcounts : ∀ (calls : List Call) (s : Instrumenter × World),
      (∀ d ∈ s.1.config.detectors, d.detected = 0) →
        ∀ d ∈ (Call.leave calls s).1.config.detectors, d.detected = 0 := by
    intro calls
    induction calls with
    | nil => exact fun s hs => hs
    | cons c calls ih =>
      exact fun s hs => ih _ (launch_settles c.units c.mode (s := c.start s) hs).counts
  exact launch_settles c.units c.mode (s := c.start _) (hcounts calls s hs)

/-- A call fails for a file with a syntax error, and the next one reports the one method of its own
    file. The first file is still remembered. -/
theorem launches_settle_sample :
    let s := (prepareRun (sample "src" [
      sampleFile ["p", "src", "A.java"] "class A\x7bvoid m()\x7b\x7d\x7d",
      sampleFile ["p", "src", "B.java"] "class"])).2
    let failing : Call := ⟨[⟨⟨"/p/src/B.java"⟩, ⟨"/p/src"⟩⟩], .strict, id⟩
    let c : Call := ⟨[⟨⟨"/p/src/A.java"⟩, ⟨"/p/src"⟩⟩], .strict, id⟩
    (∀ d ∈ s.1.config.detectors, d.detected = 0) ∧
    (failing.outcome s).1.isOk = false ∧
    (∃ injection, (c.outcome (Call.leave [failing] s)).1 = .ok injection ∧
      injection.detected = 1) ∧
    (∀ d ∈ (c.outcome (Call.leave [failing] s)).2.1.config.detectors, d.detected = 0) ∧
    (c.outcome (Call.leave [failing] s)).2.1.failed.contains ⟨"/p/src/B.java"⟩ = true := by
  intro s failing c
  have hs : ∀ d ∈ s.1.config.detectors, d.detected = 0 := by decide +kernel
  have hsettles := launches_settle [failing] c hs
  have hfails : (failing.outcome s).1.isOk = false := by decide +kernel
  have hok : (c.outcome (Call.leave [failing] s)).1.isOk = true := by decide +kernel
  have hfired : (fired c.units c.mode (c.start (Call.leave [failing] s))).length = 1 := by
    decide +kernel
  have hremembered :
      (c.start (Call.leave [failing] s)).1.failed.contains ⟨"/p/src/B.java"⟩ = true := by
    decide +kernel
  have hother : c.units.head?.any (·.path.same ⟨"/p/src/B.java"⟩) = false := by decide +kernel
  obtain ⟨injection, hinjection⟩ := Except.isOk_iff.1 hok
  refine ⟨hs, hfails, ⟨injection, hinjection, ?_⟩, hsettles.counts, ?_⟩
  · exact (hsettles.detected injection hinjection).trans hfired
  · rw [hsettles.failed, hother, hremembered]
    rfl

end Tracepoint.Instrument
