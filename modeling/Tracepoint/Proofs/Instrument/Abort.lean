import Tracepoint.Proofs.Instrument.FileByFile
import Tracepoint.Proofs.Reading

/-!
# Runs that are aborted

A run over a whole tree is all or nothing. If a file cannot be read or parsed or is above the
language level, if an import does not resolve, or if a detector fails, the run gives that
error. It has then done nothing to the disk but prepare the output, its detectors have counted
nothing, and the root of the tree is all that has failed.

Results:

* `Launch.building_eq_error_iff`: for what reasons the model of a launch cannot be built.
* `prepareRun_eq_ok`: the steps of preparing a run.
* `keeps_prepareRun`, `disk_prepareRun`: all that preparing a run does to the disk is to prepare
  the output.
* `run_aborts_whole`: what a batch run leaves when it fails.
-/

namespace Tracepoint

/-! ## Failures -/

theorem Except.bind_eq_error {α β : Type} {x : Except Error α} {f : α → Except Error β}
    {e : Error} : (x >>= f) = .error e ↔ x = .error e ∨ ∃ a, x = .ok a ∧ f a = .error e := by
  cases x with
  | error e' => simp [bind, Except.bind]
  | ok a => simp [bind, Except.bind]

/-- Of results that follow one another, the first failure counts. -/
theorem Except.mapM_eq_error {α β : Type} {f : α → Except Error β} {xs : List α} {e : Error} :
    xs.mapM f = .error e ↔ ∃ before x after, xs = before ++ x :: after ∧
      (∀ y ∈ before, ∃ b, f y = .ok b) ∧ f x = .error e := by
  induction xs with
  | nil => simp [pure, Except.pure]
  | cons x xs ih =>
    simp only [List.mapM_cons, Except.bind_eq_error, ih]
    constructor
    · rintro (hx | ⟨b, hb, ⟨before, y, after, rfl, hbefore, hy⟩ | ⟨ys, -, h⟩⟩)
      · exact ⟨[], x, xs, rfl, by simp, hx⟩
      · exact ⟨x :: before, y, after, rfl, List.forall_mem_cons.2 ⟨⟨b, hb⟩, hbefore⟩, hy⟩
      · cases h
    · rintro ⟨before, y, after, h, hbefore, hy⟩
      cases before with
      | nil =>
        cases h
        exact .inl hy
      | cons z before =>
        cases h
        obtain ⟨⟨b, hb⟩, hbefore⟩ := List.forall_mem_cons.1 hbefore
        exact .inr ⟨b, hb, .inl ⟨before, y, after, rfl, hbefore, hy⟩⟩

/-- Files that cannot be listed leave the world as it is, except for its log. -/
theorem sourceFiles_of_error {registry : Registry} {root : Path} {w : World} {e : Error}
    (h : listing registry root w.disk w.cwd = .error e) :
    ∃ lines, sourceFiles registry root w = (.error e, w.logged lines) := by
  unfold listing at h
  unfold sourceFiles
  rw [Effect.bind_of_ok (rfl : (get : Action World) w = (.ok w, w))]
  split_ifs at h ⊢
  · cases h
    exact ⟨[], by rw [World.logged_nil]; rfl⟩
  · cases h
    exact ⟨_, rfl⟩

namespace Instrument

open Config Detect Model Source

/-! ## Models that cannot be built -/

namespace Launch

variable (l : Launch)

/-- The unit in a file below the root of a launch. It fails if the file cannot be read or parsed,
    or if it is above the language level. -/
def unitAt (p : Path) : Except Error CompilationUnit :=
  unitOf .standard l.source.root l.start.1.options.complianceLevel p
    (l.start.2.disk.readText l.start.2.cwd p)

/-- The files at or below the path of a launch. -/
def files : Except Error (List Path) :=
  listing .standard l.source.path l.start.2.disk l.start.2.cwd

/-- Why the model of a launch cannot be built. -/
inductive Unbuilt : Error → Prop
  /-- The files cannot be listed. -/
  | walk {e : Error} (hfiles : l.files = .error e) : Unbuilt e
  /-- One of the files is not accepted, and those before it are. -/
  | file {before after : List Path} {p : Path} {e : Error}
      (hfiles : l.files = .ok (before ++ p :: after))
      (hbefore : ∀ q ∈ before, ∃ u, l.unitAt q = .ok u) (hp : l.unitAt p = .error e) : Unbuilt e
  /-- All files are accepted, and one of their imports does not resolve. -/
  | imports {files : List Path} {us : List CompilationUnit} {e : Error}
      (hfiles : l.files = .ok files)
      (hus : List.Forall₂ (fun p u => l.unitAt p = .ok u) files us) (hmode : l.mode = .strict)
      (he : checkImports (ofUnits us l.start.1.options.autoImports) l.start.1.classpath =
        .error e) : Unbuilt e

/-- A detector fails while it processes the model of a launch. -/
inductive Unprocessed : Error → Prop
  | detector {m : Model} {w : World} {e : Error} (hm : l.building = (.ok m, w))
      (he : (processUnits m.units
        ⟨l.start.1.config.detectors, l.start.1.detectorIds, none⟩).1.failure = some e) :
      Unprocessed e

theorem ofParsed_eq_error_iff {settings : Settings} {us : List CompilationUnit} {e : Error} :
    ofParsed settings us = .error e ↔ settings.mode = .strict ∧
      checkImports (ofUnits us settings.autoImports) settings.classpath = .error e := by
  unfold ofParsed importsSettled
  cases settings.mode with
  | lenient => simp [Except.map]
  | strict =>
    cases checkImports (ofUnits us settings.autoImports) settings.classpath <;>
      simp [Except.map]

/-- What building the model of a launch comes to. -/
theorem exists_building : ∃ lines, l.building =
    (l.files >>= fun files => files.mapM l.unitAt >>= ofParsed (l.start.1.settings l.mode),
      l.start.2.logged lines) := by
  cases hfiles : l.files with
  | error e =>
    obtain ⟨lines, hlist⟩ := sourceFiles_of_error hfiles
    refine ⟨lines, ?_⟩
    rw [building, build, List.mapM_cons, parseSourceUnit]
    exact Effect.bind_of_error (Effect.bind_of_error (Effect.bind_of_error hlist _) _) _
  | ok files =>
    exact build_of_files l.source.root _ (sourceFiles_eq_ok.2 ⟨hfiles, rfl⟩)

/-- The model of a launch cannot be built for one of the reasons there are, and for no other. -/
theorem building_eq_error_iff {e : Error} :
    (∃ w, l.building = (.error e, w)) ↔ l.Unbuilt e := by
  obtain ⟨lines, h⟩ := l.exists_building
  have hfst : (∃ w, l.building = (.error e, w)) ↔ (l.files >>= fun files =>
      files.mapM l.unitAt >>= ofParsed (l.start.1.settings l.mode)) = .error e := by
    rw [h]
    constructor
    · rintro ⟨w, hw⟩
      exact congrArg Prod.fst hw
    · intro he
      exact ⟨_, Prod.ext he rfl⟩
  simp only [hfst, Except.bind_eq_error, Except.mapM_eq_error, ofParsed_eq_error_iff]
  constructor
  · rintro (hfiles | ⟨files, hfiles, ⟨before, p, after, rfl, hbefore, hp⟩ | ⟨us, hus, hmode, he⟩⟩)
    · exact .walk hfiles
    · exact .file hfiles hbefore hp
    · exact .imports hfiles (Except.mapM_eq_ok.1 hus) hmode he
  · rintro (hfiles | ⟨hfiles, hbefore, hp⟩ | ⟨hfiles, hus, hmode, he⟩)
    · exact .inl hfiles
    · exact .inr ⟨_, hfiles, .inl ⟨_, _, _, rfl, hbefore, hp⟩⟩
    · exact .inr ⟨_, hfiles, .inr ⟨_, Except.mapM_eq_ok.2 hus, hmode, he⟩⟩

/-- A launch that comes to nothing before it prints leaves the disk as it is. -/
theorem process_of_unbuilt {e : Error} (h : l.Unbuilt e) :
    ∃ i lines, l.process l.start = (.error e, (i, l.start.2.logged lines)) ∧
      i.ids = l.start.1.ids ∧ i.failed = l.start.1.failed := by
  obtain ⟨w, hw⟩ := l.building_eq_error_iff.2 h
  obtain ⟨lines, hbuilding⟩ := l.exists_building
  obtain rfl : w = l.start.2.logged lines := by
    rw [hw] at hbuilding
    exact congrArg Prod.snd hbuilding
  exact ⟨_, lines, l.process_of_error hw, rfl, rfl⟩

/-- What detectors do to a model changes neither the failures that are remembered nor the
    world. -/
theorem processModel_of_failure {m : Model} {i : Instrumenter} {e : Error}
    (he : (processUnits m.units ⟨i.config.detectors, i.detectorIds, none⟩).1.failure = some e)
    (w : World) :
    ∃ i', processModel m (i, w) = (.error e, (i', w)) ∧ i'.failed = i.failed := by
  rw [processModel, Effect.bind_of_ok (Job.instrumenter_apply _)]
  rcases hpass : processUnits m.units ⟨i.config.detectors, i.detectorIds, none⟩ with ⟨pass, units⟩
  replace he : pass.failure = some e := by
    rw [hpass] at he
    exact he
  simp only [he]
  rw [Effect.bind_of_ok (Job.change_apply _ _)]
  refine ⟨_, rfl, ?_⟩
  cases pass.ids with
  | none => rfl
  | some ids =>
    simp only [Instrumenter.setDetectorIds, Instrumenter.setDetectors]
    split <;> rfl

theorem process_of_unprocessed {e : Error} (h : l.Unprocessed e) :
    ∃ i lines, l.process l.start = (.error e, (i, l.start.2.logged lines)) ∧
      i.failed = l.start.1.failed := by
  obtain ⟨hm, he⟩ := h
  rename_i m w
  obtain ⟨lines, hbuilding⟩ := l.exists_building
  obtain rfl : w = l.start.2.logged lines := by
    rw [hm] at hbuilding
    exact congrArg Prod.snd hbuilding
  have hrequest := requestModel_apply [l.source] (l.start.1.settings l.mode) l.start
  rw [show Model.build [l.source] (l.start.1.settings l.mode) l.start.2 = _ from hm] at hrequest
  obtain ⟨i, hprocess, hfailed⟩ := processModel_of_failure
    (i := l.start.1.asked [l.source] (l.start.1.settings l.mode) (.ok m)) he
    (l.start.2.logged lines)
  exact ⟨i, lines, by rw [process, Effect.bind_of_ok hrequest]; exact hprocess, hfailed⟩

end Launch

/-! ## What a failure leaves -/

/-- The resolver is the same. -/
def SameResolver (i i' : Instrumenter) : Prop := i'.resolver = i.resolver

instance : Std.Refl SameResolver := ⟨fun _ => rfl⟩

instance : IsTrans Instrumenter SameResolver := ⟨fun _ _ _ h h' => h'.trans h⟩

theorem sameResolver_prepareOutput : Job.Keeps SameResolver prepareOutput := by
  refine Job.Keeps.bind Job.Keeps.instrumenter fun i => ?_
  dsimp only
  split_ifs
  · exact Job.Keeps.bind (Job.Keeps.act _) fun _ =>
      Job.Keeps.bind (Job.Keeps.change fun _ => rfl) fun _ => Job.Keeps.act _
  · exact Job.Keeps.act _

/-- The index of the classpath that an instrumenter resolves. -/
def classpathFor (i : Instrumenter) : Action ClasspathIndex := do
  let descriptor := i.options.descriptorPath
  if !(← Action.isFile descriptor) then
    throw (.resolution s!"Build descriptor not found: {descriptor.text}")
  let classpath ← i.resolver.classpath descriptor i.options.classpath
  Action.info s!"Resolved {classpath.size} classpath entries from {descriptor.text}"
  ClasspathIndex.build classpath

theorem resolveClasspath_apply (s : Instrumenter × World) : resolveClasspath s =
    (Job.act (classpathFor s.1) >>= fun index =>
      Job.change fun i => { i with classpath := index }) s := rfl

theorem keeps_classpathFor {R : World → World → Prop} [World.IgnoresLog R] {i : Instrumenter}
    (hr : i.resolver.Keeps R) : Effect.Keeps R (classpathFor i) := by
  refine .bind (.isFile _) fun isFile => ?_
  have hindex := Effect.Keeps.bind
    (Maven.Resolver.keeps_classpath hr i.options.descriptorPath i.options.classpath)
    fun c => .bind (.log .info
      s!"Resolved {c.size} classpath entries from {i.options.descriptorPath.text}")
      fun _ => ClasspathIndex.keeps_build c
  simp only
  split_ifs
  · exact .bind (.throw _) fun _ => hindex
  · exact hindex

/-- The index of the classpath that a run uses. -/
def usedClasspath (i : Instrumenter) : Action ClasspathIndex :=
  if i.usesClasspath then classpathFor i else pure i.classpath

theorem keeps_usedClasspath {R : World → World → Prop} [World.IgnoresLog R] {i : Instrumenter}
    (hr : i.resolver.Keeps R) : Effect.Keeps R (usedClasspath i) := by
  unfold usedClasspath
  split_ifs
  · exact keeps_classpathFor hr
  · exact .pure _

theorem resolveClasspath_eq_ok {s s' : Instrumenter × World} :
    resolveClasspath s = (.ok (), s') ↔ ∃ index w, classpathFor s.1 s.2 = (.ok index, w) ∧
      ({ s.1 with classpath := index }, w) = s' := by
  rw [resolveClasspath_apply, Job.bind_act_eq_ok]
  exact exists₂_congr fun index w => and_congr_right fun _ =>
    ⟨fun h => congrArg Prod.snd h, fun h => by rw [← h]; rfl⟩

/-- The last steps before the launches: the root is looked up, and the detectors are wired. -/
theorem absolute_wire_eq_ok {p root : Path} {s s' : Instrumenter × World} :
    (Job.act (Action.absolute p) >>= fun root => do
      Job.change (·.wire)
      return root : Job Path) s = (.ok root, s') ↔
      Action.absolute p s.2 = (.ok root, s'.2) ∧ s.1.wire = s'.1 := by
  rw [Job.bind_act_eq_ok]
  constructor
  · rintro ⟨_, w, habsolute, h⟩
    cases h
    exact ⟨habsolute, rfl⟩
  · rintro ⟨habsolute, hwire⟩
    exact ⟨root, s'.2, habsolute, Prod.ext rfl (Prod.ext hwire rfl)⟩

theorem prepareRun_eq_ok {s s₁ : Instrumenter × World} {root : Path} :
    prepareRun s = (.ok root, s₁) ↔ ∃ s₀ index w, prepareOutput (untried s) = (.ok (), s₀) ∧
      usedClasspath s₀.1 s₀.2 = (.ok index, w) ∧
        Action.absolute (s₀.1.options.sourceRoot s₀.1.config.sourceDir) w = (.ok root, s₁.2) ∧
          Instrumenter.wire { s₀.1 with classpath := index } = s₁.1 := by
  rw [prepareRun_eq, prepareRoot]
  simp only [bind_assoc]
  rw [Effect.bind_eq_ok]
  constructor
  · rintro ⟨_, s₀, hprepare, h⟩
    rw [Effect.bind_of_ok (Job.instrumenter_apply _)] at h
    cases hused : s₀.1.usesClasspath with
    | true =>
      rw [hused, if_pos rfl, bind_assoc] at h
      obtain ⟨_, t, hresolve, h⟩ := Effect.bind_eq_ok.1 h
      obtain ⟨index, w, hindex, rfl⟩ := resolveClasspath_eq_ok.1 hresolve
      obtain ⟨habsolute, hwire⟩ := absolute_wire_eq_ok.1 h
      exact ⟨s₀, index, w, hprepare, by rw [usedClasspath, hused]; exact hindex, habsolute, hwire⟩
    | false =>
      rw [hused, if_neg Bool.false_ne_true] at h
      obtain ⟨habsolute, hwire⟩ := absolute_wire_eq_ok.1 h
      exact ⟨s₀, s₀.1.classpath, s₀.2, hprepare, by rw [usedClasspath, hused]; rfl, habsolute,
        hwire⟩
  · rintro ⟨s₀, index, w, hprepare, hindex, habsolute, hwire⟩
    have hlast := absolute_wire_eq_ok (s := ({ s₀.1 with classpath := index }, w)).2
      ⟨habsolute, hwire⟩
    refine ⟨(), s₀, hprepare, ?_⟩
    rw [Effect.bind_of_ok (Job.instrumenter_apply _)]
    unfold usedClasspath at hindex
    split_ifs at hindex ⊢
    · rw [bind_assoc]
      exact Effect.bind_eq_ok.2 ⟨(), _, resolveClasspath_eq_ok.2 ⟨index, w, hindex, rfl⟩, hlast⟩
    · cases hindex
      exact hlast

/-- Once the output is prepared, preparing a run only reads. -/
theorem keeps_prepareRun {R : World → World → Prop} [World.IgnoresLog R]
    {s s₁ : Instrumenter × World} {root : Path} (hr : s.1.resolver.Keeps R)
    (h : prepareRun s = (.ok root, s₁)) : R (prepareOutput (untried s)).2.2 s₁.2 := by
  obtain ⟨s₀, index, w, hprepare, hused, habsolute, -⟩ := prepareRun_eq_ok.1 h
  have hresolver := sameResolver_prepareOutput.of_eq hprepare
  have hclasspath : R s₀.2 w := (keeps_usedClasspath (by rw [hresolver]; exact hr)).of_eq hused
  rw [hprepare]
  exact IsTrans.trans _ _ _ hclasspath ((Effect.Keeps.absolute _).of_eq habsolute)

/-- All that preparing a run does to the disk is to prepare the output. -/
theorem disk_prepareRun {s s₁ : Instrumenter × World} {root : Path}
    (hr : s.1.resolver.ReadsOnly) (h : prepareRun s = (.ok root, s₁)) :
    s₁.2.disk = (prepareOutput (untried s)).2.2.disk :=
  keeps_prepareRun hr.keeps h

/-- The launch of a batch run that is prepared. -/
def batchLaunch (s₁ : Instrumenter × World) (root : Path) : Launch :=
  ⟨.tree root, s₁.1.mode, informed s!"Instrumenting {root.text}" s₁⟩

/-- A run that failed with an error after it was prepared, without having printed anything. -/
structure Aborted (s s₁ : Instrumenter × World) (root : Path) (e : Error) : Prop where
  result : (run s).1 = .error e
  /-- Neither is anything printed, nor are the id file or the properties of the logger
      written. -/
  disk : (run s).2.2.disk = s₁.2.disk
  counts : ∀ d ∈ (run s).2.1.config.detectors, d.detected = 0
  failed : (run s).2.1.failed.paths = [root]

theorem run_of_process_error {s s₁ : Instrumenter × World} {root : Path} {e : Error}
    {i : Instrumenter} {w : World} (hbatch : s.1.options.fileByFile = false)
    (hp : prepareRun s = (.ok root, s₁))
    (h : (batchLaunch s₁ root).process (batchLaunch s₁ root).start = (.error e, (i, w))) :
    ∃ lines, run s = (.error e, (i.settledAt root false, w.logged lines)) := by
  have hoption : s₁.1.options.fileByFile = false := by
    rw [(prepareRun_of_ok hp).options, hbatch]
  obtain ⟨lines, hlaunch⟩ := launch_apply (.tree root) s₁.1.mode
    (informed s!"Instrumenting {root.text}" s₁)
  have hinject := (batchLaunch s₁ root).inject_of_error h
  rw [show inject [.tree root] s₁.1.mode (informed s!"Instrumenting {root.text}" s₁) = _ from
    hinject] at hlaunch
  refine ⟨lines, ?_⟩
  rw [run_of_ok hp, injectBelow, hoption]
  refine Effect.bind_of_error ?_ _
  rw [if_neg Bool.false_ne_true, injectAll, Effect.bind_of_ok (info_apply _ _)]
  exact Effect.bind_of_error hlaunch _

/-- A batch run that fails before it prints leaves the output as it was prepared. It has counted
    nothing, and its root has failed. If its model could not be built, no identifier was given
    out. That a detector fails is left to detectors and listeners to come: the one that there is
    finds an id map in a wired run and reports places on a boundary only, where its listener can
    always insert. -/
theorem run_aborts_whole {s s₁ : Instrumenter × World} {root : Path} {e : Error}
    (hbatch : s.1.options.fileByFile = false) (hp : prepareRun s = (.ok root, s₁))
    (h : (batchLaunch s₁ root).Unbuilt e ∨ (batchLaunch s₁ root).Unprocessed e) :
    Aborted s s₁ root e ∧
      (s.1.resolver.ReadsOnly → s₁.2.disk = (prepareOutput (untried s)).2.2.disk) ∧
      ((batchLaunch s₁ root).Unbuilt e → (run s).2.1.ids = s.1.ids) := by
  have hwired := prepareRun_of_ok hp
  have haborted : ∀ i w, (batchLaunch s₁ root).process (batchLaunch s₁ root).start =
      (.error e, (i, w)) → i.failed = s₁.1.failed → w.disk = s₁.2.disk → Aborted s s₁ root e := by
    intro i w hprocess hfailed hdisk
    obtain ⟨lines, hrun⟩ := run_of_process_error hbatch hp hprocess
    refine ⟨by rw [hrun], by rw [hrun]; exact hdisk, ?_, ?_⟩
    · rw [hrun]
      intro d hd
      obtain ⟨d', -, rfl⟩ := List.mem_map.1
        (show d ∈ i.config.detectors.map (·.reset) from hd)
      rfl
    · rw [hrun]
      show (i.failed.insert root).paths = [root]
      rw [hfailed, hwired.failed]
      rfl
  refine ⟨?_, fun hr => disk_prepareRun hr hp, fun hunbuilt => ?_⟩
  · rcases h with h | h
    · obtain ⟨i, lines, hprocess, -, hfailed⟩ := (batchLaunch s₁ root).process_of_unbuilt h
      exact haborted i _ hprocess hfailed rfl
    · obtain ⟨i, lines, hprocess, hfailed⟩ := (batchLaunch s₁ root).process_of_unprocessed h
      exact haborted i _ hprocess hfailed rfl
  · obtain ⟨i, lines, hprocess, hids, -⟩ := (batchLaunch s₁ root).process_of_unbuilt hunbuilt
    obtain ⟨lines', hrun⟩ := run_of_process_error hbatch hp hprocess
    rw [hrun]
    show i.ids = s.1.ids
    rw [hids]
    exact hwired.ids

/-- The second of three files does not parse, and nothing comes of the first. -/
theorem run_aborts_whole_at_second :
    let p := sample "src" [sampleFile ["p", "src", "A.java"] "class A\x7bvoid m()\x7b\x7d\x7d",
      sampleFile ["p", "src", "B.java"] "class",
      sampleFile ["p", "src", "C.java"] "class C\x7b\x7d"]
    let s := ({ p.1 with options := { p.1.options with fileByFile := false } }, p.2)
    ∃ e, (batchLaunch (prepareRun s).2 ⟨"/p/src"⟩).Unbuilt e ∧
      Aborted s (prepareRun s).2 ⟨"/p/src"⟩ e ∧ (run s).2.1.ids.order = [] := by
  intro p s
  have hprepared : (prepareRun s).1 = .ok ⟨"/p/src"⟩ := by decide +kernel
  have hfiles : (batchLaunch (prepareRun s).2 ⟨"/p/src"⟩).files =
      .ok ([⟨"/p/src/A.java"⟩] ++ ⟨"/p/src/B.java"⟩ :: [⟨"/p/src/C.java"⟩]) := by decide +kernel
  have hfirst : ((batchLaunch (prepareRun s).2 ⟨"/p/src"⟩).unitAt ⟨"/p/src/A.java"⟩).isOk =
    true := by decide +kernel
  have hsecond : ((batchLaunch (prepareRun s).2 ⟨"/p/src"⟩).unitAt ⟨"/p/src/B.java"⟩).isOk =
    false := by decide +kernel
  obtain ⟨e, he⟩ : ∃ e, (batchLaunch (prepareRun s).2 ⟨"/p/src"⟩).unitAt ⟨"/p/src/B.java"⟩ =
      .error e := by
    cases h : (batchLaunch (prepareRun s).2 ⟨"/p/src"⟩).unitAt ⟨"/p/src/B.java"⟩ with
    | error e => exact ⟨e, rfl⟩
    | ok u => rw [h] at hsecond; cases hsecond
  have hunbuilt : (batchLaunch (prepareRun s).2 ⟨"/p/src"⟩).Unbuilt e :=
    .file hfiles (by simpa using Except.isOk_iff.1 hfirst) he
  obtain ⟨haborted, -, hids⟩ :=
    run_aborts_whole (s := s) rfl (Prod.ext hprepared rfl) (.inl hunbuilt)
  exact ⟨e, hunbuilt, haborted, by rw [hids hunbuilt]; rfl⟩

end Instrument

end Tracepoint
