import Tracepoint.Proofs.Instrument.FileByFile

/-!
# Batch runs and runs file by file

A run over the whole tree at once and a run file by file come to the same if every file
resolves its imports alone: more units make no import fail, a unit gets the calls for its
own elements and no others, and both runs meet the keys in the same order. All that the
batch run prints besides are the units without elements, as they are.

Results:

* `build_tree`: the model of a tree whose files can be built alone.
* `injectAll_spec`: what a batch run leaves before its end.
* `twin_batch`: a run with the mode changed is prepared in the same way.
-/

namespace Tracepoint.Instrument

open Config Detect Model Source

/-! ## The model of a tree -/

theorem mapM_unitOf {s : Instrumenter × World} {root : Path} {mode : Mode} {w : World}
    {ps : List Path} (hall : ∀ p ∈ ps, (unitIn s root mode p).isSome = true)
    (htexts : ∀ p ∈ ps, w.disk.readText w.cwd p = s.2.disk.readText s.2.cwd p) :
    (ps.mapM fun p => unitOf .standard root (s.1.settings mode).level p
      (w.disk.readText w.cwd p)) = .ok (ps.filterMap (unitIn s root mode)) := by
  rw [Except.mapM_eq_ok]
  induction ps with
  | nil => exact List.Forall₂.nil
  | cons p ps ih =>
    obtain ⟨u, hu⟩ := Option.isSome_iff_exists.1 (hall p List.mem_cons_self)
    have hunit := (acceptedUnit_eq_ok.1 (unitIn_eq_some.1 hu)).1
    rw [List.filterMap_cons_some hu]
    refine .cons ?_ (ih (fun q hq => hall q (List.mem_cons_of_mem _ hq))
      fun q hq => htexts q (List.mem_cons_of_mem _ hq))
    rwa [htexts p List.mem_cons_self]

/-- The model of a tree whose files can be built alone holds the units in the files. -/
theorem build_tree {s : Instrumenter × World} {root : Path} {files : List Path} {mode : Mode}
    (hfiles : sourceFiles .standard root s.2 = (.ok files, s.2))
    (hall : ∀ p ∈ files, (unitIn s root mode p).isSome = true) {w : World}
    (hw : sourcesAt root w = sourcesAt root s.2) :
    ∃ lines, Model.build [.tree root] (s.1.settings mode) w =
      (.ok (ofUnits (files.filterMap (unitIn s root mode)) s.1.options.autoImports),
        w.logged lines) := by
  obtain ⟨hsame, htexts⟩ := sourceFiles_of_sourcesAt hfiles hw
  obtain ⟨lines, hbuild⟩ := build_of_files root (s.1.settings mode) hsame
  have hsettled : importsSettled (s.1.settings mode)
      (ofUnits (files.filterMap (unitIn s root mode)) (s.1.settings mode).autoImports) =
      .ok () := by
    refine importsSettled_ofUnits fun u hu => ?_
    obtain ⟨p, -, hp⟩ := List.mem_filterMap.1 hu
    exact (acceptedUnit_eq_ok.1 (unitIn_eq_some.1 hp)).2
  refine ⟨lines, hbuild.trans ?_⟩
  rw [mapM_unitOf hall htexts]
  show (ofParsed _ _, _) = _
  rw [ofParsed, hsettled]
  rfl

/-! ## Batch runs -/

/-- What a batch run leaves before its end, if its model can be built and printed. -/
theorem injectAll_spec {s : Instrumenter × World} (hi : Idle s.1) (hfailed : s.1.failed = {})
    {root : Path} {mode : Mode} {us : List CompilationUnit} (hus : ∀ u ∈ us, u.Fits) {auto : Bool}
    {w : World} (hb : Model.build [.tree root] (s.1.settings mode)
      (informed s!"Instrumenting {root.text}" s).2 = (.ok (ofUnits us auto), w)) {n : Nat}
    (hprint : (Launch.printing ⟨.tree root, mode,
      informed s!"Instrumenting {root.text}" s⟩).1 = .ok n) :
    let ids := s.1.ids.addKeys (keysIn s.1.config.detectors us)
    Launch.printed ⟨.tree root, mode, informed s!"Instrumenting {root.text}" s⟩ =
        (if 0 < foundIn s.1.config.detectors us
          then outputsFor s.1.config.detectors auto ids us else []) ∧
      ∃ s', injectAll root mode s =
          (.ok (⟨us.length, foundIn s.1.config.detectors us, n⟩, []), s') ∧
        s'.1.ids = ids ∧ s'.1.failed = {} := by
  let l : Launch := ⟨.tree root, mode, informed s!"Instrumenting {root.text}" s⟩
  have hidle : Idle l.start.1 := hi
  refine ⟨l.printed_of_ok hidle hus hb, ?_⟩
  obtain ⟨requests, lines, hlaunch⟩ := l.launch_of_ok hidle hus hb (Prod.ext hprint rfl)
  refine ⟨l.finish, ?_, ?_, ?_⟩
  · rw [injectAll, Effect.bind_of_ok (info_apply _ _), Effect.bind_of_ok hlaunch, Launch.finish,
      hlaunch]
    rfl
  · rw [Launch.finish, hlaunch]
    rfl
  · rw [Launch.finish, hlaunch]
    show s.1.failed.erase root = {}
    rw [hfailed]
    rfl

/-- The batch run of a project that also is to be instrumented file by file. Configuration and
    identifiers are the same, and so are the options except for the mode and the output. The
    batch run can be prepared, and it finds the same sources and the same classpath. -/
structure Twin (s s₁ t t₁ : Instrumenter × World) (root : Path) : Prop where
  options : ∃ output, t.1.options = { s.1.options with fileByFile := false, outputDir := output }
  config : t.1.config = s.1.config
  ids : t.1.ids = s.1.ids
  prepared : prepareRun t = (.ok root, t₁)
  sources : sourcesAt root t₁.2 = sourcesAt root s₁.2
  classpath : t₁.1.classpath = s₁.1.classpath

namespace Twin

variable {s s₁ t t₁ : Instrumenter × World} {root : Path}

theorem config_eq (h : Twin s s₁ t t₁ root) (hs : Wired s.1 s₁.1) :
    t₁.1.config = s₁.1.config := by
  rw [(prepareRun_of_ok h.prepared).config, hs.config, Instrumenter.wire, Instrumenter.wire,
    Instrumenter.setDetectors, Instrumenter.setDetectors, h.config]

theorem settings_eq (h : Twin s s₁ t t₁ root) (hs : Wired s.1 s₁.1) (mode : Mode) :
    t₁.1.settings mode = s₁.1.settings mode := by
  obtain ⟨output, hoptions⟩ := h.options
  rw [Instrumenter.settings, Instrumenter.settings, h.classpath,
    (prepareRun_of_ok h.prepared).options, hoptions, hs.options]

end Twin

/-! ## Changing the mode -/

/-- The instrumenter with the mode changed to batch. -/
def Instrumenter.batch (i : Instrumenter) : Instrumenter :=
  { i with options := { i.options with fileByFile := false } }

/-- A job does the same after the mode was changed to batch. -/
def Job.IgnoresMode {α : Type} (j : Job α) : Prop :=
  ∀ s, j (s.1.batch, s.2) = ((j s).1, ((j s).2.1.batch, (j s).2.2))

namespace Job.IgnoresMode

variable {α β : Type}

theorem act (a : Action α) : IgnoresMode (Job.act a) := fun _ => rfl

theorem change {g : Instrumenter → Instrumenter} (h : ∀ i, g i.batch = (g i).batch) :
    IgnoresMode (Job.change g) := fun s => by
  rw [Job.change_apply, Job.change_apply, h]

theorem bind {j : Job α} {f : α → Job β} (hj : IgnoresMode j) (hf : ∀ a, IgnoresMode (f a)) :
    IgnoresMode (j >>= f) := by
  intro s
  have hs := hj s
  rcases h : j s with ⟨e | a, s'⟩
  · rw [h] at hs
    rw [Effect.bind_of_error h, Effect.bind_of_error hs]
  · rw [h] at hs
    rw [Effect.bind_of_ok h, Effect.bind_of_ok hs]
    exact hf a s'

theorem instrumenter_bind {f : Instrumenter → Job β} (h : ∀ i, f i.batch = f i)
    (hf : ∀ i, IgnoresMode (f i)) : IgnoresMode (Job.instrumenter >>= f) := by
  intro s
  rw [Effect.bind_of_ok (Job.instrumenter_apply _), Effect.bind_of_ok (Job.instrumenter_apply _), h]
  exact hf s.1 s

end Job.IgnoresMode

theorem ignoresMode_prepareOutput : Job.IgnoresMode prepareOutput := by
  refine Job.IgnoresMode.instrumenter_bind (fun i => rfl) fun i => ?_
  dsimp only
  split_ifs
  · exact .bind (.act _) fun _ => .bind (.change fun _ => rfl) fun _ => .act _
  · exact .act _

theorem ignoresMode_resolveClasspath : Job.IgnoresMode resolveClasspath :=
  .instrumenter_bind (fun _ => rfl) fun _ => .bind (.act _) fun _ => .change fun _ => rfl

/-- Preparing a run that counts on the classpath, up to the wiring of its detectors. -/
def prepareRootWithClasspath : Job Path := do
  prepareOutput
  let i ← Job.instrumenter
  resolveClasspath
  Job.act (Action.absolute (i.options.sourceRoot i.config.sourceDir))

theorem prepareRoot_of_usesClasspath {s : Instrumenter × World} (h : s.1.usesClasspath = true) :
    prepareRoot s = prepareRootWithClasspath s := by
  have hprepared := prepared_prepareOutput s
  rw [prepareRoot, prepareRootWithClasspath]
  rcases houtput : prepareOutput s with ⟨e | _, s'⟩
  · rw [Effect.bind_of_error houtput, Effect.bind_of_error houtput]
  · rw [houtput] at hprepared
    have huses : s'.1.usesClasspath = true := by
      rw [Instrumenter.usesClasspath, hprepared.options]
      exact h
    rw [Effect.bind_of_ok houtput, Effect.bind_of_ok houtput,
      Effect.bind_of_ok (Job.instrumenter_apply _), Effect.bind_of_ok (Job.instrumenter_apply _)]
    simp only [huses, if_true]

theorem prepareRun_of_useClasspath {s : Instrumenter × World}
    (h : s.1.options.useClasspath = true) :
    prepareRun s = (do
      let root ← prepareRootWithClasspath
      Job.change (·.wire)
      return root : Job Path) (untried s) := by
  have huses : (untried s).1.usesClasspath = true := by
    simp [Instrumenter.usesClasspath, untried, h]
  rw [prepareRun_eq]
  exact Effect.bind_eq_of_eq (prepareRoot_of_usesClasspath huses) _

/-- A run that counts on the classpath in both modes is prepared in the same way in both. -/
theorem prepareRun_batch {s : Instrumenter × World}
    (hclasspath : s.1.options.useClasspath = true) :
    prepareRun (s.1.batch, s.2) =
      ((prepareRun s).1, ((prepareRun s).2.1.batch, (prepareRun s).2.2)) := by
  have hroot : Job.IgnoresMode prepareRootWithClasspath :=
    .bind ignoresMode_prepareOutput fun _ => .instrumenter_bind (fun _ => rfl) fun _ =>
      .bind ignoresMode_resolveClasspath fun _ => .act _
  have hwire := hroot.bind fun root => Job.IgnoresMode.bind
    (Job.IgnoresMode.change (g := (·.wire)) fun _ => rfl) fun _ => fun _ =>
      (rfl : (pure root : Job Path) _ = _)
  rw [prepareRun_of_useClasspath hclasspath,
    prepareRun_of_useClasspath (s := (s.1.batch, s.2)) hclasspath]
  exact hwire (untried s)

/-- The batch run of the same project in the same world. -/
theorem twin_batch {s s₁ : Instrumenter × World} {root : Path}
    (hclasspath : s.1.options.useClasspath = true) (h : prepareRun s = (.ok root, s₁)) :
    Twin s s₁ (s.1.batch, s.2) (s₁.1.batch, s₁.2) root :=
  ⟨⟨s.1.options.outputDir, rfl⟩, rfl, rfl, by rw [prepareRun_batch hclasspath, h], rfl, rfl⟩

/-! ## Agreement -/

section Agreement

variable {s s₁ t t₁ : Instrumenter × World} {root : Path} {files : List Path}

/-- A run file by file that needs no file twice and fails at none has accepted every file. -/
theorem run_each_accepted (h : Steady s s₁ root files) (hmode : s.1.options.fileByFile = true)
    {report : Report} (hrun : (run s).1 = .ok report) (hretried : report.retried = [])
    (hfailed : report.failed = []) :
    let us := files.filterMap (unitIn s₁ root .strict)
    (∀ p ∈ files, (unitIn s₁ root .strict p).isSome = true) ∧
      report.total.Counts s₁.1.config.detectors us ∧
      (run s).2.1.ids = s.1.ids.addKeys (keysIn s₁.1.config.detectors us) ∧
      printedBy s = outputsFor s₁.1.config.detectors s.1.options.autoImports (run s).2.1.ids
        (us.filter (reports s₁.1.config.detectors)) := by
  intro us
  obtain ⟨hprinted, hids, hholds, total, retried, s₂, -, hresult, hcounts, hagain⟩ :=
    run_each_spec h hmode
  rw [hresult] at hrun
  rcases hfinish : (finishRun s₂).1 with e | idFile
  · rw [hfinish] at hrun
    cases hrun
  · rw [hfinish] at hrun
    cases hrun
    simp only at hretried hfailed
    have hdone := hagain.perm
    have hleft := hholds.perm
    rw [hretried] at hdone
    rw [hfailed] at hleft
    have hnone : (files.filter fun p => !(unitIn s₁ root .strict p).isSome) = [] := by
      rw [List.eq_nil_iff_forall_not_mem]
      intro p hp
      cases hlenient : (unitIn s₁ root .lenient p).isSome with
      | true => exact List.filter_eq_nil_iff.1 (List.nil_perm.1 hdone) p hp hlenient
      | false => exact List.filter_eq_nil_iff.1 (List.nil_perm.1 hleft) p hp (by simp [hlenient])
    rw [hnone, List.filterMap_nil, List.append_nil] at hprinted hids hcounts
    refine ⟨fun p hp => ?_, hcounts, hids, ?_⟩
    · simpa [Option.isSome_iff_ne_none] using List.filter_eq_nil_iff.1 hnone p hp
    · rw [hids]
      exact hprinted

/-- The units in which something is reported, among all that are printed at once. -/
theorem filter_reports_outputsFor (ds : List MethodDetector) (auto : Bool) (ids : IdMap)
    (us : List CompilationUnit) :
    (if 0 < foundIn ds us then outputsFor ds auto ids us else []).filter (fun x => reports ds x.1) =
      outputsFor ds auto ids (us.filter (reports ds)) := by
  split_ifs with hfound
  · rw [outputsFor, List.filter_map]
    rfl
  · have hnone : us.filter (reports ds) = [] := by
      rw [List.filter_eq_nil_iff]
      intro u hu hreports
      have hempty := List.length_eq_zero_iff.1 (Nat.eq_zero_of_not_pos hfound)
      simp [reports, List.flatMap_eq_nil_iff.1 hempty u hu] at hreports
    rw [hnone]
    rfl

/-- A unit in which nothing is reported is rendered as it is. -/
theorem render_editsFor {ds : List MethodDetector} {u : CompilationUnit}
    (h : reports ds u = false) (auto : Bool) (ids : IdMap) :
    u.render (editsFor ds auto ids u) = some u.parsed.source := by
  have hnil : ∀ d ∈ ds, elements u d.constructors = [] := by
    have hempty : elementsIn ds u = [] := by simpa [reports] using h
    exact List.flatMap_eq_nil_iff.1 hempty
  have hcalls : (ds.flatMap fun d => d.callsFor u auto ids (elements u d.constructors)) = [] :=
    List.flatMap_eq_nil_iff.2 fun d hd => by rw [hnil d hd]; rfl
  have hreferences : (ds.flatMap fun d =>
      d.referencesFor u auto (elements u d.constructors)) = [] :=
    List.flatMap_eq_nil_iff.2 fun d hd => by rw [hnil d hd]; rfl
  rw [editsFor, hcalls, hreferences, CompilationUnit.render,
    allEdits_recorded u auto [] [] fun _ => rfl]
  simp [importsFor, applyEdits_nil]

/-- The one launch of a batch run. -/
theorem launches_twin (ht : Twin s s₁ t t₁ root) (hclasspath : s.1.options.useClasspath = true) :
    launches t = [⟨.tree root, .strict, informed s!"Instrumenting {root.text}" t₁⟩] ∧
      injectBelow t₁.1 root = injectAll root .strict := by
  obtain ⟨output, hoptions⟩ := ht.options
  have hbatch : t₁.1.options.fileByFile = false := by
    rw [(prepareRun_of_ok ht.prepared).options, hoptions]
  have hstrict : t₁.1.mode = .strict := by
    rw [Instrumenter.mode, Instrumenter.usesClasspath, (prepareRun_of_ok ht.prepared).options,
      hoptions, hclasspath, Bool.true_or, if_pos rfl]
  refine ⟨?_, ?_⟩
  · unfold launches
    simp only [ht.prepared, hbatch, Bool.false_eq_true, if_false, hstrict]
  · rw [injectBelow, hbatch, if_neg (by simp), hstrict]

/-- A batch run over files that are all accepted alone. -/
theorem run_batch_spec (h : Steady s s₁ root files)
    (hclasspath : s.1.options.useClasspath = true) (ht : Twin s s₁ t t₁ root)
    (hprints : ∀ l ∈ launches t, ∃ n, l.printing.1 = .ok n)
    (hall : ∀ p ∈ files, (unitIn s₁ root .strict p).isSome = true) :
    let ds := s₁.1.config.detectors
    let us := files.filterMap (unitIn s₁ root .strict)
    let ids := s.1.ids.addKeys (keysIn ds us)
    printedBy t = (if 0 < foundIn ds us then outputsFor ds s.1.options.autoImports ids us else []) ∧
      (run t).2.1.ids = ids ∧
      ∃ written t₂, injectBelow t₁.1 root t₁ = (.ok (⟨us.length, foundIn ds us, written⟩, []), t₂) ∧
        (run t).1 = (finishRun t₂).1.map
          (fun idFile => ⟨⟨us.length, foundIn ds us, written⟩, [], [], idFile⟩) := by
  intro ds us ids
  obtain ⟨hlaunches, hbelow⟩ := launches_twin ht hclasspath
  have hwired := prepareRun_of_ok ht.prepared
  have hconfig := ht.config_eq h.wired
  have hidle : Idle t₁.1 := hwired.idle (by rw [ht.config]; exact h.counts)
  have hfits : ∀ u ∈ us, u.Fits := by
    intro u hu
    obtain ⟨p, -, hp⟩ := List.mem_filterMap.1 hu
    exact acceptedUnit_fits (unitIn_eq_some.1 hp)
  -- the log line at the start of the run changes nothing that the model depends on
  obtain ⟨lines, hbuild⟩ := build_tree h.listed hall
    ((sourcesAt_logged root t₁.2 [⟨.info, s!"Instrumenting {root.text}"⟩]).trans ht.sources)
  rw [← ht.settings_eq h.wired, h.wired.options] at hbuild
  obtain ⟨n, hn⟩ := hprints _ (by rw [hlaunches]; exact List.mem_singleton_self _)
  obtain ⟨hprinted, t₂, hinject, hids, hfailed⟩ :=
    injectAll_spec hidle hwired.failed hfits hbuild hn
  rw [hwired.ids, ht.ids, hconfig] at hprinted hids
  rw [hconfig, ← hbelow] at hinject
  obtain ⟨hresult, hlast⟩ := run_of_injected ht.prepared hinject
  rw [hfailed] at hresult
  refine ⟨?_, ?_, n, t₂, hinject, hresult⟩
  · rw [printedBy, hlaunches, List.flatMap_singleton]
    exact hprinted
  · rw [hlast, hids]

/-- If a run file by file succeeds, needs no file twice and fails at none, then the batch run
    counts, identifies and prints the same, and besides it prints nothing but the files in which
    nothing is reported, as they are, and these only if something is reported elsewhere. -/
theorem batch_run_agrees (h : Steady s s₁ root files) (hmode : s.1.options.fileByFile = true)
    (hclasspath : s.1.options.useClasspath = true) (ht : Twin s s₁ t t₁ root)
    (hprints : ∀ l ∈ launches t, ∃ n, l.printing.1 = .ok n) {report : Report}
    (hrun : (run s).1 = .ok report) (hretried : report.retried = [])
    (hfailed : report.failed = []) :
    let ds := s₁.1.config.detectors
    (∃ written t₂, injectBelow t₁.1 root t₁ =
        (.ok (⟨report.total.units, report.total.detected, written⟩, []), t₂) ∧
      (run t).1 = (finishRun t₂).1.map fun idFile =>
        ⟨⟨report.total.units, report.total.detected, written⟩, [], [], idFile⟩) ∧
    (run t).2.1.ids = (run s).2.1.ids ∧
    printedBy s = (printedBy t).filter (fun x => reports ds x.1) ∧
    (∀ x ∈ printedBy t, reports ds x.1 = false → ∃ p ∈ files, ∃ text : String,
      s₁.2.disk.readText s₁.2.cwd p = .ok text ∧ x.1.relativePath = Path.locate root p ∧
        x.1.render x.2 = some text.toList) ∧
    (report.total.detected = 0 → printedBy t = []) := by
  intro ds
  obtain ⟨hall, hcounts, hids, hprinted⟩ := run_each_accepted h hmode hrun hretried hfailed
  obtain ⟨hbatch, hbatchIds, written, t₂, hinject, hresult⟩ :=
    run_batch_spec h hclasspath ht hprints hall
  rw [← hcounts.units, ← hcounts.detected] at hinject hresult
  rw [← hids, ← hcounts.detected] at hbatch
  refine ⟨⟨written, t₂, hinject, hresult⟩, hbatchIds.trans hids.symm, ?_, ?_, ?_⟩
  · rw [hprinted, hbatch, hcounts.detected, filter_reports_outputsFor]
  · intro x hx hx'
    rw [hbatch] at hx
    split_ifs at hx with hfound
    · obtain ⟨u, hu, rfl⟩ := List.mem_map.1 (show x ∈ List.map _ _ from hx)
      obtain ⟨p, hp, hu⟩ := List.mem_filterMap.1 hu
      obtain ⟨hpath, text, htext, hsource⟩ :=
        source_of_unitOf (acceptedUnit_eq_ok.1 (unitIn_eq_some.1 hu)).1
      exact ⟨p, hp, text, htext, hpath, by rw [render_editsFor hx', hsource]⟩
    · simp at hx
  · intro hzero
    rw [hbatch, hzero]
    rfl

end Agreement

/-- Of two files one has a method and the other one only resolves its import. -/
theorem batch_run_agrees_sample :
    let s := sample "src" [sampleFile ["p", "src", "A.java"] "class A\x7bvoid m()\x7b\x7d\x7d",
      sampleFile ["p", "src", "B.java"] "import java.util.List;"]
    let t := (s.1.batch, s.2)
    Steady s (prepareRun s).2 ⟨"/p/src"⟩ [⟨"/p/src/A.java"⟩, ⟨"/p/src/B.java"⟩] ∧
      (run t).2.1.ids = (run s).2.1.ids ∧
      printedBy s = (printedBy t).filter
        fun x => reports (prepareRun s).2.1.config.detectors x.1 := by
  intro s t
  have hsteady : Steady s (prepareRun s).2 ⟨"/p/src"⟩ [⟨"/p/src/A.java"⟩, ⟨"/p/src/B.java"⟩] :=
    steady_of_isSteady (by decide +kernel)
  have hprints : (launches t).all (·.printing.1.isOk) = true := by decide +kernel
  have hrun : (run s).1.toOption.any (fun r => r.retried = [] && r.failed = []) = true := by
    decide +kernel
  rcases hreport : (run s).1 with e | report
  · rw [hreport] at hrun
    cases hrun
  · rw [hreport] at hrun
    obtain ⟨hretried, hfailed⟩ : report.retried = [] ∧ report.failed = [] := by
      simpa [Except.toOption] using hrun
    obtain ⟨-, hids, hprinted, -, -⟩ := batch_run_agrees hsteady rfl rfl
      (twin_batch rfl hsteady.prepared)
      (fun l hl => Except.isOk_iff.1 (List.all_eq_true.1 hprints l hl)) hreport hretried hfailed
    exact ⟨hsteady, hids, hprinted⟩

/-- The batch run fails where a file without elements takes the place of the id file. -/
theorem batch_run_fails_at_id_file :
    let s := sample "log" [sampleFile ["p", "log", "B.java"] "class B\x7bvoid m()\x7b\x7d\x7d",
      (["p", "log", "id.map"], .directory), sampleFile ["p", "log", "id.map", "A.java"] ""]
    let t := (s.1.batch, s.2)
    Steady s (prepareRun s).2 ⟨"/p/log"⟩ [⟨"/p/log/B.java"⟩, ⟨"/p/log/id.map/A.java"⟩] ∧
      Twin s (prepareRun s).2 t ((prepareRun s).2.1.batch, (prepareRun s).2.2) ⟨"/p/log"⟩ ∧
      (∀ l ∈ launches t, ∃ n, l.printing.1 = .ok n) ∧
      (∃ report, (run s).1 = .ok report ∧ report.retried = [] ∧ report.failed = []) ∧
      (run t).1 = .error (.io .isDirectory) := by
  intro s t
  have hsteady : Steady s (prepareRun s).2 ⟨"/p/log"⟩
      [⟨"/p/log/B.java"⟩, ⟨"/p/log/id.map/A.java"⟩] := steady_of_isSteady (by decide +kernel)
  have hprints : (launches t).all (·.printing.1.isOk) = true := by decide +kernel
  refine ⟨hsteady, twin_batch rfl hsteady.prepared,
    fun l hl => Except.isOk_iff.1 (List.all_eq_true.1 hprints l hl), ?_, by decide +kernel⟩
  exact ⟨⟨⟨2, 1, 1⟩, [], [], ⟨"/out/log/id.map"⟩⟩, by decide +kernel, rfl, rfl⟩

end Tracepoint.Instrument
