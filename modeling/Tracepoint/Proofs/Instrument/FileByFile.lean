import Tracepoint.Proofs.Instrument.Idle
import Tracepoint.Proofs.Instrument.Run

/-!
# Runs file by file

A run file by file tries each file alone, first with the classpath and then, if that
fails, without it. What comes of a file is decided by the file alone, so the run divides
the files into those that succeed at once, those that succeed when they are tried again
and those that fail, and a file that fails leaves no trace in what is printed for the
others.

Results:

* `launchFile_spec`: what a launch into one file leaves.
* `launchFiles_spec`, `retryFailed_spec`: what a pass over files leaves, and a second one
  over those that failed.
* `run_each_spec`: what a run file by file leaves.
* `unitIn_lenient`: a unit that is accepted with the classpath is accepted without it.
-/

namespace Tracepoint.Instrument

open Config Detect Model Source

/-- A launch can print its units, and leaves the sources as they were. -/
structure Launch.Undisturbed (root : Path) (l : Launch) : Prop where
  prints : ∃ n, l.printing.1 = .ok n
  sources : sourcesAt root l.finish.2 = sourcesAt root l.start.2

/-- The model of a file alone, if it can be built. -/
def modelIn (s : Instrumenter × World) (root : Path) (mode : Mode) (p : Path) : Option Model :=
  (Model.build [⟨p, root⟩] (s.1.settings mode) s.2).1.toOption

/-- The unit in a file whose model can be built alone. -/
def unitIn (s : Instrumenter × World) (root : Path) (mode : Mode) (p : Path) :
    Option CompilationUnit :=
  (acceptedUnit (s.1.settings mode) root p (s.2.disk.readText s.2.cwd p)).toOption

theorem unitIn_eq_some {s : Instrumenter × World} {root : Path} {mode : Mode} {p : Path}
    {u : CompilationUnit} :
    unitIn s root mode p = some u ↔
      acceptedUnit (s.1.settings mode) root p (s.2.disk.readText s.2.cwd p) = .ok u := by
  unfold unitIn
  cases acceptedUnit (s.1.settings mode) root p (s.2.disk.readText s.2.cwd p) <;>
    simp [Except.toOption]

/-- The model of a file alone has the unit in the file. -/
theorem modelIn_eq {s : Instrumenter × World} {root : Path} {files : List Path}
    (hfiles : sourceFiles .standard root s.2 = (.ok files, s.2)) (mode : Mode) {p : Path}
    (hp : p ∈ files) :
    modelIn s root mode p =
      (unitIn s root mode p).map fun u => ofUnits [u] s.1.options.autoImports := by
  obtain ⟨hfile, hsupports⟩ := mem_sourceFiles hfiles hp
  obtain ⟨lines, hbuild⟩ := build_file root (s.1.settings mode) hfile hsupports
  rw [modelIn, hbuild, unitIn]
  cases acceptedUnit (s.1.settings mode) root p (s.2.disk.readText s.2.cwd p) <;> rfl

theorem filter_reports_singleton (ds : List MethodDetector) (u : CompilationUnit) (auto : Bool)
    (ids : IdMap) :
    (if 0 < foundIn ds [u] then outputsFor ds auto ids [u] else []) =
      outputsFor ds auto ids ([u].filter (reports ds)) := by
  cases h : elementsIn ds u with
  | nil => simp [foundIn, reports, outputsFor, h]
  | cons e es => simp [foundIn, reports, outputsFor, h]

/-! ## Files one by one -/

/-- The counts of an injection are those of some units. -/
structure Injection.Counts (ds : List MethodDetector) (us : List CompilationUnit)
    (injection : Injection) : Prop where
  units : injection.units = us.length
  detected : injection.detected = foundIn ds us

theorem Injection.Counts.add {ds : List MethodDetector} {us vs : List CompilationUnit}
    {a b : Injection} (ha : a.Counts ds us) (hb : b.Counts ds vs) :
    (a.add b).Counts ds (us ++ vs) where
  units := by rw [List.length_append, ← ha.units, ← hb.units]; rfl
  detected := by rw [foundIn_append, ← ha.detected, ← hb.detected]; rfl

/-- A state in the middle of a run: nothing has changed since its start except for identifiers,
    failures and requests, and the sources are as they were. -/
structure Amid (s : Instrumenter × World) (root : Path) (ids : IdMap) (failed : PathSet)
    (s' : Instrumenter × World) : Prop where
  instrumenter : ∃ requests, s'.1 = s.1.leaving ids failed requests
  sources : sourcesAt root s'.2 = sourcesAt root s.2

namespace Amid

variable {s s' : Instrumenter × World} {root : Path} {ids : IdMap} {failed : PathSet}

theorem failed_eq (h : Amid s root ids failed s') : s'.1.failed = failed := by
  obtain ⟨requests, hrequests⟩ := h.instrumenter
  rw [hrequests]
  rfl

theorem informed (h : Amid s root ids failed s') (text : String) :
    Amid s root ids failed (informed text s') :=
  ⟨h.instrumenter, (sourcesAt_logged root s'.2 _).trans h.sources⟩

theorem sourceFiles_eq (h : Amid s root ids failed s') {files : List Path}
    (hfiles : sourceFiles .standard root s.2 = (.ok files, s.2)) :
    Job.act (sourceFiles .standard root) s' = (.ok files, s') := by
  rw [Job.act_apply, (sourceFiles_of_sourcesAt hfiles h.sources).1]

end Amid

section Pass

variable {s : Instrumenter × World} {root : Path} {files : List Path}

/-- What a launch into one file leaves. -/
theorem launchFile_spec (hi : Idle s.1)
    (hfiles : sourceFiles .standard root s.2 = (.ok files, s.2)) (mode : Mode) {p : Path}
    (hp : p ∈ files) (ids : IdMap) (failed : PathSet) {s' : Instrumenter × World}
    (hs : Amid s root ids failed s') (hl : Launch.Undisturbed root ⟨⟨p, root⟩, mode, s'⟩) :
    let us := (unitIn s root mode p).toList
    let ids' := ids.addKeys (keysIn s.1.config.detectors us)
    Launch.printed ⟨⟨p, root⟩, mode, s'⟩ =
        outputsFor s.1.config.detectors s.1.options.autoImports ids'
          (us.filter (reports s.1.config.detectors)) ∧
      ∃ injection s'', launchFile root mode p s' = (.ok injection, s'') ∧
        injection.Counts s.1.config.detectors us ∧
        Amid s root ids' (if (unitIn s root mode p).isSome then failed.erase p
          else failed.insert p) s'' := by
  intro us ids'
  obtain ⟨⟨requests, hrequests⟩, hw⟩ := hs
  obtain ⟨i, w⟩ := s'
  obtain rfl : i = s.1.leaving ids failed requests := hrequests
  let l : Launch := ⟨⟨p, root⟩, mode, (s.1.leaving ids failed requests, w)⟩
  have hidle : Idle l.start.1 := hi.leaving ids failed requests
  obtain ⟨hsame, htexts⟩ := sourceFiles_of_sourcesAt hfiles hw
  obtain ⟨hfile, hsupports⟩ := mem_sourceFiles hsame hp
  obtain ⟨lines, hbuild⟩ := build_file root (s.1.settings mode) hfile hsupports
  rw [htexts p hp] at hbuild
  obtain ⟨lines', hlaunch⟩ := launchFile_apply root mode p l.start
  have hsources : sourcesAt root (l.finish.2.logged lines') = sourcesAt root s.2 := by
    rw [sourcesAt_logged]
    exact hl.sources.trans hw
  cases ha : acceptedUnit (s.1.settings mode) root p (s.2.disk.readText s.2.cwd p) with
  | error e =>
    have hnone : unitIn s root mode p = none := by rw [unitIn, ha]; rfl
    have hus : us = [] := by simp [us, hnone]
    rw [ha] at hbuild
    obtain ⟨requests', lines'', hresult⟩ := l.launch_of_error hidle hbuild
    refine ⟨?_, {}, (l.finish.1, l.finish.2.logged lines'), ?_, ⟨?_, ?_⟩,
      ⟨⟨requests', ?_⟩, hsources⟩⟩
    · rw [l.printed_of_error hbuild, hus]
      rfl
    · rw [hlaunch, show launch [⟨p, root⟩] mode l.start = _ from hresult, Launch.finish, hresult]
      rfl
    · rw [hus]; rfl
    · rw [hus]; rfl
    · rw [Launch.finish, hresult, hnone]
      simp only [ids', hus]
      rfl
  | ok u =>
    have hsome : unitIn s root mode p = some u := unitIn_eq_some.2 ha
    have hus : us = [u] := by simp [us, hsome]
    rw [ha] at hbuild
    have hfits : ∀ v ∈ [u], v.Fits := by
      intro v hv
      rw [List.mem_singleton.1 hv]
      exact acceptedUnit_fits ha
    obtain ⟨n, hn⟩ := hl.prints
    obtain ⟨requests', lines'', hresult⟩ :=
      l.launch_of_ok hidle hfits hbuild (Prod.ext hn rfl)
    refine ⟨?_, ⟨1, foundIn s.1.config.detectors [u], n⟩,
      (l.finish.1, l.finish.2.logged lines'), ?_, ⟨?_, ?_⟩, ⟨⟨requests', ?_⟩, hsources⟩⟩
    · rw [l.printed_of_ok hidle hfits hbuild, hus, ← filter_reports_singleton]
      simp only [ids', hus]
      rfl
    · rw [hlaunch, show launch [⟨p, root⟩] mode l.start = _ from hresult, Launch.finish, hresult]
      rfl
    · rw [hus]; rfl
    · rw [hus]
    · rw [Launch.finish, hresult, hsome]
      simp only [ids', hus]
      rfl

theorem filterMap_cons_eq {α β : Type} (f : α → Option β) (x : α) (xs : List α) :
    (x :: xs).filterMap f = (f x).toList ++ xs.filterMap f := by
  cases h : f x <;> simp [h]

/-- Outputs of units that were processed one part after the other. -/
theorem outputsFor_append (ds : List MethodDetector) (auto : Bool) (ids : IdMap)
    (us vs : List CompilationUnit) :
    outputsFor ds auto (ids.addKeys (keysIn ds us)) (us.filter (reports ds)) ++
        outputsFor ds auto ((ids.addKeys (keysIn ds us)).addKeys (keysIn ds vs))
          (vs.filter (reports ds)) =
      outputsFor ds auto (ids.addKeys (keysIn ds (us ++ vs))) ((us ++ vs).filter (reports ds)) := by
  have hkept := outputsFor_addKeys ds auto ids
    (fun v hv => (List.mem_filter.1 hv).1 : ∀ v ∈ us.filter (reports ds), v ∈ us) (keysIn ds vs)
  rw [← hkept, ← IdMap.addKeys_append, ← keysIn_append, List.filter_append]
  simp only [outputsFor, List.map_append]

/-- What launches into files leave: the units that were accepted, one after the other. -/
theorem mapM_launchFile_spec (hi : Idle s.1)
    (hfiles : sourceFiles .standard root s.2 = (.ok files, s.2)) (mode : Mode)
    (ps : List Path) :
    (∀ p ∈ ps, p ∈ files) → ∀ (ids : IdMap) (failed : PathSet) (s' : Instrumenter × World),
      Amid s root ids failed s' → (∀ l ∈ launchesInto root mode ps s', l.Undisturbed root) →
      let us := ps.filterMap (unitIn s root mode)
      let ids' := ids.addKeys (keysIn s.1.config.detectors us)
      (launchesInto root mode ps s').flatMap (·.printed) =
          outputsFor s.1.config.detectors s.1.options.autoImports ids'
            (us.filter (reports s.1.config.detectors)) ∧
        ∃ injections s'', ps.mapM (launchFile root mode) s' = (.ok injections, s'') ∧
          (∀ vs a, a.Counts s.1.config.detectors vs →
            (injections.foldl Injection.add a).Counts s.1.config.detectors (vs ++ us)) ∧
          Amid s root ids' (failed.tried (fun p => (unitIn s root mode p).isSome) ps) s'' := by
  have hone := fun p hp ids failed s' =>
    @launchFile_spec s root files hi hfiles mode p hp ids failed s'
  -- what the unit in a file is does not matter from here on
  generalize unitIn s root mode = f at hone ⊢
  induction ps with
  | nil =>
    intro _ ids failed s' hs _
    exact ⟨rfl, [], s', rfl, fun vs a ha => by simpa using ha, hs⟩
  | cons p ps ih =>
    intro hps ids failed s' hs hls
    obtain ⟨hprinted, injection, s₁, hfirst, hcounts, hs₁⟩ :=
      hone p (hps p List.mem_cons_self) ids failed s' hs (hls _ List.mem_cons_self)
    rw [launchesInto, hfirst] at hls
    obtain ⟨hprinteds, injections, s₂, hrest, hcountss, hs₂⟩ :=
      ih (fun q hq => hps q (List.mem_cons_of_mem _ hq)) _ _ s₁ hs₁
        fun l hl => hls l (List.mem_cons_of_mem _ hl)
    simp only [filterMap_cons_eq]
    refine ⟨?_, injection :: injections, s₂, ?_, ?_, ?_⟩
    · rw [launchesInto, hfirst, List.flatMap_cons, hprinted, hprinteds]
      exact outputsFor_append _ _ ids _ _
    · rw [List.mapM_cons, Effect.bind_of_ok hfirst, Effect.bind_of_ok hrest, Effect.pure_apply]
    · intro vs a ha
      rw [List.foldl_cons, ← List.append_assoc]
      exact hcountss _ _ (ha.add hcounts)
    · rw [keysIn_append, IdMap.addKeys_append]
      exact hs₂

/-- What a pass over the files of interest leaves. -/
theorem launchFiles_spec (hi : Idle s.1)
    (hfiles : sourceFiles .standard root s.2 = (.ok files, s.2)) (mode : Mode)
    (wanted : Path → Bool) (ids : IdMap) (failed : PathSet) {s' : Instrumenter × World}
    (hs : Amid s root ids failed s')
    (hls : ∀ l ∈ launchesBelow root mode wanted s', l.Undisturbed root) :
    let us := (files.filter wanted).filterMap (unitIn s root mode)
    let ids' := ids.addKeys (keysIn s.1.config.detectors us)
    (launchesBelow root mode wanted s').flatMap (·.printed) =
        outputsFor s.1.config.detectors s.1.options.autoImports ids'
          (us.filter (reports s.1.config.detectors)) ∧
      ∃ injection s'', launchFiles root mode wanted s' = (.ok injection, s'') ∧
        injection.Counts s.1.config.detectors us ∧
        Amid s root ids' (failed.tried (fun p => (unitIn s root mode p).isSome)
          (files.filter wanted)) s'' := by
  have hlist := hs.sourceFiles_eq hfiles
  have hbelow : launchesBelow root mode wanted s' =
      launchesInto root mode (files.filter wanted) s' := by
    unfold launchesBelow
    rw [hlist]
  rw [hbelow] at hls
  obtain ⟨hprinted, injections, s'', hmap, hcounts, hs''⟩ := mapM_launchFile_spec hi hfiles mode
    (files.filter wanted) (fun p hp => (List.mem_filter.1 hp).1) ids failed s' hs hls
  refine ⟨hbelow ▸ hprinted, injections.foldl Injection.add {}, s'', ?_, ?_, hs''⟩
  · rw [launchFiles, Effect.bind_of_ok hlist, Effect.bind_of_ok hmap, Effect.pure_apply]
  · exact hcounts [] {} ⟨rfl, rfl⟩

/-- What trying the failed files again leaves. -/
theorem retryFailed_spec (hi : Idle s.1)
    (hfiles : sourceFiles .standard root s.2 = (.ok files, s.2)) (hd : PathSet.Distinct files)
    (wanted : Path → Bool) (ids : IdMap) {failed : PathSet}
    (hfailed : failed.Holds (files.filter wanted)) {s' : Instrumenter × World}
    (hs : Amid s root ids failed s') (hls : ∀ l ∈ launchesAgain root s', l.Undisturbed root) :
    let us := (files.filter wanted).filterMap (unitIn s root .lenient)
    let ids' := ids.addKeys (keysIn s.1.config.detectors us)
    (launchesAgain root s').flatMap (·.printed) =
        outputsFor s.1.config.detectors s.1.options.autoImports ids'
          (us.filter (reports s.1.config.detectors)) ∧
      ∃ injection s'', retryFailed root s' = (.ok injection, s'') ∧
        injection.Counts s.1.config.detectors us ∧
        Amid s root ids' (failed.tried (fun p => (unitIn s root .lenient p).isSome)
          (files.filter wanted)) s'' := by
  have hcontains : files.filter failed.contains = files.filter wanted := by
    refine List.filter_congr fun p hp => ?_
    rw [hfailed.contains, PathSet.any_same_filter hd hp]
  unfold launchesAgain at hls ⊢
  rw [hs.failed_eq] at hls ⊢
  rw [retryFailed, Effect.bind_of_ok (Job.instrumenter_apply _), hs.failed_eq]
  cases hempty : failed.isEmpty with
  | true =>
    have hnone : files.filter wanted = [] := by
      have hnil : failed.paths = [] := List.isEmpty_iff.1 hempty
      rw [← List.nil_perm, ← hnil]
      exact hfailed.perm
    rw [hnone]
    exact ⟨rfl, {}, s', rfl, ⟨rfl, rfl⟩, hs⟩
  | false =>
    simp only [hempty, Bool.false_eq_true, if_false] at hls ⊢
    rw [Effect.bind_of_ok (info_apply _ _), ← hcontains]
    exact launchFiles_spec hi hfiles .lenient failed.contains ids failed (hs.informed _) hls

/-- Every launch of the first pass is one of the run. -/
theorem mem_launchesEach (hfiles : sourceFiles .standard root s.2 = (.ok files, s.2))
    {ids : IdMap} {failed : PathSet} (mode : Mode)
    (hs : Amid s root ids failed (informed s!"Instrumenting {root.text} file by file" s))
    {l : Launch} (hl : l ∈ launchesBelow root mode (fun _ => true)
      (informed s!"Instrumenting {root.text} file by file" s)) :
    l ∈ launchesEach root mode s := by
  obtain ⟨injections, s', hmap⟩ := mapM_launchFile_ok root mode (files.filter fun _ => true)
    (informed s!"Instrumenting {root.text} file by file" s)
  have hpass : launchFiles root mode (fun _ => true)
      (informed s!"Instrumenting {root.text} file by file" s) =
      (.ok (injections.foldl Injection.add {}), s') := by
    rw [launchFiles, Effect.bind_of_ok (hs.sourceFiles_eq hfiles), Effect.bind_of_ok hmap,
      Effect.pure_apply]
  unfold launchesEach
  simp only [hpass]
  exact List.mem_append_left _ hl

/-- What a run file by file leaves before its end. -/
theorem injectEach_spec (hi : Idle s.1) (hfailed : s.1.failed = {})
    (hfiles : sourceFiles .standard root s.2 = (.ok files, s.2)) (hd : PathSet.Distinct files)
    (hls : ∀ l ∈ launchesEach root .strict s, l.Undisturbed root) :
    let again := files.filter fun p => !(unitIn s root .strict p).isSome
    let us := files.filterMap (unitIn s root .strict) ++ again.filterMap (unitIn s root .lenient)
    let ids := s.1.ids.addKeys (keysIn s.1.config.detectors us)
    (launchesEach root .strict s).flatMap (·.printed) =
        outputsFor s.1.config.detectors s.1.options.autoImports ids
          (us.filter (reports s.1.config.detectors)) ∧
      ∃ total retried failed s', injectEach root .strict s = (.ok (total, retried), s') ∧
        total.Counts s.1.config.detectors us ∧ Amid s root ids failed s' ∧
        PathSet.Holds ⟨retried⟩ (again.filter fun p => (unitIn s root .lenient p).isSome) ∧
        failed.Holds (again.filter fun p => !(unitIn s root .lenient p).isSome) := by
  have hamid : Amid s root s.1.ids {} (informed s!"Instrumenting {root.text} file by file" s) :=
    ⟨⟨s.1.requests, by rw [← hfailed]; rfl⟩, sourcesAt_logged root s.2 _⟩
  obtain ⟨hprinted, first, s₁, hfirst, hcounts, hs₁⟩ :=
    launchFiles_spec hi hfiles .strict (fun _ => true) s.1.ids {} hamid
      fun l hl => hls l (mem_launchesEach hfiles .strict hamid hl)
  rw [List.filter_true] at hprinted hcounts hs₁
  -- the first pass leaves the files that fail, and the second one takes those out that succeed
  have hholds := PathSet.holds_tried_fresh (fun p => (unitIn s root .strict p).isSome) files [] {}
    PathSet.holds_empty hd
  rw [List.nil_append] at hholds
  unfold launchesEach at hls ⊢
  simp only [hfirst] at hls ⊢
  obtain ⟨hprinteds, second, s₂, hsecond, hcountss, hs₂⟩ :=
    retryFailed_spec hi hfiles hd _ _ hholds hs₁ fun l hl => hls l (List.mem_append_right _ hl)
  have hdistinct : PathSet.Distinct (files.filter fun p => !(unitIn s root .strict p).isSome) :=
    hd.sublist List.filter_sublist
  have hleft := PathSet.holds_tried_again (fun p => (unitIn s root .lenient p).isSome) _ [] _
    hholds hdistinct
  rw [List.nil_append] at hleft
  refine ⟨?_, first.add second, _, _, s₂, ?_, hcounts.add hcountss, ?_,
    hholds.difference hdistinct hleft, hleft⟩
  · rw [List.flatMap_append, hprinted, hprinteds]
    exact outputsFor_append _ _ s.1.ids _ _
  · rw [injectEach, Effect.bind_of_ok (info_apply _ _), Effect.bind_of_ok hfirst,
      Effect.bind_of_ok (Job.instrumenter_apply _), Effect.bind_of_ok hsecond,
      Effect.bind_of_ok (Job.instrumenter_apply _), Effect.pure_apply, hs₁.failed_eq, hs₂.failed_eq]
    rfl
  · rw [keysIn_append, IdMap.addKeys_append]
    exact hs₂

end Pass

/-! ## The files that succeed -/

/-- A unit that is accepted in strict mode is accepted in lenient mode. -/
theorem unitIn_lenient {s : Instrumenter × World} {root p : Path} {u : CompilationUnit}
    (h : unitIn s root .strict p = some u) : unitIn s root .lenient p = some u := by
  rw [unitIn_eq_some, acceptedUnit_eq_ok] at h ⊢
  exact ⟨h.1, rfl⟩

/-- What one function finds and, where it finds nothing, another one that finds no less, is
    what the other one finds. -/
theorem perm_filterMap_again {α β : Type} {f g : α → Option β}
    (hfg : ∀ x y, f x = some y → g x = some y) (xs : List α) :
    (xs.filterMap f ++ (xs.filter fun x => !(f x).isSome).filterMap g).Perm (xs.filterMap g) := by
  induction xs with
  | nil => exact List.Perm.refl _
  | cons x xs ih =>
    cases hf : f x with
    | some y => simpa [hf, hfg x y hf] using ih.cons y
    | none =>
      cases hg : g x with
      | none => simpa [hf, hg] using ih
      | some y =>
        simp only [hf, hg, List.filterMap_cons, List.filter_cons, Option.isSome_none, Bool.not_false,
          if_true]
        exact List.perm_middle.trans (ih.cons y)

/-- The units of some models. -/
def unitsOf (ms : List Model) : List CompilationUnit := ms.flatMap fun m => m.units.map (·.1)

theorem unitsOf_filterMap_modelIn {s : Instrumenter × World} {root : Path} {files ps : List Path}
    (hfiles : sourceFiles .standard root s.2 = (.ok files, s.2)) (mode : Mode)
    (hps : ∀ p ∈ ps, p ∈ files) :
    unitsOf (ps.filterMap (modelIn s root mode)) = ps.filterMap (unitIn s root mode) := by
  induction ps with
  | nil => rfl
  | cons p ps ih =>
    rw [filterMap_cons_eq, filterMap_cons_eq, modelIn_eq hfiles mode (hps p List.mem_cons_self),
      ← ih fun q hq => hps q (List.mem_cons_of_mem _ hq)]
    cases unitIn s root mode p <;> simp [unitsOf, ofUnits]

theorem isSome_modelIn {s : Instrumenter × World} {root : Path} {files : List Path}
    (hfiles : sourceFiles .standard root s.2 = (.ok files, s.2)) (mode : Mode) {p : Path}
    (hp : p ∈ files) : (modelIn s root mode p).isSome = (unitIn s root mode p).isSome := by
  rw [modelIn_eq hfiles mode hp, Option.isSome_map]

/-- A model that can be built with the classpath can be built without it. -/
theorem modelIn_lenient {s : Instrumenter × World} {root : Path} {files : List Path}
    (hfiles : sourceFiles .standard root s.2 = (.ok files, s.2)) {p : Path} (hp : p ∈ files)
    {m : Model} (h : modelIn s root .strict p = some m) : modelIn s root .lenient p = some m := by
  rw [modelIn_eq hfiles .strict hp, Option.map_eq_some_iff] at h
  obtain ⟨u, hu, rfl⟩ := h
  rw [modelIn_eq hfiles .lenient hp, unitIn_lenient hu]
  rfl

theorem length_filterMap_modelIn {s : Instrumenter × World} {root : Path} {files : List Path}
    (hfiles : sourceFiles .standard root s.2 = (.ok files, s.2)) (mode : Mode) :
    (files.filterMap (modelIn s root mode)).length =
      (files.filterMap (unitIn s root mode)).length := by
  rw [List.length_filterMap_eq_countP, List.length_filterMap_eq_countP]
  exact List.countP_congr fun p hp => by rw [isSome_modelIn hfiles mode hp]

theorem foundIn_perm (ds : List MethodDetector) {us vs : List CompilationUnit} (h : us.Perm vs) :
    foundIn ds us = foundIn ds vs :=
  (h.flatMap_right _).length_eq

/-! ## Runs -/

/-- A run of detectors that have counted nothing. It can be prepared, the files below its root
    can be listed, and its launches can print and do not change the sources. -/
structure Steady (s s₁ : Instrumenter × World) (root : Path) (files : List Path) : Prop where
  counts : ∀ d ∈ s.1.config.detectors, d.detected = 0
  prepared : prepareRun s = (.ok root, s₁)
  disk : s₁.2.disk.WellFormed
  listed : sourceFiles .standard root s₁.2 = (.ok files, s₁.2)
  undisturbed : ∀ l ∈ launches s, l.Undisturbed root

/-- Whether a run is steady, found out by doing it. -/
def isSteady (s : Instrumenter × World) (root : Path) (files : List Path) : Bool :=
  s.1.config.detectors.all (·.detected = 0) && (prepareRun s).1 = .ok root &&
    decide (prepareRun s).2.2.disk.WellFormed &&
    (sourceFiles .standard root (prepareRun s).2.2).1 = .ok files &&
    (launches s).all fun l =>
      l.printing.1.isOk && sourcesAt root l.finish.2 = sourcesAt root l.start.2

theorem steady_of_isSteady {s : Instrumenter × World} {root : Path} {files : List Path}
    (h : isSteady s root files = true) : Steady s (prepareRun s).2 root files := by
  simp only [isSteady, Bool.and_eq_true, decide_eq_true_eq, List.all_eq_true] at h
  obtain ⟨⟨⟨⟨hcounts, hprepared⟩, hdisk⟩, hlisted⟩, hlaunches⟩ := h
  refine ⟨hcounts, Prod.ext hprepared rfl, hdisk, ?_, fun l hl => ?_⟩
  · rw [sourceFiles_fst] at hlisted
    exact sourceFiles_eq_ok.2 ⟨hlisted, rfl⟩
  · obtain ⟨hprints, hsources⟩ := hlaunches l hl
    exact ⟨Except.isOk_iff.1 hprints, hsources⟩

theorem Wired.idle {i i' : Instrumenter} (h : Wired i i')
    (hcounts : ∀ d ∈ i.config.detectors, d.detected = 0) : Idle i' :=
  ⟨h.source, by rw [h.config]; exact (idle_wire hcounts).counts⟩

theorem Steady.wired {s s₁ : Instrumenter × World} {root : Path} {files : List Path}
    (h : Steady s s₁ root files) : Wired s.1 s₁.1 :=
  prepareRun_of_ok h.prepared

theorem Steady.idle {s s₁ : Instrumenter × World} {root : Path} {files : List Path}
    (h : Steady s s₁ root files) : Idle s₁.1 :=
  h.wired.idle h.counts

section Run

variable {s s₁ : Instrumenter × World} {root : Path} {files : List Path}

/-- A run file by file, up to its end. -/
theorem run_each_spec (h : Steady s s₁ root files) (hmode : s.1.options.fileByFile = true) :
    let again := files.filter fun p => !(unitIn s₁ root .strict p).isSome
    let us := files.filterMap (unitIn s₁ root .strict) ++ again.filterMap (unitIn s₁ root .lenient)
    let ids := s.1.ids.addKeys (keysIn s₁.1.config.detectors us)
    printedBy s = outputsFor s₁.1.config.detectors s.1.options.autoImports ids
        (us.filter (reports s₁.1.config.detectors)) ∧
      (run s).2.1.ids = ids ∧
      (run s).2.1.failed.Holds (again.filter fun p => !(unitIn s₁ root .lenient p).isSome) ∧
      ∃ total retried s₂, injectBelow s₁.1 root s₁ = (.ok (total, retried), s₂) ∧
        (run s).1 = (finishRun s₂).1.map
          (fun idFile => ⟨total, retried, (run s).2.1.failed.paths, idFile⟩) ∧
        total.Counts s₁.1.config.detectors us ∧
        PathSet.Holds ⟨retried⟩ (again.filter fun p => (unitIn s₁ root .lenient p).isSome) := by
  intro again us ids
  have hoption : s₁.1.options.fileByFile = true := by rw [h.wired.options, hmode]
  have hstrict : s₁.1.mode = .strict := by
    rw [Instrumenter.mode, Instrumenter.usesClasspath, hoption, Bool.or_true, if_pos rfl]
  have hlaunches : launches s = launchesEach root .strict s₁ := by
    unfold launches
    simp only [h.prepared, hoption, if_true, hstrict]
  have hbelow : injectBelow s₁.1 root = injectEach root .strict := by
    rw [injectBelow, if_pos hoption, hstrict]
  have hundisturbed := h.undisturbed
  rw [hlaunches] at hundisturbed
  obtain ⟨hprinted, total, retried, failed, s₂, hinject, hcounts, hamid, hretried, hfailed⟩ :=
    injectEach_spec h.idle h.wired.failed h.listed (distinct_sourceFiles h.disk h.listed) hundisturbed
  rw [h.wired.ids, h.wired.options] at hprinted
  rw [h.wired.ids] at hamid
  rw [← hbelow] at hinject
  obtain ⟨hresult, hlast⟩ := run_of_injected h.prepared hinject
  rw [hlast]
  refine ⟨?_, ?_, ?_, total, retried, s₂, hinject, hresult, hcounts, hretried⟩
  · rw [printedBy, hlaunches]
    exact hprinted
  · obtain ⟨requests, hrequests⟩ := hamid.instrumenter
    rw [hrequests]
    rfl
  · rw [hamid.failed_eq]
    exact hfailed

/-- A run file by file divides the files. Those whose model can be built alone are printed,
    counted and given identifiers, first those that resolve their imports and then the others;
    the files of the others are those that were tried again with success. The files whose model
    cannot be built are those that failed, and nothing else comes of them. -/
theorem run_divides_files (h : Steady s s₁ root files) (hmode : s.1.options.fileByFile = true)
    (hids : s.1.ids.WellFormed) :
    let strict := modelIn s₁ root .strict
    let lenient := modelIn s₁ root .lenient
    let again := files.filter fun p => !(strict p).isSome
    let units := unitsOf (files.filterMap strict ++ again.filterMap lenient)
    let ds := s₁.1.config.detectors
    (∀ p ∈ files, ∀ m, strict p = some m → lenient p = some m) ∧
      printedBy s = outputsFor ds s.1.options.autoImports (run s).2.1.ids
        (units.filter (reports ds)) ∧
      (run s).2.1.ids.order = s.1.ids.order ++
        ((keysIn ds units).filter (· ∉ s.1.ids.order)).eraseDups ∧
      (run s).2.1.failed.Holds (files.filter fun p => !(lenient p).isSome) ∧
      ∃ total retried s₂, injectBelow s₁.1 root s₁ = (.ok (total, retried), s₂) ∧
        (run s).1 = (finishRun s₂).1.map
          (fun idFile => ⟨total, retried, (run s).2.1.failed.paths, idFile⟩) ∧
        total.units = (files.filterMap lenient).length ∧
        total.detected = foundIn ds (unitsOf (files.filterMap lenient)) ∧
        PathSet.Holds ⟨retried⟩
          (files.filter fun p => !(strict p).isSome && (lenient p).isSome) := by
  intro strict lenient again units ds
  obtain ⟨hprinted, hlast, hfailed, total, retried, s₂, hinject, hresult, hcounts, hretried⟩ :=
    run_each_spec h hmode
  have hagain : again = files.filter fun p => !(unitIn s₁ root .strict p).isSome :=
    List.filter_congr fun p hp => by rw [isSome_modelIn h.listed .strict hp]
  have hunits : units = files.filterMap (unitIn s₁ root .strict) ++
      again.filterMap (unitIn s₁ root .lenient) := by
    rw [← unitsOf_filterMap_modelIn h.listed .strict fun p hp => hp,
      ← unitsOf_filterMap_modelIn h.listed .lenient fun p hp => (List.mem_filter.1 hp).1]
    exact List.flatMap_append
  have hperm : units.Perm (files.filterMap (unitIn s₁ root .lenient)) := by
    rw [hunits, hagain]
    exact perm_filterMap_again (fun p u hu => unitIn_lenient hu) files
  have hsame : ∀ p ∈ files, ∀ m, strict p = some m → lenient p = some m :=
    fun p hp m hm => modelIn_lenient h.listed hp hm
  rw [← hagain, ← hunits] at hprinted hlast hcounts
  rw [← hagain] at hfailed hretried
  rw [← hlast] at hprinted
  refine ⟨hsame, hprinted, ?_, ?_, total, retried, s₂, hinject, hresult, ?_, ?_, ?_⟩
  · rw [hlast, IdMap.order_addKeys hids]
  · rw [List.filter_filter] at hfailed
    rwa [List.filter_congr fun p hp => ?_]
    rw [← isSome_modelIn h.listed .lenient hp]
    cases hstrict : strict p with
    | none => simp [lenient]
    | some m => simp [show modelIn s₁ root .lenient p = some m from hsame p hp m hstrict, lenient]
  · rw [hcounts.units, hperm.length_eq, length_filterMap_modelIn h.listed]
  · rw [hcounts.detected, foundIn_perm ds hperm,
      unitsOf_filterMap_modelIn h.listed .lenient fun p hp => hp]
  · rw [List.filter_filter] at hretried
    rwa [List.filter_congr fun p hp => ?_]
    rw [← isSome_modelIn h.listed .lenient hp, Bool.and_comm]

end Run

/-- A file with a text. -/
def sampleFile (loc : Location) (text : String) : Location × Entry := (loc, .file text.toUTF8)

/-- A project with its sources in a directory, and what else is on the disk, to be instrumented
    file by file. -/
def sample (dir : String) (entries : List (Location × Entry)) : Instrumenter × World :=
  ({ options := { projectDir := ⟨"/p"⟩, outputDir := ⟨"/out"⟩, fileByFile := true }
     config := { sourceDir := ⟨dir⟩, detectors := [{}]
                 routes := ⟨[(methodEntry, [⟨0, ⟨"L", "log"⟩⟩])]⟩ }
     resolver := .fixed [] },
   { disk := ⟨[(["p"], .directory), sampleFile ["p", "pom.xml"] "", (["p", dir], .directory)] ++
       entries⟩ })

/-- Of three files the first succeeds, the second does so when it is tried again, and the third
    fails. -/
theorem run_divides_files_sample :
    let s := sample "src" [sampleFile ["p", "src", "A.java"] "class A\x7bvoid m()\x7b\x7d\x7d",
      sampleFile ["p", "src", "B.java"] "import x.Y;", sampleFile ["p", "src", "C.java"] "class"]
    let files : List Path := [⟨"/p/src/A.java"⟩, ⟨"/p/src/B.java"⟩, ⟨"/p/src/C.java"⟩]
    Steady s (prepareRun s).2 ⟨"/p/src"⟩ files ∧
      (run s).2.1.failed.paths.Perm [⟨"/p/src/C.java"⟩] := by
  intro s files
  have hsteady : Steady s (prepareRun s).2 ⟨"/p/src"⟩ files :=
    steady_of_isSteady (by decide +kernel)
  obtain ⟨-, -, -, hfailed, -⟩ := run_divides_files hsteady rfl IdMap.wellFormed_empty
  have hlenient : (files.filter fun p =>
      !(modelIn (prepareRun s).2 ⟨"/p/src"⟩ .lenient p).isSome) = [⟨"/p/src/C.java"⟩] := by
    decide +kernel
  rw [hlenient] at hfailed
  exact ⟨hsteady, hfailed.perm⟩

/-- A steady run fails if it cannot write its id file. -/
theorem run_fails_without_log_directory :
    let s := sample "src" [sampleFile ["p", "src", "A.java"] "class A\x7bvoid m()\x7b\x7d\x7d",
      (["out"], .directory), sampleFile ["out", "log"] ""]
    Steady s (prepareRun s).2 ⟨"/p/src"⟩ [⟨"/p/src/A.java"⟩] ∧
      s.1.options.fileByFile = true ∧ s.1.ids.WellFormed ∧ (run s).1 = .error (.io .exists) := by
  intro s
  refine ⟨steady_of_isSteady (by decide +kernel), rfl, IdMap.wellFormed_empty, ?_⟩
  decide +kernel

end Tracepoint.Instrument
