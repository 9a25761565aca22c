import Tracepoint.Proofs.Instrument.Abort

/-!
# Two runs in lockstep

A second run of an instrumenter finds the identifiers that the first one left, and a disk on
which everything is printed. Launch by launch it builds the same models, finds the same elements
and comes to the same end, and leaves the identifiers and the disk as they are.

Results:

* `Follows`: a state of the second run that follows one of the first run.
* `Launch.Repeats`: what the second run has to find where the first one prints.
* `launch_follows`: one launch.
* `injectBelow_follows`: all launches of a run.
-/

namespace Tracepoint

theorem Except.mapM_congr {α β : Type} {f g : α → Except Error β} {xs : List α}
    (h : ∀ x ∈ xs, f x = g x) : xs.mapM f = xs.mapM g := by
  induction xs with
  | nil => rfl
  | cons x xs ih =>
    obtain ⟨hx, hxs⟩ := List.forall_mem_cons.1 h
    rw [List.mapM_cons, List.mapM_cons, hx, ih hxs]

namespace Instrument

open Config Detect Model Source

/-! ## States -/

/-- A state of a second run that follows one of a first run. All that matters to a launch is the
    same, except that the second run has all identifiers already, and a disk of its own. -/
structure Follows (ids : IdMap) (d : Disk) (root : Path) (a b : Instrumenter × World) : Prop where
  idle : Idle a.1
  source : b.1.source = .instrumenter
  options : b.1.options = a.1.options
  config : b.1.config = a.1.config
  classpath : b.1.classpath = a.1.classpath
  failed : b.1.failed = a.1.failed
  ids : b.1.ids = ids
  disk : b.2.disk = d
  cwd : b.2.cwd = a.2.cwd
  sources : sourcesAt root b.2 = sourcesAt root a.2

/-- An injection that writes nothing. -/
def Injection.unwritten (injection : Injection) : Injection := { injection with written := 0 }

theorem Injection.unwritten_foldl (injections : List Injection) (a : Injection) :
    (injections.foldl Injection.add a).unwritten =
      (injections.map Injection.unwritten).foldl Injection.add a.unwritten := by
  induction injections generalizing a with
  | nil => rfl
  | cons b injections ih => exact ih (a.add b)

/-- Printing that writes nothing where it wrote something before, and fails where it failed. -/
inductive Reprinted : Except Error Nat → Except Error Nat → Prop
  | ok (n : Nat) : Reprinted (.ok n) (.ok 0)
  | error (e e' : Error) : Reprinted (.error e) (.error e')

theorem Reprinted.isOk {r r' : Except Error Nat} (h : Reprinted r r') : r'.isOk = r.isOk := by
  cases h <;> rfl

theorem Reprinted.injection {r r' : Except Error Nat} (h : Reprinted r r') (units found : Nat) :
    (r'.map (Injection.mk units found)).toOption =
      (r.map (Injection.mk units found)).toOption.map Injection.unwritten := by
  cases h <;> rfl

/-- A launch leaves the sources as they are, and later, on a disk with all identifiers given
    out, what it prints is there. -/
structure Launch.Repeats (ids : IdMap) (d : Disk) (root : Path) (l : Launch) : Prop where
  sources : sourcesAt root l.finish.2 = sourcesAt root l.start.2
  cwd : l.finish.2.cwd = l.start.2.cwd
  ids : ∃ keys, ids = l.finish.1.ids.addKeys keys
  prints : ∀ v : World, v.disk = d → v.cwd = l.start.2.cwd → ∃ result lines,
    Model.print l.start.1.sourceOutput ⟨l.printed⟩ v = (result, v.logged lines) ∧
      Reprinted l.printing.1 result

section Lockstep

variable {ids : IdMap} {d : Disk} {root : Path} {a b : Instrumenter × World} {files : List Path}

namespace Follows

theorem idle_second (h : Follows ids d root a b) : Idle b.1 :=
  ⟨h.source, by rw [h.config]; exact h.idle.counts⟩

theorem settings (h : Follows ids d root a b) (mode : Mode) :
    b.1.settings mode = a.1.settings mode := by
  rw [Instrumenter.settings, Instrumenter.settings, h.classpath, h.options]

theorem sourceOutput (h : Follows ids d root a b) : b.1.sourceOutput = a.1.sourceOutput := by
  rw [Instrumenter.sourceOutput, Instrumenter.sourceOutput, h.options, h.config]

theorem logged (h : Follows ids d root a b) (lines lines' : List LogLine) :
    Follows ids d root (a.1, a.2.logged lines) (b.1, b.2.logged lines') where
  idle := h.idle
  source := h.source
  options := h.options
  config := h.config
  classpath := h.classpath
  failed := h.failed
  ids := h.ids
  disk := h.disk
  cwd := h.cwd
  sources := by
    show sourcesAt root (b.2.logged _) = sourcesAt root (a.2.logged _)
    rw [sourcesAt_logged, sourcesAt_logged, h.sources]

/-- What a launch leaves, if it leaves the sources as they are. -/
theorem leaving (h : Follows ids d root a b) {idsA : IdMap} {failed : PathSet}
    {requests requests' : List Request} {w : World} {lines : List LogLine}
    (hcwd : w.cwd = a.2.cwd) (hsources : sourcesAt root w = sourcesAt root a.2) :
    Follows ids d root (a.1.leaving idsA failed requests, w)
      (b.1.leaving ids failed requests', b.2.logged lines) where
  idle := h.idle.leaving _ _ _
  source := h.source
  options := h.options
  config := h.config
  classpath := h.classpath
  failed := rfl
  ids := rfl
  disk := h.disk
  cwd := h.cwd.trans hcwd.symm
  sources := by
    show sourcesAt root (b.2.logged lines) = _
    rw [sourcesAt_logged, h.sources, hsources]

theorem listed (h : Follows ids d root a b)
    (hfiles : sourceFiles .standard root a.2 = (.ok files, a.2)) :
    sourceFiles .standard root b.2 = (.ok files, b.2) ∧
      ∀ p ∈ files, b.2.disk.readText b.2.cwd p = a.2.disk.readText a.2.cwd p :=
  sourceFiles_of_sourcesAt hfiles h.sources

end Follows

/-! ## One launch -/

/-- A launch into the whole tree, or into one of its files. -/
inductive Aims (root : Path) (files : List Path) : SourceUnit → Prop
  | tree : Aims root files (.tree root)
  | file {p : Path} (hp : p ∈ files) : Aims root files ⟨p, root⟩

theorem Aims.root_eq {source : SourceUnit} (h : Aims root files source) : source.root = root := by
  cases h <;> rfl

/-- The files that a launch is into are the same in all worlds that list the same files. -/
theorem Aims.exists_listing {source : SourceUnit} (h : Aims root files source) :
    ∃ ps, (∀ p ∈ ps, p ∈ files) ∧ ∀ w, sourceFiles .standard root w = (.ok files, w) →
      listing .standard source.path w.disk w.cwd = .ok ps := by
  cases h with
  | tree => exact ⟨files, fun p hp => hp, fun w hfiles => (sourceFiles_eq_ok.1 hfiles).1⟩
  | @file p hp =>
    refine ⟨[p], by simpa using hp, fun w hfiles => ?_⟩
    obtain ⟨hfile, hsupports⟩ := mem_sourceFiles hfiles hp
    exact (sourceFiles_eq_ok.1 (sourceFiles_of_isFile hfile hsupports)).1

/-- The models of a launch are the same in both runs. -/
theorem Follows.building (h : Follows ids d root a b)
    (hfiles : sourceFiles .standard root a.2 = (.ok files, a.2)) {source : SourceUnit}
    (hsource : Aims root files source) (mode : Mode) :
    (Launch.building ⟨source, mode, b⟩).1 = (Launch.building ⟨source, mode, a⟩).1 := by
  obtain ⟨hfiles', htexts⟩ := h.listed hfiles
  obtain ⟨lines, ha⟩ := Launch.exists_building ⟨source, mode, a⟩
  obtain ⟨lines', hb⟩ := Launch.exists_building ⟨source, mode, b⟩
  have hunit : ∀ p ∈ files, Launch.unitAt ⟨source, mode, b⟩ p = Launch.unitAt ⟨source, mode, a⟩ p := by
    intro p hp
    unfold Launch.unitAt
    simp only [htexts p hp, h.options]
  obtain ⟨ps, hps, hlisting⟩ := hsource.exists_listing
  rw [ha, hb, show Launch.files ⟨source, mode, a⟩ = .ok ps from hlisting a.2 hfiles,
    show Launch.files ⟨source, mode, b⟩ = .ok ps from hlisting b.2 hfiles']
  show (ps.mapM _ >>= ofParsed (b.1.settings mode)) = (ps.mapM _ >>= ofParsed (a.1.settings mode))
  rw [h.settings, Except.mapM_congr fun p hp => hunit p (hps p hp)]

/-- The units that a launch prints are the same in both runs. -/
theorem Follows.printed (h : Follows ids d root a b) {source : SourceUnit} {mode : Mode}
    {us : List CompilationUnit} {auto : Bool} (hus : ∀ u ∈ us, u.Fits) {w w' : World}
    (ha : Launch.building ⟨source, mode, a⟩ = (.ok (ofUnits us auto), w))
    (hb : Launch.building ⟨source, mode, b⟩ = (.ok (ofUnits us auto), w'))
    (hids : ∃ keys, ids = (a.1.ids.addKeys (keysIn a.1.config.detectors us)).addKeys keys) :
    b.1.ids.addKeys (keysIn b.1.config.detectors us) = ids ∧
      Launch.printed ⟨source, mode, b⟩ = Launch.printed ⟨source, mode, a⟩ := by
  obtain ⟨keys, hkeys⟩ := hids
  have hsettled : b.1.ids.addKeys (keysIn b.1.config.detectors us) = ids := by
    rw [h.ids, h.config]
    refine IdMap.addKeys_of_isSome fun key hkey => ?_
    obtain ⟨id, hid⟩ := Option.isSome_iff_exists.1 (IdMap.isSome_get?_addKeys a.1.ids hkey)
    rw [hkeys, IdMap.kept_addKeys _ keys _ _ hid]
    rfl
  refine ⟨hsettled, ?_⟩
  rw [Launch.printed_of_ok _ h.idle hus ha, Launch.printed_of_ok _ h.idle_second hus hb]
  show (if 0 < foundIn b.1.config.detectors us then
      outputsFor b.1.config.detectors auto (b.1.ids.addKeys (keysIn b.1.config.detectors us)) us
    else []) = (if 0 < foundIn a.1.config.detectors us then
      outputsFor a.1.config.detectors auto (a.1.ids.addKeys (keysIn a.1.config.detectors us)) us
    else [])
  rw [hsettled, hkeys, h.config, outputsFor_addKeys _ _ _ fun u hu => hu]

/-- A launch of the second run comes to the same end as that of the first run, and leaves the
    disk as it is. -/
theorem launch_follows (h : Follows ids d root a b)
    (hfiles : sourceFiles .standard root a.2 = (.ok files, a.2)) {source : SourceUnit}
    (hsource : Aims root files source) (mode : Mode)
    (hl : Launch.Repeats ids d root ⟨source, mode, a⟩) :
    (launch [source] mode b).1.toOption =
        (launch [source] mode a).1.toOption.map Injection.unwritten ∧
      Follows ids d root (launch [source] mode a).2 (launch [source] mode b).2 := by
  let la : Launch := ⟨source, mode, a⟩
  let lb : Launch := ⟨source, mode, b⟩
  have hbuilding : lb.building.1 = la.building.1 := h.building hfiles hsource mode
  obtain ⟨lines, hworld⟩ := lb.exists_building
  replace hworld : lb.building.2 = b.2.logged lines := by rw [hworld]
  have hcwd : (launch [source] mode a).2.2.cwd = a.2.cwd := hl.cwd
  have hsources : sourcesAt root (launch [source] mode a).2.2 = sourcesAt root a.2 := hl.sources
  rcases la.building_cases with ⟨e, w, ha⟩ | ⟨us, w, hus, ha⟩
  · -- the model cannot be built
    have hb : lb.building = (.error e, b.2.logged lines) := by
      rw [ha] at hbuilding
      exact Prod.ext hbuilding hworld
    obtain ⟨requests, lines₁, hla⟩ := la.launch_of_error h.idle ha
    obtain ⟨requests', lines₂, hlb⟩ := lb.launch_of_error h.idle_second hb
    rw [show launch [source] mode a = _ from hla] at hcwd hsources ⊢
    rw [show launch [source] mode b = _ from hlb, World.logged_logged]
    refine ⟨rfl, ?_⟩
    show Follows ids d root _ (b.1.leaving b.1.ids (b.1.failed.insert source.path) requests', _)
    rw [h.failed, h.ids]
    exact h.leaving hcwd hsources
  · have hb : lb.building = (.ok (ofUnits us a.1.options.autoImports), b.2.logged lines) := by
      rw [ha] at hbuilding
      exact Prod.ext hbuilding hworld
    have hfinish : la.finish.1.ids = a.1.ids.addKeys (keysIn a.1.config.detectors us) := by
      obtain ⟨succeeded, hsettled⟩ := la.finish_instrumenter
      rw [hsettled, la.process_of_ok h.idle.source hus ha]
      rfl
    have hids := hl.ids
    rw [hfinish] at hids
    obtain ⟨hsettled, hprinted⟩ := h.printed hus ha hb hids
    -- in the second run everything is printed already
    have hprinting : ∃ result lines', lb.printing = (result, b.2.logged lines') ∧
        Reprinted la.printing.1 result := by
      obtain ⟨result, lines', hprint, hresult⟩ := hl.prints (b.2.logged lines) h.disk h.cwd
      refine ⟨result, lines ++ lines', ?_, hresult⟩
      rw [Launch.printing, lb.world_process, hworld, hprinted, ← World.logged_logged]
      rw [← h.sourceOutput] at hprint
      exact hprint
    obtain ⟨result, lines', hprintb, hresult⟩ := hprinting
    obtain ⟨requests, lines₁, hla⟩ := la.launch_of_built h.idle hus ha
    obtain ⟨requests', lines₂, hlb⟩ := lb.launch_of_built h.idle_second hus hb
    rw [hprintb, World.logged_logged] at hlb
    rw [show launch [source] mode a = _ from hla] at hcwd hsources ⊢
    rw [show launch [source] mode b = _ from hlb]
    refine ⟨?_, ?_⟩
    · show (result.map (Injection.mk us.length (foundIn b.1.config.detectors us))).toOption = _
      rw [h.config]
      exact hresult.injection _ _
    · show Follows ids d root _ (b.1.leaving (b.1.ids.addKeys (keysIn b.1.config.detectors us))
        (if result.isOk then b.1.failed.erase source.path else b.1.failed.insert source.path)
        requests', _)
      rw [hsettled, hresult.isOk, h.failed]
      exact h.leaving hcwd hsources

/-! ## All launches -/

theorem launchFile_follows (h : Follows ids d root a b)
    (hfiles : sourceFiles .standard root a.2 = (.ok files, a.2)) {p : Path} (hp : p ∈ files)
    (mode : Mode) (hl : Launch.Repeats ids d root ⟨⟨p, root⟩, mode, a⟩) :
    ∃ injection a' b', launchFile root mode p a = (.ok injection, a') ∧
      launchFile root mode p b = (.ok injection.unwritten, b') ∧ Follows ids d root a' b' ∧
        sourceFiles .standard root a'.2 = (.ok files, a'.2) := by
  obtain ⟨hresult, hfollows⟩ := launch_follows h hfiles (.file hp) mode hl
  obtain ⟨lines, ha⟩ := launchFile_apply root mode p a
  obtain ⟨lines', hb⟩ := launchFile_apply root mode p b
  rw [hresult] at hb
  refine ⟨_, _, _, ha, ?_, hfollows.logged lines lines', ?_⟩
  · rw [hb]
    cases (launch [⟨p, root⟩] mode a).1 <;> rfl
  · refine (sourceFiles_of_sourcesAt hfiles ?_).1
    show sourcesAt root ((launch [⟨p, root⟩] mode a).2.2.logged lines) = _
    rw [sourcesAt_logged]
    exact hl.sources

theorem mapM_launchFile_follows (mode : Mode) (ps : List Path) :
    ∀ {a b : Instrumenter × World}, Follows ids d root a b →
      sourceFiles .standard root a.2 = (.ok files, a.2) → (∀ p ∈ ps, p ∈ files) →
      (∀ l ∈ launchesInto root mode ps a, l.Repeats ids d root) →
      ∃ injections a' b', ps.mapM (launchFile root mode) a = (.ok injections, a') ∧
        ps.mapM (launchFile root mode) b = (.ok (injections.map Injection.unwritten), b') ∧
          Follows ids d root a' b' ∧ sourceFiles .standard root a'.2 = (.ok files, a'.2) := by
  induction ps with
  | nil => exact fun h hfiles _ _ => ⟨[], _, _, rfl, rfl, h, hfiles⟩
  | cons p ps ih =>
    intro a b h hfiles hps hls
    obtain ⟨hp, hps⟩ := List.forall_mem_cons.1 hps
    obtain ⟨injection, a₁, b₁, ha, hb, h₁, hfiles₁⟩ :=
      launchFile_follows h hfiles hp mode (hls _ List.mem_cons_self)
    rw [launchesInto, ha] at hls
    obtain ⟨injections, a₂, b₂, ha', hb', h₂, hfiles₂⟩ :=
      ih h₁ hfiles₁ hps fun l hl => hls l (List.mem_cons_of_mem _ hl)
    refine ⟨injection :: injections, a₂, b₂, ?_, ?_, h₂, hfiles₂⟩
    · rw [List.mapM_cons, Effect.bind_of_ok ha, Effect.bind_of_ok ha', Effect.pure_apply]
    · rw [List.mapM_cons, Effect.bind_of_ok hb, Effect.bind_of_ok hb', Effect.pure_apply]
      rfl

theorem launchFiles_follows (h : Follows ids d root a b)
    (hfiles : sourceFiles .standard root a.2 = (.ok files, a.2)) (mode : Mode)
    (wanted : Path → Bool)
    (hls : ∀ l ∈ launchesBelow root mode wanted a, l.Repeats ids d root) :
    ∃ injection a' b', launchFiles root mode wanted a = (.ok injection, a') ∧
      launchFiles root mode wanted b = (.ok injection.unwritten, b') ∧ Follows ids d root a' b' ∧
        sourceFiles .standard root a'.2 = (.ok files, a'.2) := by
  have hlista : Job.act (sourceFiles .standard root) a = (.ok files, a) := by
    rw [Job.act_apply, hfiles]
  have hlistb : Job.act (sourceFiles .standard root) b = (.ok files, b) := by
    rw [Job.act_apply, (h.listed hfiles).1]
  unfold launchesBelow at hls
  rw [hlista] at hls
  obtain ⟨injections, a', b', ha, hb, h', hfiles'⟩ := mapM_launchFile_follows mode
    (files.filter wanted) h hfiles (fun p hp => (List.mem_filter.1 hp).1) hls
  refine ⟨injections.foldl Injection.add {}, a', b', ?_, ?_, h', hfiles'⟩
  · rw [launchFiles, Effect.bind_of_ok hlista, Effect.bind_of_ok ha, Effect.pure_apply]
  · rw [launchFiles, Effect.bind_of_ok hlistb, Effect.bind_of_ok hb, Effect.pure_apply,
      Injection.unwritten_foldl]
    rfl

theorem retryFailed_follows (h : Follows ids d root a b)
    (hfiles : sourceFiles .standard root a.2 = (.ok files, a.2))
    (hls : ∀ l ∈ launchesAgain root a, l.Repeats ids d root) :
    ∃ injection a' b', retryFailed root a = (.ok injection, a') ∧
      retryFailed root b = (.ok injection.unwritten, b') ∧ Follows ids d root a' b' := by
  unfold launchesAgain at hls
  rw [retryFailed, Effect.bind_of_ok (Job.instrumenter_apply _),
    Effect.bind_of_ok (Job.instrumenter_apply _), h.failed]
  split_ifs at hls ⊢
  · exact ⟨{}, a, b, rfl, rfl, h⟩
  · rw [Effect.bind_of_ok (info_apply _ _), Effect.bind_of_ok (info_apply _ _)]
    have hfiles' := (sourceFiles_of_sourcesAt hfiles (sourcesAt_logged root a.2 [⟨.info,
      s!"Retrying {a.1.failed.size} files without classpath"⟩])).1
    obtain ⟨injection, a', b', ha, hb, h', -⟩ :=
      launchFiles_follows (h.logged _ _) hfiles' .lenient a.1.failed.contains hls
    exact ⟨injection, a', b', ha, hb, h'⟩

/-- A second run file by file. -/
theorem injectEach_follows (h : Follows ids d root a b)
    (hfiles : sourceFiles .standard root a.2 = (.ok files, a.2)) (mode : Mode)
    (hls : ∀ l ∈ launchesEach root mode a, l.Repeats ids d root) :
    ∃ total retried a' b', injectEach root mode a = (.ok (total, retried), a') ∧
      injectEach root mode b = (.ok (total.unwritten, retried), b') ∧
        Follows ids d root a' b' := by
  let a₀ := informed s!"Instrumenting {root.text} file by file" a
  have h₀ : Follows ids d root a₀ (informed s!"Instrumenting {root.text} file by file" b) :=
    h.logged _ _
  have hfiles₀ : sourceFiles .standard root a₀.2 = (.ok files, a₀.2) :=
    (sourceFiles_of_sourcesAt hfiles (sourcesAt_logged root a.2 _)).1
  -- the first pass ends, so all launches of both passes count
  obtain ⟨first, a₁, ha₁⟩ := exists_launchFiles hfiles₀ mode fun _ => true
  rw [launchesEach_of_ok ha₁, List.forall_mem_append] at hls
  obtain ⟨first', a₁', b₁, ha₁', hb₁, h₁, hfiles₁⟩ :=
    launchFiles_follows h₀ hfiles₀ mode (fun _ => true) hls.1
  obtain ⟨hfirst, rfl⟩ := Prod.mk.inj (ha₁.symm.trans ha₁')
  obtain rfl := Except.ok.inj hfirst
  obtain ⟨second, a₂, b₂, ha₂, hb₂, h₂⟩ := retryFailed_follows h₁ hfiles₁ hls.2
  refine ⟨first.add second, (a₁.1.failed.difference a₂.1.failed).paths, a₂, b₂, ?_, ?_, h₂⟩
  · rw [injectEach, Effect.bind_of_ok (info_apply _ _), Effect.bind_of_ok ha₁,
      Effect.bind_of_ok (Job.instrumenter_apply _), Effect.bind_of_ok ha₂,
      Effect.bind_of_ok (Job.instrumenter_apply _), Effect.pure_apply]
  · rw [injectEach, Effect.bind_of_ok (info_apply _ _), Effect.bind_of_ok hb₁,
      Effect.bind_of_ok (Job.instrumenter_apply _), Effect.bind_of_ok hb₂,
      Effect.bind_of_ok (Job.instrumenter_apply _), Effect.pure_apply, h₁.failed, h₂.failed]
    rfl

/-- A second batch run, if the first one succeeds. -/
theorem injectAll_follows (h : Follows ids d root a b)
    (hfiles : sourceFiles .standard root a.2 = (.ok files, a.2)) (mode : Mode)
    (hl : Launch.Repeats ids d root
      ⟨.tree root, mode, informed s!"Instrumenting {root.text}" a⟩)
    {total : Injection} {retried : List Path} {a' : Instrumenter × World}
    (ha : injectAll root mode a = (.ok (total, retried), a')) :
    ∃ b', injectAll root mode b = (.ok (total.unwritten, retried), b') ∧
      Follows ids d root a' b' := by
  have h₀ : Follows ids d root (informed s!"Instrumenting {root.text}" a)
      (informed s!"Instrumenting {root.text}" b) := h.logged _ _
  have hfiles₀ : sourceFiles .standard root (informed s!"Instrumenting {root.text}" a).2 =
      (.ok files, (informed s!"Instrumenting {root.text}" a).2) :=
    (sourceFiles_of_sourcesAt hfiles (sourcesAt_logged root a.2 _)).1
  obtain ⟨hresult, hfollows⟩ := launch_follows h₀ hfiles₀ .tree mode hl
  rw [injectAll, Effect.bind_of_ok (info_apply _ _)] at ha ⊢
  obtain ⟨injection, a₁, ha₁, hlast⟩ := Effect.bind_eq_ok.1 ha
  cases hlast
  rw [ha₁] at hresult hfollows
  rcases hb : launch [.tree root] mode (informed s!"Instrumenting {root.text}" b) with ⟨e | _, b'⟩
  · rw [hb] at hresult
    cases hresult
  · rw [hb] at hresult hfollows
    obtain rfl := Option.some.inj hresult
    exact ⟨b', Effect.bind_of_ok hb _, hfollows⟩

/-- The part of a second run that launches, if that of the first one succeeds. -/
theorem injectBelow_follows (h : Follows ids d root a b)
    (hfiles : sourceFiles .standard root a.2 = (.ok files, a.2)) {i : Instrumenter}
    (hls : ∀ l ∈ launchesOf i root a, l.Repeats ids d root) {total : Injection}
    {retried : List Path} {a' : Instrumenter × World}
    (ha : injectBelow i root a = (.ok (total, retried), a')) :
    ∃ b', injectBelow i root b = (.ok (total.unwritten, retried), b') ∧
      Follows ids d root a' b' := by
  unfold launchesOf at hls
  unfold injectBelow at ha ⊢
  split_ifs at hls ha ⊢
  · obtain ⟨total', retried', a'', b', ha', hb', h'⟩ := injectEach_follows h hfiles i.mode hls
    obtain ⟨hresult, rfl⟩ := Prod.mk.inj (ha.symm.trans ha')
    cases hresult
    exact ⟨b', hb', h'⟩
  · exact injectAll_follows h hfiles i.mode (hls _ (List.mem_singleton_self _)) ha

end Lockstep

end Instrument

end Tracepoint
