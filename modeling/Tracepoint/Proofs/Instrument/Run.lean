import Tracepoint.Instrument.Run
import Tracepoint.Proofs.Instrument.Launch

/-!
# Runs as launches

A run prepares its output, and then it is a sequence of launches: one for the whole tree,
or one for each file and one more for each file that is tried again. At the end it writes
the id file and the properties of the logger, and that changes no instrumenter.

Results:

* `prepareRun_of_ok`: preparing changes nothing that identifiers or edits depend on, except
  that detectors get their listeners.
* `run_of_ok`: a run after its preparation.
* `keeps_injectBelow`: what every launch keeps, the part of a run that launches keeps.
* `finishRun_of_ok`: what a run writes at its end.
-/

namespace Tracepoint.Instrument

open Config Detect Model Source

/-! ## Preparing a run -/

/-- Preparing changes neither the identifiers nor how the instrumenter was set up, and nothing
    fails that had not failed before. -/
structure Prepared (i i' : Instrumenter) : Prop where
  ids : i'.ids = i.ids
  options : i'.options = i.options
  config : i'.config = i.config
  failed : i'.failed = i.failed

instance : Std.Refl Prepared := ⟨fun _ => ⟨rfl, rfl, rfl, rfl⟩⟩

instance : IsTrans Instrumenter Prepared where
  trans := fun _ _ _ h h' => ⟨h'.ids.trans h.ids, h'.options.trans h.options,
    h'.config.trans h.config, h'.failed.trans h.failed⟩

theorem prepared_prepareOutput : Job.Keeps Prepared prepareOutput := by
  refine Job.Keeps.bind Job.Keeps.instrumenter fun i => ?_
  dsimp only
  split_ifs
  · exact Job.Keeps.bind (Job.Keeps.act _) fun _ =>
      Job.Keeps.bind (Job.Keeps.change fun _ => ⟨rfl, rfl, rfl, rfl⟩) fun _ => Job.Keeps.act _
  · exact Job.Keeps.act _

theorem prepared_resolveClasspath : Job.Keeps Prepared resolveClasspath :=
  Job.Keeps.bind Job.Keeps.instrumenter fun _ => Job.Keeps.bind (Job.Keeps.act _) fun _ =>
    Job.Keeps.change fun _ => ⟨rfl, rfl, rfl, rfl⟩

/-- Preparing a run up to the wiring of its detectors. -/
def prepareRoot : Job Path := do
  prepareOutput
  let i ← Job.instrumenter
  if i.usesClasspath then resolveClasspath
  Job.act (Action.absolute (i.options.sourceRoot i.config.sourceDir))

theorem prepared_prepareRoot : Job.Keeps Prepared prepareRoot := by
  refine Job.Keeps.bind prepared_prepareOutput fun _ => Job.Keeps.bind Job.Keeps.instrumenter
    fun i => ?_
  dsimp only
  split_ifs
  · exact Job.Keeps.bind prepared_resolveClasspath fun _ => Job.Keeps.act _
  · exact Job.Keeps.act _

/-- The state of a run before anything was tried. -/
def untried (s : Instrumenter × World) : Instrumenter × World := ({ s.1 with failed := {} }, s.2)

theorem prepareRun_eq (s : Instrumenter × World) :
    prepareRun s = (do
      let root ← prepareRoot
      Job.change (·.wire)
      return root : Job Path) (untried s) := by
  rw [prepareRun, Effect.bind_of_ok (Job.change_apply _ _), prepareRoot]
  simp only [bind_assoc]
  refine congrFun (congrArg _ (funext fun _ => congrArg _ (funext fun i => ?_))) _
  split_ifs <;> simp only [bind_assoc]

/-- A run that is prepared has its detectors wired, and otherwise it is set up as before. -/
structure Wired (i i' : Instrumenter) : Prop where
  source : i'.source = .instrumenter
  ids : i'.ids = i.ids
  options : i'.options = i.options
  config : i'.config = i.wire.config
  failed : i'.failed = {}

theorem prepareRun_of_ok {s s₁ : Instrumenter × World} {root : Path}
    (h : prepareRun s = (.ok root, s₁)) : Wired s.1 s₁.1 := by
  rw [prepareRun_eq] at h
  obtain ⟨root', s', hroot, h⟩ := Effect.bind_eq_ok.1 h
  have hprepared := prepared_prepareRoot (untried s)
  rw [hroot] at hprepared
  rw [Effect.bind_of_ok (Job.change_apply _ _)] at h
  cases h
  refine ⟨rfl, hprepared.ids, hprepared.options, ?_, hprepared.failed⟩
  have hconfig : s'.1.config = s.1.config := hprepared.config
  simp only [Instrumenter.wire, Instrumenter.setDetectors, hconfig]

theorem ids_prepareRun (s : Instrumenter × World) : (prepareRun s).2.1.ids = s.1.ids := by
  have hprepared := prepared_prepareRoot (untried s)
  rw [prepareRun_eq]
  rcases hroot : prepareRoot (untried s) with ⟨e | root, s'⟩
  · rw [Effect.bind_of_error hroot]
    rw [hroot] at hprepared
    exact hprepared.ids
  · rw [Effect.bind_of_ok hroot, Effect.bind_of_ok (Job.change_apply _ _)]
    rw [hroot] at hprepared
    exact hprepared.ids

/-! ## The launches of a run -/

/-- A launch into one file ends where the launch does, and gives nothing if it fails. -/
theorem launchFile_apply (root : Path) (mode : Mode) (p : Path) (s : Instrumenter × World) :
    ∃ lines, launchFile root mode p s = (.ok ((launch [⟨p, root⟩] mode s).1.toOption.getD {}),
      ((launch [⟨p, root⟩] mode s).2.1, (launch [⟨p, root⟩] mode s).2.2.logged lines)) := by
  rw [launchFile, Effect.bind_of_ok (Job.attempt_apply _ _)]
  rcases launch [⟨p, root⟩] mode s with ⟨e | injection, i, w⟩
  · cases mode with
    | strict => exact ⟨[], by rw [World.logged_nil]; rfl⟩
    | lenient => exact ⟨[⟨.warn, s!"Giving up on {p.text}: {e.message}"⟩], rfl⟩
  · exact ⟨[], by rw [World.logged_nil]; rfl⟩

/-- The state after a line was logged. -/
def informed (text : String) (s : Instrumenter × World) : Instrumenter × World :=
  (s.1, s.2.logged [⟨.info, text⟩])

theorem info_apply (text : String) (s : Instrumenter × World) :
    Job.act (Action.info text) s = (.ok (), informed text s) := rfl

/-- The launches into files, one after the other. -/
def launchesInto (root : Path) (mode : Mode) : List Path → Instrumenter × World → List Launch
  | [], _ => []
  | p :: ps, s => ⟨⟨p, root⟩, mode, s⟩ :: launchesInto root mode ps (launchFile root mode p s).2

/-- The launches into the files below a root that are of interest. -/
def launchesBelow (root : Path) (mode : Mode) (wanted : Path → Bool) (s : Instrumenter × World) :
    List Launch :=
  match Job.act (sourceFiles .standard root) s with
  | (.ok files, s') => launchesInto root mode (files.filter wanted) s'
  | (.error _, _) => []

/-- The launches into the files that failed, once more and without the classpath. -/
def launchesAgain (root : Path) (s : Instrumenter × World) : List Launch :=
  if s.1.failed.isEmpty then []
  else
    launchesBelow root .lenient s.1.failed.contains
      (informed s!"Retrying {s.1.failed.size} files without classpath" s)

/-- The launches of a run file by file. -/
def launchesEach (root : Path) (mode : Mode) (s : Instrumenter × World) : List Launch :=
  let s := informed s!"Instrumenting {root.text} file by file" s
  match launchFiles root mode (fun _ => true) s with
  | (.ok _, s') => launchesBelow root mode (fun _ => true) s ++ launchesAgain root s'
  | (.error _, _) => []

/-- Whether a run counts on the classpath. -/
def Instrumenter.mode (i : Instrumenter) : Mode := if i.usesClasspath then .strict else .lenient

/-- The launches of a run, in order. -/
def launches (s : Instrumenter × World) : List Launch :=
  match prepareRun s with
  | (.ok root, s) =>
    if s.1.options.fileByFile then launchesEach root s.1.mode s
    else [⟨.tree root, s.1.mode, informed s!"Instrumenting {root.text}" s⟩]
  | (.error _, _) => []

/-- The part of a run that launches. -/
def injectBelow (i : Instrumenter) (root : Path) : Job (Injection × List Path) :=
  if i.options.fileByFile then injectEach root i.mode else injectAll root i.mode

/-- The part of a run that follows the launches. -/
def conclude (r : Injection × List Path) : Job Report := do
  let failed := (← Job.instrumenter).failed.paths
  let idFile ← finishRun
  let found := s!"{r.1.units} units: {r.1.detected} elements detected"
  Job.act (Action.info
    s!"Instrumented {found}, {r.1.written} files written, {failed.length} failed")
  return ⟨r.1, r.2, failed, idFile⟩

theorem run_of_error {s s₁ : Instrumenter × World} {e : Error}
    (h : prepareRun s = (.error e, s₁)) : run s = (.error e, s₁) :=
  Effect.bind_of_error h _

theorem run_of_ok {s s₁ : Instrumenter × World} {root : Path}
    (h : prepareRun s = (.ok root, s₁)) : run s = (injectBelow s₁.1 root >>= conclude) s₁ := by
  rw [run, Effect.bind_of_ok h, Effect.bind_of_ok (Job.instrumenter_apply _), injectBelow]
  cases hf : s₁.1.options.fileByFile <;> rfl

/-! ## What launches keep -/

theorem injectEach_snd {root : Path} {mode : Mode} {s s' : Instrumenter × World}
    {first : Injection} (h : launchFiles root mode (fun _ => true)
      (informed s!"Instrumenting {root.text} file by file" s) = (.ok first, s')) :
    (injectEach root mode s).2 = (retryFailed root s').2 := by
  rw [injectEach, Effect.bind_of_ok (info_apply _ _), Effect.bind_of_ok h,
    Effect.bind_of_ok (Job.instrumenter_apply _)]
  rcases hretry : retryFailed root s' with ⟨e | second, s''⟩
  · rw [Effect.bind_of_error hretry]
  · rw [Effect.bind_of_ok hretry]
    rfl

/-- Launches into files never stop a pass. -/
theorem mapM_launchFile_ok (root : Path) (mode : Mode) (ps : List Path) :
    ∀ s, ∃ injections s', ps.mapM (launchFile root mode) s = (.ok injections, s') := by
  induction ps with
  | nil => exact fun s => ⟨[], s, rfl⟩
  | cons p ps ih =>
    intro s
    obtain ⟨lines, hfirst⟩ := launchFile_apply root mode p s
    obtain ⟨injections, s', hrest⟩ := ih ((launch [⟨p, root⟩] mode s).2.1,
      (launch [⟨p, root⟩] mode s).2.2.logged lines)
    exact ⟨_, s', by
      rw [List.mapM_cons, Effect.bind_of_ok hfirst, Effect.bind_of_ok hrest, Effect.pure_apply]⟩

theorem exists_launchFiles {root : Path} {files : List Path} {s : Instrumenter × World}
    (h : sourceFiles .standard root s.2 = (.ok files, s.2)) (mode : Mode) (wanted : Path → Bool) :
    ∃ injection s', launchFiles root mode wanted s = (.ok injection, s') := by
  obtain ⟨injections, s', hmap⟩ := mapM_launchFile_ok root mode (files.filter wanted) s
  have hlist : Job.act (sourceFiles .standard root) s = (.ok files, s) := by
    rw [Job.act_apply, h]
  exact ⟨_, s', by
    rw [launchFiles, Effect.bind_of_ok hlist, Effect.bind_of_ok hmap, Effect.pure_apply]⟩

theorem launchesEach_of_ok {root : Path} {mode : Mode} {s s' : Instrumenter × World}
    {first : Injection} (h : launchFiles root mode (fun _ => true)
      (informed s!"Instrumenting {root.text} file by file" s) = (.ok first, s')) :
    launchesEach root mode s = launchesBelow root mode (fun _ => true)
      (informed s!"Instrumenting {root.text} file by file" s) ++ launchesAgain root s' := by
  unfold launchesEach
  simp only
  rw [h]

section Within

variable {R : Instrumenter × World → Instrumenter × World → Prop}

/-- A relation leads from one state to a launch, and from the launch to another state. -/
def Launch.Within (R : Instrumenter × World → Instrumenter × World → Prop)
    (s s' : Instrumenter × World) (l : Launch) : Prop :=
  R s l.start ∧ R l.finish s'

/-- A relation leads from one state to another one over launches. -/
structure Chain (R : Instrumenter × World → Instrumenter × World → Prop)
    (s s' : Instrumenter × World) (ls : List Launch) : Prop where
  whole : R s s'
  within : ∀ l ∈ ls, l.Within R s s'

variable [Std.Refl R] [IsTrans (Instrumenter × World) R]

omit [Std.Refl R] in
theorem Chain.append {s s' s'' : Instrumenter × World} {ls ls' : List Launch}
    (h : Chain R s s' ls) (h' : Chain R s' s'' ls') : Chain R s s'' (ls ++ ls') := by
  refine ⟨IsTrans.trans _ _ _ h.whole h'.whole, fun l hl => ?_⟩
  rcases List.mem_append.1 hl with hl | hl
  · exact ⟨(h.within l hl).1, IsTrans.trans _ _ _ (h.within l hl).2 h'.whole⟩
  · exact ⟨IsTrans.trans _ _ _ h.whole (h'.within l hl).1, (h'.within l hl).2⟩

omit [IsTrans (Instrumenter × World) R] in
theorem Chain.refl (s : Instrumenter × World) : Chain R s s [] :=
  ⟨Std.Refl.refl s, by simp⟩

omit [Std.Refl R] [IsTrans (Instrumenter × World) R] in
theorem chain_logged (hlog : ∀ s lines, R s (s.1, s.2.logged lines)) (s : Instrumenter × World)
    (lines : List LogLine) : Chain R s (s.1, s.2.logged lines) [] :=
  ⟨hlog s lines, by simp⟩

theorem chain_launchFile (hlog : ∀ s lines, R s (s.1, s.2.logged lines)) (root : Path)
    (mode : Mode) (p : Path) (s : Instrumenter × World)
    (h : R s (launch [⟨p, root⟩] mode s).2) :
    Chain R s (launchFile root mode p s).2 [⟨⟨p, root⟩, mode, s⟩] := by
  obtain ⟨lines, hfile⟩ := launchFile_apply root mode p s
  rw [hfile]
  refine ⟨IsTrans.trans _ _ _ h (hlog _ lines), fun l hl => ?_⟩
  rw [List.mem_singleton.1 hl]
  exact ⟨Std.Refl.refl s, hlog _ lines⟩

theorem chain_launchesInto (hlog : ∀ s lines, R s (s.1, s.2.logged lines)) (root : Path)
    (mode : Mode) (ps : List Path) :
    ∀ s, (∀ l ∈ launchesInto root mode ps s, R l.start l.finish) →
      Chain R s ((ps.mapM (launchFile root mode)) s).2 (launchesInto root mode ps s) := by
  induction ps with
  | nil => exact fun s _ => Chain.refl s
  | cons p ps ih =>
    intro s h
    obtain ⟨lines, hfile⟩ := launchFile_apply root mode p s
    have hfirst := chain_launchFile hlog root mode p s
      (h ⟨⟨p, root⟩, mode, s⟩ List.mem_cons_self)
    have hrest := ih (launchFile root mode p s).2
      fun l hl => h l (List.mem_cons_of_mem _ hl)
    rw [List.mapM_cons, Effect.bind_of_ok hfile, Effect.bind_pure_snd]
    rw [hfile] at hfirst hrest
    rw [launchesInto, hfile]
    exact hfirst.append hrest

theorem chain_launchesBelow (hlog : ∀ s lines, R s (s.1, s.2.logged lines)) (root : Path)
    (mode : Mode) (wanted : Path → Bool) (s : Instrumenter × World)
    (h : ∀ l ∈ launchesBelow root mode wanted s, R l.start l.finish) :
    Chain R s (launchFiles root mode wanted s).2 (launchesBelow root mode wanted s) := by
  obtain ⟨lines, hlisted⟩ := exists_sourceFiles_snd .standard root s.2
  have hact : (Job.act (sourceFiles .standard root) s).2 = (s.1, s.2.logged lines) := by
    rw [Job.act_apply, hlisted]
  unfold launchesBelow at h ⊢
  rcases hfiles : Job.act (sourceFiles .standard root) s with ⟨e | files, s'⟩
  · rw [hfiles] at hact
    rw [launchFiles, Effect.bind_of_error hfiles, hact]
    exact chain_logged hlog s lines
  · rw [hfiles] at hact h
    rw [launchFiles, Effect.bind_of_ok hfiles, Effect.bind_pure_snd]
    replace hact : s' = (s.1, s.2.logged lines) := hact
    have hlisting : Chain R s s' [] := hact ▸ chain_logged hlog s lines
    exact hlisting.append (chain_launchesInto hlog root mode _ s' h)

theorem chain_launchesAgain (hlog : ∀ s lines, R s (s.1, s.2.logged lines)) (root : Path)
    (s : Instrumenter × World) (h : ∀ l ∈ launchesAgain root s, R l.start l.finish) :
    Chain R s (retryFailed root s).2 (launchesAgain root s) := by
  unfold launchesAgain at h ⊢
  rw [retryFailed, Effect.bind_of_ok (Job.instrumenter_apply _)]
  split_ifs at h ⊢ with hempty
  · exact Chain.refl s
  · rw [← List.nil_append (launchesBelow _ _ _ _)]
    exact (chain_logged hlog s _).append (chain_launchesBelow hlog root .lenient _ _ h)

theorem chain_launchesEach (hlog : ∀ s lines, R s (s.1, s.2.logged lines)) (root : Path)
    (mode : Mode) (s : Instrumenter × World)
    (h : ∀ l ∈ launchesEach root mode s, R l.start l.finish) :
    Chain R s (injectEach root mode s).2 (launchesEach root mode s) := by
  have hinformed := chain_logged (R := R) hlog s
    [⟨.info, s!"Instrumenting {root.text} file by file"⟩]
  unfold launchesEach at h ⊢
  simp only at h ⊢
  rcases hfirst : launchFiles root mode (fun _ => true)
    (informed s!"Instrumenting {root.text} file by file" s) with ⟨e | first, s'⟩
  · rw [injectEach, Effect.bind_of_ok (info_apply _ _), Effect.bind_of_error hfirst]
    -- the files could not be listed, so nothing was launched
    have hnone : launchesBelow root mode (fun _ => true)
        (informed s!"Instrumenting {root.text} file by file" s) = [] := by
      unfold launchesBelow
      rcases hfiles : Job.act (sourceFiles .standard root)
        (informed s!"Instrumenting {root.text} file by file" s) with ⟨e' | files, s''⟩
      · rfl
      · obtain ⟨injections, s₃, hmap⟩ := mapM_launchFile_ok root mode
          (files.filter fun _ => true) s''
        rw [launchFiles, Effect.bind_of_ok hfiles, Effect.bind_of_ok hmap] at hfirst
        cases hfirst
    have hbelow := chain_launchesBelow hlog root mode (fun _ => true)
      (informed s!"Instrumenting {root.text} file by file" s) (by simp [hnone])
    rw [hnone, hfirst] at hbelow
    exact hinformed.append hbelow
  · rw [hfirst] at h
    rw [injectEach_snd hfirst]
    have hbelow := chain_launchesBelow hlog root mode (fun _ => true)
      (informed s!"Instrumenting {root.text} file by file" s)
      fun l hl => h l (List.mem_append_left _ hl)
    rw [hfirst] at hbelow
    exact hinformed.append (hbelow.append
      (chain_launchesAgain hlog root s' fun l hl => h l (List.mem_append_right _ hl)))

/-- The launches below a root in a mode, of an instrumenter that is set up so. -/
def launchesOf (i : Instrumenter) (root : Path) (s : Instrumenter × World) : List Launch :=
  if i.options.fileByFile then launchesEach root i.mode s
  else [⟨.tree root, i.mode, informed s!"Instrumenting {root.text}" s⟩]

theorem launches_of_ok {s s₁ : Instrumenter × World} {root : Path}
    (h : prepareRun s = (.ok root, s₁)) : launches s = launchesOf s₁.1 root s₁ := by
  unfold launches launchesOf
  rw [h]

theorem chain_launchesOf (hlog : ∀ s lines, R s (s.1, s.2.logged lines)) (i : Instrumenter)
    (root : Path) (s : Instrumenter × World)
    (h : ∀ l ∈ launchesOf i root s, R l.start l.finish) :
    Chain R s (injectBelow i root s).2 (launchesOf i root s) := by
  unfold launchesOf at h ⊢
  unfold injectBelow
  split_ifs at h ⊢
  · exact chain_launchesEach hlog root _ s h
  · rw [injectAll, Effect.bind_of_ok (info_apply _ _), Effect.bind_pure_snd]
    rw [← List.nil_append [_]]
    refine (chain_logged hlog s _).append ⟨h _ List.mem_cons_self, fun l hl => ?_⟩
    rw [List.mem_singleton.1 hl]
    exact ⟨Std.Refl.refl _, Std.Refl.refl _⟩

/-- What every launch keeps, and every log line, the part of a run that launches keeps. -/
theorem keeps_injectBelow (hlog : ∀ s lines, R s (s.1, s.2.logged lines))
    (hlaunch : ∀ source mode, Effect.Keeps R (launch [source] mode)) (i : Instrumenter)
    (root : Path) : Effect.Keeps R (injectBelow i root) :=
  fun s => (chain_launchesOf hlog i root s fun l _ => hlaunch l.source l.mode l.start).whole

end Within

/-- The units that a run prints, with their edits. -/
def printedBy (s : Instrumenter × World) : List (CompilationUnit × UnitEdits) :=
  (launches s).flatMap (·.printed)

/-! ## The end of a run -/

/-- Writes the properties of the logger, if there are any. -/
def writeProperties (i : Instrumenter) : Job Unit :=
  match i.config.loggerProperties with
  | some p => do let _ ← writeLoggerProperties p
  | none => pure ()

theorem unchanged_writeProperties (i : Instrumenter) : Job.Keeps Eq (writeProperties i) := by
  unfold writeProperties
  cases i.config.loggerProperties with
  | none => exact Job.Keeps.pure _
  | some p =>
    refine Job.Keeps.bind ?_ fun _ => Job.Keeps.pure _
    unfold writeLoggerProperties
    split_ifs
    · exact Job.Keeps.pure _
    · exact Job.Keeps.bind Job.Keeps.instrumenter fun _ =>
        Job.Keeps.bind (Job.Keeps.act _) fun _ => Job.Keeps.pure _

theorem finishRun_eq (s : Instrumenter × World) : finishRun s = (do
    let idFile ← writeIdFile s.1.options.idFile
    writeProperties s.1
    return idFile : Job Path) s := by
  rw [finishRun, Effect.bind_of_ok (Job.instrumenter_apply _)]
  unfold writeProperties
  refine congrFun (congrArg _ (funext fun idFile => ?_)) _
  cases s.1.config.loggerProperties <;> simp

theorem unchanged_finishRun : Job.Keeps Eq finishRun := by
  intro s
  rw [finishRun_eq]
  refine Job.Keeps.bind ?_ (fun _ => Job.Keeps.bind (unchanged_writeProperties s.1) fun _ =>
    Job.Keeps.pure _) s
  exact Job.Keeps.bind Job.Keeps.instrumenter fun _ =>
    Job.Keeps.bind (Job.Keeps.act _) fun _ => Job.Keeps.pure _

theorem unchanged_conclude (r : Injection × List Path) : Job.Keeps Eq (conclude r) :=
  Job.Keeps.bind Job.Keeps.instrumenter fun _ => Job.Keeps.bind unchanged_finishRun fun _ =>
    Job.Keeps.bind (Job.Keeps.act _) fun _ => Job.Keeps.pure _

/-- A run whose injections succeed gives its report if it can write what it writes at its end. -/
theorem run_of_injected {s s₁ s₂ : Instrumenter × World} {root : Path} {total : Injection}
    {retried : List Path} (hp : prepareRun s = (.ok root, s₁))
    (hr : injectBelow s₁.1 root s₁ = (.ok (total, retried), s₂)) :
    (run s).1 = (finishRun s₂).1.map (fun idFile => ⟨total, retried, s₂.1.failed.paths, idFile⟩) ∧
      (run s).2.1 = s₂.1 := by
  rw [run_of_ok hp, Effect.bind_of_ok hr]
  refine ⟨?_, (unchanged_conclude (total, retried) s₂).symm⟩
  rw [conclude, Effect.bind_of_ok (Job.instrumenter_apply _)]
  rcases hfinish : finishRun s₂ with ⟨e | idFile, s₃⟩
  · rw [Effect.bind_of_error hfinish]
    rfl
  · rw [Effect.bind_of_ok hfinish]
    rfl

/-- A run whose injections succeed ends in the world in which its end is written, except for log
    lines. -/
theorem world_of_injected {s s₁ s₂ : Instrumenter × World} {root : Path}
    {r : Injection × List Path} (hp : prepareRun s = (.ok root, s₁))
    (hr : injectBelow s₁.1 root s₁ = (.ok r, s₂)) :
    ∃ lines, (run s).2.2 = (finishRun s₂).2.2.logged lines := by
  rw [run_of_ok hp, Effect.bind_of_ok hr, conclude, Effect.bind_of_ok (Job.instrumenter_apply _)]
  rcases hfinish : finishRun s₂ with ⟨e | idFile, s₃⟩
  · rw [Effect.bind_of_error hfinish]
    exact ⟨[], by rw [World.logged_nil]⟩
  · rw [Effect.bind_of_ok hfinish]
    exact ⟨_, rfl⟩

theorem injectBelow_congr {i i' : Instrumenter} (h : i'.options = i.options) (root : Path) :
    injectBelow i' root = injectBelow i root := by
  unfold injectBelow Instrumenter.mode Instrumenter.usesClasspath
  rw [h]

theorem writeIdFile_of_ok {name : String} {s s' : Instrumenter × World} {idFile : Path}
    (h : writeIdFile name s = (.ok idFile, s')) :
    idFile = s.1.options.logDir.join ⟨name⟩ ∧
      ∃ w lines, s.1.ids.write idFile s.2 = (.ok (), w) ∧ s' = (s.1, w.logged lines) := by
  rw [writeIdFile, Effect.bind_of_ok (Job.instrumenter_apply _)] at h
  obtain ⟨_, s₁, hact, h⟩ := Effect.bind_eq_ok.1 h
  cases h
  obtain ⟨hi, hact⟩ := Job.act_eq.1 hact
  obtain ⟨_, w, hwrite, hdebug⟩ := Effect.bind_eq_ok.1 hact
  exact ⟨rfl, w, _, hwrite, Prod.ext hi (congrArg Prod.snd hdebug).symm⟩

/-- A run that succeeds ends with writing the id file and then the properties of the logger. -/
theorem finishRun_of_ok {s s' : Instrumenter × World} {idFile : Path}
    (h : finishRun s = (.ok idFile, s')) :
    idFile = s.1.options.logDir.join ⟨s.1.options.idFile⟩ ∧
      ∃ w lines, s.1.ids.write idFile s.2 = (.ok (), w) ∧
        writeProperties s.1 (s.1, w.logged lines) = (.ok (), s') := by
  rw [finishRun_eq] at h
  obtain ⟨path, s₁, hwrite, h⟩ := Effect.bind_eq_ok.1 h
  obtain ⟨_, s₂, hproperties, h⟩ := Effect.bind_eq_ok.1 h
  cases h
  obtain ⟨hpath, w, lines, hids, rfl⟩ := writeIdFile_of_ok hwrite
  exact ⟨hpath, w, lines, hids, hproperties⟩

end Tracepoint.Instrument
