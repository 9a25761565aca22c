import Tracepoint.Proofs.Instrument.Abort
import Tracepoint.Proofs.Instrument.History
import Tracepoint.Proofs.Writing

/-!
# What a run writes

A run has five kinds of files to write: those of a project that is copied, those of the logger,
the units that its launches print, the id file and the properties of the logger. Whatever comes
of the run, the contents of all other files stay as they are.

Results:

* `Launch.writes`: all that a launch writes is what it prints.
* `Produced`, `Written`: the paths and contents that a run can write, once it is prepared and
  in all.
* `chain_run`: what a run has written around each launch.
* `run_writes`: what a run has written at its end.
-/

namespace Tracepoint.Instrument

open Config Detect Model Source

/-! ## Jobs and the world -/

section Acts

variable {α β : Type} {R : World → World → Prop} [World.IgnoresLog R]

instance : Std.Refl fun s s' : Instrumenter × World => R s.2 s'.2 := ⟨fun s => Std.Refl.refl s.2⟩

instance : IsTrans (Instrumenter × World) fun s s' => R s.2 s'.2 :=
  ⟨fun _ _ _ h h' => IsTrans.trans _ _ _ h h'⟩

/-- Wherever a job starts, a relation holds between the worlds before and after it. -/
def Job.Acts (R : World → World → Prop) (j : Job α) : Prop :=
  Effect.Keeps (fun s s' => R s.2 s'.2) j

namespace Job.Acts

theorem pure (a : α) : Acts R (Pure.pure a : Job α) := Effect.Keeps.pure a

theorem bind {j : Job α} {f : α → Job β} (hj : Acts R j) (hf : ∀ a, Acts R (f a)) :
    Acts R (j >>= f) := Effect.Keeps.bind hj hf

omit [World.IgnoresLog R] in
theorem act {a : Action α} (ha : Effect.Keeps R a) : Acts R (Job.act a) := fun s => ha s.2

theorem change (f : Instrumenter → Instrumenter) : Acts R (Job.change f) :=
  fun s => Std.Refl.refl s.2

omit [World.IgnoresLog R] in
/-- A job that reads the instrumenter first. -/
theorem instrumenter_bind {f : Instrumenter → Job β} {s : Instrumenter × World}
    (h : Acts R (f s.1)) : R s.2 ((Job.instrumenter >>= f) s).2.2 := by
  rw [Effect.bind_of_ok (Job.instrumenter_apply _)]
  exact h s

end Job.Acts

theorem ignoresLog_logged (w : World) (lines : List LogLine) : R w (w.logged lines) := by
  induction lines generalizing w with
  | nil =>
    rw [World.logged_nil]
    exact Std.Refl.refl w
  | cons line lines ih =>
    have hrest := ih (w.logged [line])
    rw [World.logged_logged] at hrest
    exact IsTrans.trans _ _ _ (World.IgnoresLog.log w line) hrest

end Acts

/-! ## Launches -/

namespace Launch

/-- What a launch prints to a path. -/
inductive Prints (l : Launch) : Path → ByteArray → Prop
  | unit {x : CompilationUnit × UnitEdits} {text : List Char} (hx : x ∈ l.printed)
      (htext : x.1.render x.2 = some text) :
      Prints l (outputPath l.start.1.sourceOutput x.1) (String.ofList text).toUTF8

/-- Up to its printing, a launch does nothing but log. -/
theorem exists_process (l : Launch) :
    ∃ lines, (l.process l.start).2.2 = l.start.2.logged lines := by
  obtain ⟨lines, h⟩ := l.exists_building
  exact ⟨lines, by rw [world_process, h]⟩

/-- All that a launch writes is what it prints. -/
theorem writes (l : Launch) : World.Writes l.Prints l.start.2 l.finish.2 := by
  obtain ⟨lines, hprocess⟩ := l.exists_process
  obtain ⟨lines', hfinish⟩ := l.exists_finish
  have hprinting : World.Writes l.Prints (l.process l.start).2.2 l.printing.2 :=
    keeps_print (m := ⟨l.printed⟩) (fun x hx text htext => .unit hx htext) _
  rw [hfinish]
  refine IsTrans.trans _ _ _ ?_ (IsTrans.trans _ _ _ hprinting (ignoresLog_logged _ lines'))
  rw [hprocess]
  exact ignoresLog_logged _ lines

end Launch

/-! ## Runs -/

/-- The properties of the logger that are written: those in a file whose name is not blank. -/
def Instrumenter.writtenProperties (i : Instrumenter) : Option LoggerProperties :=
  i.config.loggerProperties.filter fun p => !(Text.trim p.file.toList).isEmpty

/-- The paths and contents that a run can write once it is prepared. -/
inductive Produced (s : Instrumenter × World) : Path → ByteArray → Prop
  | unit {l : Launch} {p : Path} {content : ByteArray} (hl : l ∈ launches s)
      (hp : l.Prints p content) : Produced s p content
  | ids : Produced s (s.1.options.logDir.join ⟨s.1.options.idFile⟩) (run s).2.1.ids.render.toUTF8
  | properties {p : LoggerProperties} (hp : s.1.writtenProperties = some p) :
      Produced s (s.1.options.logDir.join ⟨p.file⟩) p.render.toUTF8

/-- The paths and contents that a run can write. -/
inductive Written (s : Instrumenter × World) : Path → ByteArray → Prop
  | project {r : Path} {content : ByteArray} (hcopy : s.1.options.copyProject = true)
      (hr : r.Inside) : Written s (s.1.options.outputDir.join r) content
  | logger {f : LoggerFile} {content : ByteArray} (hf : f ∈ s.1.config.loggerFiles) :
      Written s (s.1.options.outputDir.join f.target) content
  | produced {p : Path} {content : ByteArray} (hp : Produced s p content) : Written s p content

theorem SameSetup.writtenProperties {i i' : Instrumenter} (h : SameSetup i i') :
    i'.writtenProperties = i.writtenProperties := by
  have hproperties := congrArg Configuration.loggerProperties h.config
  replace hproperties : i'.config.loggerProperties = i.config.loggerProperties := hproperties
  rw [Instrumenter.writtenProperties, hproperties, Instrumenter.writtenProperties]

theorem Wired.sameSetup {i i' : Instrumenter} (h : Wired i i') : SameSetup i i' :=
  ⟨h.options, by rw [h.config]; rfl⟩

section Parts

variable {Q : Path → ByteArray → Prop}

theorem writes_prepareOutput (s : Instrumenter × World)
    (hproject : s.1.options.copyProject = true →
      ∀ r content, Path.Inside r → Q (s.1.options.outputDir.join r) content)
    (hlogger : ∀ f ∈ s.1.config.loggerFiles, ∀ content,
      Q (s.1.options.outputDir.join f.target) content) :
    World.Writes Q s.2 (prepareOutput s).2.2 := by
  refine Job.Acts.instrumenter_bind ?_
  have hfiles : Job.Acts (World.Writes Q)
      (Job.act (s.1.config.loggerFiles.forM (copyLoggerFile s.1.options.outputDir))) :=
    .act (.forM_of_mem fun f hf => keeps_copyLoggerFile (hlogger f hf))
  dsimp only
  split_ifs
  · exact .bind (.act (keeps_createOutput hproject)) fun _ => .bind (.change _) fun _ => hfiles
  · exact hfiles

theorem writes_resolveClasspath (s : Instrumenter × World)
    (hr : s.1.resolver.Keeps World.SamePlace) :
    World.Writes Q s.2 (resolveClasspath s).2.2 := by
  rw [resolveClasspath_apply]
  have hact : Job.Acts (World.Writes Q) (Job.act (classpathFor s.1)) :=
    .act fun w => (keeps_classpathFor hr w).writes
  exact Job.Acts.bind hact (fun _ => .change _) s

/-- All that preparing a run writes is what preparing the output writes. -/
theorem writes_prepareRun (s : Instrumenter × World) (hr : s.1.resolver.Keeps World.SamePlace)
    (hproject : s.1.options.copyProject = true →
      ∀ r content, Path.Inside r → Q (s.1.options.outputDir.join r) content)
    (hlogger : ∀ f ∈ s.1.config.loggerFiles, ∀ content,
      Q (s.1.options.outputDir.join f.target) content) :
    World.Writes Q s.2 (prepareRun s).2.2 := by
  have houtput : World.Writes Q s.2 (prepareOutput (untried s)).2.2 :=
    writes_prepareOutput (untried s) hproject hlogger
  have hresolver := sameResolver_prepareOutput (untried s)
  have hroot : World.Writes Q s.2 (prepareRoot (untried s)).2.2 := by
    rcases hprepare : prepareOutput (untried s) with ⟨e | _, s₁⟩
    · rw [prepareRoot, Effect.bind_of_error hprepare]
      rwa [hprepare] at houtput
    · rw [hprepare] at houtput hresolver
      rw [prepareRoot, Effect.bind_of_ok hprepare]
      refine IsTrans.trans _ _ _ houtput ?_
      rw [Effect.bind_of_ok (Job.instrumenter_apply _)]
      have habsolute : Job.Acts (World.Writes Q)
          (Job.act (Action.absolute (s₁.1.options.sourceRoot s₁.1.config.sourceDir))) :=
        .act (.absolute _)
      simp only
      split_ifs
      · have hclasspath := writes_resolveClasspath (Q := Q) s₁ (by rw [hresolver]; exact hr)
        rcases hresolved : resolveClasspath s₁ with ⟨e | _, s₂⟩
        · rw [Effect.bind_of_error hresolved]
          rwa [hresolved] at hclasspath
        · rw [Effect.bind_of_ok hresolved]
          rw [hresolved] at hclasspath
          exact IsTrans.trans _ _ _ hclasspath (habsolute s₂)
      · exact habsolute s₁
  rw [prepareRun_eq]
  rcases hresult : prepareRoot (untried s) with ⟨e | root, s₁⟩
  · rw [Effect.bind_of_error hresult]
    rwa [hresult] at hroot
  · rw [Effect.bind_of_ok hresult]
    rwa [hresult] at hroot

theorem writes_writeProperties (i : Instrumenter) (s : Instrumenter × World)
    (hproperties : ∀ p, i.writtenProperties = some p →
      Q (s.1.options.logDir.join ⟨p.file⟩) p.render.toUTF8) :
    World.Writes Q s.2 (writeProperties i s).2.2 := by
  unfold writeProperties
  cases hp : i.config.loggerProperties with
  | none => exact Std.Refl.refl s.2
  | some p =>
    dsimp only
    rw [Effect.bind_pure_snd]
    unfold writeLoggerProperties
    split_ifs with hblank
    · exact Std.Refl.refl s.2
    · have hwritten : i.writtenProperties = some p := by
        rw [Instrumenter.writtenProperties, hp, Option.filter_some, if_pos (by simpa using hblank)]
      exact Job.Acts.instrumenter_bind (.bind (.act (.bind (.makeDirectories _) fun _ =>
        .write (hproperties p hwritten))) fun _ => .pure _)

/-- At its end a run writes the id file and the properties of the logger. -/
theorem writes_conclude (r : Injection × List Path) (s : Instrumenter × World)
    (hids : Q (s.1.options.logDir.join ⟨s.1.options.idFile⟩) s.1.ids.render.toUTF8)
    (hproperties : ∀ p, s.1.writtenProperties = some p →
      Q (s.1.options.logDir.join ⟨p.file⟩) p.render.toUTF8) :
    World.Writes Q s.2 (conclude r s).2.2 := by
  have hwriteIds : World.Writes Q s.2 (writeIdFile s.1.options.idFile s).2.2 := by
    unfold writeIdFile
    refine Job.Acts.instrumenter_bind (.bind (.act (.bind ?_ fun _ => .log _ _)) fun _ => .pure _)
    exact IdMap.keeps_write s.1.ids hids
  have hfinish : World.Writes Q s.2 (finishRun s).2.2 := by
    rw [finishRun_eq]
    rcases hwrite : writeIdFile s.1.options.idFile s with ⟨e | idFile, t⟩
    · rw [Effect.bind_of_error hwrite]
      rwa [hwrite] at hwriteIds
    · obtain ⟨-, w, lines, -, rfl⟩ := writeIdFile_of_ok hwrite
      rw [hwrite] at hwriteIds
      rw [Effect.bind_of_ok hwrite, Effect.bind_pure_snd]
      exact IsTrans.trans _ _ _ hwriteIds
        (writes_writeProperties s.1 (s.1, w.logged lines) hproperties)
  rw [conclude, Effect.bind_of_ok (Job.instrumenter_apply _)]
  rcases hfinished : finishRun s with ⟨e | idFile, t⟩
  · rw [Effect.bind_of_error hfinished]
    rwa [hfinished] at hfinish
  · rw [Effect.bind_of_ok hfinished]
    rw [hfinished] at hfinish
    exact IsTrans.trans _ _ _ hfinish
      ((Job.Acts.bind (.act (.log _ _)) fun _ => .pure _ : Job.Acts (World.Writes Q) _) t)

end Parts

/-- Writing leads from the preparation of a run over its launches to its end. -/
theorem chain_run {s s₁ : Instrumenter × World} {root : Path}
    (h : prepareRun s = (.ok root, s₁)) :
    Chain (fun t t' => World.Writes (Produced s) t.2 t'.2) s₁ (run s).2 (launches s) := by
  have hinject := chain_launchesOf (R := fun t t' => World.Writes (Produced s) t.2 t'.2)
    (fun t lines => ignoresLog_logged t.2 lines) s₁.1 root s₁ fun l hl =>
      l.writes.mono fun p content hp => .unit (by rw [launches_of_ok h]; exact hl) hp
  rw [← launches_of_ok h] at hinject
  have hsetup : SameSetup s.1 (injectBelow s₁.1 root s₁).2.1 :=
    IsTrans.trans _ _ _ (prepareRun_of_ok h).sameSetup (grows_injectBelow s₁.1 root s₁).setup
  rcases hr : injectBelow s₁.1 root s₁ with ⟨e | r, s₂⟩
  · have hrun : run s = (.error e, s₂) := by rw [run_of_ok h, Effect.bind_of_error hr]
    rw [hr] at hinject
    rwa [hrun]
  · have hrun : run s = conclude r s₂ := by rw [run_of_ok h, Effect.bind_of_ok hr]
    rw [hr] at hinject hsetup
    have hids : (run s).2.1.ids = s₂.1.ids := by rw [hrun, ← unchanged_conclude r s₂]
    have hconclude : World.Writes (Produced s) s₂.2 (run s).2.2 := by
      rw [hrun]
      refine writes_conclude r s₂ ?_ fun p hp => ?_
      · rw [hsetup.options, ← hids]
        exact .ids
      · rw [hsetup.options]
        exact .properties (hsetup.writtenProperties ▸ hp)
    rw [← List.append_nil (launches s)]
    exact hinject.append ⟨hconclude, by simp⟩

/-- All that a run writes is what it can write, whatever comes of it. -/
theorem run_writes (s : Instrumenter × World) (hr : s.1.resolver.Keeps World.SamePlace) :
    World.Writes (Written s) s.2 (run s).2.2 := by
  have hprepare := writes_prepareRun (Q := Written s) s hr (fun hcopy r content hinside =>
    .project hcopy hinside) fun f hf content => .logger hf
  rcases hp : prepareRun s with ⟨e | root, s₁⟩
  · rw [run_of_error hp]
    rwa [hp] at hprepare
  · rw [hp] at hprepare
    exact IsTrans.trans _ _ _ hprepare ((chain_run hp).whole.mono fun p content => .produced)

end Tracepoint.Instrument
