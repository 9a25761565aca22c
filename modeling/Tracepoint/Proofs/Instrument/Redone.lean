import Tracepoint.Proofs.Disk.Redone
import Tracepoint.Proofs.Instrument.Written
import Tracepoint.Proofs.Model.Print

/-!
# The ends of a run, done again

Before its launches a run prepares its output, and after them it writes the id file and the
properties of the logger. None of this asks what is there already. When it is done again in a
world that has grown since, directories are there and files get the content that they got the
first time, if the files of the logger come from what they came from before.

Results:

* `copyLoggerFiles_redone`: copying the files of the logger.
* `prepareOutput_redone`: preparing the output.
* `finishRun_redone`: writing the id file and the properties of the logger.
-/

namespace Tracepoint

open Tracepoint.Action Effect

theorem IdMap.write_eq_ok {m : IdMap} {p : Path} {w w' : World} :
    m.write p w = (.ok (), w') ↔ ∃ d₁ d₂, w.disk.makeHome w.cwd p = .ok d₁ ∧
      d₁.write w.cwd p m.render.toUTF8 = .ok d₂ ∧ { w with disk := d₂ } = w' :=
  Action.put_eq_ok

namespace Instrument

open Config

/-! ## Files of the logger -/

theorem copyLoggerFile_eq_ok {output : Path} {f : LoggerFile} {w w' : World} :
    copyLoggerFile output f w = (.ok (), w') ↔ ∃ d₁ d₂,
      w.disk.makeHome w.cwd (output.join f.target) = .ok d₁ ∧
        d₁.copy w.cwd f.source (output.join f.target) = .ok d₂ ∧
          World.logged { w with disk := d₂ }
            [⟨.debug, s!"Copied {f.source.text} to {(output.join f.target).text}"⟩] = w' := by
  unfold copyLoggerFile LoggerFile.copyTo
  simp only [bind_assoc, pure_bind]
  rw [makeParent_eq, bind_changeDisk_eq_ok]
  simp only [Action.copy, bind_changeDisk_eq_ok, exists_and_left]
  refine exists_congr fun d₁ => and_congr_right fun _ => exists_congr fun d₂ =>
    and_congr_right fun _ => ?_
  exact ⟨fun h => congrArg Prod.snd h, fun h => by rw [← h]; rfl⟩

/-- What files of the logger are copied from is the same on two disks, except where an earlier
    one is copied to. -/
def SameOrigins (output : Path) (cwd : Location) (d e : Disk) (fs : List LoggerFile) : Prop :=
  ∀ before f after, fs = before ++ f :: after → ∀ origin,
    e.resolve cwd f.source true = .ok origin →
      e.contentAt origin = d.contentAt origin ∨
        ∃ g ∈ before, e.resolve cwd (output.join g.target) true = .ok origin

theorem sameOrigins_nil (output : Path) (cwd : Location) (d e : Disk) :
    SameOrigins output cwd d e [] := by
  intro before f after h
  simp at h

section Redone

variable {output : Path} {w w' v : World}

theorem copyLoggerFile_redone {f : LoggerFile} (hw : w.disk.Sound w.cwd)
    (h : copyLoggerFile output f w = (.ok (), w')) (hcwd : v.cwd = w.cwd)
    (hv : v.disk.Sound v.cwd) (hg : Disk.Grown w'.disk v.disk)
    (hsource : ∀ origin, v.disk.resolve v.cwd f.source true = .ok origin →
      v.disk.contentAt origin = w.disk.contentAt origin) :
    ∃ v', copyLoggerFile output f v = (.ok (), v') ∧ v'.cwd = v.cwd ∧
      Disk.Redone v.cwd (· = output.join f.target) w.disk w'.disk v.disk v'.disk ∧
        ∃ l, v.disk.resolve v.cwd (output.join f.target) true = .ok l ∧
          v'.disk.contentAt l = w'.disk.contentAt l := by
  obtain ⟨d₁, d₂, hhome, hcopy, rfl⟩ := copyLoggerFile_eq_ok.1 h
  rw [← hcwd] at hw hhome hcopy
  have hmade := Disk.wrote_makeHome (Q := fun _ _ => False) hw hhome
  have hcopied := Disk.wrote_copy (Q := fun _ _ => True) hmade.sound hcopy fun _ => trivial
  have hhome' := Disk.makeHome_of_made hhome (hcopied.grown.trans hg)
  obtain ⟨e, hcopy', hredone, hself⟩ := Disk.copy_redone (Q := (· = output.join f.target))
    hmade.sound hcopy hg hv rfl fun origin horigin =>
      (hsource origin horigin).trans (hmade.contentAt origin).symm
  exact ⟨_, copyLoggerFile_eq_ok.2 ⟨v.disk, e, hhome', hcopy', rfl⟩, rfl,
    (Disk.Redone.of_kept hv hmade.contentAt).trans hredone, hself⟩

/-- What the remaining files of the logger are copied from is still the same once one of them is
    copied again. -/
theorem SameOrigins.tail {f : LoggerFile} {fs : List LoggerFile} {cwd : Location}
    {d d' e e' : Disk} (h : SameOrigins output cwd d e (f :: fs))
    (hredone : Disk.Redone cwd (· = output.join f.target) d d' e e') {l : Location}
    (hl : e.resolve cwd (output.join f.target) true = .ok l)
    (hself : e'.contentAt l = d'.contentAt l) : SameOrigins output cwd d' e' fs := by
  intro before g after hfs origin horigin
  rcases h (f :: before) g after (by rw [hfs]; rfl) origin
    (Disk.resolve_grown horigin hredone.shrunk) with hsame | ⟨g', hg', htarget⟩
  · refine .inl ?_
    rcases hredone.content origin with ⟨hlookup, hcontent⟩ | ⟨_, content, -, -, hlookup, hcontent⟩
    · rw [Disk.contentAt_of_lookup_eq hlookup, hsame, hcontent]
    · rw [Disk.contentAt_eq_some.2 hlookup, hcontent]
  · rcases List.mem_cons.1 hg' with rfl | hg'
    · obtain rfl : l = origin := Except.ok.inj (hl.symm.trans htarget)
      exact .inl hself
    · exact .inr ⟨g', hg', Disk.resolve_grown htarget hredone.grown⟩

/-- Copying the files of the logger again gives the same files. -/
theorem copyLoggerFiles_redone (fs : List LoggerFile) :
    ∀ {w w' v : World}, w.disk.Sound w.cwd →
      fs.forM (copyLoggerFile output) w = (.ok (), w') → v.cwd = w.cwd →
      v.disk.Sound v.cwd → Disk.Grown w'.disk v.disk →
      SameOrigins output v.cwd w.disk v.disk fs →
      ∃ v', fs.forM (copyLoggerFile output) v = (.ok (), v') ∧ v'.cwd = v.cwd ∧
        Disk.Redone v.cwd (fun p => ∃ f ∈ fs, p = output.join f.target) w.disk w'.disk v.disk
          v'.disk := by
  induction fs with
  | nil =>
    intro w w' v _ h _ hv _ _
    cases h
    exact ⟨v, rfl, rfl, .of_kept hv fun _ => rfl⟩
  | cons f fs ih =>
    intro w w' v hw h hcwd hv hg horigins
    obtain ⟨_, w₁, hfirst, hrest⟩ := bind_eq_ok.1 (show (copyLoggerFile output f >>= fun _ =>
      fs.forM (copyLoggerFile output)) w = (.ok (), w') from h)
    have hwrites₁ : World.Writes (fun _ _ => True) w w₁ :=
      (keeps_copyLoggerFile fun _ => trivial).of_eq hfirst
    have hwrites₂ : World.Writes (fun _ _ => True) w₁ w' :=
      (Effect.Keeps.forM_of_mem fun _ _ => keeps_copyLoggerFile fun _ => trivial).of_eq hrest
    obtain ⟨hcwd₁, hwrote₁⟩ := hwrites₁ hw
    have hw₁ : w₁.disk.Sound w₁.cwd := hcwd₁ ▸ hwrote₁.sound
    obtain ⟨v₁, hfirst', hcwd', hredone₁, l, hl, hself⟩ := copyLoggerFile_redone hw hfirst hcwd hv
      ((hwrites₂ hw₁).2.grown.trans hg) fun origin horigin => by
        rcases horigins [] f fs rfl origin horigin with hsame | ⟨g, hg, -⟩
        · exact hsame
        · cases hg
    obtain ⟨v', hrest', hcwd'', hredone₂⟩ := ih hw₁ hrest (by rw [hcwd', hcwd, hcwd₁])
      (hcwd' ▸ hredone₁.sound) (hg.trans hredone₁.grown)
      (hcwd' ▸ horigins.tail hredone₁ hl hself)
    rw [hcwd'] at hcwd'' hredone₂
    refine ⟨v', ?_, hcwd'', ?_⟩
    · exact bind_eq_ok.2 ⟨(), v₁, hfirst', hrest'⟩
    · exact (hredone₁.mono fun p hp => ⟨f, List.mem_cons_self, hp⟩).trans
        (hredone₂.mono fun p ⟨g, hg, hp⟩ => ⟨g, List.mem_cons_of_mem _ hg, hp⟩)

end Redone

/-! ## Preparing the output -/

/-- Creates the output directory, unless it counts as prepared. -/
def makeOutput (i : Instrumenter) (w : World) : Except Fault Disk :=
  if i.prepared then .ok w.disk else w.disk.makeDirectories w.cwd i.options.outputDir

theorem prepareOutput_eq_ok {s s' : Instrumenter × World}
    (hcopy : s.1.options.copyProject = false) :
    prepareOutput s = (.ok (), s') ↔ ∃ d, makeOutput s.1 s.2 = .ok d ∧
      s.1.config.loggerFiles.forM (copyLoggerFile s.1.options.outputDir)
        { s.2 with disk := d } = (.ok (), s'.2) ∧ { s.1 with prepared := true } = s'.1 := by
  obtain ⟨i, w⟩ := s
  rw [prepareOutput, bind_of_ok (Job.instrumenter_apply _)]
  simp only
  unfold makeOutput
  cases hprepared : i.prepared with
  | true =>
    have hsame : { i with prepared := true } = i := by
      rw [← hprepared]
    simp only [Bool.not_true, Bool.false_eq_true, if_false, if_true, Except.ok.injEq,
      exists_eq_left', hsame]
    rw [Job.act_eq]
    exact ⟨fun h => ⟨h.2, h.1.symm⟩, fun h => ⟨h.2.symm, h.1⟩⟩
  | false =>
    simp only [Bool.not_false, if_true, Bool.false_eq_true, if_false]
    have hcreate : ∀ w', createOutput i.options w = (.ok (), w') ↔
        ∃ d, w.disk.makeDirectories w.cwd i.options.outputDir = .ok d ∧
          { w with disk := d } = w' := by
      intro w'
      have hmake : createOutput i.options = Action.makeDirectories i.options.outputDir := by
        rw [createOutput, show i.options.copyProject = false from hcopy]
        exact bind_pure_unit
      rw [hmake]
      exact changeDisk_eq_ok
    rw [Job.bind_act_eq_ok]
    constructor
    · rintro ⟨_, w₁, hact, hrest⟩
      obtain ⟨d, hd, rfl⟩ := (hcreate _).1 hact
      rw [bind_of_ok (Job.change_apply _ _)] at hrest
      obtain ⟨hi, hfiles⟩ := Job.act_eq.1 hrest
      exact ⟨d, hd, hfiles, hi.symm⟩
    · rintro ⟨d, hd, hfiles, hi⟩
      refine ⟨(), _, (hcreate _).2 ⟨d, hd, rfl⟩, ?_⟩
      rw [bind_of_ok (Job.change_apply _ _)]
      exact Job.act_eq.2 ⟨hi.symm, hfiles⟩

/-- The output is a directory once it is prepared. -/
theorem isDirectory_of_prepareOutput {s s' : Instrumenter × World}
    (hcopy : s.1.options.copyProject = false) (hs : s.2.disk.Sound s.2.cwd)
    (hprepared : s.1.prepared = false) (h : prepareOutput s = (.ok (), s'))
    (hout : s.1.options.outputDir.isEmpty = false) :
    s'.2.disk.isDirectory s.2.cwd s.1.options.outputDir = true := by
  obtain ⟨d, hd, hcopied, -⟩ := (prepareOutput_eq_ok hcopy).1 h
  rw [makeOutput, hprepared, if_neg Bool.false_ne_true] at hd
  have hmade := Disk.wrote_makeDirectories (Q := fun _ _ => False) hs hd
  have hwrites : World.Writes (fun _ _ => True) { s.2 with disk := d } s'.2 :=
    (Effect.Keeps.forM_of_mem fun _ _ => keeps_copyLoggerFile fun _ => trivial).of_eq hcopied
  exact Disk.isDirectory_grown (Disk.isDirectory_of_makeDirectories hd hout)
    (hwrites hmade.sound).2.grown

theorem SameSetup.loggerFiles {i i' : Instrumenter} (h : SameSetup i i') :
    i'.config.loggerFiles = i.config.loggerFiles := by
  have hfiles := congrArg Configuration.loggerFiles h.config
  exact hfiles

/-- Preparing the output again. -/
theorem prepareOutput_redone {s s' t : Instrumenter × World}
    (hcopy : s.1.options.copyProject = false) (hs : s.2.disk.Sound s.2.cwd)
    (h : prepareOutput s = (.ok (), s')) (hsetup : SameSetup s.1 t.1) (hcwd : t.2.cwd = s.2.cwd)
    (ht : t.2.disk.Sound t.2.cwd) (hg : Disk.Grown s'.2.disk t.2.disk)
    (hmade : makeOutput t.1 t.2 = .ok t.2.disk)
    (horigins : SameOrigins s.1.options.outputDir t.2.cwd s.2.disk t.2.disk
      s.1.config.loggerFiles) :
    ∃ w, prepareOutput t = (.ok (), ({ t.1 with prepared := true }, w)) ∧ w.cwd = t.2.cwd ∧
      Disk.Redone t.2.cwd (fun p => ∃ f ∈ s.1.config.loggerFiles,
        p = s.1.options.outputDir.join f.target) s.2.disk s'.2.disk t.2.disk w.disk := by
  obtain ⟨d, hd, hcopied, hi⟩ := (prepareOutput_eq_ok hcopy).1 h
  have hmakes : Disk.Wrote s.2.cwd (fun _ _ => False) s.2.disk d := by
    unfold makeOutput at hd
    split_ifs at hd
    · cases hd
      exact .refl hs
    · exact Disk.wrote_makeDirectories hs hd
  obtain ⟨w, hcopied', hcwd', hredone⟩ := copyLoggerFiles_redone (v := t.2) _ hmakes.sound hcopied
    hcwd ht hg fun before f after hfs origin horigin => by
      rw [hmakes.contentAt origin]
      exact horigins before f after hfs origin horigin
  refine ⟨w, ?_, hcwd', (Disk.Redone.of_kept ht hmakes.contentAt).trans hredone⟩
  rw [prepareOutput_eq_ok (by rw [hsetup.options, hcopy]), hsetup.options, hsetup.loggerFiles]
  exact ⟨t.2.disk, hmade, hcopied', rfl⟩

/-! ## Preparing a run -/

/-- A path as seen from the root depends on the current directory alone. -/
theorem absolute_of_cwd {p q : Path} {w w' v : World}
    (h : Action.absolute p w = (.ok q, w')) (hcwd : v.cwd = w.cwd) :
    w' = w ∧ Action.absolute p v = (.ok q, v) := by
  rw [Action.absolute, bind_of_ok (rfl : Action.currentDirectory w = (.ok _, w))] at h
  rw [Action.absolute, bind_of_ok (rfl : Action.currentDirectory v = (.ok _, v)), hcwd]
  cases habsolute : Path.absolute? ⟨"/" ++ String.intercalate "/" w.cwd⟩ p with
  | none =>
    rw [habsolute] at h
    cases h
  | some q' =>
    rw [habsolute] at h
    cases h
    exact ⟨rfl, rfl⟩

theorem samePlace_prepareRun {s s₁ : Instrumenter × World} {root : Path}
    (hr : s.1.resolver.Keeps World.SamePlace) (h : prepareRun s = (.ok root, s₁)) :
    World.SamePlace (prepareOutput (untried s)).2.2 s₁.2 :=
  keeps_prepareRun hr h

theorem resolver_prepareRun {s s₁ : Instrumenter × World} {root : Path}
    (h : prepareRun s = (.ok root, s₁)) : s₁.1.resolver = s.1.resolver := by
  obtain ⟨s₀, index, w, hprepare, -, -, hwire⟩ := prepareRun_eq_ok.1 h
  have hresolver := sameResolver_prepareOutput.of_eq hprepare
  rw [← hwire]
  exact hresolver

theorem classpathFor_congr {i i' : Instrumenter} (hoptions : i'.options = i.options)
    (hresolver : i'.resolver = i.resolver) : classpathFor i' = classpathFor i := by
  unfold classpathFor
  rw [hoptions, hresolver]

/-- The index that a run uses is the same another time, if resolving the classpath comes to the
    same. -/
theorem usedClasspath_redone {i j : Instrumenter} {index : ClasspathIndex} {w w' v : World}
    (hr : j.resolver.Keeps World.SamePlace) (hoptions : j.options = i.options)
    (hresolver : j.resolver = i.resolver) (hclasspath : j.classpath = index)
    (h : usedClasspath i w = (.ok index, w'))
    (hindex : i.usesClasspath = true → (classpathFor i v).1 = (classpathFor i w).1) :
    ∃ v', usedClasspath j v = (.ok index, v') ∧ World.SamePlace v v' := by
  refine ⟨(usedClasspath j v).2, Prod.ext ?_ rfl, keeps_usedClasspath hr v⟩
  have huses : j.usesClasspath = i.usesClasspath := by
    rw [Instrumenter.usesClasspath, hoptions, Instrumenter.usesClasspath]
  unfold usedClasspath at h ⊢
  rw [huses]
  split_ifs at h ⊢ with hused
  · rw [classpathFor_congr hoptions hresolver, hindex hused, h]
  · exact congrArg Except.ok hclasspath

/-- Preparing a run again, with the classpath that it had before. -/
theorem prepareRun_redone {s s₁ t : Instrumenter × World} {root : Path}
    (hr : s.1.resolver.Keeps World.SamePlace) (hcopy : s.1.options.copyProject = false)
    (hs : s.2.disk.Sound s.2.cwd) (hp : prepareRun s = (.ok root, s₁))
    (hsetup : SameSetup s.1 t.1) (hresolver : t.1.resolver = s.1.resolver)
    (hclasspath : t.1.classpath = s₁.1.classpath) (hcwd : t.2.cwd = s.2.cwd)
    (ht : t.2.disk.Sound t.2.cwd) (hg : Disk.Grown s₁.2.disk t.2.disk)
    (hmade : makeOutput t.1 t.2 = .ok t.2.disk)
    (horigins : SameOrigins s.1.options.outputDir t.2.cwd s.2.disk t.2.disk
      s.1.config.loggerFiles)
    (hindex : s.1.usesClasspath = true → (classpathFor s.1 (prepareOutput (untried t)).2.2).1 =
      (classpathFor s.1 (prepareOutput (untried s)).2.2).1) :
    ∃ t₁, prepareRun t = (.ok root, t₁) ∧ t₁.1.classpath = s₁.1.classpath ∧
      t₁.2.cwd = t.2.cwd ∧
        Disk.Redone t.2.cwd (fun p => ∃ f ∈ s.1.config.loggerFiles,
          p = s.1.options.outputDir.join f.target) s.2.disk s₁.2.disk t.2.disk t₁.2.disk := by
  obtain ⟨s₀, index, w, hprepare, hused, habsolute, hwire⟩ := prepareRun_eq_ok.1 hp
  obtain ⟨d, -, -, hs₀⟩ := (prepareOutput_eq_ok (s := untried s) hcopy).1 hprepare
  obtain ⟨rfl, -⟩ := absolute_of_cwd habsolute rfl
  have hplace := samePlace_prepareRun hr hp
  rw [hprepare] at hindex hplace
  have hcwd₀ : s₀.2.cwd = s.2.cwd := by
    have hwrites := writes_prepareOutput (Q := fun _ _ => True) (untried s)
      (fun _ _ _ _ => trivial) fun _ _ _ => trivial
    rw [hprepare] at hwrites
    exact (hwrites hs).1
  -- the output
  obtain ⟨v, hprepare', hcwd', hredone⟩ := prepareOutput_redone (s := untried s) (t := untried t)
    hcopy hs hprepare ⟨hsetup.options, hsetup.config⟩ hcwd ht (hplace.disk ▸ hg) hmade horigins
  replace hcwd' : v.cwd = t.2.cwd := hcwd'
  rw [hprepare'] at hindex
  -- the classpath
  let i : Instrumenter := { t.1 with failed := {}, prepared := true }
  have hoptions : i.options = s₀.1.options := by
    rw [← hs₀]
    exact hsetup.options
  have hclasspath' : i.classpath = index := by
    show t.1.classpath = index
    rw [hclasspath, ← hwire]
    rfl
  obtain ⟨v', hused', hplace'⟩ := usedClasspath_redone (j := i) (v := v)
    (show t.1.resolver.Keeps _ by rw [hresolver]; exact hr) hoptions
    (by rw [← hs₀]; exact hresolver) hclasspath' hused (by rw [← hs₀]; exact hindex)
  obtain ⟨-, habsolute'⟩ := absolute_of_cwd (v := v') habsolute (by
    rw [hplace'.cwd, hcwd', hcwd, hplace.cwd, hcwd₀])
  refine ⟨(Instrumenter.wire { i with classpath := index }, v'),
    prepareRun_eq_ok.2 ⟨_, index, v', hprepare', hused', ?_, rfl⟩, ?_, ?_, ?_⟩
  · show Action.absolute (i.options.sourceRoot t.1.config.sourceDir) v' = _
    rw [hoptions, hsetup.sourceDir, ← habsolute', ← hs₀]
    rfl
  · rw [← hwire]
    rfl
  · exact hplace'.cwd.trans hcwd'
  · rw [hplace.disk, hplace'.disk]
    exact hredone

/-! ## The log directory -/

theorem writeIdFile_of_write {name : String} {s : Instrumenter × World} {w : World}
    (h : s.1.ids.write (s.1.options.logDir.join ⟨name⟩) s.2 = (.ok (), w)) :
    ∃ lines, writeIdFile name s = (.ok (s.1.options.logDir.join ⟨name⟩), (s.1, w.logged lines)) := by
  rw [writeIdFile, bind_of_ok (Job.instrumenter_apply _)]
  have hact : Job.act (do
      s.1.ids.write (s.1.options.logDir.join ⟨name⟩)
      Action.debug s!"Wrote {s.1.ids.size} ids to {(s.1.options.logDir.join ⟨name⟩).text}") s =
      (.ok (), (s.1, w.logged
        [⟨.debug, s!"Wrote {s.1.ids.size} ids to {(s.1.options.logDir.join ⟨name⟩).text}"⟩])) :=
    Job.act_eq.2 ⟨rfl, bind_eq_ok.2 ⟨(), w, h, rfl⟩⟩
  exact ⟨_, bind_of_ok hact _⟩

theorem writeProperties_eq_ok {i : Instrumenter} {s s' : Instrumenter × World} :
    writeProperties i s = (.ok (), s') ↔ match i.writtenProperties with
      | none => s = s'
      | some p => ∃ d₁ d₂, s.2.disk.makeDirectories s.2.cwd s.1.options.logDir = .ok d₁ ∧
          d₁.write s.2.cwd (s.1.options.logDir.join ⟨p.file⟩) p.render.toUTF8 = .ok d₂ ∧
            (s.1, { s.2 with disk := d₂ }) = s' := by
  have hpure : ∀ {t t' : Instrumenter × World},
      (pure () : Job Unit) t = (.ok (), t') ↔ t = t' :=
    ⟨fun h => congrArg Prod.snd h, fun h => by rw [h]; rfl⟩
  unfold writeProperties Instrumenter.writtenProperties
  cases i.config.loggerProperties with
  | none => exact hpure
  | some p =>
    rw [Option.filter_some]
    simp only [writeLoggerProperties]
    cases (Text.trim p.file.toList).isEmpty with
    | true => exact hpure
    | false =>
      simp only [Bool.false_eq_true, if_false, Bool.not_false, if_true, bind_assoc, pure_bind]
      rw [bind_of_ok (Job.instrumenter_apply _), Job.bind_act_eq_ok]
      constructor
      · rintro ⟨_, w₁, hact, hlast⟩
        obtain ⟨d₁, hd₁, hwrite⟩ := bind_changeDisk_eq_ok.1 hact
        obtain ⟨d₂, hd₂, rfl⟩ := changeDisk_eq_ok.1 hwrite
        exact ⟨d₁, d₂, hd₁, hd₂, hpure.1 hlast⟩
      · rintro ⟨d₁, d₂, hd₁, hd₂, hlast⟩
        exact ⟨(), { s.2 with disk := d₂ }, bind_changeDisk_eq_ok.2 ⟨d₁, hd₁,
          changeDisk_eq_ok.2 ⟨d₂, hd₂, rfl⟩⟩, hpure.2 hlast⟩

/-- Writing the properties of the logger again. -/
theorem writeProperties_redone {i : Instrumenter} {s s' t : Instrumenter × World}
    (hs : s.2.disk.Sound s.2.cwd) (h : writeProperties i s = (.ok (), s'))
    (hoptions : t.1.options = s.1.options) (hcwd : t.2.cwd = s.2.cwd)
    (ht : t.2.disk.Sound t.2.cwd) (hg : Disk.Grown s'.2.disk t.2.disk) :
    ∃ w, writeProperties i t = (.ok (), (t.1, w)) ∧ w.cwd = t.2.cwd ∧
      Disk.Redone t.2.cwd (fun _ => True) s.2.disk s'.2.disk t.2.disk w.disk := by
  rw [writeProperties_eq_ok] at h
  cases hp : i.writtenProperties with
  | none =>
    rw [hp] at h
    obtain rfl := h
    exact ⟨t.2, by rw [writeProperties_eq_ok, hp], rfl, .of_kept ht fun _ => rfl⟩
  | some p =>
    rw [hp] at h
    obtain ⟨d₁, d₂, hd₁, hd₂, rfl⟩ := h
    rw [← hcwd] at hs hd₁ hd₂
    have hmade := Disk.wrote_makeDirectories (Q := fun _ _ => False) hs hd₁
    have hwrote := Disk.wrote_write (Q := fun _ _ => True) hmade.sound hd₂ trivial
    have hd₁' := Disk.makeDirectories_of_made hd₁ (hwrote.grown.trans hg)
    obtain ⟨e, he, hredone⟩ := Disk.write_redone (Q := fun _ => True) hmade.sound hd₂ hg ht trivial
    refine ⟨{ t.2 with disk := e }, ?_, rfl, (Disk.Redone.of_kept ht hmade.contentAt).trans hredone⟩
    rw [writeProperties_eq_ok, hp, hoptions]
    exact ⟨t.2.disk, e, hd₁', he, rfl⟩

/-- Writing the id file again. -/
theorem IdMap.write_redone {m : IdMap} {p : Path} {w w' v : World} (hw : w.disk.Sound w.cwd)
    (h : m.write p w = (.ok (), w')) (hcwd : v.cwd = w.cwd) (hv : v.disk.Sound v.cwd)
    (hg : Disk.Grown w'.disk v.disk) :
    ∃ v', m.write p v = (.ok (), v') ∧ v'.cwd = v.cwd ∧
      Disk.Redone v.cwd (fun _ => True) w.disk w'.disk v.disk v'.disk := by
  obtain ⟨d₁, d₂, hhome, hd₂, rfl⟩ := IdMap.write_eq_ok.1 h
  rw [← hcwd] at hw hhome hd₂
  have hmade := Disk.wrote_makeHome (Q := fun _ _ => False) hw hhome
  have hwrote := Disk.wrote_write (Q := fun _ _ => True) hmade.sound hd₂ trivial
  obtain ⟨e, he, hredone⟩ := Disk.write_redone (Q := fun _ => True) hmade.sound hd₂ hg hv trivial
  exact ⟨{ v with disk := e }, IdMap.write_eq_ok.2 ⟨v.disk, e,
    Disk.makeHome_of_made hhome (hwrote.grown.trans hg), he, rfl⟩, rfl,
    (Disk.Redone.of_kept hv hmade.contentAt).trans hredone⟩

/-- Writing the id file and the properties of the logger again. -/
theorem finishRun_redone {s s' t : Instrumenter × World} {idFile : Path}
    (hs : s.2.disk.Sound s.2.cwd) (h : finishRun s = (.ok idFile, s'))
    (hids : t.1.ids = s.1.ids) (hoptions : t.1.options = s.1.options)
    (hconfig : t.1.config = s.1.config) (hcwd : t.2.cwd = s.2.cwd)
    (ht : t.2.disk.Sound t.2.cwd) (hg : Disk.Grown s'.2.disk t.2.disk) :
    ∃ w, finishRun t = (.ok idFile, (t.1, w)) ∧ w.cwd = t.2.cwd ∧
      Disk.Redone t.2.cwd (fun _ => True) s.2.disk s'.2.disk t.2.disk w.disk := by
  obtain ⟨hpath, w₁, lines, hwrite, hproperties⟩ := finishRun_of_ok h
  have hwrites₁ : World.Writes (fun _ _ => True) s.2 w₁ :=
    (s.1.ids.keeps_write trivial).of_eq hwrite
  obtain ⟨hcwd₁, hwrote₁⟩ := hwrites₁ hs
  have hs₁ : (w₁.logged lines).disk.Sound (w₁.logged lines).cwd := hcwd₁ ▸ hwrote₁.sound
  have hwrites₂ : World.Writes (fun _ _ => True) (w₁.logged lines) s'.2 := by
    have hwrites := writes_writeProperties (Q := fun _ _ => True) s.1 (s.1, w₁.logged lines)
      fun _ _ => trivial
    rwa [hproperties] at hwrites
  obtain ⟨v₁, hwrite', hcwd₁', hredone₁⟩ := IdMap.write_redone hs hwrite hcwd ht
    ((hwrites₂ hs₁).2.grown.trans hg)
  rw [← hids, hpath, ← hoptions] at hwrite'
  obtain ⟨lines', hidFile⟩ := writeIdFile_of_write hwrite'
  obtain ⟨w, hproperties', hcwd', hredone₂⟩ := writeProperties_redone (t := (t.1, v₁.logged lines'))
    hs₁ hproperties hoptions (by
      show v₁.cwd = w₁.cwd
      rw [hcwd₁', hcwd₁, hcwd]) (hcwd₁' ▸ hredone₁.sound) (hg.trans hredone₁.grown)
  replace hcwd' : w.cwd = v₁.cwd := hcwd'
  replace hredone₂ : Disk.Redone v₁.cwd _ _ _ _ _ := hredone₂
  rw [hcwd₁'] at hcwd' hredone₂
  refine ⟨w, ?_, hcwd', hredone₁.trans hredone₂⟩
  have hsame : writeProperties t.1 = writeProperties s.1 := by
    unfold writeProperties
    rw [hconfig]
  rw [finishRun_eq, bind_of_ok hidFile, hsame, bind_of_ok hproperties', hpath, hoptions]
  rfl

/-- The output is a directory once an id file is written below it. -/
theorem isDirectory_of_finishRun {s s' : Instrumenter × World} {idFile : Path}
    (hs : s.2.disk.Sound s.2.cwd) (h : finishRun s = (.ok idFile, s'))
    (hrelative : (⟨s.1.options.idFile⟩ : Path).isAbsolute = false)
    (hout : s.1.options.outputDir.isEmpty = false) :
    s'.2.disk.isDirectory s.2.cwd s.1.options.outputDir = true := by
  obtain ⟨hpath, w, lines, hwrite, hproperties⟩ := finishRun_of_ok h
  obtain ⟨d₁, d₂, hhome, hd₂, rfl⟩ := IdMap.write_eq_ok.1 hwrite
  have hmade := Disk.wrote_makeHome (Q := fun _ _ => False) hs hhome
  have hwrote := Disk.wrote_write (Q := fun _ _ => True) hmade.sound hd₂ trivial
  have hlater : Disk.Grown d₂ s'.2.disk := by
    have hwrites := writes_writeProperties (Q := fun _ _ => True) s.1
      (s.1, World.logged { s.2 with disk := d₂ } lines) fun _ _ => trivial
    rw [hproperties] at hwrites
    exact (hwrites hwrote.sound).2.grown
  obtain ⟨-, l, hl, -, -⟩ := Disk.write_eq_ok.1 hd₂
  rw [hpath, Options.logDir, Path.join_join _ rfl hrelative] at hl
  refine Disk.isDirectory_grown (Disk.isDirectory_of_join ?_ ?_ hout hl) (hwrote.grown.trans hlater)
  · rw [Path.isAbsolute_join _ hrelative]
    rfl
  · rw [Path.names_join _ hrelative]
    exact List.append_ne_nil_of_left_ne_nil (by decide) _

end Instrument

end Tracepoint
