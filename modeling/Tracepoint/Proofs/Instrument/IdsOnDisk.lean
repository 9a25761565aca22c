import Tracepoint.Proofs.Instrument.Written
import Tracepoint.Proofs.Model.Print

/-!
# Identifiers on the disk

A run that succeeds leaves printed files with calls in them and an id file with a line for each
identifier. They belong together over every history of an instrumenter: the id file pairs the
identifier in a call with the key of the element around the call, and no later one pairs it with
another key. Only what the run writes last can undo this, the properties of the logger, where they
are meant to be written to the id file itself.

Results:

* `idLines`: what an id file is to hold; `render_eq_idLines`: it is what a map is written as.
* `Launch.content_finish`: the files that a launch creates or changes are units that it prints.
* `idFile_after`: what is in the id file after a run that succeeds.
* `printedBy_identifies_after`: what a run prints and its id file are to each other.
-/

namespace Tracepoint.Instrument

open Config Detect Model Source

/-! ## The id file -/

/-- A line for each identifier and its key. -/
def idLines : List (Nat × String) → String
  | [] => ""
  | (id, key) :: entries => toString id ++ " " ++ key ++ "\n" ++ idLines entries

theorem render_eq_idLines (ids : IdMap) : ids.render = idLines ids.entries := by
  unfold IdMap.render
  induction ids.entries with
  | nil => rfl
  | cons entry entries ih =>
    rw [List.map_cons, String.join_cons, ih]
    rfl

/-- Two paths lead to the same place. -/
def SameFile (w : World) (p q : Path) : Prop :=
  ∃ loc, w.disk.resolve w.cwd p true = .ok loc ∧ w.disk.resolve w.cwd q true = .ok loc

/-- What is in the id file after a run: a line for each identifier. If the properties of the logger
    are written to the same file, they take the place of these lines. -/
structure IdFileAfter (s : Instrumenter × World) (idFile : Path) : Prop where
  lines : (∀ p, s.1.writtenProperties = some p →
      ¬ SameFile (run s).2.2 idFile (s.1.options.logDir.join ⟨p.file⟩)) →
    (run s).2.2.disk.read (run s).2.2.cwd idFile = .ok (idLines (run s).2.1.ids.entries).toUTF8
  replaced : ∀ p, s.1.writtenProperties = some p →
    SameFile (run s).2.2 idFile (s.1.options.logDir.join ⟨p.file⟩) →
    (run s).2.2.disk.read (run s).2.2.cwd idFile = .ok p.render.toUTF8

/-! ## Before the end of a run -/

section

variable {s s₁ : Instrumenter × World} {root : Path}

theorem sound_prepareRun (hr : s.1.resolver.Keeps World.SamePlace)
    (hsound : s.2.disk.Sound s.2.cwd) (hp : prepareRun s = (.ok root, s₁)) :
    s₁.2.disk.Sound s₁.2.cwd := by
  have hwrites := writes_prepareRun (Q := fun _ _ => True) s hr (fun _ _ _ _ => trivial)
    fun _ _ _ => trivial
  rw [hp] at hwrites
  exact hwrites.sound hsound

theorem sound_injectBelow (hsound : s₁.2.disk.Sound s₁.2.cwd) (root : Path) :
    (injectBelow s₁.1 root s₁).2.2.disk.Sound (injectBelow s₁.1 root s₁).2.2.cwd := by
  have hchain := chain_launchesOf (R := fun t t' => World.Writes (fun _ _ => True) t.2 t'.2)
    (fun t lines => ignoresLog_logged t.2 lines) s₁.1 root s₁
    fun l _ => l.writes.mono fun _ _ _ => trivial
  exact hchain.whole.sound hsound

/-- A run that succeeds ends with writing its identifiers, and then the properties of the logger. -/
theorem run_ends {report : Report} (hr : s.1.resolver.Keeps World.SamePlace)
    (hsound : s.2.disk.Sound s.2.cwd) (h : (run s).1 = .ok report) :
    report.idFile = s.1.options.logDir.join ⟨s.1.options.idFile⟩ ∧
      (run s).2.1.options = s.1.options ∧
      (run s).2.1.writtenProperties = s.1.writtenProperties ∧
      ∃ w w' lines s', w.disk.Sound w.cwd ∧
        (run s).2.1.ids.write report.idFile w = (.ok (), w') ∧
        writeProperties (run s).2.1 ((run s).2.1, w'.logged lines) = (.ok (), s') ∧
        World.SamePlace s'.2 (run s).2.2 := by
  rcases hrun : run s with ⟨_ | r, s'⟩
  · rw [hrun] at h; cases h
  rw [hrun] at h
  cases h
  rcases hp : prepareRun s with ⟨err | root, s₁⟩
  · rw [run_of_error hp] at hrun; cases hrun
  rw [run_of_ok hp] at hrun
  obtain ⟨r, s₂, hinject, hconclude⟩ := Effect.bind_eq_ok.1 hrun
  have hsame : s'.1 = s₂.1 := by
    have hunchanged := unchanged_conclude r s₂
    rw [hconclude] at hunchanged
    exact hunchanged.symm
  have hsetup : SameSetup s.1 s₂.1 := by
    have hgrows := grows_injectBelow s₁.1 root s₁
    rw [hinject] at hgrows
    exact IsTrans.trans _ _ _ (prepareRun_of_ok hp).sameSetup hgrows.setup
  have hsound₂ : s₂.2.disk.Sound s₂.2.cwd := by
    have hinjected := sound_injectBelow (sound_prepareRun hr hsound hp) root
    rwa [hinject] at hinjected
  rw [conclude, Effect.bind_of_ok (Job.instrumenter_apply _)] at hconclude
  obtain ⟨idFile, s₃, hfinish, hinfo⟩ := Effect.bind_eq_ok.1 hconclude
  rw [Effect.bind_of_ok (info_apply _ _)] at hinfo
  cases hinfo
  obtain ⟨hpath, w, lines, hwrite, hproperties⟩ := finishRun_of_ok hfinish
  rw [hsame, ← hsetup.options]
  exact ⟨hpath, rfl, hsetup.writtenProperties, s₂.2, w, lines, s₃, hsound₂, hwrite, hproperties,
    ⟨rfl, rfl⟩⟩

/-- The disk is sound before every launch. -/
theorem sound_launches (hr : s.1.resolver.Keeps World.SamePlace)
    (hsound : s.2.disk.Sound s.2.cwd) :
    ∀ l ∈ launches s, l.start.2.disk.Sound l.start.2.cwd := by
  intro l hl
  rcases hp : prepareRun s with ⟨e | root, s₁⟩
  · unfold launches at hl
    rw [hp] at hl
    cases hl
  · exact ((chain_run hp).within l hl).1.sound (sound_prepareRun hr hsound hp)

end

/-- The files that a launch creates or changes are units that it prints. -/
theorem Launch.content_finish (l : Launch) (hsound : l.start.2.disk.Sound l.start.2.cwd)
    {loc : Location} {content : ByteArray} (h : l.finish.2.disk.contentAt loc = some content)
    (hnew : l.start.2.disk.contentAt loc ≠ some content) :
    ∃ x ∈ l.printed, ∃ text, x.1.render x.2 = some text ∧
      content = (String.ofList text).toUTF8 := by
  rcases (l.writes hsound).2.content loc with hsame | ⟨p, content', hprints, -, hcontent⟩
  · exact absurd (hsame.symm.trans h) hnew
  · cases hprints with
    | unit hx htext =>
      exact ⟨_, hx, _, htext, Option.some.inj (h.symm.trans hcontent)⟩

/-! ## The end of a run -/

/-- Properties that are written are what their file holds then. -/
theorem read_of_writeProperties {i : Instrumenter} {s s' : Instrumenter × World}
    (hsound : s.2.disk.Sound s.2.cwd) (h : writeProperties i s = (.ok (), s'))
    {p : LoggerProperties} (hp : i.writtenProperties = some p) :
    s'.2.disk.read s'.2.cwd (s.1.options.logDir.join ⟨p.file⟩) = .ok p.render.toUTF8 := by
  obtain ⟨hproperties, hblank⟩ := Option.filter_eq_some_iff.1 hp
  unfold writeProperties at h
  rw [hproperties] at h
  obtain ⟨_, s₁, hwrite, hend⟩ := Effect.bind_eq_ok.1 h
  cases hend
  rw [writeLoggerProperties, if_neg (by simpa using hblank),
    Effect.bind_of_ok (Job.instrumenter_apply _), Job.bind_act_eq_ok] at hwrite
  obtain ⟨_, w, hact, hend⟩ := hwrite
  cases hend
  obtain ⟨d, hmade, hwritten⟩ := Action.bind_changeDisk_eq_ok.1 hact
  obtain ⟨d', hd', rfl⟩ := Action.changeDisk_eq_ok.1 hwritten
  have hmadeSound := (Disk.wrote_makeDirectories (Q := fun _ _ => False) hsound hmade).sound
  obtain ⟨loc, hloc, hcontent⟩ := Disk.content_of_write hmadeSound hd'
  exact Disk.read_eq_ok.2 ⟨loc, hloc, hcontent⟩

/-- Properties that are written leave all other files alone. -/
theorem read_of_other {i : Instrumenter} {s : Instrumenter × World}
    (hsound : s.2.disk.Sound s.2.cwd) {q : Path} {content : ByteArray}
    (hread : s.2.disk.read s.2.cwd q = .ok content)
    (hother : ∀ p, i.writtenProperties = some p →
      ¬ SameFile (writeProperties i s).2.2 q (s.1.options.logDir.join ⟨p.file⟩)) :
    (writeProperties i s).2.2.disk.read (writeProperties i s).2.2.cwd q = .ok content := by
  obtain ⟨hcwd, hwrote⟩ := writes_writeProperties
    (Q := fun p _ => ∃ properties, i.writtenProperties = some properties ∧
      p = s.1.options.logDir.join ⟨properties.file⟩) i s (fun p hp => ⟨p, hp, rfl⟩) hsound
  obtain ⟨loc, hloc, hcontent⟩ := Disk.read_eq_ok.1 hread
  have hstill := Disk.resolve_grown hloc hwrote.grown
  rw [← hcwd] at hstill
  refine Disk.read_eq_ok.2 ⟨loc, hstill, ?_⟩
  rcases hwrote.content loc with hsame | ⟨p, _, ⟨properties, hproperties, rfl⟩, hplace, -⟩
  · rw [hsame, hcontent]
  · exact absurd ⟨loc, hstill, hcwd ▸ hplace⟩ (hother properties hproperties)

/-- What is in the id file after a run that succeeds. -/
theorem idFile_after {s : Instrumenter × World} {report : Report}
    (hr : s.1.resolver.Keeps World.SamePlace) (hsound : s.2.disk.Sound s.2.cwd)
    (h : (run s).1 = .ok report) : IdFileAfter s report.idFile := by
  obtain ⟨-, hoptions, hwritten, w, w', lines, s', hw, hids, hproperties, hplace⟩ :=
    run_ends hr hsound h
  obtain ⟨hcwd, hwrote⟩ := (IdMap.keeps_write (Q := fun _ _ => True) _ trivial).of_eq hids hw
  have hsound' : w'.disk.Sound w'.cwd := hcwd ▸ hwrote.sound
  have hread : w'.disk.read w'.cwd report.idFile =
      .ok (idLines (run s).2.1.ids.entries).toUTF8 := by
    rw [← render_eq_idLines, hcwd]
    exact Action.read_of_put hw hids
  have hsame : ∀ q q', SameFile (run s).2.2 q q' ↔ SameFile s'.2 q q' := by
    intro q q'
    rw [SameFile, hplace.disk, hplace.cwd, SameFile]
  refine ⟨fun hother => ?_, fun p hp hfile => ?_⟩
  · have hkept := read_of_other (i := (run s).2.1) (s := ((run s).2.1, w'.logged lines)) hsound'
      hread fun p hp => ?_
    · rwa [hproperties, ← hplace.disk, ← hplace.cwd] at hkept
    · rw [hproperties, hoptions]
      exact (hsame _ _).not.1 (hother p (hwritten ▸ hp))
  · have hreplaced := read_of_writeProperties hsound' hproperties (hwritten.trans hp)
    obtain ⟨loc, hloc, hcontent⟩ := Disk.read_eq_ok.1 hreplaced
    obtain ⟨loc', hfile, hplaced⟩ := (hsame _ _).1 hfile
    rw [hoptions] at hloc
    obtain rfl : loc = loc' := Except.ok.inj (hloc.symm.trans hplaced)
    rw [hplace.disk, hplace.cwd]
    exact Disk.read_eq_ok.2 ⟨loc, hfile, hcontent⟩

/-- Over every history of one instrumenter, the calls that a run prints carry identifiers that the
    map pairs with the keys of their elements and with no others: at the end of the run and whatever
    happens later. The files that its launches create or change are the units with these calls, and
    if the run succeeds, its id file has a line for each identifier and its key, unless the
    properties of the logger go to the same file, which then holds these. -/
theorem printedBy_identifies_after (options : Options) (config : Configuration)
    (resolver : Maven.Resolver) (w : World) (before later : List Step) :
    let s := after before ({ options := options, config := config, resolver := resolver }, w)
    (∀ x ∈ printedBy s, ∀ e ∈ x.2.edits,
      Identifies (after later (run s).2).1.ids x.1 x.2.autoImports e) ∧
    (s.1.resolver.Keeps World.SamePlace → s.2.disk.Sound s.2.cwd →
      (∀ l ∈ launches s, ∀ loc content, l.finish.2.disk.contentAt loc = some content →
        l.start.2.disk.contentAt loc ≠ some content →
        ∃ x ∈ l.printed, ∃ text, x.1.render x.2 = some text ∧
          content = (String.ofList text).toUTF8) ∧
      ∀ report, (run s).1 = .ok report →
        report.idFile = s.1.options.logDir.join ⟨s.1.options.idFile⟩ ∧
          IdFileAfter s report.idFile) := by
  intro s
  obtain ⟨keys, hkeys⟩ :=
    ids_after before ({ options := options, config := config, resolver := resolver }, w)
  obtain ⟨keys', hkeys'⟩ := ids_after later (run s).2
  refine ⟨?_, fun hr hsound => ⟨fun l hl loc content h hnew => ?_, fun report hreport =>
    ⟨(run_ends hr hsound hreport).1, idFile_after hr hsound hreport⟩⟩⟩
  · rw [hkeys']
    refine identifies_printedBy ?_ keys'
    rw [hkeys]
    exact IdMap.wellFormed_addKeys IdMap.wellFormed_empty keys
  · exact l.content_finish (sound_launches hr hsound l hl) h hnew

/-- A run with properties in a file of their own, and another one after it. -/
theorem printedBy_identifies_after_sample :
    let p := sample "src" [sampleFile ["p", "src", "A.java"] "class A\x7bvoid m()\x7b\x7d\x7d"]
    let config := { p.1.config with loggerProperties := some ⟨"a", [("k", "v")]⟩ }
    let s := after [.clean]
      ({ options := p.1.options, config := config, resolver := p.1.resolver }, p.2)
    (printedBy s).map (·.2.edits.length) = [1] ∧
      (∀ x ∈ printedBy s, ∀ e ∈ x.2.edits,
        Identifies (after [.run] (run s).2).1.ids x.1 x.2.autoImports e) ∧
      (run s).2.2.disk.read [] ⟨"/out/log/id.map"⟩ =
        .ok (idLines (run s).2.1.ids.entries).toUTF8 := by
  intro p config s
  obtain ⟨hprinted, hdisk⟩ :=
    printedBy_identifies_after p.1.options config p.1.resolver p.2 [.clean] [.run]
  have hr : (Maven.Resolver.fixed []).Keeps World.SamePlace := Maven.keeps_fixed []
  obtain ⟨-, hreport⟩ := hdisk hr (by decide +kernel)
  have hcheck : (run s).1.isOk = true ∧ (run s).2.2.cwd = [] ∧
      ((run s).2.2.disk.resolve [] ⟨"/out/log/id.map"⟩ true).toOption =
        some ["out", "log", "id.map"] ∧
      ((run s).2.2.disk.resolve [] ⟨"/out/log/a"⟩ true).toOption = some ["out", "log", "a"] := by
    decide +kernel
  obtain ⟨hok, hcwd, hplace, hplace'⟩ := hcheck
  obtain ⟨report, hrun⟩ := Except.isOk_iff.1 hok
  obtain ⟨hfile, hlines, -⟩ := hreport report hrun
  have hpath : report.idFile = ⟨"/out/log/id.map"⟩ := hfile.trans (by decide +kernel)
  rw [hcwd, hpath] at hlines
  refine ⟨by decide +kernel, hprinted, hlines fun properties hproperties => ?_⟩
  cases hproperties
  rintro ⟨loc, hloc, hloc'⟩
  rw [hcwd] at hloc hloc'
  rw [hloc] at hplace
  have hother : s.1.options.logDir.join ⟨"a"⟩ = ⟨"/out/log/a"⟩ := by decide +kernel
  rw [hother] at hloc'
  rw [hloc'] at hplace'
  exact absurd (hplace.symm.trans hplace') (by decide)

/-- Properties that are written to the id file. A call is printed, and the file pairs nothing with
    its identifier. -/
theorem idFile_replaced_by_properties :
    let p := sample "src" [sampleFile ["p", "src", "A.java"] "class A\x7bvoid m()\x7b\x7d\x7d"]
    let s := ({ p.1 with config :=
      { p.1.config with loggerProperties := some ⟨"id.map", [("k", "v")]⟩ } }, p.2)
    s.1.config.check.isOk = true ∧ (run s).1.isOk = true ∧
      (printedBy s).map (·.2.edits.length) = [1] ∧
      ((run s).2.2.disk.read [] ⟨"/out/log/id.map"⟩).toOption = some "k=v\n".toUTF8 ∧
      ∀ entries, idLines entries ≠ "k=v\n" := by
  intro p s
  have hcheck : s.1.config.check.isOk = true ∧ (run s).1.isOk = true ∧
      (printedBy s).map (·.2.edits.length) = [1] ∧
      ((run s).2.2.disk.read [] ⟨"/out/log/id.map"⟩).toOption = some "k=v\n".toUTF8 := by
    decide +kernel
  obtain ⟨haccepted, hok, hprinted, hread⟩ := hcheck
  refine ⟨haccepted, hok, hprinted, hread, fun entries h => ?_⟩
  cases entries with
  | nil => exact absurd h (by decide)
  | cons entry entries =>
    -- a line has a blank between identifier and key
    have hblank : ' ' ∈ (idLines (entry :: entries)).toList := by simp [idLines]
    rw [h] at hblank
    exact absurd hblank (by decide)

end Tracepoint.Instrument
