import Tracepoint.Proofs.Instrument.Written

/-!
# Runs that stay inside their output

What a run writes goes to paths below the output directory, where the rest of the path is given
by the user: the source directory, the targets of the files of the logger, and the names of the
id file and of the properties of the logger. An absolute path replaces the directory that it is
written below, and a path with points leads up from it. So a run stays inside its output if
none of these paths does either, and if no link leads out of the output. If one of them does,
the run can overwrite the sources.

Results:

* `below_of_leads`: names that lead from inside a directory to inside it.
* `below_launches`: launches are into files below the source root.
* `run_writes_below`: every file that a run creates or changes lies inside the output.
* `run_overwrites_sources`: what a path that leads out of the output can come to.
-/

namespace Tracepoint

/-! ## Paths that stay below -/

namespace Path

/-- Whether names, from so many levels below a directory on, lead nowhere above it. -/
def stays : Nat → List String → Bool
  | _, [] => true
  | depth, n :: ns =>
    if n = "." then stays depth ns
    else if n = ".." then 0 < depth && stays (depth - 1) ns
    else stays (depth + 1) ns

theorem stays_of_not_mem {ns : List String} (h : ".." ∉ ns) (depth : Nat) :
    stays depth ns = true := by
  induction ns generalizing depth with
  | nil => rfl
  | cons n ns ih =>
    rw [List.mem_cons, not_or] at h
    rw [stays, if_neg (Ne.symm h.1)]
    split_ifs <;> exact ih h.2 _

theorem stays_append {depth : Nat} {xs ys : List String} (h : stays depth xs = true)
    (hys : ".." ∉ ys) : stays depth (xs ++ ys) = true := by
  induction xs generalizing depth with
  | nil => exact stays_of_not_mem hys depth
  | cons x xs ih =>
    rw [List.cons_append, stays]
    rw [stays] at h
    split_ifs at h ⊢ with hhere hup
    · exact ih h
    · rw [Bool.and_eq_true] at h ⊢
      exact ⟨h.1, ih h.2⟩
    · exact ih h

/-- A path that stays below every directory that it is written below. -/
structure StaysBelow (p : Path) : Prop where
  relative : p.isAbsolute = false
  stays : stays 0 p.names = true

instance (p : Path) : Decidable p.StaysBelow :=
  decidable_of_iff (p.isAbsolute = false ∧ Path.stays 0 p.names = true)
    ⟨fun ⟨h, h'⟩ => ⟨h, h'⟩, fun h => ⟨h.relative, h.stays⟩⟩

theorem Inside.staysBelow {r : Path} (h : r.Inside) : r.StaysBelow :=
  ⟨h.relative, stays_of_not_mem h.up 0⟩

theorem StaysBelow.join {p r : Path} (hp : p.StaysBelow) (hr : r.Inside) :
    (p.join r).StaysBelow := by
  refine ⟨by rw [isAbsolute_join p hr.relative, hp.relative], ?_⟩
  rw [names_join p hr.relative]
  exact stays_append hp.stays hr.up

/-- A path whose names stay inside a directory, once they have led to it. -/
structure Contained (out p : Path) : Prop where
  text : out.text.toList <+: p.text.toList
  absolute : p.isAbsolute = out.isAbsolute
  steps : p.isEmpty = false → ∃ rest, rest ≠ [] ∧ Disk.steps p = out.names ++ rest ∧
    Path.stays 0 rest = true

theorem contained_join (out : Path) {r : Path} (h : r.StaysBelow) : Contained out (out.join r) := by
  refine ⟨prefix_join out h.relative, isAbsolute_join out h.relative, fun hne => ?_⟩
  cases hempty : r.isEmpty with
  | true =>
    have hout : out.isEmpty = false := by
      rw [← Bool.not_eq_true]
      intro hout
      rw [show out.join r = r by simp [Path.join, hout], hempty] at hne
      cases hne
    exact ⟨["."], by simp, steps_join_empty hout hempty, rfl⟩
  | false =>
    refine ⟨Disk.steps r, steps_ne_nil hempty, steps_join out h.relative hempty, ?_⟩
    rw [steps_eq]
    refine stays_append h.stays ?_
    split_ifs <;> simp

end Path

/-- Whether an entry is a link. -/
def Entry.isLink : Entry → Bool
  | .link _ => true
  | .file _ | .directory => false

namespace Disk

variable {d : Disk} {links : Nat} {base l : Location} {ns : List String}

/-- Where there are no links, none is found. -/
theorem lookup_ne_link (h : d.entries.all (fun e => !e.2.isLink) = true) (loc : Location)
    (target : Path) : d.lookup loc ≠ some (.link target) := by
  intro hlink
  have hne : loc ≠ [] := by
    rintro rfl
    cases hlink
  cases List.all_eq_true.1 h _ (mem_entries_of_lookup hne hlink)

/-- Names that stay below a directory without links lead from inside it to inside it. -/
theorem below_of_leads (hlinks : ∀ loc target, base <+: loc → d.lookup loc ≠ some (.link target))
    {rel : Location} (h : Leads d links (base ++ rel) ns l)
    (hns : Path.stays rel.length ns = true) : base <+: l := by
  generalize hstart : base ++ rel = start at h
  induction h generalizing rel with
  | stop => exact hstart ▸ List.prefix_append base rel
  | here _ _ ih =>
    rw [Path.stays, if_pos rfl] at hns
    exact ih hns hstart
  | up _ _ ih =>
    rw [Path.stays, if_neg (by decide), if_pos rfl, Bool.and_eq_true, decide_eq_true_eq] at hns
    have hrel : rel ≠ [] := List.length_pos_iff.1 hns.1
    have hback : (base ++ rel).dropLast = base ++ rel.dropLast :=
      List.dropLast_append_of_ne_nil hrel
    rw [hstart] at hback
    exact ih (by rw [List.length_dropLast]; exact hns.2) hback.symm
  | @down _ loc _ n _ _ _ hn _ _ _ ih =>
    rw [Path.stays, if_neg hn.ne_here, if_neg hn.ne_up] at hns
    have hdeeper : base ++ (rel ++ [n]) = loc ++ [n] := by rw [← List.append_assoc, hstart]
    exact ih (by simpa using hns) hdeeper
  | @fresh _ loc n =>
    rw [← hstart, List.append_assoc]
    exact List.prefix_append base _
  | @follow _ loc _ n _ target _ _ he =>
    refine absurd he (hlinks _ target ?_)
    rw [← hstart, List.append_assoc]
    exact List.prefix_append base _

/-- A path that stays inside a directory without links leads to a location inside it. -/
theorem below_of_contained {cwd : Location} {out p : Path} (h : out.Contained p)
    (hp : d.resolve cwd p true = .ok l) :
    ∃ base, d.resolve cwd (out.join ⟨"."⟩) true = .ok base ∧
      ((∀ loc target, base <+: loc → d.lookup loc ≠ some (.link target)) → base <+: l) := by
  obtain ⟨hempty, hzero, hleads⟩ := resolve_eq_ok.1 hp
  obtain ⟨rest, hne, hsteps, hstays⟩ := h.steps hempty
  rw [hsteps] at hleads
  obtain ⟨base, links', -, hbase, hrest⟩ := hleads.split hne
  have hhere : (⟨"."⟩ : Path).isAbsolute = false := rfl
  have hjoin : steps (out.join ⟨"."⟩) = out.names ++ ["."] := Path.steps_join out hhere rfl
  refine ⟨base, resolve_eq_ok.2 ⟨?_, ?_, ?_⟩, fun hlinks => ?_⟩
  · rw [Path.isEmpty_join out hhere]
    exact Bool.and_false _
  · rw [List.contains_eq_mem, decide_eq_false_iff_not] at hzero ⊢
    intro hmem
    rcases Path.mem_join out hhere hmem with hout | hslash | hpoint
    · exact hzero (h.text.subset hout)
    · cases hslash
    · simp at hpoint
  · rw [hjoin, Path.start, Path.isAbsolute_join out hhere, ← h.absolute]
    exact hbase
  · have hhome : Leads d links' (base ++ []) rest l := by rwa [List.append_nil]
    exact below_of_leads hlinks hhome hstays

end Disk

namespace Instrument

open Config Detect Model Source

/-! ## Where launches print -/

/-- The files of a launch lie below a root. -/
structure Launch.Below (below : Path) (l : Launch) : Prop where
  root : l.source.root = below
  named : below.Named l.source.path

theorem below_launchesInto {root : Path} {mode : Mode} {ps : List Path}
    (h : ∀ p ∈ ps, root.Named p) :
    ∀ s, ∀ l ∈ launchesInto root mode ps s, l.Below root := by
  induction ps with
  | nil => intro s l hl; cases hl
  | cons p ps ih =>
    intro s l hl
    obtain ⟨hp, hps⟩ := List.forall_mem_cons.1 h
    rcases List.mem_cons.1 hl with rfl | hl
    · exact ⟨rfl, hp⟩
    · exact ih hps _ l hl

theorem below_launchesBelow {root : Path} {mode : Mode} {wanted : Path → Bool}
    {s : Instrumenter × World} (hd : s.2.disk.WellFormed) :
    ∀ l ∈ launchesBelow root mode wanted s, l.Below root := by
  intro l hl
  unfold launchesBelow at hl
  have hlisting := sourceFiles_fst .standard root s.2
  rcases hfiles : Job.act (sourceFiles .standard root) s with ⟨e | files, s'⟩
  · rw [hfiles] at hl
    cases hl
  · rw [hfiles] at hl
    have hresult : (sourceFiles .standard root s.2).1 = .ok files := congrArg Prod.fst hfiles
    rw [hresult] at hlisting
    refine below_launchesInto (fun p hp => ?_) s' l hl
    exact named_listing hd hlisting.symm p (List.mem_filter.1 hp).1

theorem below_launchesEach {root : Path} {mode : Mode} {s : Instrumenter × World}
    (hsound : s.2.disk.Sound s.2.cwd) : ∀ l ∈ launchesEach root mode s, l.Below root := by
  intro l hl
  unfold launchesEach at hl
  simp only at hl
  have hchain := chain_launchesBelow
    (R := fun t t' => World.Writes (fun _ _ => True) t.2 t'.2)
    (fun t lines => ignoresLog_logged t.2 lines) root mode (fun _ => true)
    (informed s!"Instrumenting {root.text} file by file" s)
    fun l _ => l.writes.mono fun _ _ _ => trivial
  rcases hfirst : launchFiles root mode (fun _ => true)
    (informed s!"Instrumenting {root.text} file by file" s) with ⟨e | first, s'⟩
  · rw [hfirst] at hl
    cases hl
  · rw [hfirst] at hl hchain
    rcases List.mem_append.1 hl with hl | hl
    · exact below_launchesBelow (s := informed _ s) hsound.wellFormed l hl
    · -- the disk is still sound when the files are listed once more
      have hsound' := (hchain.whole hsound).2.sound
      unfold launchesAgain at hl
      split_ifs at hl
      · cases hl
      · exact below_launchesBelow (s := informed _ s') hsound'.wellFormed l hl

/-- Launches are into files below the source root, which is absolute. -/
theorem below_launches {s s₁ : Instrumenter × World} {root : Path}
    (h : prepareRun s = (.ok root, s₁)) (hsound : s₁.2.disk.Sound s₁.2.cwd) :
    ∀ l ∈ launches s, l.Below root := by
  rw [launches_of_ok h]
  unfold launchesOf
  intro l hl
  split_ifs at hl
  · exact below_launchesEach hsound l hl
  · rw [List.mem_singleton.1 hl]
    exact ⟨rfl, .refl root⟩

/-- The units that a launch prints are those of files that it finds. -/
theorem Launch.exists_unitAt (l : Launch) (hi : l.start.1.source = .instrumenter)
    {x : CompilationUnit × UnitEdits} (hx : x ∈ l.printed) :
    ∃ files, l.files = .ok files ∧ ∃ p ∈ files, l.unitAt p = .ok x.1 := by
  obtain ⟨lines, hbuilding⟩ := l.exists_building
  cases hresult : l.building.1 with
  | error e =>
    rw [l.printed_of_error (e := e) (w := l.building.2) (Prod.ext hresult rfl)] at hx
    cases hx
  | ok m =>
    have hbuilt := hresult
    rw [hbuilding] at hbuilt
    obtain ⟨files, hfiles, hbuilt⟩ := Except.bind_eq_ok.1 hbuilt
    obtain ⟨us, hus, hparsed⟩ := Except.bind_eq_ok.1 hbuilt
    have hm := eq_of_ofParsed hparsed
    have hfits : ∀ u ∈ us, u.Fits := by
      intro u hu
      obtain ⟨p, -, hp⟩ := Except.exists_of_mem_mapM hus hu
      exact unitOf_fits hp
    have hprocess := l.process_of_ok hi hfits (w := l.building.2)
      (Prod.ext (hresult.trans (congrArg _ hm.symm)) rfl)
    unfold printed at hx
    rw [hprocess] at hx
    simp only at hx
    split_ifs at hx
    · obtain ⟨u, hu, rfl⟩ := List.mem_map.1 hx
      exact ⟨files, hfiles, Except.exists_of_mem_mapM hus hu⟩
    · cases hx

/-- A source root is absolute. -/
theorem isAbsolute_prepareRun {s s₁ : Instrumenter × World} {root : Path}
    (h : prepareRun s = (.ok root, s₁)) : root.isAbsolute = true := by
  obtain ⟨_, _, _, -, -, habsolute, -⟩ := prepareRun_eq_ok.1 h
  exact isAbsolute_absolute habsolute

/-- The path of a unit is written as names below the root. -/
theorem inside_relativePath {root p : Path} {level : Nat} {text : Except Fault String}
    {u : CompilationUnit} (hroot : root.isAbsolute = true) (hp : root.Named p)
    (hu : unitOf .standard root level p text = .ok u) : u.relativePath.Inside := by
  have hname : p.fileName?.isSome = true := by
    unfold unitOf Registry.forFile? Path.extension? at hu
    cases hfile : p.fileName? with
    | none =>
      rw [hfile] at hu
      cases hu
    | some n => rfl
  rw [(source_of_unitOf hu).1]
  exact (Path.inside_locate hroot hp hname).1

/-! ## Runs -/

/-- The paths that an instrumenter is given stay below the directories that they are written
    below. -/
structure StaysInside (i : Instrumenter) : Prop where
  sources : i.config.sourceDir.StaysBelow
  files : ∀ f ∈ i.config.loggerFiles, f.target.StaysBelow
  ids : ((⟨"log"⟩ : Path).join ⟨i.options.idFile⟩).StaysBelow
  properties : ∀ p ∈ i.config.loggerProperties, ((⟨"log"⟩ : Path).join ⟨p.file⟩).StaysBelow

/-- All paths that a run can write stay inside the output. -/
theorem contained_written {s : Instrumenter × World}
    (hr : s.1.resolver.Keeps World.SamePlace) (hsound : s.2.disk.Sound s.2.cwd)
    (hinside : StaysInside s.1) {p : Path} {content : ByteArray} (h : Written s p content) :
    s.1.options.outputDir.Contained p := by
  have hlog : ∀ name : Path, ((⟨"log"⟩ : Path).join name).StaysBelow →
      s.1.options.outputDir.Contained (s.1.options.logDir.join name) := by
    intro name hname
    have hrelative : name.isAbsolute = false := by
      rw [← Bool.not_eq_true]
      intro habsolute
      have hrelative := hname.relative
      rw [Path.join_absolute habsolute, habsolute] at hrelative
      cases hrelative
    rw [Options.logDir, Path.join_join _ rfl hrelative]
    exact Path.contained_join _ hname
  cases h with
  | project _ hr => exact Path.contained_join _ hr.staysBelow
  | logger hf => exact Path.contained_join _ (hinside.files _ hf)
  | produced hproduced =>
  cases hproduced with
  | ids => exact hlog _ hinside.ids
  | properties hp => exact hlog _ (hinside.properties _ (Option.filter_eq_some_iff.1 hp).1)
  | @unit l _ _ hl hprints =>
    rcases hp : prepareRun s with ⟨e | root, s₁⟩
    · unfold launches at hl
      rw [hp] at hl
      cases hl
    have hprepared := writes_prepareRun (Q := fun _ _ => True) s hr (fun _ _ _ _ => trivial)
      fun _ _ _ => trivial
    rw [hp] at hprepared
    have hsound₁ := (hprepared hsound).2.sound
    rw [← (hprepared hsound).1] at hsound₁
    have hbelow := below_launches hp hsound₁ l hl
    have hstart := ((chain_run hp).within l hl).1 hsound₁
    obtain ⟨hbetween, -⟩ := launches_between hp l hl
    have hsetup := IsTrans.trans _ _ _ (prepareRun_of_ok hp).sameSetup hbetween.setup
    obtain ⟨hx, htext⟩ := hprints
    obtain ⟨files, hfiles, q, hq, hunit⟩ :=
      l.exists_unitAt (hbetween.ids (prepareRun_of_ok hp).source).1 hx
    have hnamed := hbelow.named.trans (named_listing hstart.2.sound.wellFormed hfiles q hq)
    rw [Launch.unitAt, hbelow.root] at hunit
    have hrelative := inside_relativePath (isAbsolute_prepareRun hp) hnamed hunit
    rw [outputPath, hsetup.sourceOutput, Instrumenter.sourceOutput,
      Path.join_join _ hinside.sources.relative hrelative.relative]
    exact Path.contained_join _ (hinside.sources.join hrelative)

/-- Where the output of a run lies, after the run. -/
def OutputAt (s : Instrumenter × World) (base : Location) : Prop :=
  (run s).2.2.disk.resolve s.2.cwd (s.1.options.outputDir.join ⟨"."⟩) true = .ok base

/-- If the paths that it is given stay below its output, and no link leads out of the output,
    every file that a run creates or changes lies inside the output. In particular the files
    below a source root outside of the output stay as they are. -/
theorem run_writes_below {s : Instrumenter × World}
    (hr : s.1.resolver.Keeps World.SamePlace) (hsound : s.2.disk.Sound s.2.cwd)
    (hinside : StaysInside s.1)
    (hlinks : ∀ base, OutputAt s base → ∀ loc target, base <+: loc →
      s.2.disk.lookup loc ≠ some (.link target)) :
    (∀ loc, (run s).2.2.disk.contentAt loc ≠ s.2.disk.contentAt loc →
      ∃ base, OutputAt s base ∧ base <+: loc) ∧
    ∀ root, s.2.disk.resolve s.2.cwd (s.1.options.sourceRoot s.1.config.sourceDir) true = .ok root →
      (∀ base, OutputAt s base → ¬ base <+: root ∧ ¬ root <+: base) →
        ∀ loc, root <+: loc → (run s).2.2.disk.contentAt loc = s.2.disk.contentAt loc := by
  obtain ⟨hcwd, hwrote⟩ := run_writes s hr hsound
  have hchanged : ∀ loc, (run s).2.2.disk.contentAt loc ≠ s.2.disk.contentAt loc →
      ∃ base, OutputAt s base ∧ base <+: loc := by
    intro loc hloc
    obtain ⟨p, content, hp, hresolve, -⟩ := (hwrote.content loc).resolve_left hloc
    obtain ⟨base, hbase, hbelow⟩ :=
      Disk.below_of_contained (contained_written hr hsound hinside hp) hresolve
    refine ⟨base, hbase, hbelow fun l target hl hlink => ?_⟩
    exact hlinks base hbase l target hl (hwrote.grown.link.2 hlink)
  refine ⟨hchanged, fun root _ houtside loc hloc => ?_⟩
  by_contra hdiffers
  obtain ⟨base, hbase, hbelow⟩ := hchanged loc hdiffers
  obtain ⟨hnot, hnot'⟩ := houtside base hbase
  rcases List.prefix_or_prefix_of_prefix hbelow hloc with h | h
  · exact hnot h
  · exact hnot' h

/-- A run writes into its output, and the sources stay as they are. -/
theorem run_writes_below_sample :
    let s := sample "src" [sampleFile ["p", "src", "A.java"] "class A\x7bvoid m()\x7b\x7d\x7d"]
    OutputAt s ["out"] ∧ StaysInside s.1 ∧
      (∀ loc, (run s).2.2.disk.contentAt loc ≠ s.2.disk.contentAt loc → ["out"] <+: loc) ∧
      ∀ loc, ["p", "src"] <+: loc → (run s).2.2.disk.contentAt loc = s.2.disk.contentAt loc := by
  intro s
  have houtput : OutputAt s ["out"] := by
    unfold OutputAt
    decide +kernel
  have hunique : ∀ base, OutputAt s base → base = ["out"] := by
    intro base hbase
    unfold OutputAt at hbase houtput
    exact Except.ok.inj (hbase.symm.trans houtput)
  have hinside : StaysInside s.1 := ⟨by decide, by decide, by decide, by decide⟩
  have hlinks : ∀ base, OutputAt s base → ∀ loc target, base <+: loc →
      s.2.disk.lookup loc ≠ some (.link target) :=
    fun _ _ loc target _ => Disk.lookup_ne_link rfl loc target
  obtain ⟨hwrites, hsources⟩ := run_writes_below (s := s) (Maven.keeps_fixed [])
    (by decide +kernel) hinside hlinks
  refine ⟨houtput, hinside, fun loc hloc => ?_, hsources _ (by decide +kernel) fun base hbase => ?_⟩
  · obtain ⟨base, hbase, hbelow⟩ := hwrites loc hloc
    rwa [hunique base hbase] at hbelow
  · rw [hunique base hbase]
    decide

/-- A file of the logger whose target is absolute overwrites a source, though the output lies
    elsewhere. -/
theorem run_overwrites_sources :
    let p := sample "src" [sampleFile ["p", "src", "A.java"] "class A\x7b\x7d",
      sampleFile ["p", "L.java"] "class L\x7b\x7d"]
    let s := ({ p.1 with config :=
      { p.1.config with loggerFiles := [⟨⟨"/p/L.java"⟩, ⟨"/p/src/A.java"⟩⟩] } }, p.2)
    s.1.config.check.isOk = true ∧ s.2.disk.Sound s.2.cwd ∧ (run s).1.isOk = true ∧
      OutputAt s ["out"] ∧
      s.2.disk.resolve s.2.cwd (s.1.options.sourceRoot s.1.config.sourceDir) true =
        .ok ["p", "src"] ∧
      (run s).2.2.disk.contentAt ["p", "src", "A.java"] ≠
        s.2.disk.contentAt ["p", "src", "A.java"] := by
  unfold OutputAt
  decide +kernel

end Instrument

end Tracepoint
