import Tracepoint.Proofs.Instrument.Containment
import Tracepoint.Proofs.Instrument.Lockstep
import Tracepoint.Proofs.Instrument.Redone
import Tracepoint.Proofs.Instrument.Wiring

/-!
# Running again

A run leaves its identifiers, its wired detectors and its output for the next one. On the same
inputs the next run finds each printed file as it would print it, if no other file was printed
or copied over it, and leaves it alone. A file that failed fails again, if nothing that the
first run wrote has opened a way to its output. So the second run has nothing left to write.

Paths that differ can still lead to one file through a link, and this is why it is asked where
paths lead at the end of the first run, and not how they are written.

Results:

* `Settled.during`: what holds at each launch in the middle of a run.
* `Settled.held`: what was printed is still there at the end of a run.
* `Settled.repeats`: what the second run finds where the first one printed.
* `RunsAgain.prepared_again`: the second run is prepared as the first one was.
* `run_again`: the second run gives the same report and leaves the same disk.
* `run_again_differs`: what links and a missing output can come to.
-/

namespace Tracepoint

/-- The sources below a root stay as they are. -/
def World.SameSources (root : Path) (w w' : World) : Prop := sourcesAt root w' = sourcesAt root w

instance (root : Path) : World.IgnoresLog (World.SameSources root) where
  refl := fun _ => rfl
  trans := fun _ _ _ h h' => Eq.trans h' h
  log := fun w line => sourcesAt_logged root w [line]

instance (root : Path) (w w' : World) : Decidable (World.SameSources root w w') :=
  inferInstanceAs (Decidable (_ = _))

namespace Instrument

open Config Detect Model Source

/-! ## What launches leave -/

/-- All that is left of an idle instrumenter is the same, except for identifiers, failures and
    requests. -/
def Leaves (i i' : Instrumenter) : Prop :=
  Idle i → ∃ ids failed requests, i' = i.leaving ids failed requests

instance : Std.Refl Leaves := ⟨fun i _ => ⟨i.ids, i.failed, i.requests, rfl⟩⟩

instance : IsTrans Instrumenter Leaves where
  trans := by
    intro i i' i'' h h' hi
    obtain ⟨ids, failed, requests, rfl⟩ := h hi
    obtain ⟨ids', failed', requests', rfl⟩ := h' (hi.leaving ids failed requests)
    exact ⟨ids', failed', requests', rfl⟩

theorem leaves_launch (source : SourceUnit) (mode : Mode) :
    Job.Keeps Leaves (launch [source] mode) := by
  intro s hi
  let l : Launch := ⟨source, mode, s⟩
  rcases l.building_cases with ⟨e, w, hb⟩ | ⟨us, w, hus, hb⟩
  · obtain ⟨requests, lines, h⟩ := l.launch_of_error hi hb
    exact ⟨_, _, requests, by rw [show launch [source] mode s = _ from h]⟩
  · obtain ⟨requests, lines, h⟩ := l.launch_of_built hi hus hb
    exact ⟨_, _, requests, by rw [show launch [source] mode s = _ from h]⟩

theorem leaves_launches (i : Instrumenter) (root : Path) (s : Instrumenter × World) :
    Chain (fun t t' => Leaves t.1 t'.1) s (injectBelow i root s).2 (launchesOf i root s) :=
  chain_launchesOf (fun t _ => Std.Refl.refl t.1) i root s
    fun l _ => leaves_launch l.source l.mode l.start

/-! ## What launches are into -/

section Aims

variable {root : Path} {files : List Path}

theorem exists_of_mem_launchesInto {mode : Mode} {ps : List Path} :
    ∀ s, ∀ l ∈ launchesInto root mode ps s, ∃ p ∈ ps, l.source = ⟨p, root⟩ := by
  induction ps with
  | nil => intro s l hl; cases hl
  | cons p ps ih =>
    intro s l hl
    rcases List.mem_cons.1 hl with rfl | hl
    · exact ⟨p, List.mem_cons_self, rfl⟩
    · obtain ⟨q, hq, hsource⟩ := ih _ l hl
      exact ⟨q, List.mem_cons_of_mem _ hq, hsource⟩

theorem exists_of_mem_launchesBelow {mode : Mode} {wanted : Path → Bool}
    {s : Instrumenter × World} (hfiles : sourceFiles .standard root s.2 = (.ok files, s.2)) :
    ∀ l ∈ launchesBelow root mode wanted s, ∃ p ∈ files, l.source = ⟨p, root⟩ := by
  intro l hl
  have hlist : Job.act (sourceFiles .standard root) s = (.ok files, s) := by
    rw [Job.act_apply, hfiles]
  unfold launchesBelow at hl
  rw [hlist] at hl
  obtain ⟨p, hp, hsource⟩ := exists_of_mem_launchesInto s l hl
  exact ⟨p, (List.mem_filter.1 hp).1, hsource⟩

/-- The launches of a run file by file are into files of the tree, also when these are tried
    again, if the sources stay as they are. -/
theorem exists_of_mem_launchesEach {mode : Mode} {s : Instrumenter × World}
    (hfiles : sourceFiles .standard root s.2 = (.ok files, s.2))
    (hsources : ∀ l ∈ launchesEach root mode s, World.SameSources root l.start.2 l.finish.2) :
    ∀ l ∈ launchesEach root mode s, ∃ p ∈ files, l.source = ⟨p, root⟩ := by
  intro l hl
  let s₀ := informed s!"Instrumenting {root.text} file by file" s
  have hfiles₀ : sourceFiles .standard root s₀.2 = (.ok files, s₀.2) :=
    (sourceFiles_of_sourcesAt hfiles (sourcesAt_logged root s.2 _)).1
  obtain ⟨first, s', hfirst⟩ := exists_launchFiles hfiles₀ mode fun _ => true
  rw [launchesEach_of_ok hfirst, List.forall_mem_append] at hsources
  rw [launchesEach_of_ok hfirst] at hl
  rcases List.mem_append.1 hl with hl | hl
  · exact exists_of_mem_launchesBelow hfiles₀ l hl
  · -- the files that are listed again are the same
    have hchain := chain_launchesBelow (R := fun t t' => World.SameSources root t.2 t'.2)
      (fun t lines => ignoresLog_logged t.2 lines) root mode (fun _ => true) s₀ hsources.1
    rw [hfirst] at hchain
    have hfiles' := (sourceFiles_of_sourcesAt hfiles₀ hchain.whole).1
    unfold launchesAgain at hl
    split_ifs at hl
    · cases hl
    · exact exists_of_mem_launchesBelow
        (sourceFiles_of_sourcesAt hfiles' (sourcesAt_logged root _ _)).1 l hl

end Aims

/-! ## Launches in the middle of a run -/

/-- A run that is prepared and leaves its sources as they are. -/
structure Settled (s s₁ : Instrumenter × World) (root : Path) (files : List Path) : Prop where
  prepared : prepareRun s = (.ok root, s₁)
  idle : Idle s₁.1
  listed : sourceFiles .standard root s₁.2 = (.ok files, s₁.2)
  sources : ∀ l ∈ launches s, World.SameSources root l.start.2 l.finish.2
  sound : s₁.2.disk.Sound s₁.2.cwd

/-- A launch in the middle of a run. -/
structure Launch.During (s s₁ : Instrumenter × World) (root : Path) (files : List Path)
    (l : Launch) : Prop where
  left : ∃ ids failed requests, l.start.1 = s₁.1.leaving ids failed requests
  aims : Aims root files l.source
  each : s₁.1.options.fileByFile = true → ∃ p ∈ files, l.source = ⟨p, root⟩
  sources : World.SameSources root s₁.2 l.start.2
  before : World.Writes (Produced s) s₁.2 l.start.2
  later : World.Writes (Produced s) l.finish.2 (run s).2.2
  ids : ∃ keys, (run s).2.1.ids = l.finish.1.ids.addKeys keys

section Settled

variable {s s₁ : Instrumenter × World} {root : Path} {files : List Path} {l : Launch}

theorem Settled.during (h : Settled s s₁ root files) (hl : l ∈ launches s) :
    l.During s s₁ root files := by
  obtain ⟨-, hfinish⟩ := launches_between h.prepared l hl
  obtain ⟨hbefore, hlater⟩ := (chain_run h.prepared).within l hl
  have hsources := h.sources
  rw [launches_of_ok h.prepared] at hl hsources
  obtain ⟨ids, failed, requests, hleft⟩ := ((leaves_launches s₁.1 root s₁).within l hl).1 h.idle
  have hstart : Idle l.start.1 := hleft ▸ h.idle.leaving ids failed requests
  obtain ⟨us, -, hsource, -, -⟩ := l.exists_units hstart.source
  have hchain := chain_launchesOf (R := fun t t' => World.SameSources root t.2 t'.2)
    (fun t lines => ignoresLog_logged t.2 lines) s₁.1 root s₁ hsources
  refine ⟨⟨ids, failed, requests, hleft⟩, ?_, fun heach => ?_, (hchain.within l hl).1, hbefore,
    hlater, (hfinish.ids hsource).2⟩
  · unfold launchesOf at hl hsources
    split_ifs at hl hsources
    · obtain ⟨p, hp, hsource⟩ := exists_of_mem_launchesEach h.listed hsources l hl
      rw [hsource]
      exact .file hp
    · rw [List.mem_singleton.1 hl]
      exact .tree
  · unfold launchesOf at hl hsources
    rw [if_pos heach] at hl hsources
    exact exists_of_mem_launchesEach h.listed hsources l hl

namespace Launch.During

theorem idle (h : l.During s s₁ root files) (hidle : Idle s₁.1) : Idle l.start.1 := by
  obtain ⟨ids, failed, requests, hleft⟩ := h.left
  rw [hleft]
  exact hidle.leaving ids failed requests

/-- What a launch prints is given by the path of the source and the identifiers that a run has
    given out at its end. -/
theorem printed (h : l.During s s₁ root files) (hs : Settled s s₁ root files)
    {x : CompilationUnit × UnitEdits} (hx : x ∈ l.printed) :
    unitOf .standard root s₁.1.options.complianceLevel x.1.path
        (s₁.2.disk.readText s₁.2.cwd x.1.path) = .ok x.1 ∧
      x.2 = editsFor s₁.1.config.detectors s₁.1.options.autoImports (run s).2.1.ids x.1 := by
  have hidle := h.idle hs.idle
  obtain ⟨ids, failed, requests, hleft⟩ := h.left
  obtain ⟨ps, hps, hlisting⟩ := h.aims.exists_listing
  obtain ⟨hlisted, htexts⟩ := sourceFiles_of_sourcesAt hs.listed h.sources
  constructor
  · obtain ⟨ps', hps', p, hp, hunit⟩ := l.exists_unitAt hidle.source hx
    obtain rfl : ps = ps' := Except.ok.inj ((hlisting l.start.2 hlisted).symm.trans hps')
    rw [Launch.unitAt, h.aims.root_eq, htexts p (hps p hp), hleft] at hunit
    obtain rfl := path_of_unitOf hunit
    exact hunit
  · obtain ⟨us, -, -, hids, hprinted⟩ := l.exists_units hidle.source
    obtain ⟨u, hu, rfl⟩ := hprinted x hx
    obtain ⟨keys, hkeys⟩ := h.ids
    rw [hkeys, hleft]
    symm
    refine editsFor_of_kept _ (IdMap.kept_addKeys _ keys) fun e he => ?_
    rw [hids, hleft]
    exact IdMap.isSome_get?_addKeys _ (List.mem_flatMap.2 ⟨u, hu, List.mem_map_of_mem he⟩)

end Launch.During

/-- A source is printed only in one way. -/
theorem Settled.eq_of_path (h : Settled s s₁ root files) {x y : CompilationUnit × UnitEdits}
    (hx : x ∈ printedBy s) (hy : y ∈ printedBy s) (hpath : x.1.path = y.1.path) : x = y := by
  obtain ⟨l, hl, hx⟩ := List.mem_flatMap.1 hx
  obtain ⟨l', hl', hy⟩ := List.mem_flatMap.1 hy
  obtain ⟨hunit, hedits⟩ := (h.during hl).printed h hx
  obtain ⟨hunit', hedits'⟩ := (h.during hl').printed h hy
  rw [hpath] at hunit
  have hsame : x.1 = y.1 := Except.ok.inj (hunit.symm.trans hunit')
  exact Prod.ext hsame (by rw [hedits, hedits', hsame])

/-! ## What is printed stays -/

/-- Where a path leads at the end of a run. -/
def EndsAt (s : Instrumenter × World) (p : Path) (loc : Location) : Prop :=
  (run s).2.2.disk.resolve s.2.cwd p true = .ok loc

instance (s : Instrumenter × World) (p : Path) (loc : Location) : Decidable (EndsAt s p loc) :=
  inferInstanceAs (Decidable (_ = _))

/-- The paths that a run writes beside what it prints. -/
def Instrumenter.otherPaths (i : Instrumenter) : List Path :=
  i.config.loggerFiles.map (fun f => i.options.outputDir.join f.target) ++
    i.options.logDir.join ⟨i.options.idFile⟩ ::
      i.writtenProperties.toList.map fun p => i.options.logDir.join ⟨p.file⟩

/-- Different sources are printed to different files, and nothing else is written to these. -/
structure Apart (s : Instrumenter × World) : Prop where
  units : ∀ x ∈ printedBy s, ∀ y ∈ printedBy s, ∀ loc,
    EndsAt s (outputPath s.1.sourceOutput x.1) loc →
      EndsAt s (outputPath s.1.sourceOutput y.1) loc → x.1.path = y.1.path
  others : ∀ x ∈ printedBy s, ∀ p ∈ s.1.otherPaths, ∀ loc,
    EndsAt s (outputPath s.1.sourceOutput x.1) loc → ¬ EndsAt s p loc

theorem Settled.sourceOutput (h : Settled s s₁ root files) (hl : l ∈ launches s) :
    l.start.1.sourceOutput = s.1.sourceOutput := by
  obtain ⟨ids, failed, requests, hleft⟩ := (h.during hl).left
  rw [hleft]
  exact (prepareRun_of_ok h.prepared).sameSetup.sourceOutput

/-- Whatever else goes to the file of a source that is printed is the text of this source. -/
theorem Settled.content_of_produced (h : Settled s s₁ root files) (hapart : Apart s)
    {x : CompilationUnit × UnitEdits} (hx : x ∈ printedBy s) {text : List Char}
    (htext : x.1.render x.2 = some text) {loc : Location}
    (hends : EndsAt s (outputPath s.1.sourceOutput x.1) loc) {p : Path} {content : ByteArray}
    (hproduced : Produced s p content) (hp : EndsAt s p loc) :
    content = (String.ofList text).toUTF8 := by
  cases hproduced with
  | @unit l _ _ hl hprints =>
    cases hprints with
    | @unit y text' hy htext' =>
      rw [h.sourceOutput hl] at hp
      have hy' : y ∈ printedBy s := List.mem_flatMap.2 ⟨l, hl, hy⟩
      obtain rfl := h.eq_of_path hx hy' (hapart.units x hx y hy' loc hends hp)
      rw [htext] at htext'
      cases htext'
      rfl
  | ids =>
    exact absurd hp (hapart.others x hx _ (by simp [Instrumenter.otherPaths]) loc hends)
  | properties hproperties =>
    refine absurd hp (hapart.others x hx _ ?_ loc hends)
    simp [Instrumenter.otherPaths, hproperties]

/-- What a launch has printed is still there at the end of the run. -/
theorem Settled.held (h : Settled s s₁ root files) (hcwd : s₁.2.cwd = s.2.cwd)
    (hapart : Apart s) (hl : l ∈ launches s) {n : Nat} {w' : World}
    (hprint : l.printing = (.ok n, w')) :
    ∀ x ∈ l.printed, Held s.1.sourceOutput (run s).2.2.disk s.2.cwd x := by
  intro x hx
  have hduring := h.during hl
  obtain ⟨hcwdₗ, hwroteₗ⟩ := hduring.before h.sound
  obtain ⟨lines, hprocess⟩ := l.exists_process
  obtain ⟨lines', hfinish⟩ := l.exists_finish
  rw [hprint] at hfinish
  unfold Launch.printing at hprint
  rw [hprocess] at hprint
  obtain ⟨w₁, hwrites₁, hcwd₁, hsound₁, text, htext, hread⟩ :=
    held_of_print (Q := l.Prints) (fun y hy text htext => .unit hy htext)
      (by exact hcwdₗ ▸ hwroteₗ.sound) hprint x hx
  have hlater : World.Writes (Produced s) w₁ (run s).2.2 := by
    refine IsTrans.trans _ _ _ (hwrites₁.mono fun p content hp => .unit hl hp) ?_
    refine IsTrans.trans _ _ _ (ignoresLog_logged w' lines') ?_
    rw [← hfinish]
    exact hduring.later
  have hplace : w₁.cwd = s.2.cwd := by rw [hcwd₁, World.cwd_logged, hcwdₗ, hcwd]
  obtain ⟨-, hwrote⟩ := hlater hsound₁
  rw [hplace] at hwrote
  rw [← hcwd₁, hplace, h.sourceOutput hl] at hread
  obtain ⟨loc, hresolve, hcontent⟩ := Disk.read_eq_ok.1 hread
  have hends : EndsAt s (outputPath s.1.sourceOutput x.1) loc :=
    Disk.resolve_grown hresolve hwrote.grown
  refine ⟨text, htext, Disk.read_eq_ok.2 ⟨loc, hends, ?_⟩⟩
  rcases hwrote.content loc with hsame | ⟨p, content, hproduced, hp, hnew⟩
  · rw [hsame, hcontent]
  · rw [hnew, h.content_of_produced hapart (List.mem_flatMap.2 ⟨l, hl, hx⟩) htext hends hproduced hp]

theorem held_of_redone {output : Path} {Q : Path → Prop} {cwd : Location} {d d' e e' : Disk}
    {x : CompilationUnit × UnitEdits} (h : Held output e cwd x)
    (hredone : Disk.Redone cwd Q d d' e e') (hapart : ∀ p, Q p → ∀ loc,
      e.resolve cwd (outputPath output x.1) true = .ok loc → e.resolve cwd p true ≠ .ok loc) :
    Held output e' cwd x := by
  obtain ⟨text, htext, hread⟩ := h
  obtain ⟨loc, hresolve, hcontent⟩ := Disk.read_eq_ok.1 hread
  refine ⟨text, htext, Disk.read_eq_ok.2 ⟨loc, Disk.resolve_grown hresolve hredone.grown, ?_⟩⟩
  rcases hredone.content loc with ⟨hsame, -⟩ | ⟨p, content, hp, hloc, -⟩
  · rw [Disk.contentAt_of_lookup_eq hsame, hcontent]
  · exact absurd hloc (hapart p hp loc hresolve)

/-! ## Launches that are repeated -/

theorem Launch.length_printed_le (l : Launch) (hi : Idle l.start.1) {ps : List Path}
    (h : l.files = .ok ps) : l.printed.length ≤ ps.length := by
  obtain ⟨lines, hbuilding⟩ := l.exists_building
  rcases l.building_cases with ⟨e, w, hb⟩ | ⟨us, w, hus, hb⟩
  · rw [l.printed_of_error hb]
    exact Nat.zero_le _
  · rw [l.printed_of_ok hi hus hb]
    rw [hb, h] at hbuilding
    obtain ⟨_, hps, hbuilt⟩ := Except.bind_eq_ok.1 (congrArg Prod.fst hbuilding).symm
    cases hps
    obtain ⟨us', hus', hparsed⟩ := Except.bind_eq_ok.1 hbuilt
    have hlength : us.length = ps.length := by
      have hunits := congrArg (fun m : Model => m.units.length) (eq_of_ofParsed hparsed)
      rw [(Except.mapM_eq_ok.1 hus').length_eq]
      simpa [ofUnits] using hunits.symm
    split_ifs
    · rw [outputsFor, List.length_map, hlength]
    · exact Nat.zero_le _

/-- A launch that succeeds has listed its files and printed its units. -/
theorem Launch.of_ok (l : Launch) (hi : Idle l.start.1) {injection : Injection}
    {s' : Instrumenter × World} (h : launch [l.source] l.mode l.start = (.ok injection, s')) :
    (∃ ps, l.files = .ok ps) ∧ ∃ n, l.printing.1 = .ok n := by
  rcases l.building_cases with ⟨e, w, hb⟩ | ⟨us, w, hus, hb⟩
  · obtain ⟨requests, lines, hfailed⟩ := l.launch_of_error hi hb
    cases h.symm.trans hfailed
  · obtain ⟨requests, lines, hbuilt⟩ := l.launch_of_built hi hus hb
    have hresult := congrArg Prod.fst (h.symm.trans hbuilt)
    constructor
    · obtain ⟨lines', hbuilding⟩ := l.exists_building
      rw [hb] at hbuilding
      obtain ⟨ps, hps, -⟩ := Except.bind_eq_ok.1 (congrArg Prod.fst hbuilding).symm
      exact ⟨ps, hps⟩
    · rcases hprint : l.printing.1 with e | n
      · rw [hprint] at hresult
        cases hresult
      · exact ⟨n, rfl⟩

/-- The launch of a batch run that succeeds, succeeds. -/
theorem launch_of_batch {r : Injection × List Path} {i : Instrumenter}
    {s₂ : Instrumenter × World} (hbatch : i.options.fileByFile = false)
    (h : injectBelow i root s₁ = (.ok r, s₂)) : ∀ l ∈ launchesOf i root s₁,
      l.source = .tree root ∧ l.start = informed s!"Instrumenting {root.text}" s₁ ∧
        ∃ injection s', launch [l.source] l.mode l.start = (.ok injection, s') := by
  intro l hl
  unfold launchesOf at hl
  unfold injectBelow at h
  rw [hbatch, if_neg Bool.false_ne_true] at hl h
  rw [injectAll, Effect.bind_of_ok (info_apply _ _)] at h
  obtain ⟨injection, s', hlaunch, -⟩ := Effect.bind_eq_ok.1 h
  obtain rfl := List.mem_singleton.1 hl
  exact ⟨rfl, rfl, injection, s', hlaunch⟩

/-- Where launches succeed, the source tree could be listed. -/
theorem listed_of_injected {r : Injection × List Path} {i : Instrumenter}
    {s₂ : Instrumenter × World} (hidle : Idle s₁.1)
    (h : injectBelow i root s₁ = (.ok r, s₂)) :
    ∃ files, sourceFiles .standard root s₁.2 = (.ok files, s₁.2) := by
  cases heach : i.options.fileByFile with
  | false =>
    obtain ⟨hsource, hstart, injection, s', hlaunch⟩ := launch_of_batch heach h
      ⟨.tree root, i.mode, informed s!"Instrumenting {root.text}" s₁⟩ (by
        rw [launchesOf, heach]
        exact List.mem_singleton_self _)
    obtain ⟨⟨files, hfiles⟩, -⟩ := Launch.of_ok _ hidle hlaunch
    exact ⟨files, sourceFiles_eq_ok.2 ⟨hfiles, rfl⟩⟩
  | true =>
    rw [injectBelow, heach, if_pos rfl, injectEach, Effect.bind_of_ok (info_apply _ _)] at h
    obtain ⟨first, s', hfirst, -⟩ := Effect.bind_eq_ok.1 h
    obtain ⟨files, s'', hlist, -⟩ := Effect.bind_eq_ok.1 hfirst
    obtain ⟨-, hlist⟩ := Job.act_eq.1 hlist
    exact ⟨files, sourceFiles_eq_ok.2 ⟨(sourceFiles_eq_ok.1 hlist).1, rfl⟩⟩

/-- In a run that succeeds, a launch that could not print its units is into one file. -/
theorem Settled.length_printed_le (h : Settled s s₁ root files) (hl : l ∈ launches s)
    {r : Injection × List Path} {s₂ : Instrumenter × World}
    (hr : injectBelow s₁.1 root s₁ = (.ok r, s₂)) {error : Error} {w' : World}
    (hprint : l.printing = (.error error, w')) : l.printed.length ≤ 1 := by
  have hduring := h.during hl
  cases heach : s₁.1.options.fileByFile with
  | false =>
    obtain ⟨-, -, injection, s', hlaunch⟩ :=
      launch_of_batch heach hr l (launches_of_ok h.prepared ▸ hl)
    obtain ⟨-, n, hok⟩ := l.of_ok (hduring.idle h.idle) hlaunch
    rw [hprint] at hok
    cases hok
  | true =>
    obtain ⟨p, hp, hsource⟩ := hduring.each heach
    have hlisted := (sourceFiles_of_sourcesAt h.listed hduring.sources).1
    obtain ⟨hfile, hsupports⟩ := mem_sourceFiles hlisted hp
    have hfiles : l.files = .ok [p] := by
      rw [Launch.files, hsource]
      exact (sourceFiles_eq_ok.1 (sourceFiles_of_isFile hfile hsupports)).1
    exact l.length_printed_le (hduring.idle h.idle) hfiles

/-- A unit that a launch could not print cannot be printed once the run has ended. -/
theorem Settled.fails_again (h : Settled s s₁ root files) (hcwd : s₁.2.cwd = s.2.cwd)
    (hl : l ∈ launches s) (hone : l.printed.length ≤ 1)
    (hlive : ∀ x ∈ l.printed, s₁.2.disk.LiveOn s.2.cwd (outputPath s.1.sourceOutput x.1))
    {error : Error} {w' : World} (hprint : l.printing = (.error error, w')) {v : World}
    (hvcwd : v.cwd = s.2.cwd) (hsound : v.disk.Sound v.cwd)
    (hgrown : Disk.Grown (run s).2.2.disk v.disk) :
    ∃ error', print s.1.sourceOutput ⟨l.printed⟩ v = (.error error', v) := by
  have hduring := h.during hl
  obtain ⟨hcwdₗ, hwroteₗ⟩ := hduring.before h.sound
  have hsoundₗ : l.start.2.disk.Sound l.start.2.cwd := hcwdₗ ▸ hwroteₗ.sound
  have hplace : l.start.2.cwd = s.2.cwd := hcwdₗ.trans hcwd
  obtain ⟨hcwd', hwrote'⟩ := l.writes hsoundₗ
  have hlater : Disk.Grown w'.disk v.disk := by
    obtain ⟨lines', hfinish⟩ := l.exists_finish
    rw [hprint] at hfinish
    have hrest := (hduring.later (hcwd' ▸ hwrote'.sound)).2.grown
    rw [hfinish] at hrest
    exact hrest.trans hgrown
  obtain ⟨lines, hprocess⟩ := l.exists_process
  unfold Launch.printing at hprint
  rw [hprocess, h.sourceOutput hl] at hprint
  exact print_again (w := l.start.2.logged lines) hone hsoundₗ
    (fun x hx => (hplace ▸ hlive x hx : s₁.2.disk.LiveOn l.start.2.cwd _).grown hwroteₗ.grown)
    hprint (hvcwd.trans hplace.symm) hsound hlater

section Second

variable {d d' e : Disk}

/-- What a launch has printed is still there once the files of the logger are copied again. -/
theorem Settled.held_redone (h : Settled s s₁ root files) (hcwd : s₁.2.cwd = s.2.cwd)
    (hapart : Apart s) (hl : l ∈ launches s) {n : Nat} {w' : World}
    (hprint : l.printing = (.ok n, w'))
    (hredone : Disk.Redone s.2.cwd (fun p => ∃ f ∈ s.1.config.loggerFiles,
      p = s.1.options.outputDir.join f.target) d d' (run s).2.2.disk e) :
    ∀ x ∈ l.printed, Held s.1.sourceOutput e s.2.cwd x := by
  intro x hx
  refine held_of_redone (h.held hcwd hapart hl hprint x hx) hredone ?_
  rintro p ⟨f, hf, rfl⟩ loc hloc
  refine hapart.others x (List.mem_flatMap.2 ⟨l, hl, hx⟩) _ ?_ loc hloc
  exact List.mem_append_left _ (List.mem_map_of_mem hf)

/-- On the disk that a second run finds prepared, all launches are repeated. -/
theorem Settled.repeats (h : Settled s s₁ root files) (hcwd : s₁.2.cwd = s.2.cwd)
    (hapart : Apart s) (hlive : ∀ l ∈ launches s, l.printing.1.isOk = false → ∀ x ∈ l.printed,
      s₁.2.disk.LiveOn s.2.cwd (outputPath s.1.sourceOutput x.1))
    {r : Injection × List Path} {s₂ : Instrumenter × World}
    (hr : injectBelow s₁.1 root s₁ = (.ok r, s₂))
    (hredone : Disk.Redone s.2.cwd (fun p => ∃ f ∈ s.1.config.loggerFiles,
      p = s.1.options.outputDir.join f.target) d d' (run s).2.2.disk e) :
    ∀ l ∈ launches s, l.Repeats (run s).2.1.ids e root := by
  intro l hl
  have hduring := h.during hl
  obtain ⟨hcwdₗ, hwroteₗ⟩ := hduring.before h.sound
  refine ⟨h.sources l hl, (l.writes (hcwdₗ ▸ hwroteₗ.sound)).1, hduring.ids,
    fun v hv hvcwd => ?_⟩
  replace hvcwd : v.cwd = s.2.cwd := hvcwd.trans (hcwdₗ.trans hcwd)
  rw [h.sourceOutput hl]
  rcases hprint : l.printing with ⟨error | n, w'⟩
  · obtain ⟨error', hagain⟩ := h.fails_again hcwd hl (h.length_printed_le hl hr hprint)
      (hlive l hl (by rw [hprint]; rfl)) hprint hvcwd
      (by rw [hv, hvcwd]; exact hredone.sound) (hv ▸ hredone.grown)
    exact ⟨.error error', [], by rw [hagain, World.logged_nil], .error error error'⟩
  · have hheld : ∀ x ∈ l.printed, Held s.1.sourceOutput v.disk v.cwd x := by
      rw [hv, hvcwd]
      exact h.held_redone hcwd hapart hl hprint hredone
    obtain ⟨lines, hprint'⟩ := print_of_held hheld
    exact ⟨.ok 0, lines, hprint', .ok n⟩

end Second

/-! ## Running again -/

/-- A second run reads what the first one has read. With their output prepared, both find the
    same sources and the same classpath, and the sources are the same after each launch. Files of
    the logger are copied from what they were copied from before. -/
structure SameInputs (s t : Instrumenter × World) (root : Path) : Prop where
  sources : World.SameSources root (prepareOutput (untried s)).2.2 (prepareOutput (untried t)).2.2
  launches : ∀ l ∈ launches s, World.SameSources root l.start.2 l.finish.2
  classpath : s.1.usesClasspath = true → (classpathFor s.1 (prepareOutput (untried t)).2.2).1 =
    (classpathFor s.1 (prepareOutput (untried s)).2.2).1
  files : SameOrigins s.1.options.outputDir s.2.cwd s.2.disk t.2.disk s.1.config.loggerFiles

/-- A second run of an instrumenter, which may be cleaned before it, on what a first one without
    a copy of the project has left and with the inputs that this one had. -/
structure RunsAgain (s t : Instrumenter × World) (root : Path) : Prop where
  resolver : s.1.resolver.Keeps World.SamePlace
  sound : s.2.disk.Sound s.2.cwd
  counts : ∀ d ∈ s.1.config.detectors, d.detected = 0
  copy : s.1.options.copyProject = false
  prepared : (prepareRun s).1 = .ok root
  started : t = (run s).2 ∨ t = ((run s).2.1.clean, (run s).2.2)
  inputs : SameInputs s t root

/-- The parts of a run that succeeds. -/
structure Succeeds (s s₁ s₂ s₃ : Instrumenter × World) (root : Path) (r : Injection × List Path)
    (idFile : Path) : Prop where
  prepared : prepareRun s = (.ok root, s₁)
  injected : injectBelow s₁.1 root s₁ = (.ok r, s₂)
  finished : finishRun s₂ = (.ok idFile, s₃)

theorem exists_succeeds {report : Report} (hp : prepareRun s = (.ok root, s₁))
    (h : (run s).1 = .ok report) :
    ∃ r s₂ idFile s₃, Succeeds s s₁ s₂ s₃ root r idFile := by
  have hrun : (injectBelow s₁.1 root >>= conclude) s₁ = (.ok report, (run s).2) := by
    rw [← run_of_ok hp]
    exact Prod.ext h rfl
  obtain ⟨r, s₂, hinject, hconclude⟩ := Effect.bind_eq_ok.1 hrun
  rw [conclude, Effect.bind_of_ok (Job.instrumenter_apply _)] at hconclude
  obtain ⟨idFile, s₃, hfinish, -⟩ := Effect.bind_eq_ok.1 hconclude
  exact ⟨r, s₂, idFile, s₃, hp, hinject, hfinish⟩

/-- What a run has left, with or without cleaning. -/
structure Leftover (s s₁ t : Instrumenter × World) : Prop where
  world : t.2 = (run s).2.2
  ids : t.1.ids = (run s).2.1.ids
  options : t.1.options = s₁.1.options
  config : t.1.config = s₁.1.config
  classpath : t.1.classpath = s₁.1.classpath
  resolver : t.1.resolver = s₁.1.resolver

namespace Succeeds

variable {s₂ s₃ : Instrumenter × World} {r : Injection × List Path} {idFile : Path}

theorem report (h : Succeeds s s₁ s₂ s₃ root r idFile) :
    (run s).1 = .ok ⟨r.1, r.2, s₂.1.failed.paths, idFile⟩ := by
  rw [(run_of_injected h.prepared h.injected).1, h.finished]
  rfl

theorem instrumenter (h : Succeeds s s₁ s₂ s₃ root r idFile) : (run s).2.1 = s₂.1 :=
  (run_of_injected h.prepared h.injected).2

theorem disk (h : Succeeds s s₁ s₂ s₃ root r idFile) : (run s).2.2.disk = s₃.2.disk := by
  obtain ⟨lines, hworld⟩ := world_of_injected h.prepared h.injected
  rw [hworld, h.finished]
  rfl

/-- What comes before the launches writes to the disk as it may. -/
theorem writes_prepared (h : Succeeds s s₁ s₂ s₃ root r idFile)
    (hr : s.1.resolver.Keeps World.SamePlace) : World.Writes (fun _ _ => True) s.2 s₁.2 := by
  have hwrites := writes_prepareRun (Q := fun _ _ => True) s hr (fun _ _ _ _ => trivial)
    fun _ _ _ => trivial
  rwa [h.prepared] at hwrites

/-- All that the launches of a run write is what they print. -/
theorem printed (h : Succeeds s s₁ s₂ s₃ root r idFile) :
    World.Writes (fun p content => ∃ l ∈ launches s, l.Prints p content) s₁.2 s₂.2 := by
  have hchain := chain_launchesOf (R := fun t t' => World.Writes
    (fun p content => ∃ l ∈ launches s, l.Prints p content) t.2 t'.2)
    (fun t lines => ignoresLog_logged t.2 lines) s₁.1 root s₁ fun l hl =>
      l.writes.mono fun p content hp => ⟨l, by rw [launches_of_ok h.prepared]; exact hl, hp⟩
  rw [h.injected] at hchain
  exact hchain.whole

theorem options (h : Succeeds s s₁ s₂ s₃ root r idFile) : s₂.1.options = s.1.options := by
  have hgrows := (grows_injectBelow s₁.1 root).of_eq h.injected
  exact hgrows.setup.options.trans (prepareRun_of_ok h.prepared).options

theorem leftover (h : Succeeds s s₁ s₂ s₃ root r idFile) (hidle : Idle s₁.1)
    {t : Instrumenter × World} (ht : t = (run s).2 ∨ t = ((run s).2.1.clean, (run s).2.2)) :
    Leftover s s₁ t := by
  have hleaves := (leaves_launches s₁.1 root s₁).whole hidle
  rw [h.injected, ← h.instrumenter] at hleaves
  obtain ⟨ids, failed, requests, hleft⟩ := hleaves
  rcases ht with rfl | rfl
  all_goals
    constructor <;> first | rfl | (rw [hleft]; rfl)

theorem grown (h : Succeeds s s₁ s₂ s₃ root r idFile) (hsound : s₂.2.disk.Sound s₂.2.cwd) :
    Disk.Grown s₂.2.disk (run s).2.2.disk := by
  have hrun : run s = conclude r s₂ := by rw [run_of_ok h.prepared, Effect.bind_of_ok h.injected]
  rw [hrun]
  exact (writes_conclude (Q := fun _ _ => True) r s₂ trivial (fun _ _ => trivial) hsound).2.grown

/-- The output directory is there when a run has ended. -/
theorem makeDirectories_output (h : Succeeds s s₁ s₂ s₃ root r idFile)
    (hcopy : s.1.options.copyProject = false) (hsound : s.2.disk.Sound s.2.cwd)
    (hsound₂ : s₂.2.disk.Sound s₂.2.cwd) (hcwd : s₂.2.cwd = s.2.cwd)
    (hgrown : Disk.Grown (prepareOutput (untried s)).2.2.disk (run s).2.2.disk)
    (houtput : s.1.prepared = true → (⟨s.1.options.idFile⟩ : Path).isAbsolute = true →
      (run s).2.2.disk.isDirectory s.2.cwd s.1.options.outputDir = true) :
    (run s).2.2.disk.makeDirectories s.2.cwd s.1.options.outputDir = .ok (run s).2.2.disk := by
  cases hempty : s.1.options.outputDir.isEmpty with
  | true => exact Disk.makeDirectories_of_isEmpty hempty
  | false =>
    refine Disk.makeDirectories_of_isDirectory ?_
    cases hprepared : s.1.prepared with
    | false =>
      obtain ⟨s₀, -, -, hprepare, -⟩ := prepareRun_eq_ok.1 h.prepared
      have hmade := isDirectory_of_prepareOutput (s := untried s) hcopy hsound hprepared hprepare
        hempty
      rw [hprepare] at hgrown
      exact Disk.isDirectory_grown hmade hgrown
    | true =>
      cases habsolute : (⟨s.1.options.idFile⟩ : Path).isAbsolute with
      | true => exact houtput hprepared habsolute
      | false =>
        have hmade := isDirectory_of_finishRun hsound₂ h.finished
          (by rw [h.options]; exact habsolute) (by rw [h.options]; exact hempty)
        rwa [h.options, hcwd, ← h.disk] at hmade

end Succeeds

theorem config_of_wired {i i' : Instrumenter} (h : i'.config = i.wire.config) :
    i'.wire.config = i.wire.config := by
  have hwire : ∀ j : Instrumenter, j.wire.config = { j.config with
      detectors := j.config.detectors.map (Instrumenter.routeDetector j.config.routes) } :=
    fun _ => rfl
  rw [hwire, h, ← hwire, Instrumenter.wire_wire]

namespace Leftover

variable {t t₁ : Instrumenter × World}

theorem sameSetup (h : Leftover s s₁ t) (hp : prepareRun s = (.ok root, s₁)) :
    SameSetup s.1 t.1 :=
  IsTrans.trans _ _ _ (prepareRun_of_ok hp).sameSetup ⟨h.options, by rw [h.config]⟩

/-- A second run that is prepared follows the first one. -/
theorem follows (h : Leftover s s₁ t) (hp : prepareRun s = (.ok root, s₁))
    (hpt : prepareRun t = (.ok root, t₁)) (hidle : Idle s₁.1)
    (hclasspath : t₁.1.classpath = s₁.1.classpath) (hcwd : t₁.2.cwd = s₁.2.cwd)
    (hsources : World.SameSources root s₁.2 t₁.2) :
    Follows (run s).2.1.ids t₁.2.disk root s₁ t₁ := by
  have hwired := prepareRun_of_ok hp
  have hwiredt := prepareRun_of_ok hpt
  refine ⟨hidle, hwiredt.source, hwiredt.options.trans h.options, ?_, hclasspath,
    hwiredt.failed.trans hwired.failed.symm, hwiredt.ids.trans h.ids, rfl, hcwd, hsources⟩
  rw [hwiredt.config, hwired.config]
  exact config_of_wired (h.config.trans hwired.config)

end Leftover

theorem sameSources_of_samePlace {w w' : World} (h : World.SamePlace w w') :
    World.SameSources root w w' := by
  rw [World.SameSources, sourcesAt, sourceFiles_fst, h.disk, h.cwd, sourcesAt, sourceFiles_fst]

/-- The second run is prepared as the first one was, and follows it from there on. -/
theorem RunsAgain.prepared_again {s₂ s₃ t : Instrumenter × World} {r : Injection × List Path}
    {idFile : Path} (h : RunsAgain s t root) (hfirst : Succeeds s s₁ s₂ s₃ root r idFile)
    (hidle : Idle s₁.1)
    (houtput : s.1.prepared = true → (⟨s.1.options.idFile⟩ : Path).isAbsolute = true →
      s.2.disk.isDirectory s.2.cwd s.1.options.outputDir = true) :
    ∃ t₁, prepareRun t = (.ok root, t₁) ∧ Follows (run s).2.1.ids t₁.2.disk root s₁ t₁ ∧
      Disk.Redone s.2.cwd (fun p => ∃ f ∈ s.1.config.loggerFiles,
        p = s.1.options.outputDir.join f.target) s.2.disk s₁.2.disk (run s).2.2.disk
        t₁.2.disk := by
  obtain ⟨hr, hsound, -, hcopy, -, ht, hinputs⟩ := h
  have hp := hfirst.prepared
  obtain ⟨hcwd₁, hwrote₁⟩ := hfirst.writes_prepared hr hsound
  have hsound₁ : s₁.2.disk.Sound s₁.2.cwd := hcwd₁ ▸ hwrote₁.sound
  obtain ⟨hcwd, hwrote⟩ := (chain_run hp).whole hsound₁
  obtain ⟨hcwd₂, hwrote₂⟩ := hfirst.printed hsound₁
  -- where the second run starts
  have hleftover := hfirst.leftover hidle ht
  have hsetup := hleftover.sameSetup hp
  have hresolver : t.1.resolver = s.1.resolver := by
    rw [hleftover.resolver, resolver_prepareRun hp]
  have htcwd : t.2.cwd = s.2.cwd := by rw [hleftover.world, hcwd, hcwd₁]
  have htsound : t.2.disk.Sound t.2.cwd := by
    rw [hleftover.world, hcwd]
    exact hwrote.sound
  have hplace := samePlace_prepareRun hr hp
  have hmade : makeOutput t.1 t.2 = .ok t.2.disk := by
    unfold makeOutput
    split_ifs
    · rfl
    · rw [hsetup.options, htcwd, hleftover.world]
      refine hfirst.makeDirectories_output hcopy hsound (hcwd₂ ▸ hwrote₂.sound)
        (by rw [hcwd₂, hcwd₁]) (hplace.disk ▸ hwrote.grown) fun hprepared habsolute => ?_
      exact Disk.isDirectory_grown (houtput hprepared habsolute)
        (hwrote₁.grown.trans hwrote.grown)
  -- what its output and its classpath come to
  obtain ⟨t₁, hpt, hclasspath, hcwdt, hredone⟩ := prepareRun_redone hr hcopy hsound hp hsetup
    hresolver hleftover.classpath htcwd htsound (by rw [hleftover.world]; exact hwrote.grown)
    hmade (by rw [htcwd]; exact hinputs.files) hinputs.classpath
  have hplacet := samePlace_prepareRun (by rw [hresolver]; exact hr) hpt
  have hsources : World.SameSources root s₁.2 t₁.2 :=
    (sameSources_of_samePlace hplacet).trans
      (hinputs.sources.trans (sameSources_of_samePlace hplace).symm)
  rw [htcwd, hleftover.world] at hredone
  exact ⟨t₁, hpt, hleftover.follows hp hpt hidle hclasspath (by rw [hcwdt, htcwd, hcwd₁]) hsources,
    hredone⟩

/-- A second run succeeds as the first one did and writes nothing new: it finds and retries the
    same, and the same files fail. The identifiers stay as they are, and so does the disk. -/
theorem run_again {t : Instrumenter × World} {report : Report} (h : RunsAgain s t root)
    (hrun : (run s).1 = .ok report) (hapart : Apart s)
    (hlive : ∀ l ∈ launches s, l.printing.1.isOk = false → ∀ x ∈ l.printed,
      s.2.disk.LiveOn s.2.cwd (outputPath s.1.sourceOutput x.1))
    (houtput : s.1.prepared = true → (⟨s.1.options.idFile⟩ : Path).isAbsolute = true →
      s.2.disk.isDirectory s.2.cwd s.1.options.outputDir = true) :
    (run t).1 = .ok { report with total := report.total.unwritten } ∧
      (run t).2.1.ids = (run s).2.1.ids ∧
        ∀ loc, (run t).2.2.disk.lookup loc = (run s).2.2.disk.lookup loc := by
  -- the first run
  obtain ⟨s₁, hp⟩ : ∃ s₁, prepareRun s = (.ok root, s₁) := ⟨_, Prod.ext h.prepared rfl⟩
  have hidle := (prepareRun_of_ok hp).idle h.counts
  obtain ⟨r, s₂, idFile, s₃, hfirst⟩ := exists_succeeds hp hrun
  obtain ⟨files, hfiles⟩ := listed_of_injected hidle hfirst.injected
  obtain ⟨hcwd₁, hwrote₁⟩ := hfirst.writes_prepared h.resolver h.sound
  have hsound₁ : s₁.2.disk.Sound s₁.2.cwd := hcwd₁ ▸ hwrote₁.sound
  have hsettled : Settled s s₁ root files := ⟨hp, hidle, hfiles, h.inputs.launches, hsound₁⟩
  obtain ⟨hcwd₂, hwrote₂⟩ := hfirst.printed hsound₁
  have hsound₂ : s₂.2.disk.Sound s₂.2.cwd := hcwd₂ ▸ hwrote₂.sound
  -- the second run is prepared and launches what the first one has launched
  obtain ⟨t₁, hpt, hfollows, hredone⟩ := h.prepared_again hfirst hidle houtput
  have hrepeats := hsettled.repeats hcwd₁ hapart (fun l hl hfailed x hx =>
    (hlive l hl hfailed x hx).grown hwrote₁.grown) hfirst.injected hredone
  rw [launches_of_ok hp] at hrepeats
  have hinjected : injectBelow s₁.1 root s₁ = (.ok (r.1, r.2), s₂) := hfirst.injected
  obtain ⟨t₂, hinjectt, hfollows₂⟩ := injectBelow_follows hfollows hfiles hrepeats hinjected
  rw [← injectBelow_congr hfollows.options] at hinjectt
  -- and it ends as the first one has ended
  obtain ⟨w, hfinisht, -, hredone₂⟩ := finishRun_redone (t := t₂) hsound₂ hfirst.finished
    (by rw [hfollows₂.ids, hfirst.instrumenter]) hfollows₂.options hfollows₂.config hfollows₂.cwd
    (by rw [hfollows₂.disk, hfollows₂.cwd, hcwd₂, hcwd₁]; exact hredone.sound)
    (by rw [hfollows₂.disk, ← hfirst.disk]; exact hredone.grown)
  have hsecond : Succeeds t t₁ t₂ (t₂.1, w) root (r.1.unwritten, r.2) idFile :=
    ⟨hpt, hinjectt, hfinisht⟩
  refine ⟨?_, ?_, fun loc => ?_⟩
  · rw [hsecond.report, hfollows₂.failed]
    rw [hfirst.report] at hrun
    cases hrun
    rfl
  · rw [hsecond.instrumenter, hfollows₂.ids]
  · rw [hsecond.disk]
    rw [hfollows₂.disk, hfollows₂.cwd, hcwd₂, hcwd₁, ← hfirst.disk] at hredone₂
    rw [hcwd₁] at hwrote₂
    refine hredone.lookup_eq hwrote₂ (hfirst.grown hsound₂) hredone₂ ?_ loc
    rintro p content ⟨l, hl, hprints⟩ q ⟨f, hf, rfl⟩ loc hp hq
    cases hprints with
    | @unit x text hx htext =>
      rw [hsettled.sourceOutput hl] at hp
      refine hapart.others x (List.mem_flatMap.2 ⟨l, hl, hx⟩) _ ?_ loc hp hq
      exact List.mem_append_left _ (List.mem_map_of_mem hf)

theorem runsAgain_of_computed {t : Instrumenter × World} (hresolver : s.1.resolver = .fixed [])
    (hcounts : ∀ d ∈ s.1.config.detectors, d.detected = 0)
    (hcopy : s.1.options.copyProject = false)
    (ht : t = (run s).2 ∨ t = ((run s).2.1.clean, (run s).2.2))
    (hfiles : SameOrigins s.1.options.outputDir s.2.cwd s.2.disk t.2.disk s.1.config.loggerFiles)
    (h : s.2.disk.Sound s.2.cwd ∧ (prepareRun s).1 = .ok root ∧
      World.SameSources root (prepareOutput (untried s)).2.2 (prepareOutput (untried t)).2.2 ∧
      (∀ l ∈ launches s, World.SameSources root l.start.2 l.finish.2) ∧
      (classpathFor s.1 (prepareOutput (untried t)).2.2).1 =
        (classpathFor s.1 (prepareOutput (untried s)).2.2).1) :
    RunsAgain s t root := by
  obtain ⟨hsound, hprepared, hsources, hlaunches, hclasspath⟩ := h
  exact ⟨hresolver ▸ Maven.keeps_fixed [], hsound, hcounts, hcopy, hprepared, ht,
    hsources, hlaunches, fun _ => hclasspath, hfiles⟩

end Settled

/-- A file that was printed is left alone when an instrumenter runs again after cleaning, one that
    failed fails again, and a file of the logger is copied again. -/
theorem run_again_sample :
    let p := sample "src" [sampleFile ["p", "src", "A.java"] "class A\x7bvoid m()\x7b\x7d\x7d",
      sampleFile ["p", "src", "C.java"] "class", sampleFile ["p", "L.java"] "class L\x7b\x7d"]
    let s := ({ p.1 with config :=
      { p.1.config with loggerFiles := [⟨⟨"/p/L.java"⟩, ⟨"src/L.java"⟩⟩] } }, p.2)
    let t := ((run s).2.1.clean, (run s).2.2)
    ∃ report, RunsAgain s t ⟨"/p/src"⟩ ∧ (run s).1 = .ok report ∧ report.total.written = 1 ∧
      report.failed = [⟨"/p/src/C.java"⟩] ∧
      (run t).1 = .ok { report with total := report.total.unwritten } ∧
      (run t).2.1.ids = (run s).2.1.ids ∧
      ∀ loc, (run t).2.2.disk.lookup loc = (run s).2.2.disk.lookup loc := by
  intro p s t
  obtain ⟨horigin, hreport, hprinted, hprints⟩ :
      (t.2.disk.resolve s.2.cwd ⟨"/p/L.java"⟩ true = .ok ["p", "L.java"] ∧
        t.2.disk.contentAt ["p", "L.java"] = s.2.disk.contentAt ["p", "L.java"]) ∧
      ((run s).1.toOption.map fun r => (r.total.written, r.failed)) =
        some (1, [⟨"/p/src/C.java"⟩]) ∧
      (∀ x ∈ printedBy s, x.1.path = ⟨"/p/src/A.java"⟩ ∧
        EndsAt s (outputPath s.1.sourceOutput x.1) ["out", "src", "A.java"] ∧
        ∀ p ∈ s.1.otherPaths, ¬ EndsAt s p ["out", "src", "A.java"]) ∧
      ∀ l ∈ launches s, l.printing.1.isOk = true := by
    decide +kernel
  obtain ⟨report, hrun, hwritten⟩ : ∃ report, (run s).1 = .ok report ∧
      (report.total.written, report.failed) = (1, [⟨"/p/src/C.java"⟩]) := by
    cases h : (run s).1 with
    | error e => rw [h] at hreport; cases hreport
    | ok report => rw [h] at hreport; exact ⟨report, rfl, Option.some.inj hreport⟩
  have hagain : RunsAgain s t ⟨"/p/src"⟩ := by
    refine runsAgain_of_computed rfl (by decide) rfl (.inr rfl) ?_ (by decide +kernel)
    intro before f after hfiles origin hresolve
    obtain ⟨rfl, rfl⟩ : before = [] ∧ f = ⟨⟨"/p/L.java"⟩, ⟨"src/L.java"⟩⟩ := by
      rcases before with _ | ⟨g, before⟩
      · exact ⟨rfl, (List.cons.inj hfiles).1.symm⟩
      · have hnil := (List.cons.inj hfiles).2
        simp at hnil
    obtain rfl : origin = ["p", "L.java"] := Except.ok.inj (hresolve.symm.trans horigin.1)
    exact .inl horigin.2
  have hapart : Apart s := by
    refine ⟨fun x hx y hy _ _ _ => by rw [(hprinted x hx).1, (hprinted y hy).1],
      fun x hx p hp loc hloc => ?_⟩
    obtain ⟨-, hends, hothers⟩ := hprinted x hx
    obtain rfl : loc = ["out", "src", "A.java"] := Except.ok.inj (hloc.symm.trans hends)
    exact hothers p hp
  obtain ⟨hsecond, hids, hdisk⟩ := run_again hagain hrun hapart
    (fun l hl hfailed => by rw [hprints l hl] at hfailed; cases hfailed) (fun h => by cases h)
  exact ⟨report, hagain, hrun, congrArg Prod.fst hwritten, congrArg Prod.snd hwritten, hsecond,
    hids, hdisk⟩

/-- Two files are written again and again if a link makes them one. A file that failed succeeds
    if a link on the way to its output leads nowhere until the id file is written there. And a
    run without an output directory, which counted as prepared, fails once that is to be made. -/
theorem run_again_differs :
    (let p := sample "src" [sampleFile ["p", "src", "A.java"] "class A\x7bvoid m()\x7b\x7d\x7d",
       sampleFile ["p", "src", "B.java"] "class B\x7bvoid m()\x7b\x7d\x7d", (["out"], .directory),
       (["out", "src"], .directory), (["out", "src", "A.java"], .link ⟨"B.java"⟩)]
     let s := ({ p.1 with config := { p.1.config with routes := {} }
                          options := { p.1.options with fileByFile := false } }, p.2)
     let t := (run s).2
     RunsAgain s t ⟨"/p/src"⟩ ∧ (run s).1.isOk = true ∧
       (∀ x ∈ printedBy s, outputPath s.1.sourceOutput x.1 ∉ s.1.otherPaths) ∧
       (run t).1.toOption.map (·.total.written) = some 2) ∧
    (let p := sample "src" [sampleFile ["p", "src", "A.java"] "class A\x7bvoid m()\x7b\x7d\x7d",
       (["out"], .directory), (["out", "src"], .link ⟨"gen"⟩)]
     let s := ({ p.1 with options := { p.1.options with idFile := "../gen/id.map" } }, p.2)
     let t := (run s).2
     RunsAgain s t ⟨"/p/src"⟩ ∧ (run s).1.toOption.map (·.failed) = some [⟨"/p/src/A.java"⟩] ∧
       (∀ x ∈ printedBy s, outputPath s.1.sourceOutput x.1 ∉ s.1.otherPaths) ∧
       (run t).1.toOption.map (·.failed) = some []) ∧
    (let p := sample "src" [sampleFile ["p", "src", "A.java"] "class A\x7b\x7d",
       sampleFile ["out"] ""]
     let s := ({ p.1 with prepared := true
                          options := { p.1.options with idFile := "/id.map" } }, p.2)
     let t := ((run s).2.1.clean, (run s).2.2)
     RunsAgain s t ⟨"/p/src"⟩ ∧ (run s).1.isOk = true ∧
       (∀ x ∈ printedBy s, outputPath s.1.sourceOutput x.1 ∉ s.1.otherPaths) ∧
       (run t).1.isOk = false) := by
  refine ⟨And.imp_left (runsAgain_of_computed rfl (by decide) rfl (.inl rfl) ?_) ?_,
    And.imp_left (runsAgain_of_computed rfl (by decide) rfl (.inl rfl) ?_) ?_,
    And.imp_left (runsAgain_of_computed rfl (by decide) rfl (.inr rfl) ?_) ?_⟩
  case refine_1 | refine_3 | refine_5 => exact sameOrigins_nil _ _ _ _
  all_goals decide +kernel

end Instrument

end Tracepoint
