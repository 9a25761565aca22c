import Tracepoint.Model.Build
import Tracepoint.Proofs.Source.Positions
import Tracepoint.Proofs.Walk

/-!
# What a model is built from

Building reads files and writes log lines, and changes nothing else. So the model of
the files at or below a path is a function of their texts and the settings: the units of
the files one by one, if all of them parse and, in strict mode, all imports resolve.

Results:

* `unitOf_fits`: the units of files fit their texts.
* `build_of_files`: the model of some files, from their texts.
* `resolves_mono`: what resolves in a model resolves in a larger one.
-/

namespace Tracepoint

/-- The world with further log lines. -/
def World.logged (w : World) (lines : List LogLine) : World := { w with log := w.log ++ lines }

@[simp] theorem World.logged_nil (w : World) : w.logged [] = w := by simp [logged]

@[simp] theorem World.logged_logged (w : World) (lines lines' : List LogLine) :
    (w.logged lines).logged lines' = w.logged (lines ++ lines') := by
  simp [logged]

@[simp] theorem World.disk_logged (w : World) (lines : List LogLine) :
    (w.logged lines).disk = w.disk := rfl

@[simp] theorem World.cwd_logged (w : World) (lines : List LogLine) :
    (w.logged lines).cwd = w.cwd := rfl

namespace Action

theorem debug_apply (text : String) (w : World) :
    debug text w = (.ok (), w.logged [⟨.debug, text⟩]) := rfl

theorem info_apply (text : String) (w : World) :
    info text w = (.ok (), w.logged [⟨.info, text⟩]) := rfl

theorem warn_apply (text : String) (w : World) :
    warn text w = (.ok (), w.logged [⟨.warn, text⟩]) := rfl

theorem attempt_apply {α : Type} (a : Action α) (w : World) :
    attempt a w = (.ok (a w).1, (a w).2) := rfl

theorem read_apply (p : Path) (w : World) :
    read p w = ((w.disk.read w.cwd p).mapError Error.io, w) := by
  show ofFault (w.disk.read w.cwd p) w = _
  cases w.disk.read w.cwd p <;> rfl

theorem readText_apply (p : Path) (w : World) :
    readText p w = ((w.disk.readText w.cwd p).mapError Error.io, w) := by
  show ofFault (w.disk.readText w.cwd p) w = _
  cases w.disk.readText w.cwd p <;> rfl

end Action

namespace Model

open Source

/-! ## Units -/

/-- The unit in a file, given what reading the file gives. -/
def unitOf (registry : Registry) (root : Path) (level : Nat) (path : Path)
    (text : Except Fault String) : Except Error CompilationUnit := do
  match registry.forFile? path with
  | none => throw (.parse path 0 "unsupported source language")
  | some language =>
    let text ← text.mapError Error.io
    let u ← CompilationUnit.ofSource path (Path.locate root path) language text.toList
    checkLevel u level
    return u

theorem settled_apply {α : Type} (r : Except Error α) (w : World) : settled r w = (r, w) := by
  cases r <;> rfl

theorem parseUnit_apply (registry : Registry) (path root : Path) (level : Nat) (w : World) :
    parseUnit registry path root level w =
      (unitOf registry root level path (w.disk.readText w.cwd path), w) := by
  unfold parseUnit unitOf readSource
  cases registry.forFile? path with
  | none => rfl
  | some language =>
    simp only [bind_assoc, pure_bind]
    refine Effect.bind_of_pure (Action.readText_apply path w) fun text => ?_
    refine Effect.bind_of_pure (settled_apply _ w) fun u => ?_
    exact Effect.bind_of_pure (settled_apply _ w) fun _ => rfl

/-- The one language there is finds methods. -/
theorem outlines_of_forFile? {path : Path} {language : Language}
    (h : Registry.standard.forFile? path = some language) : language.outlines = true := by
  unfold Registry.forFile? Registry.byExtension? at h
  simp only [bind, Option.bind_eq_some_iff] at h
  obtain ⟨ext, -, name, -, hname⟩ := h
  have hmem : language ∈ Registry.standard.languages := List.mem_of_find?_eq_some hname
  rw [List.mem_singleton.1 (show language ∈ [Language.java] from hmem)]
  rfl

theorem unitOf_fits {root path : Path} {level : Nat} {text : Except Fault String}
    {u : CompilationUnit} (h : unitOf .standard root level path text = .ok u) : u.Fits := by
  unfold unitOf at h
  split at h
  · cases h
  · rename_i language hlanguage
    obtain ⟨t, -, h⟩ := Except.bind_eq_ok.1 h
    obtain ⟨u', hu, h⟩ := Except.bind_eq_ok.1 h
    obtain ⟨-, -, h⟩ := Except.bind_eq_ok.1 h
    cases h
    exact CompilationUnit.ofSource_fits (outlines_of_forFile? hlanguage) hu

/-- The unit in a file has the text of the file. -/
theorem source_of_unitOf {root path : Path} {level : Nat} {text : Except Fault String}
    {u : CompilationUnit} (h : unitOf .standard root level path text = .ok u) :
    u.relativePath = Path.locate root path ∧
      ∃ content : String, text = .ok content ∧ u.parsed.source = content.toList := by
  unfold unitOf at h
  split at h
  · cases h
  · obtain ⟨content, hcontent, h⟩ := Except.bind_eq_ok.1 h
    obtain ⟨u', hu, h⟩ := Except.bind_eq_ok.1 h
    obtain ⟨-, -, h⟩ := Except.bind_eq_ok.1 h
    cases h
    refine ⟨CompilationUnit.ofSource_relativePath hu, content, ?_,
      CompilationUnit.ofSource_source hu⟩
    cases text with
    | error fault => cases hcontent
    | ok _ => cases hcontent; rfl

theorem path_of_unitOf {root path : Path} {level : Nat} {text : Except Fault String}
    {u : CompilationUnit} (h : unitOf .standard root level path text = .ok u) : u.path = path := by
  unfold unitOf at h
  split at h
  · cases h
  · obtain ⟨content, -, h⟩ := Except.bind_eq_ok.1 h
    obtain ⟨u', hu, h⟩ := Except.bind_eq_ok.1 h
    obtain ⟨-, -, h⟩ := Except.bind_eq_ok.1 h
    cases h
    exact CompilationUnit.ofSource_path hu

/-! ## Models -/

/-- Fails if the imports of a model are not as the settings ask. -/
def importsSettled (settings : Settings) (m : Model) : Except Error Unit :=
  match settings.mode with
  | .strict => checkImports m settings.classpath
  | .lenient => .ok ()

/-- The model of some units, if their imports are as the settings ask. -/
def ofParsed (settings : Settings) (us : List CompilationUnit) : Except Error Model :=
  (importsSettled settings (ofUnits us settings.autoImports)).map fun _ =>
    ofUnits us settings.autoImports

theorem eq_of_ofParsed {settings : Settings} {us : List CompilationUnit} {m : Model}
    (h : ofParsed settings us = .ok m) : ofUnits us settings.autoImports = m := by
  unfold ofParsed at h
  cases hc : importsSettled settings (ofUnits us settings.autoImports) with
  | error e => rw [hc] at h; cases h
  | ok _ => rw [hc] at h; cases h; rfl

theorem settleImports_apply (settings : Settings) (m : Model) (w : World) :
    ∃ lines, settleImports settings m w = (importsSettled settings m, w.logged lines) := by
  unfold settleImports importsSettled
  cases settings.mode with
  | strict => exact ⟨[], by rw [World.logged_nil]; exact settled_apply _ w⟩
  | lenient =>
    simp only
    generalize unresolved m settings.classpath = missing
    induction missing generalizing w with
    | nil => exact ⟨[], by simp [Effect.pure_apply]⟩
    | cons x missing ih =>
      obtain ⟨lines, hrest⟩ := ih (w.logged [⟨.debug,
        s!"Ignoring unresolved import {x.2.path} at {x.1.path.text}:{x.2.line}"⟩])
      rw [World.logged_logged] at hrest
      refine ⟨_, Eq.trans ?_ hrest⟩
      simp only [List.forIn_cons, bind_assoc, pure_bind]
      exact Effect.bind_of_ok (Action.debug_apply _ w) _

/-- Parsing the files at or below a path. -/
theorem mapM_parseSourceUnit {path : Path} {w : World} {files : List Path} (root : Path)
    (level : Nat) (h : sourceFiles .standard path w = (.ok files, w)) :
    ([⟨path, root⟩] : List SourceUnit).mapM (parseSourceUnit .standard level) w =
      ((files.mapM fun p => unitOf .standard root level p (w.disk.readText w.cwd p)) >>=
        fun us => .ok [us], w) := by
  rw [List.mapM_cons]
  refine Effect.bind_of_pure ?_ fun us => rfl
  rw [parseSourceUnit, Effect.bind_of_ok h]
  exact Effect.mapM_of_pure (fun p => parseUnit_apply .standard p root level w) files

/-- The model of the files at or below a path. -/
theorem build_of_files {path : Path} {w : World} {files : List Path} (root : Path)
    (settings : Settings) (h : sourceFiles .standard path w = (.ok files, w)) :
    ∃ lines, build [⟨path, root⟩] settings w =
      ((files.mapM fun p => unitOf .standard root settings.level p (w.disk.readText w.cwd p)) >>=
        ofParsed settings, w.logged lines) := by
  have hparse := mapM_parseSourceUnit root settings.level h
  rw [build]
  cases hus : files.mapM fun p =>
      unitOf .standard root settings.level p (w.disk.readText w.cwd p) with
  | error e =>
    rw [hus] at hparse
    exact ⟨[], by rw [Effect.bind_of_error hparse, World.logged_nil]; rfl⟩
  | ok us =>
    rw [hus] at hparse
    rw [Effect.bind_of_ok hparse]
    simp only [List.flatten_cons, List.flatten_nil, List.append_nil]
    show ∃ lines, _ = (ofParsed settings us, w.logged lines)
    unfold ofParsed
    obtain ⟨lines, hsettle⟩ :=
      settleImports_apply settings (ofUnits us settings.autoImports) w
    cases hc : importsSettled settings (ofUnits us settings.autoImports) with
    | error e =>
      rw [hc] at hsettle
      exact ⟨lines, by rw [Effect.bind_of_error hsettle]; rfl⟩
    | ok _ =>
      rw [hc] at hsettle
      refine ⟨lines ++ [⟨.debug,
        s!"Built model with {(ofUnits us settings.autoImports).size} compilation units"⟩], ?_⟩
      rw [Effect.bind_of_ok hsettle, Effect.bind_of_ok (Action.debug_apply _ _),
        World.logged_logged]
      rfl

/-- A model of one source unit that could be built holds units that fit their texts, without
    edits. -/
theorem build_of_ok {source : SourceUnit} {settings : Settings} {w w' : World} {m : Model}
    (h : build [source] settings w = (.ok m, w')) :
    ∃ us : List CompilationUnit, (∀ u ∈ us, u.Fits) ∧ m = ofUnits us settings.autoImports := by
  rcases hfiles : sourceFiles .standard source.path w with ⟨e | files, w₁⟩
  · rw [build, List.mapM_cons, parseSourceUnit] at h
    rw [Effect.bind_of_error (Effect.bind_of_error (Effect.bind_of_error hfiles _) _)] at h
    cases h
  · obtain rfl := (sourceFiles_eq_ok.1 hfiles).2
    obtain ⟨lines, hbuild⟩ := build_of_files source.root settings hfiles
    rw [hbuild, Prod.mk.injEq, Except.bind_eq_ok] at h
    obtain ⟨⟨us, hus, hm⟩, -⟩ := h
    refine ⟨us, fun u hu => ?_, (eq_of_ofParsed hm).symm⟩
    obtain ⟨p, -, hp⟩ := Except.exists_of_mem_mapM hus hu
    exact unitOf_fits hp

/-! ## Imports -/

/-- An import that resolves in a model resolves in a larger one. -/
theorem resolves_mono {m m' : Model} {classpath : ClasspathIndex} {u : CompilationUnit}
    {i : Import} (htypes : ∀ x ∈ m.declaredTypes, x ∈ m'.declaredTypes)
    (hpackages : ∀ x ∈ m.declaredPackages, x ∈ m'.declaredPackages)
    (h : resolves m classpath u i = true) : resolves m' classpath u i = true := by
  simp only [resolves, Bool.or_eq_true, Bool.and_eq_true, List.contains_iff_mem] at h ⊢
  rcases h with ((hplatform | htype) | hclass) | ⟨hkind, hpackage | hclasspath⟩
  · exact .inl (.inl (.inl hplatform))
  · exact .inl (.inl (.inr (htypes _ htype)))
  · exact .inl (.inr hclass)
  · exact .inr ⟨hkind, .inl (hpackages _ hpackage)⟩
  · exact .inr ⟨hkind, .inr hclasspath⟩

theorem checkImports_eq_ok {m : Model} {classpath : ClasspathIndex} :
    checkImports m classpath = .ok () ↔
      ∀ x ∈ m.units, ∀ i ∈ x.1.imports, resolves m classpath x.1 i = true := by
  have hnil : checkImports m classpath = .ok () ↔ unresolved m classpath = [] := by
    unfold checkImports
    split <;> simp_all
  rw [hnil, unresolved, List.flatMap_eq_nil_iff]
  simp

/-- Units whose imports are settled one by one have them settled together. -/
theorem importsSettled_ofUnits {settings : Settings} {us : List CompilationUnit}
    (h : ∀ u ∈ us, importsSettled settings (ofUnits [u] settings.autoImports) = .ok ()) :
    importsSettled settings (ofUnits us settings.autoImports) = .ok () := by
  unfold importsSettled at h ⊢
  cases hmode : settings.mode with
  | lenient => rfl
  | strict =>
    simp only [hmode] at h
    refine checkImports_eq_ok.2 fun x hx i hi => ?_
    obtain ⟨u, hu, rfl⟩ := List.mem_map.1 (show x ∈ us.map _ from hx)
    have halone := checkImports_eq_ok.1 (h u hu) _ List.mem_cons_self i hi
    -- all that one unit declares is declared in the model of all units
    refine resolves_mono ?_ ?_ halone
    · intro n hn
      exact List.mem_flatMap.2 ⟨_, hx, by simpa [declaredTypes, ofUnits] using hn⟩
    · intro n hn
      exact List.mem_filterMap.2 ⟨_, hx, by simpa [declaredPackages, ofUnits] using hn⟩

/-! ## Single files -/

/-- The unit in a file whose model can be built alone, given what reading the file gives. -/
def acceptedUnit (settings : Settings) (root path : Path) (text : Except Fault String) :
    Except Error CompilationUnit := do
  let u ← unitOf .standard root settings.level path text
  importsSettled settings (ofUnits [u] settings.autoImports)
  return u

theorem acceptedUnit_eq_ok {settings : Settings} {root path : Path} {text : Except Fault String}
    {u : CompilationUnit} :
    acceptedUnit settings root path text = .ok u ↔
      unitOf .standard root settings.level path text = .ok u ∧
        importsSettled settings (ofUnits [u] settings.autoImports) = .ok () := by
  constructor
  · intro h
    obtain ⟨u', hu, h⟩ := Except.bind_eq_ok.1 h
    obtain ⟨_, hsettled, h⟩ := Except.bind_eq_ok.1 h
    cases h
    exact ⟨hu, hsettled⟩
  · rintro ⟨hu, hsettled⟩
    exact Except.bind_eq_ok.2 ⟨u, hu, Except.bind_eq_ok.2 ⟨(), hsettled, rfl⟩⟩

theorem acceptedUnit_fits {settings : Settings} {root path : Path} {text : Except Fault String}
    {u : CompilationUnit} (h : acceptedUnit settings root path text = .ok u) : u.Fits :=
  unitOf_fits (acceptedUnit_eq_ok.1 h).1

/-- The model of one file. -/
theorem build_file {path : Path} {w : World} (root : Path) (settings : Settings)
    (hf : w.disk.isFile w.cwd path = true) (hs : Registry.standard.supports path = true) :
    ∃ lines, build [⟨path, root⟩] settings w =
      ((acceptedUnit settings root path (w.disk.readText w.cwd path)).map
        fun u => ofUnits [u] settings.autoImports, w.logged lines) := by
  obtain ⟨lines, h⟩ := build_of_files root settings (sourceFiles_of_isFile hf hs)
  refine ⟨lines, h.trans ?_⟩
  unfold acceptedUnit ofParsed
  cases hu : unitOf .standard root settings.level path (w.disk.readText w.cwd path) with
  | error e => simp only [List.mapM_cons, hu]; rfl
  | ok u =>
    simp only [List.mapM_cons, hu]
    show (Except.map _ (importsSettled settings (ofUnits [u] settings.autoImports)), _) =
      (Except.map _ (importsSettled settings (ofUnits [u] settings.autoImports) >>= fun _ =>
        Except.ok u), _)
    cases importsSettled settings (ofUnits [u] settings.autoImports) <;> rfl

end Model

/-! ## The source tree -/

/-- The source files at or below a path, with what reading them gives. -/
def sourcesAt (root : Path) (w : World) : Except Error (List (Path × Except Fault String)) :=
  (sourceFiles .standard root w).1.map fun files => files.map fun p => (p, w.disk.readText w.cwd p)

theorem sourcesAt_logged (root : Path) (w : World) (lines : List LogLine) :
    sourcesAt root (w.logged lines) = sourcesAt root w := by
  rw [sourcesAt, sourceFiles_fst, sourcesAt, sourceFiles_fst, World.disk_logged, World.cwd_logged]

/-- Listing source files does nothing but log. -/
theorem exists_sourceFiles_snd (registry : Registry) (root : Path) (w : World) :
    ∃ lines, (sourceFiles registry root w).2 = w.logged lines := by
  unfold sourceFiles
  rw [Effect.bind_of_ok (rfl : (get : Action World) w = (.ok w, w))]
  split_ifs
  · exact ⟨[], by rw [World.logged_nil]; rfl⟩
  · exact ⟨[], by rw [World.logged_nil]; rfl⟩
  · exact ⟨[], by rw [World.logged_nil]; rfl⟩
  · exact ⟨_, rfl⟩
  · exact ⟨[], by rw [World.logged_nil]; rfl⟩

/-- Worlds with the same sources list the same files, and the files have the same texts. -/
theorem sourceFiles_of_sourcesAt {root : Path} {w w' : World} {files : List Path}
    (hfiles : sourceFiles .standard root w = (.ok files, w))
    (h : sourcesAt root w' = sourcesAt root w) :
    sourceFiles .standard root w' = (.ok files, w') ∧
      ∀ p ∈ files, w'.disk.readText w'.cwd p = w.disk.readText w.cwd p := by
  unfold sourcesAt at h
  rw [hfiles] at h
  rcases hfiles' : sourceFiles .standard root w' with ⟨e | files', w''⟩
  · rw [hfiles'] at h
    cases h
  · obtain rfl := (sourceFiles_eq_ok.1 hfiles').2
    rw [hfiles'] at h
    have hmap := Except.ok.inj h
    have hpaths := congrArg (List.map Prod.fst) hmap
    simp only [List.map_map, Function.comp_def, List.map_id'] at hpaths
    subst hpaths
    refine ⟨rfl, fun p hp => ?_⟩
    have htexts := List.map_inj_left.1 hmap p hp
    exact (Prod.mk.inj htexts).2

end Tracepoint
