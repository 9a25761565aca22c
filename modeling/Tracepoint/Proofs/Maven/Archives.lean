import Tracepoint.Proofs.Classpath
import Tracepoint.Proofs.Model.Build
import Tracepoint.Proofs.Reading
import Tracepoint.Proofs.Text.Split

/-!
# The classpath of a project

The archive of a dependency lies where the descriptor says, or at the place for its coordinates in
the local repository. The classpath of a project has the archives of the dependencies that are
needed to compile, as far as there are files, and then the entries given by hand, each where it is
met first. Dependencies without an archive are reported, and nothing else comes of them.

Results:

* `archive?_eq_some_iff`: where the archive of a dependency is.
* `Resolver.classpath_apply`: the classpath of a project, for every way to find archives.
* `classpath_exact`: the classpath of a descriptor that can be read.
-/

namespace Tracepoint

namespace Maven

/-! ## Archives -/

/-- A text holds the start of a reference. -/
def Unresolved (text : String) : Prop := ['$', '\x7b'] <:+: text.toList

theorem hasReference_iff {text : String} : hasReference text.toList = true ↔ Unresolved text :=
  Text.occursIn_iff

/-- The place for the archive of a dependency: the path that is given for the system scope, and for
    any other scope, if version and group are known, a path in the repository. There is a directory
    for each part of the group between its dots, below them one for the artifact and below that one
    for the version, which holds the file `<artifact>-<version>.jar`. -/
inductive IsPlace (repository : Option Path) (d : Dependency) : Path → Prop
  | system {p : Path} (hscope : d.scope = .system) (hpath : d.systemPath = some p) :
      IsPlace repository d p
  | stored {root : Path} {version : String} {first : List Char} {more : List (List Char)}
      (hscope : d.scope ≠ .system)
      (hroot : repository = some root) (hversion : d.version = some version)
      (hknown : ¬ Unresolved version) (hgroup : ¬ Unresolved d.groupId)
      (hparts : d.groupId.toList = first ++ more.flatMap ('.' :: ·))
      (hdots : ∀ part ∈ first :: more, '.' ∉ part) :
      IsPlace repository d
        (((((first :: more).foldl (fun p part => p.join ⟨String.ofList part⟩) root).join
          ⟨d.artifactId⟩).join ⟨version⟩).join ⟨d.artifactId ++ "-" ++ version ++ ".jar"⟩)

/-- There is a file at the place for the archive of a dependency. -/
def IsArchive (disk : Disk) (cwd : Location) (repository : Option Path) (d : Dependency)
    (p : Path) : Prop :=
  IsPlace repository d p ∧ disk.isFile cwd p = true

/-- The place for the archive of a dependency, if there is one. -/
def place? (repository : Option Path) (d : Dependency) : Option Path :=
  if d.scope = .system then d.systemPath
  else match d.version, repository with
    | some version, some root =>
      if hasReference version.toList || hasReference d.groupId.toList then none
      else some (archivePath root d version)
    | _, _ => none

/-- The archive of a dependency, if there is one. -/
def archive? (disk : Disk) (cwd : Location) (repository : Option Path) (d : Dependency) :
    Option Path :=
  (place? repository d).filter (disk.isFile cwd ·)

section

variable {disk : Disk} {cwd : Location} {repository : Option Path} {d : Dependency} {p : Path}

/-- The archive of an artifact, found by the parts of its group. -/
theorem archivePath_of_parts {root : Path} {version : String} {parts : List (List Char)}
    (hparts : Text.splitAll '.' d.groupId.toList = parts) :
    archivePath root d version =
      (((parts.foldl (fun p part => p.join ⟨String.ofList part⟩) root).join
        ⟨d.artifactId⟩).join ⟨version⟩).join ⟨d.artifactId ++ "-" ++ version ++ ".jar"⟩ := by
  have hfile : s!"{d.artifactId}-{version}.jar" = d.artifactId ++ "-" ++ version ++ ".jar" := rfl
  rw [archivePath, hparts, hfile, List.foldl_append, List.foldl_map]
  rfl

theorem place?_eq_some_iff : place? repository d = some p ↔ IsPlace repository d p := by
  unfold place?
  constructor
  · intro h
    split_ifs at h with hscope
    · exact .system hscope h
    · split at h
      · rename_i version root hversion
        split_ifs at h with hknown
        rw [Bool.or_eq_true, not_or, hasReference_iff, hasReference_iff] at hknown
        obtain rfl := Option.some.inj h
        obtain ⟨first, more, hparts⟩ :=
          List.exists_cons_of_ne_nil (Text.splitAll_ne_nil '.' d.groupId.toList)
        obtain ⟨hgroup, hdots⟩ := Text.splitAll_eq_cons_iff.1 hparts
        rw [archivePath_of_parts hparts]
        exact .stored hscope rfl hversion hknown.1 hknown.2 hgroup hdots
      · cases h
  · rintro (⟨hscope, hpath⟩ | ⟨hscope, rfl, hversion, hknown, hgroup, hparts, hdots⟩)
    · rw [if_pos hscope, hpath]
    · rw [← hasReference_iff] at hknown hgroup
      rw [if_neg hscope, hversion,
        ← archivePath_of_parts (Text.splitAll_eq_cons_iff.2 ⟨hparts, hdots⟩)]
      simp [hknown, hgroup]

theorem archive?_eq_some_iff :
    archive? disk cwd repository d = some p ↔ IsArchive disk cwd repository d p := by
  rw [archive?, Option.filter_eq_some_iff, place?_eq_some_iff, IsArchive]

end

/-- Only the place for an archive is looked at. -/
theorem findArchive_eq (repository : Option Path) (d : Dependency) :
    findArchive repository d = (place? repository d).elim (pure none) existing? := by
  unfold findArchive place?
  split_ifs with hscope
  · cases d.systemPath <;> rfl
  · cases d.version with
    | none => rfl
    | some version =>
      cases repository with
      | none => rfl
      | some root =>
        dsimp only
        split_ifs <;> rfl

/-- An archive is found where it is. -/
theorem findArchive_apply (repository : Option Path) (d : Dependency) (w : World) :
    findArchive repository d w = (.ok (archive? w.disk w.cwd repository d), w) := by
  rw [findArchive_eq, archive?]
  cases place? repository d with
  | none => rfl
  | some p =>
    rw [Option.filter_some]
    rfl

/-! ## Resolvers -/

/-- Wherever a resolver looks for the archive of a dependency from some world on, it finds the same
    and leaves everything as it is. -/
def Resolver.Finds (r : Resolver) (w : World) (found : Dependency → Option Path) : Prop :=
  ∀ d lines, r.locate d (w.logged lines) = (.ok (found d), w.logged lines)

theorem finds_ofRepository (repository : Option Path) (w : World) :
    (Resolver.ofRepository repository).Finds w (archive? w.disk w.cwd repository) :=
  fun d lines => findArchive_apply repository d (w.logged lines)

/-- What is reported of dependencies without an archive. -/
def missed (found : Dependency → Option Path) (ds : List Dependency) : List LogLine :=
  (ds.filter (found · = none)).map fun d =>
    ⟨.warn, s!"Could not locate {d.coordinates} in the local repository"⟩

namespace Resolver

variable {r : Resolver} {w : World} {found : Dependency → Option Path}

theorem addDependency_apply (h : r.Finds w found) (c : Classpath) (d : Dependency)
    (lines : List LogLine) : r.addDependency c d (w.logged lines) =
      (.ok (c.pushAll (found d).toList), w.logged (lines ++ missed found [d])) := by
  unfold addDependency
  rw [Effect.bind_of_ok (h d lines)]
  cases hfound : found d with
  | some p =>
    rw [missed, List.filter_cons_of_neg (by simp [hfound]), List.filter_nil, List.map_nil,
      List.append_nil]
    rfl
  | none =>
    rw [missed, List.filter_cons_of_pos (by simp [hfound]), List.filter_nil, ← World.logged_logged]
    rfl

theorem foldlM_addDependency (h : r.Finds w found) (ds : List Dependency) :
    ∀ (c : Classpath) (lines : List LogLine), ds.foldlM r.addDependency c (w.logged lines) =
      (.ok (c.pushAll (ds.filterMap found)), w.logged (lines ++ missed found ds)) := by
  induction ds with
  | nil =>
    intro c lines
    rw [missed, List.filter_nil, List.map_nil, List.append_nil]
    rfl
  | cons d ds ih =>
    intro c lines
    have hfound : (d :: ds).filterMap found = (found d).toList ++ ds.filterMap found := by
      cases hd : found d with
      | none => rw [List.filterMap_cons_none hd]; rfl
      | some p => rw [List.filterMap_cons_some hd]; rfl
    have hmissed : missed found (d :: ds) = missed found [d] ++ missed found ds := by
      rw [missed, missed, missed, ← List.map_append, ← List.filter_append, List.singleton_append]
    rw [List.foldlM_cons, Effect.bind_of_ok (addDependency_apply h c d lines), ih, hfound, hmissed,
      Classpath.pushAll_append, List.append_assoc]

/-- The classpath of a project: the archives that are found of its dependencies that are needed to
    compile, and the further entries. What is not found is reported. -/
theorem classpath_apply {manifest : Path} {project : Project} {w₀ : World}
    (hproject : r.project manifest w₀ = (.ok project, w)) (h : r.Finds w found)
    (manual : List Path) :
    let c := Classpath.ofList (project.compileDependencies.filterMap found ++ manual)
    r.classpath manifest manual w₀ = (.ok c, w.logged (missed found project.compileDependencies ++
      [⟨.debug, s!"{r.name}: {c.size} classpath entries for {project.artifactId}"⟩])) := by
  intro c
  have hfold := foldlM_addDependency h project.compileDependencies {} []
  rw [World.logged_nil, List.nil_append] at hfold
  have hc : manual.foldl (fun c p => (c.push p).2)
      (Classpath.pushAll {} (project.compileDependencies.filterMap found)) = c :=
    (Classpath.pushAll_append {} _ manual).symm
  unfold classpath
  rw [Effect.bind_of_ok hproject, Effect.bind_of_ok hfold]
  rw [hc, Effect.bind_of_ok (Action.debug_apply _ _), World.logged_logged]
  rfl

end Resolver

/-! ## Projects that can be read -/

theorem Project.compileDependencies_eq (project : Project) : project.compileDependencies =
    project.dependencies.filter (·.scope ∈ [.compile, .provided, .system]) := by
  unfold compileDependencies
  congr 1
  funext d
  cases d.scope <;> rfl

/-- Elements without a value can be left out, whichever of the others are looked at. -/
theorem filterMap_filter_kept {α β : Type} {f : α → Option β} {kept : α → Bool} {xs : List α}
    (h : ∀ x ∈ xs, kept x = false → f x = none) (p : α → Bool) :
    ((xs.filter kept).filter p).filterMap f = (xs.filter p).filterMap f := by
  rw [List.filter_filter, List.filterMap_filter, List.filterMap_filter]
  refine List.filterMap_congr fun x hx => ?_
  cases hkept : kept x with
  | true => rw [Bool.and_true]
  | false => simp [h x hx hkept]

/-- The classpath of a descriptor that can be read: the archives of the dependencies that are needed
    to compile, optional or not, then the entries given by hand, and of these paths each where it is
    met first. Dependencies without an archive could as well not be there. -/
theorem classpath_exact (repository : Option Path) {manifest : Path} {project : Project}
    {w w' : World} (h : readProject manifest w = (.ok project, w')) (manual : List Path) :
    ∃ (found : Dependency → Option Path) (c : Classpath) (lines : List LogLine),
      (∀ d p, found d = some p ↔ IsArchive w.disk w.cwd repository d p) ∧
      (Resolver.ofRepository repository).classpath manifest manual w = (.ok c, w'.logged lines) ∧
      c.entries = List.eraseDupsBy Path.same
        ((project.dependencies.filter (·.scope ∈ [.compile, .provided, .system])).filterMap found ++
          manual) ∧
      c.NoTwins ∧
      (∀ p ∈ c.entries, p ∈ manual ∨ ∃ d ∈ project.dependencies,
        d.scope ∈ [.compile, .provided, .system] ∧ IsArchive w.disk w.cwd repository d p) ∧
      ∀ kept : Dependency → Bool, (∀ d ∈ project.dependencies, kept d = false →
          ∀ p, ¬ IsArchive w.disk w.cwd repository d p) →
        c.entries = List.eraseDupsBy Path.same
          (((project.dependencies.filter kept).filter
            (·.scope ∈ [.compile, .provided, .system])).filterMap found ++ manual) := by
  have hplace : World.SamePlace w w' := (keeps_readProject manifest).of_eq h
  have hfinds : (Resolver.ofRepository repository).Finds w'
      (archive? w.disk w.cwd repository) := by
    rw [← hplace.disk, ← hplace.cwd]
    exact finds_ofRepository repository w'
  have hclasspath := Resolver.classpath_apply h hfinds manual
  rw [Project.compileDependencies_eq] at hclasspath
  refine ⟨_, _, _, fun _ _ => archive?_eq_some_iff, hclasspath, Classpath.entries_ofList _,
    Classpath.noTwins_ofList _, fun p hp => ?_, fun kept hkept => ?_⟩
  · rw [Classpath.entries_ofList] at hp
    have hmem := mem_of_mem_eraseDupsBy _ hp
    rw [List.mem_append, List.mem_filterMap] at hmem
    obtain ⟨d, hd, hfound⟩ | hmanual := hmem
    · rw [List.mem_filter, decide_eq_true_eq] at hd
      exact .inr ⟨d, hd.1, hd.2, archive?_eq_some_iff.1 hfound⟩
    · exact .inl hmanual
  · have hnone : ∀ d ∈ project.dependencies, kept d = false →
        archive? w.disk w.cwd repository d = none := fun d hd hd' =>
      Option.eq_none_iff_forall_ne_some.2 fun p hp =>
        hkept d hd hd' p (archive?_eq_some_iff.1 hp)
    rw [Classpath.entries_ofList, filterMap_filter_kept hnone]

/-- An archive in the repository, one of the system scope that is not there again when it is given
    by hand in other words, and one that is only needed at run time. -/
theorem classpath_exact_of_archives :
    let text := "<project><dependencies>" ++
      "<dependency><groupId>a.b</groupId><artifactId>x</artifactId>" ++
      "<version>1</version></dependency>" ++
      "<dependency><scope>system</scope><systemPath>/j</systemPath></dependency>" ++
      "<dependency><groupId>a</groupId><artifactId>y</artifactId>" ++
      "<version>2</version><scope>runtime</scope></dependency>" ++
      "</dependencies></project>"
    let directories : List Location := [["r", "a", "b", "x", "1"], ["r", "a", "y", "2"]]
    let w : World := { disk := ⟨(["p"], .file text.toUTF8) ::
      (directories.flatMap List.inits).map (·, .directory) ++ [(["j"], .file text.toUTF8),
        (["r", "a", "b", "x", "1", "x-1.jar"], .file text.toUTF8),
        (["r", "a", "y", "2", "y-2.jar"], .file text.toUTF8)]⟩ }
    ∃ c w', (Resolver.ofRepository (some ⟨"/r"⟩)).classpath ⟨"/p"⟩ [⟨"/./j"⟩, ⟨"k"⟩] w =
        (.ok c, w') ∧
      c.entries = [⟨"/r/a/b/x/1/x-1.jar"⟩, ⟨"/j"⟩, ⟨"k"⟩] ∧ c.NoTwins := by
  intro text directories w
  let stored : Dependency := { groupId := "a.b", artifactId := "x", version := some "1" }
  let system : Dependency :=
    { groupId := "", artifactId := "", scope := .system, systemPath := some ⟨"/j"⟩ }
  let late : Dependency :=
    { groupId := "a", artifactId := "y", version := some "2", scope := .runtime }
  let project : Project :=
    { artifactId := "", manifestPath := ⟨"/p"⟩, dependencies := [stored, system, late] }
  have hread : (readProject ⟨"/p"⟩ w).1.toOption = some project := by decide +kernel
  obtain ⟨w', h⟩ : ∃ w', readProject ⟨"/p"⟩ w = (.ok project, w') := by
    rcases hresult : readProject ⟨"/p"⟩ w with ⟨_ | read, w'⟩
    · rw [hresult] at hread
      cases hread
    · rw [hresult] at hread
      exact ⟨w', by rw [Option.some.inj hread]⟩
  obtain ⟨found, c, lines, hfound, hc, hentries, hn, -⟩ :=
    classpath_exact (some ⟨"/r"⟩) h [⟨"/./j"⟩, ⟨"k"⟩]
  have hsystem : found system = some ⟨"/j"⟩ :=
    (hfound system ⟨"/j"⟩).2 ⟨.system rfl rfl, by decide +kernel⟩
  have hstored : found stored = some ⟨"/r/a/b/x/1/x-1.jar"⟩ := by
    have hparts : stored.groupId.toList = ['a'] ++ [['b']].flatMap ('.' :: ·) := by decide
    have hplace : IsPlace (some ⟨"/r"⟩) stored _ := .stored (by decide) rfl rfl
      (by rw [← hasReference_iff]; decide) (by rw [← hasReference_iff]; decide) hparts (by decide)
    have htext : ((([['a'], ['b']].foldl (fun p part => p.join ⟨String.ofList part⟩)
        (⟨"/r"⟩ : Path)).join ⟨"x"⟩).join ⟨"1"⟩).join ⟨"x" ++ "-" ++ "1" ++ ".jar"⟩ =
        ⟨"/r/a/b/x/1/x-1.jar"⟩ := by decide +kernel
    exact (hfound stored _).2 ⟨htext ▸ hplace, by decide +kernel⟩
  refine ⟨c, _, hc, ?_, hn⟩
  have hlocated : (project.dependencies.filter
      (·.scope ∈ [.compile, .provided, .system])).filterMap found =
      [⟨"/r/a/b/x/1/x-1.jar"⟩, ⟨"/j"⟩] := by
    rw [show project.dependencies.filter (·.scope ∈ [.compile, .provided, .system]) =
      [stored, system] by decide, List.filterMap_cons_some hstored,
      List.filterMap_cons_some hsystem, List.filterMap_nil]
  rw [hentries, hlocated]
  decide +kernel

end Maven

end Tracepoint
