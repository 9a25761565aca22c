import Mathlib.Data.List.Perm.Subperm
import Tracepoint.Proofs.Instrument.CopyPlace

/-!
# Copying a project

A copy takes the regular files of a project that are neither hidden nor ignored, except for
those below the output. What is below the output is told by comparing paths as they are
written. Where the project and the output are written alike, that comes to the same as
comparing where files lie. Then the walk does not come to what the copy writes, so that the copy
takes what was there before it, in whatever order it comes by it.

Where they are not, the comparison can go wrong both ways: the copy can miss files that lie
outside of the output, and it can take files that lie in it, even files that it has written.

Results:

* `projectEntries_eq`: passing over the output leaves out what is written below it.
* `takes_copyProject`, `takes_toCopy`: what a copy takes, in general and if nothing of what it
  meets lies below the output.
* `projectEntries_filled`: what a copy has written does not change what a walk lists.
* `copyProject_exact`: what is copied, and that it is copied once.
* `copyProject_misses_files`, `copyProject_meets_itself`: projects that are not copied so.
-/

namespace Tracepoint

namespace Disk

/-! ## Walks that pass over a place -/

section Walks

variable {d : Disk}

/-- A walk that passes over what a test says lists what passes the test, if what is named below
    something else is told as that is. -/
theorem below_eq_filter (hd : d.WellFormed) {skip : Path → Bool}
    (hskip : ∀ p q, Path.Named p q → skip p = true → skip q = true) {anywhere : Bool}
    (depth : Nat) : ∀ (chain : Ignore.RuleChain) (path : Path) (loc : Location),
      d.below { anywhere := anywhere, skip := skip } depth chain path loc =
        (d.below { anywhere := anywhere } depth chain path loc).filter fun f => !skip f.path := by
  induction depth with
  | zero => exact fun _ _ _ => rfl
  | succ depth ih =>
    intro chain path loc
    rw [below_succ, below_succ, List.filter_flatMap]
    refine List.flatMap_congr fun n _ => ?_
    unfold belowName
    dsimp only
    rw [ih]
    rcases d.lookup (loc ++ [n]) with _ | (content | _ | target)
    · rfl
    · by_cases hn : skip (path.join ⟨n⟩) = true
      · simp [hn, apply_ite]
      · simp [hn, apply_ite]
    · by_cases hn : skip (path.join ⟨n⟩) = true
      · -- nothing that is named below is kept either
        have hnone : (d.below { anywhere := anywhere } depth
            (Ignore.DirectoryRules.ofDirectory d (loc ++ [n]) :: chain) (path.join ⟨n⟩)
              (loc ++ [n])).filter (fun f => !skip f.path) = [] := by
          refine List.filter_eq_nil_iff.2 fun f hf => ?_
          simp [hskip _ _ (named_below hd _ _ _ _ _ f hf) hn]
        simp [hn, apply_ite, hnone]
      · simp [hn, apply_ite]
    · by_cases hn : skip (path.join ⟨n⟩) = true
      · simp [hn, apply_ite]
      · simp [hn, apply_ite]

end Walks

end Disk

namespace Instrument

open Disk (Filled Home RulesInPlace)

variable {d d' : Disk} {cwd : Location} {project output outputDir : Path}

/-! ## What is copied -/

/-- What a project holds: all on a walk over it that is neither hidden nor ignored. -/
def projectHolds (d : Disk) (cwd : Location) (project : Path) : List Found :=
  d.walkFrom cwd { anywhere := true } project

/-- What a walk over a project lists that passes over the output. -/
def projectEntries (d : Disk) (cwd : Location) (project output : Path) : List Found :=
  d.walkFrom cwd (projectWalk output) project

/-- The files of a project that are not below the output, as paths are written. -/
def toCopy (d : Disk) (cwd : Location) (project output : Path) : List Found :=
  (projectHolds d cwd project).filter fun f => f.isFile && !output.isBelow f.path

theorem isBelow_iff {base p : Path} :
    base.isBelow p = true ↔ base.components <+: p.components := by
  rw [Path.isBelow, List.isPrefixOf_iff_prefix]

/-- Passing over the output leaves out what is written below it. -/
theorem projectEntries_eq (hd : d.WellFormed) :
    projectEntries d cwd project output =
      (projectHolds d cwd project).filter fun f => !output.isBelow f.path := by
  have hnamed : ∀ p q, Path.Named p q → output.isBelow p = true → output.isBelow q = true := by
    rintro p q ⟨ns, hns⟩ hp
    rw [isBelow_iff] at hp ⊢
    rw [hns]
    exact hp.trans (List.prefix_append ..)
  unfold projectEntries projectHolds Disk.walkFrom
  rcases d.resolve cwd project true with fault | loc
  · rfl
  · exact Disk.below_eq_filter hd hnamed _ _ _ _

theorem filter_projectEntries (hd : d.WellFormed) :
    (projectEntries d cwd project output).filter Found.isFile =
      toCopy d cwd project output := by
  rw [projectEntries_eq hd, List.filter_filter, toCopy]

/-- What a project holds is found below it. -/
theorem spelled_projectHolds (hd : d.WellFormed) {f : Found}
    (hf : f ∈ projectHolds d cwd project) :
    ∃ loc ns, d.resolve cwd project true = .ok loc ∧ Disk.Spelled d project loc f ns := by
  unfold projectHolds Disk.walkFrom at hf
  rcases hresolve : d.resolve cwd project true with fault | loc
  · rw [hresolve] at hf
    cases hf
  · rw [hresolve] at hf
    obtain ⟨ns, hns⟩ := Disk.exists_spelled_below hd _ _ _ _ _ f hf
    exact ⟨loc, ns, rfl, hns⟩

/-- The files that a copy takes are different ones. -/
theorem distinct_toCopy (hd : d.WellFormed) :
    (toCopy d cwd project output).Pairwise fun f g => f.path.components ≠ g.path.components := by
  refine List.Pairwise.sublist List.filter_sublist ?_
  unfold projectHolds Disk.walkFrom
  split
  · exact .nil
  · exact (Disk.distinct_below hd _ _ _ _ _).imp fun {f g} hfg heq => by simp [Path.same, heq] at hfg

/-! ## What a copy takes -/

theorem warnOfWalk_apply (project : Path) (w : World) :
    ∃ lines, warnOfWalk project w = (.ok (), w.logged lines) := by
  unfold warnOfWalk
  rw [Effect.bind_of_ok (rfl : (get : Action World) w = (.ok w, w))]
  rcases w.disk.entryAt w.cwd project with fault | entry
  · exact ⟨_, rfl⟩
  · cases w.disk.rulesAbove w.cwd project with
    | false => exact ⟨_, rfl⟩
    | true => exact ⟨[], by rw [World.logged_nil]; rfl⟩

/-- Copying a project that is a directory is copying what lies below it, unless its path is too
    long. -/
theorem copyProject_apply {projectDir : Path} {w : World}
    (hproject : Action.absolute projectDir w = (.ok project, w))
    (houtput : Action.absolute outputDir w = (.ok output, w))
    (hdirectory : w.disk.isDirectory w.cwd project = true) :
    ∃ lines loc, w.disk.resolve w.cwd project true = .ok loc ∧
      copyProject projectDir outputDir w =
        if isTooLong project then (.ok 0, w.logged lines)
        else copyBelow project output outputDir (maxPath + 1)
          (Ignore.RuleChain.ofDirectory w.disk loc) project loc (w.logged lines) := by
  obtain ⟨loc, hloc, hlookup⟩ := Disk.isDirectory_iff_resolve.1 hdirectory
  unfold copyProject
  rw [Effect.bind_of_ok hproject, Effect.bind_of_ok houtput]
  by_cases hlong : isTooLong project = true
  · obtain ⟨line, hline⟩ : ∃ line, warnOfFault project project .nameTooLong w =
      (.ok (), w.logged [line]) := ⟨_, rfl⟩
    refine ⟨[line], loc, hloc, ?_⟩
    rw [if_pos hlong, if_pos hlong]
    exact Effect.bind_of_ok hline _
  · obtain ⟨lines, hwarn⟩ := warnOfWalk_apply project w
    refine ⟨lines, loc, hloc, ?_⟩
    rw [if_neg hlong, if_neg hlong, Effect.bind_of_ok hwarn,
      Effect.bind_of_ok (rfl : (get : Action World) (w.logged lines) = (.ok _, _))]
    simp only [World.disk_logged, World.cwd_logged, hloc, hlookup]

/-- What a copy takes, however the project and the output are written. -/
theorem takes_copyProject {projectDir : Path} {w w' : World} {r : Except Error Nat}
    (hsound : w.disk.Sound w.cwd) (hproject : Action.absolute projectDir w = (.ok project, w))
    (houtput : Action.absolute outputDir w = (.ok output, w))
    (hdirectory : w.disk.isDirectory w.cwd project = true)
    (h : copyProject projectDir outputDir w = (r, w')) :
    ∃ loc fs, w.disk.resolve w.cwd project true = .ok loc ∧ Met output project loc fs ∧
      Takes project outputDir fs w r w' := by
  obtain ⟨lines, loc, hloc, happly⟩ := copyProject_apply hproject houtput hdirectory
  rw [happly] at h
  split_ifs at h
  · cases h
    exact ⟨loc, [], hloc, .nil output project loc, .nothing w lines⟩
  · have hsound' : (w.logged lines).disk.Sound (w.logged lines).cwd := hsound
    obtain ⟨fs, hmet, htakes⟩ :=
      takes_copyBelow (isAbsolute_absolute hproject) _ (.refl project) hsound' h
    exact ⟨loc, fs, hloc, hmet, htakes.copies.log, htakes.count⟩

/-! ## Where it lies -/

/-- If the project and the output are written alike, the files are copied that do not lie below
    the output. -/
theorem mem_toCopy_iff (hd : d.WellFormed) (halike : Path.WrittenAlike project output)
    {f : Found} : f ∈ toCopy d cwd project output ↔
      f ∈ projectHolds d cwd project ∧ f.isFile = true ∧ ¬ output.located <+: f.path.located := by
  rw [toCopy, List.mem_filter]
  refine and_congr_right fun hf => ?_
  obtain ⟨loc, ns, -, hns⟩ := spelled_projectHolds hd hf
  rw [Bool.and_eq_true, Bool.not_eq_true', ← Bool.not_eq_true, isBelow_iff, hns.components,
    halike.prefix_iff, Path.located_of_components hns.components]

/-- If they are written alike and lie where they are written to lie, what a walk lists does not
    lie below the output. -/
theorem apart_of_writtenAlike (hd : d.WellFormed) (halike : Path.WrittenAlike project output)
    (hsource : d.resolve cwd project true = .ok project.located) :
    ∀ f ∈ projectEntries d cwd project output, ¬ output.located <+: f.location := by
  intro f hf
  rw [projectEntries_eq hd, List.mem_filter] at hf
  obtain ⟨hholds, houtside⟩ := hf
  obtain ⟨loc, ns, hloc, hns⟩ := spelled_projectHolds hd hholds
  rw [hsource] at hloc
  cases hloc
  rwa [hns.location, ← halike.prefix_iff, ← hns.components, ← isBelow_iff, Bool.not_eq_true,
    ← Bool.not_eq_true']

/-- The output leads to a directory that holds no links and no ignore files that bear on other
    directories, and the walk over the project does not come to it. -/
structure Undiverted (d : Disk) (cwd : Location) (project output outputDir : Path)
    (home : Location) : Prop where
  target : d.resolve cwd outputDir true = .ok home
  directory : d.isDirectory cwd outputDir = true
  links : ∀ loc target, home <+: loc → d.lookup loc ≠ some (.link target)
  rules : d.RulesInPlace home
  short : isTooLong project = false
  clear : Clear home (projectEntries d cwd project output)

namespace Undiverted

variable {home : Location}

theorem leadsHome (h : Undiverted d cwd project output outputDir home) (hsound : d.Sound cwd) :
    d.Home cwd outputDir home := by
  obtain ⟨-, hzero, loc, hleads⟩ := Disk.isDirectory_iff.1 h.directory
  have hstays : Disk.Leads d Disk.maxLinks (outputDir.start cwd) (outputDir.names ++ ["."])
      home := by
    have hsteps := (Disk.resolve_eq_ok.1 h.target).2.2
    rw [Path.steps_eq] at hsteps
    split_ifs at hsteps
    · exact hsteps
    · rw [List.append_nil] at hsteps
      obtain rfl := (Disk.leads_dot_iff.1 hleads).1.unique hsteps
      exact hleads
  exact ⟨hsound, hzero, hstays, h.links⟩

/-- A walk over a project below the directory lists nothing. -/
theorem away (h : Undiverted d cwd project output outputDir home) (hd : d.WellFormed)
    {loc : Location} (hloc : d.resolve cwd project true = .ok loc)
    (hsome : projectEntries d cwd project output ≠ []) : ¬ home <+: loc := by
  obtain ⟨f, hf⟩ := List.exists_mem_of_ne_nil _ hsome
  have hapart := h.clear.apart f hf
  rw [projectEntries_eq hd, List.mem_filter] at hf
  obtain ⟨loc', ns, hloc', hns⟩ := spelled_projectHolds hd hf.1
  rw [hloc] at hloc'
  cases hloc'
  exact fun hin => hapart (hns.location ▸ hin.trans (List.prefix_append ..))

end Undiverted

/-- A copy that the walk does not come to takes what was there before it. -/
theorem takes_toCopy {projectDir : Path} {home : Location} {w w' : World} {r : Except Error Nat}
    (hundiverted : Undiverted w.disk w.cwd project output outputDir home)
    (hsound : w.disk.Sound w.cwd) (hproject : Action.absolute projectDir w = (.ok project, w))
    (houtput : Action.absolute outputDir w = (.ok output, w))
    (hdirectory : w.disk.isDirectory w.cwd project = true)
    (h : copyProject projectDir outputDir w = (r, w')) :
    Takes project outputDir (toCopy w.disk w.cwd project output) w r w' := by
  obtain ⟨lines, loc, hloc, happly⟩ := copyProject_apply hproject houtput hdirectory
  have hlisted : projectEntries w.disk w.cwd project output =
      w.disk.below (projectWalk output) (w.disk.height + 1)
        (Ignore.RuleChain.ofDirectory w.disk loc) project loc := by
    rw [projectEntries, Disk.walkFrom, hloc]
  rw [happly, if_neg (by simp [hundiverted.short])] at h
  rw [← filter_projectEntries hsound.wellFormed]
  by_cases hnone : projectEntries w.disk w.cwd project output = []
  · rw [hnone]
    rw [hlisted] at hnone
    have htakes := takes_nothing (w := w.logged lines) hnone h
    exact ⟨htakes.copies.log, htakes.count⟩
  · have haway := hundiverted.away hsound.wellFormed hloc hnone
    have hfilled : World.FilledTo outputDir home w (w.logged lines) :=
      ⟨rfl, .refl w.disk, .refl w.disk, hundiverted.leadsHome hsound⟩
    have hclear := hundiverted.clear
    have hdeep : ∀ x ∈ w.disk.entries, x.1.length < loc.length + (w.disk.height + 1) := by
      intro x hx
      have := Disk.length_le_height hx
      omega
    rw [hlisted] at hclear ⊢
    have htakes := takes_listed (isAbsolute_absolute hproject) hsound.wellFormed
      hundiverted.rules _ (.refl project) hfilled haway hclear hundiverted.short (by omega) hdeep h
    exact ⟨htakes.copies.log, htakes.count⟩

/-! ## Looking at the project again -/

section Again

variable {home : Location}

/-- What was put below the output is not listed, and does not change what is listed. -/
theorem projectEntries_filled (h : Undiverted d cwd project output outputDir home)
    (hd : d.WellFormed) {loc : Location} (hloc : d.resolve cwd project true = .ok loc)
    (hloc' : d'.resolve cwd project true = .ok loc) (hfilled : Filled home d d')
    (hsome : projectEntries d cwd project output ≠ []) :
    projectEntries d' cwd project output = projectEntries d cwd project output := by
  have haway := h.away hd hloc hsome
  have hapart := h.clear.apart
  unfold projectEntries Disk.walkFrom at hapart ⊢
  rw [hloc] at hapart
  rw [hloc, hloc']
  dsimp only at hapart ⊢
  have hdeep : ∀ x ∈ d.entries, x.1.length < loc.length + (d'.height + 1) := by
    intro x hx
    obtain ⟨y, hy, heq⟩ := hfilled.exists_entry hx
    have := Disk.length_le_height hy
    rw [heq] at this
    omega
  have hdeep' : ∀ x ∈ d.entries, x.1.length < loc.length + (d.height + 1) := by
    intro x hx
    have := Disk.length_le_height hx
    omega
  have hdepth : d.below (projectWalk output) (d'.height + 1)
      (Ignore.RuleChain.ofDirectory d loc) project loc =
        d.below (projectWalk output) (d.height + 1) (Ignore.RuleChain.ofDirectory d loc) project
          loc := Disk.below_of_deep _ _ _ _ _ hdeep hdeep'
  rw [hfilled.ruleChain h.rules haway, hfilled.walk_eq h.rules _ _ _ _ haway, hdepth]
  rwa [hdepth]

/-- A copy that goes over the project in any order: it takes files that a walk would list at that
    time, and none twice. -/
inductive Copying (project output outputDir : Path) : List Found → World → World → Prop
  | start (w : World) : Copying project output outputDir [] w w
  | log {fs : List Found} {w w₁ : World} (h : Copying project output outputDir fs w w₁)
      (lines : List LogLine) : Copying project output outputDir fs w (w₁.logged lines)
  | next {fs : List Found} {f : Found} {w w₁ w₂ : World}
      (h : Copying project output outputDir fs w w₁)
      (hf : f ∈ projectEntries w₁.disk w₁.cwd project output)
      (hnew : ∀ g ∈ fs, g.path ≠ f.path)
      (hcopy : copyEntry project outputDir f w₁ = (.ok true, w₂)) :
      Copying project output outputDir (fs ++ [f]) w w₂

namespace Copying

variable {w w₁ w₂ : World} {fs : List Found}

/-- All that a copy does happens below the output. -/
theorem filledTo (h : Copying project output outputDir fs w w₁)
    (hproject : project.isAbsolute = true) (hhome : w.disk.Home w.cwd outputDir home) :
    World.FilledTo outputDir home w w₁ := by
  induction h with
  | start w => exact .refl hhome
  | log h lines ih => exact ⟨(ih hhome).cwd, (ih hhome).filled, (ih hhome).grown, (ih hhome).home⟩
  | @next fs f w w₁ w₂ h hf hnew hcopy ih =>
    have hto := ih hhome
    have hnamed := Disk.named_walkFrom hto.home.sound.wellFormed hf
    have hfills := fills_copyEntry hproject hnamed w₁ hto.home
    rw [hcopy] at hfills
    exact hto.trans hfills

/-- At every time of a copy the project is listed as it was at the start. -/
theorem listed (h : Copying project output outputDir fs w w₁)
    (hundiverted : Undiverted w.disk w.cwd project output outputDir home)
    (hproject : project.isAbsolute = true) (hsound : w.disk.Sound w.cwd)
    (hdirectory : w.disk.isDirectory w.cwd project = true) :
    projectEntries w₁.disk w₁.cwd project output =
      projectEntries w.disk w.cwd project output := by
  induction h with
  | start w => rfl
  | log h lines ih => exact ih hundiverted hsound hdirectory
  | @next fs f w w₁ w₂ h hf hnew hcopy ih =>
    have hsome : projectEntries w.disk w.cwd project output ≠ [] := by
      rw [← ih hundiverted hsound hdirectory]
      exact List.ne_nil_of_mem hf
    have hto := (Copying.next h hf hnew hcopy).filledTo hproject (hundiverted.leadsHome hsound)
    obtain ⟨loc, hloc, -⟩ := Disk.isDirectory_iff_resolve.1 hdirectory
    rw [hto.cwd]
    exact projectEntries_filled hundiverted hsound.wellFormed hloc
      (Disk.resolve_grown hloc hto.grown) hto.filled hsome

/-- What a copy takes is what it would take at the start, and nothing twice. -/
theorem subperm (h : Copying project output outputDir fs w w₁)
    (hundiverted : Undiverted w.disk w.cwd project output outputDir home)
    (hproject : project.isAbsolute = true) (hsound : w.disk.Sound w.cwd)
    (hdirectory : w.disk.isDirectory w.cwd project = true) :
    fs.Subperm (toCopy w.disk w.cwd project output) := by
  have hall : fs.Nodup ∧ fs ⊆ toCopy w.disk w.cwd project output := by
    induction h with
    | start w => exact ⟨.nil, List.nil_subset _⟩
    | log h lines ih => exact ih hundiverted hsound hdirectory
    | @next fs f w w₁ w₂ h hf hnew hcopy ih =>
      obtain ⟨hnodup, hsubset⟩ := ih hundiverted hsound hdirectory
      rw [h.listed hundiverted hproject hsound hdirectory] at hf
      have hfile : f.isFile = true := by
        rw [← Bool.not_eq_false]
        intro hfile
        rw [copyEntry_of_not_file hfile] at hcopy
        cases hcopy
      refine ⟨List.nodup_append.2 ⟨hnodup, List.nodup_singleton f, ?_⟩, ?_⟩
      · rintro g hg _ hf' rfl
        exact hnew g hg (congrArg Found.path (List.mem_singleton.1 hf'))
      · refine List.append_subset.2 ⟨hsubset, ?_⟩
        rw [List.cons_subset, ← filter_projectEntries hsound.wellFormed]
        exact ⟨List.mem_filter.2 ⟨hf, hfile⟩, List.nil_subset _⟩
  exact List.Nodup.subperm hall.1 hall.2

end Copying

/-- A copy of what was there at the start is one that looks at the project each time. -/
theorem copying_of_copies {w w₂ : World}
    (hundiverted : Undiverted w.disk w.cwd project output outputDir home)
    (hproject : project.isAbsolute = true) (hsound : w.disk.Sound w.cwd)
    (hdirectory : w.disk.isDirectory w.cwd project = true)
    (h : Copies project outputDir (toCopy w.disk w.cwd project output) w (.ok ()) w₂) :
    Copying project output outputDir (toCopy w.disk w.cwd project output) w w₂ := by
  have hmore : ∀ {fs w₁ r} done, Copies project outputDir fs w₁ r w₂ → r = .ok () →
      Copying project output outputDir done w w₁ →
        done ++ fs = toCopy w.disk w.cwd project output →
          Copying project output outputDir (done ++ fs) w w₂ := by
    clear h
    intro fs w₁ r done hfs hr hdone hall
    induction hfs generalizing done with
    | nil w₁ lines =>
      rw [List.append_nil]
      exact hdone.log lines
    | stop => cases hr
    | @cons f fs w₁ w₁' w₂ r lines hcopy hrest ih =>
      have hmem : f ∈ toCopy w.disk w.cwd project output := hall ▸ by simp
      have hdone := hdone.log lines
      have hlisted : f ∈ projectEntries (w₁.logged lines).disk (w₁.logged lines).cwd project
          output := by
        rw [hdone.listed hundiverted hproject hsound hdirectory]
        rw [← filter_projectEntries hsound.wellFormed] at hmem
        exact (List.mem_filter.1 hmem).1
      have hnew : ∀ g ∈ done, g.path ≠ f.path := by
        have hdistinct : (toCopy w.disk w.cwd project output).Pairwise
          fun f g => f.path.components ≠ g.path.components := distinct_toCopy hsound.wellFormed
        rw [← hall, List.pairwise_append] at hdistinct
        exact fun g hg heq =>
          hdistinct.2.2 g hg f List.mem_cons_self (congrArg Path.components heq)
      rw [List.append_cons]
      exact ih (done ++ [f]) hr (.next hdone hlisted hnew hcopy)
        (by rw [← hall, List.append_assoc]; rfl)
  exact hmore [] h rfl (.start w) rfl

end Again

/-! ## The copy as a whole -/

/-- What a copy takes does not depend on the order in which it comes by it, nor on what it has
    written: it takes what was there at the start and puts it below the output. -/
structure CopiedOnce (project output outputDir : Path) (home : Location) (w : World) : Prop where
  /-- Nothing that is copied lies below the output. -/
  outside : ∀ f ∈ toCopy w.disk w.cwd project output, ¬ home <+: f.location
  once : ∀ fs w', Copying project output outputDir fs w w' →
    fs.Subperm (toCopy w.disk w.cwd project output)
  /-- All that is written lies below the output. -/
  inside : ∀ fs w', Copying project output outputDir fs w w' → ∀ loc,
    w'.disk.lookup loc ≠ w.disk.lookup loc → home <+: loc

theorem copiedOnce {home : Location} {w : World}
    (hundiverted : Undiverted w.disk w.cwd project output outputDir home)
    (hproject : project.isAbsolute = true) (hsound : w.disk.Sound w.cwd)
    (hdirectory : w.disk.isDirectory w.cwd project = true) :
    CopiedOnce project output outputDir home w where
  outside := by
    intro f hf
    rw [← filter_projectEntries hsound.wellFormed] at hf
    exact hundiverted.clear.apart f (List.mem_filter.1 hf).1
  once := fun fs w' h => h.subperm hundiverted hproject hsound hdirectory
  inside := by
    intro fs w' h loc hloc
    obtain ⟨rel, -, rfl⟩ := (h.filledTo hproject
      (hundiverted.leadsHome hsound)).filled.below_of_lookup_ne hloc
    exact List.prefix_append ..

/-- Files that were copied have their content below a directory, in the place of the names that
    they have below the project, and no other content has changed. -/
structure Mirrors (project : Path) (home : Location) (fs : List Found) (w w' : World) : Prop where
  placed : ∀ f ∈ fs, ∃ ns content, f.path.components = project.components ++ ns.map .name ∧
    f.entry = .file content ∧ w'.disk.contentAt (home ++ ns) = some content
  others : ∀ loc, w'.disk.contentAt loc ≠ w.disk.contentAt loc → ∃ f ∈ fs, ∃ ns,
    f.path.components = project.components ++ ns.map .name ∧ loc = home ++ ns

theorem mirrors_of_copies {home : Location} {w w' : World}
    (hundiverted : Undiverted w.disk w.cwd project output outputDir home)
    (hproject : project.isAbsolute = true) (hsound : w.disk.Sound w.cwd)
    (hdirectory : w.disk.isDirectory w.cwd project = true)
    (h : Copies project outputDir (toCopy w.disk w.cwd project output) w (.ok ()) w') :
    Mirrors project home (toCopy w.disk w.cwd project output) w w' := by
  obtain ⟨loc, hloc, hlookup⟩ := Disk.isDirectory_iff_resolve.1 hdirectory
  have hsource : ∀ f ∈ toCopy w.disk w.cwd project output, ∃ ns content,
      f.entry = .file content ∧ CopySource project home w f ns content := by
    intro f hf
    have haway := (copiedOnce hundiverted hproject hsound hdirectory).outside f hf
    obtain ⟨hholds, hfile⟩ := List.mem_filter.1 hf
    have hfile : f.isFile = true := (Bool.and_eq_true _ _ ▸ hfile).1
    obtain ⟨loc', ns, hloc', hns⟩ := spelled_projectHolds hsound.wellFormed hholds
    obtain rfl := Except.ok.inj (hloc.symm.trans hloc')
    obtain ⟨content, hcontent⟩ : ∃ content, f.entry = .file content := by
      unfold Found.isFile at hfile
      split at hfile
      · exact ⟨_, by assumption⟩
      · cases hfile
      · cases hfile
    refine ⟨ns, content, hcontent, hfile, hns.components, ?_, haway,
      fun d' hg l hl => hns.resolve hfile hloc hlookup hg hl⟩
    rw [hns.location, Disk.contentAt_eq_some, hns.entry, hcontent]
  obtain ⟨hplaced, hothers⟩ := contents_of_copies hproject h rfl (hundiverted.leadsHome hsound)
    (fun f hf => (hsource f hf).imp fun ns ⟨content, _, h⟩ => ⟨content, h⟩)
    (distinct_toCopy hsound.wellFormed)
  refine ⟨fun f hf => ?_, fun loc hne => ?_⟩
  · obtain ⟨ns, content, hentry, hf'⟩ := hsource f hf
    exact ⟨ns, content, hf'.components, hentry, hplaced f hf ns content hf'⟩
  · obtain ⟨f, hf, ns, content, hf', heq⟩ := hothers loc hne
    exact ⟨f, hf, ns, hf'.components, heq⟩

/-- A copy takes files that it meets below the project and that are not below the output as paths
    are written, each once, and fails only if one of them cannot be copied; and it ends by
    itself. What is below the output as paths are written lies below it, whatever the project
    may hold, exactly if the two are written alike. If nothing that a walk would list lies where
    the files are copied to, as is the case if the two are written alike, the copy takes what
    was there before it, and nothing that it has written; and when it has come to its end, the
    output mirrors these files. -/
theorem copyProject_exact (projectDir outputDir : Path) (w : World) {project output : Path}
    (hsound : w.disk.Sound w.cwd) (hproject : Action.absolute projectDir w = (.ok project, w))
    (houtput : Action.absolute outputDir w = (.ok output, w))
    (hdirectory : w.disk.isDirectory w.cwd project = true) :
    (∀ r w', copyProject projectDir outputDir w = (r, w') → ∃ loc taken,
      w.disk.resolve w.cwd project true = .ok loc ∧ Met output project loc taken ∧
        Copies project outputDir taken w (r.map fun _ => ()) w' ∧
        ∀ n, r = .ok n → n = taken.length) ∧
    (isTooLong project = false → ∀ depth chain loc, maxPath < depth →
      copyBelow project output outputDir depth chain project loc w =
        copyBelow project output outputDir (maxPath + 1) chain project loc w) ∧
    (Path.WrittenAlike project output ↔ ∀ ns, ns ≠ [] → (∀ n ∈ ns, Path.IsName n) →
      (output.components <+: project.components ++ ns.map .name ↔
        output.located <+: project.located ++ ns)) ∧
    (Path.WrittenAlike project output →
      (∀ f, f ∈ toCopy w.disk w.cwd project output ↔ f ∈ projectHolds w.disk w.cwd project ∧
        f.isFile = true ∧ ¬ output.located <+: f.path.located) ∧
      (w.disk.resolve w.cwd project true = .ok project.located →
        ∀ f ∈ projectEntries w.disk w.cwd project output, ¬ output.located <+: f.location)) ∧
    ∀ home, Undiverted w.disk w.cwd project output outputDir home →
      CopiedOnce project output outputDir home w ∧
      ∀ r w', copyProject projectDir outputDir w = (r, w') →
        Copies project outputDir (toCopy w.disk w.cwd project output) w (r.map fun _ => ()) w' ∧
        ∀ n, r = .ok n → n = (toCopy w.disk w.cwd project output).length ∧
          Mirrors project home (toCopy w.disk w.cwd project output) w w' ∧
          Copying project output outputDir (toCopy w.disk w.cwd project output) w w' := by
  have habsolute := isAbsolute_absolute hproject
  refine ⟨fun r w' h => ?_, fun hshort depth chain loc hdepth => ?_, Path.writtenAlike_iff,
    fun halike => ⟨fun f => mem_toCopy_iff hsound.wellFormed halike,
      apart_of_writtenAlike hsound.wellFormed halike⟩, fun home hundiverted => ?_⟩
  · obtain ⟨loc, fs, hloc, hmet, htakes⟩ :=
      takes_copyProject hsound hproject houtput hdirectory h
    exact ⟨loc, fs, hloc, hmet, htakes.copies, htakes.count⟩
  · exact copyBelow_of_long habsolute depth (.refl project) hsound hshort (by omega) (by omega)
  · refine ⟨copiedOnce hundiverted habsolute hsound hdirectory, fun r w' h => ?_⟩
    have htakes := takes_toCopy hundiverted hsound hproject houtput hdirectory h
    refine ⟨htakes.copies, ?_⟩
    rintro n rfl
    exact ⟨htakes.count n rfl,
      mirrors_of_copies hundiverted habsolute hsound hdirectory htakes.copies,
      copying_of_copies hundiverted habsolute hsound hdirectory htakes.copies⟩

/-- A project with its output in it, and another output beside it. -/
def nested : World where
  disk := ⟨[(["p"], .directory), (["p", "a"], .file ⟨#[1]⟩), (["p", "x"], .directory),
    (["p", "x", "b"], .file ⟨#[2]⟩), (["out"], .directory)]⟩

/-- Only what is beside the output in it is copied. -/
theorem copyProject_exact_of_nested :
    (copyProject ⟨"/p"⟩ ⟨"/p/x"⟩ nested).1 = .ok 1 ∧
      (∀ f, f ∈ toCopy nested.disk [] ⟨"/p"⟩ ⟨"/p/x"⟩ ↔ f ∈ projectHolds nested.disk [] ⟨"/p"⟩ ∧
        f.isFile = true ∧ ¬ ["p", "x"] <+: f.path.located) ∧
      CopiedOnce ⟨"/p"⟩ ⟨"/p/x"⟩ ⟨"/p/x"⟩ ["p", "x"] nested := by
  have hlinks : ∀ loc target, nested.disk.lookup loc ≠ some (.link target) :=
    Disk.lookup_ne_link rfl
  have halike : Path.WrittenAlike ⟨"/p"⟩ ⟨"/p/x"⟩ :=
    .of_names (show (⟨"/p"⟩ : Path).components = [.root] ++ ["p"].map .name by decide)
      (show (⟨"/p/x"⟩ : Path).components = [.root] ++ ["p", "x"].map .name by decide)
  have hproject : Action.absolute ⟨"/p"⟩ nested = (.ok ⟨"/p"⟩, nested) := rfl
  have houtput : Action.absolute ⟨"/p/x"⟩ nested = (.ok ⟨"/p/x"⟩, nested) := rfl
  obtain ⟨-, -, -, hexact, hundisturbed⟩ := copyProject_exact ⟨"/p"⟩ ⟨"/p/x"⟩ nested
    (by decide +kernel) hproject houtput (by decide +kernel)
  obtain ⟨hmem, hapart⟩ := hexact halike
  have hundiverted : Undiverted nested.disk nested.cwd ⟨"/p"⟩ ⟨"/p/x"⟩ ⟨"/p/x"⟩ ["p", "x"] :=
    ⟨by decide +kernel, by decide +kernel, fun loc target _ => hlinks loc target,
      ⟨by decide, fun loc target h => absurd h (hlinks loc target)⟩, by decide +kernel,
      ⟨hapart (by decide +kernel), by decide +kernel⟩⟩
  exact ⟨by decide +kernel, hmem, (hundisturbed _ hundiverted).1⟩

/-- A file outside of the output is not copied, if the path of the project leads through the
    output. A file below the output is copied, here onto itself, which empties it, if the path
    of the output leads through the project. -/
theorem copyProject_misses_files :
    ((copyProject ⟨"/out/../p"⟩ ⟨"/out"⟩ nested).1 = .ok 0 ∧
      ∃ f ∈ projectHolds nested.disk [] ⟨"/out/../p"⟩, f.isFile = true ∧
        f.path.located = ["p", "a"] ∧ ¬ (⟨"/out"⟩ : Path).located <+: f.path.located) ∧
    ((copyProject ⟨"/p"⟩ ⟨"/p/x/.."⟩ nested).1 = .ok 2 ∧
      (⟨"/p/x/.."⟩ : Path).located = ["p"] ∧
      (copyProject ⟨"/p"⟩ ⟨"/p/x/.."⟩ nested).2.disk.contentAt ["p", "a"] = some ⟨#[]⟩) := by
  decide +kernel

/-- A project with an output beside a directory in it, through which the path of the output
    leads. -/
def fed : World where
  disk := ⟨[(["p"], .directory), (["p", "a"], .file ⟨#[1]⟩), (["p", "out"], .directory),
    (["p", "x"], .directory)]⟩

/-- The copy comes to the output after the first file, and copies it from there again. -/
theorem copyProject_meets_itself :
    (toCopy fed.disk [] ⟨"/p"⟩ ⟨"/p/x/../out"⟩).length = 1 ∧
      (copyProject ⟨"/p"⟩ ⟨"/p/x/../out"⟩ fed).1 = .ok 2 ∧
      (copyProject ⟨"/p"⟩ ⟨"/p/x/../out"⟩ fed).2.disk.contentAt ["p", "out", "out", "a"] =
        some ⟨#[1]⟩ := by
  decide +kernel

end Instrument

end Tracepoint
