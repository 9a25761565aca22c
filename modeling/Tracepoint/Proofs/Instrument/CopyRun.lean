import Tracepoint.Proofs.Instrument.Filling

/-!
# The files that a copy takes

A project is copied while it is walked over: each directory is read when the copy comes to it,
with everything in it that was copied before. Whatever there is to meet, a copy takes regular
files one after the other, and none twice, since every file lies under a name of its own in a
directory that is read once.

If nothing that the walk meets lies below the directory that the files are copied into, the copy
takes what the walk would list on the disk as it was before: the names in the directories on the
way, and what they stand for, stay as they are.

Results:

* `takes_copyBelow`: what a copy takes, whatever it meets.
* `copyBelow_of_long`: it ends, however deep it may go.
* `takes_listed`, `takes_nothing`: it takes what a walk lists that was there before.
-/

namespace Tracepoint

/-- Whether a regular file was found. -/
def Found.isFile (f : Found) : Bool :=
  match f.entry with
  | .file _ => true
  | .directory | .link _ => false

namespace Instrument

open Disk (Filled RulesInPlace)
open Effect (Keeps)

variable {project output outputDir path : Path} {loc : Location} {w w' w₁ w₂ : World}
  {r : Except Error Nat} {fs gs : List Found}

/-! ## Copying one file after the other -/

/-- Files are copied one after the other, until one cannot be copied. There can be log lines
    between them. -/
inductive Copies (project outputDir : Path) :
    List Found → World → Except Error Unit → World → Prop
  | nil (w : World) (lines : List LogLine) :
      Copies project outputDir [] w (.ok ()) (w.logged lines)
  | cons {f : Found} {fs : List Found} {w w₁ w₂ : World} {r : Except Error Unit}
      {lines : List LogLine} (hcopy : copyEntry project outputDir f (w.logged lines) = (.ok true, w₁))
      (h : Copies project outputDir fs w₁ r w₂) : Copies project outputDir (f :: fs) w r w₂
  | stop {f : Found} {fs : List Found} {w w₁ : World} {e : Error} {lines : List LogLine}
      (hcopy : copyEntry project outputDir f (w.logged lines) = (.error e, w₁)) :
      Copies project outputDir (f :: fs) w (.error e) w₁

namespace Copies

variable {r : Except Error Unit}

theorem log {lines : List LogLine} (h : Copies project outputDir fs (w.logged lines) r w') :
    Copies project outputDir fs w r w' := by
  cases h with
  | nil _ lines' =>
    rw [World.logged_logged]
    exact .nil w _
  | cons hcopy h =>
    rw [World.logged_logged] at hcopy
    exact .cons hcopy h
  | stop hcopy =>
    rw [World.logged_logged] at hcopy
    exact .stop hcopy

theorem append {r₁ : Except Error Unit} (h : Copies project outputDir fs w r₁ w₁)
    (hok : r₁ = .ok ()) (h' : Copies project outputDir gs w₁ r w₂) :
    Copies project outputDir (fs ++ gs) w r w₂ := by
  induction h with
  | nil w lines => exact h'.log
  | cons hcopy h ih => exact .cons hcopy (ih hok h')
  | stop => cases hok

theorem stopped {r₁ : Except Error Unit} {e : Error} (h : Copies project outputDir fs w r₁ w₁)
    (herror : r₁ = .error e) (gs : List Found) :
    Copies project outputDir (fs ++ gs) w r₁ w₁ := by
  induction h with
  | nil => cases herror
  | cons hcopy h ih => exact .cons hcopy (ih herror)
  | stop hcopy => exact .stop hcopy

end Copies

/-- An action copies files one after the other and counts them. -/
structure Takes (project outputDir : Path) (fs : List Found) (w : World) (r : Except Error Nat)
    (w' : World) : Prop where
  copies : Copies project outputDir fs w (r.map fun _ => ()) w'
  count : ∀ n, r = .ok n → n = fs.length

theorem Takes.nothing (w : World) (lines : List LogLine) :
    Takes project outputDir [] w (.ok 0) (w.logged lines) :=
  ⟨.nil w lines, by rintro n ⟨⟩; rfl⟩

theorem Takes.none (w : World) : Takes project outputDir [] w (.ok 0) w := by
  have h : Takes project outputDir [] w (.ok 0) (w.logged []) := .nothing w []
  rwa [World.logged_nil] at h

theorem takes_warnOfFault {p : Path} {fault : Fault}
    (h : (do warnOfFault project p fault; return 0 : Action Nat) w = (r, w')) :
    Takes project outputDir [] w r w' := by
  obtain ⟨line, hline⟩ : ∃ line, warnOfFault project p fault w = (.ok (), w.logged [line]) :=
    ⟨_, rfl⟩
  rw [Effect.bind_of_ok hline] at h
  cases h
  exact .nothing w [line]

theorem copyEntry_of_not_file {f : Found} (hf : f.isFile = false) (w : World) :
    copyEntry project outputDir f w = (.ok false, w) := by
  obtain ⟨path, loc, content | _ | target⟩ := f
  · cases hf
  · rfl
  · rfl

theorem copyEntry_eq {f : Found} (hf : f.isFile = true) {rest : Path}
    (hrest : Path.relativeTo? project f.path = some rest) :
    copyEntry project outputDir f = do
      (outputDir.join rest).parent?.forM checkLength
      Action.makeParent (outputDir.join rest)
      checkLength f.path
      checkLength (outputDir.join rest)
      Action.copy f.path (outputDir.join rest)
      return true := by
  unfold copyEntry
  rw [hrest]
  obtain ⟨path, loc, content | _ | target⟩ := f
  · rfl
  · cases hf
  · cases hf

theorem checkLength_eq_ok {p : Path} {u : Unit} (h : checkLength p w = (.ok u, w')) : w = w' := by
  unfold checkLength at h
  split_ifs at h
  · cases h
  · cases h
    rfl

/-- Copying a file makes the directories above its place, and then puts it there. -/
theorem copyEntry_eq_ok {f : Found} (hf : f.isFile = true) {rest : Path}
    (hrest : Path.relativeTo? project f.path = some rest) {b : Bool}
    (h : copyEntry project outputDir f w = (.ok b, w')) :
    b = true ∧ ∃ w₁, Action.makeParent (outputDir.join rest) w = (.ok (), w₁) ∧
      Action.copy f.path (outputDir.join rest) w₁ = (.ok (), w') := by
  rw [copyEntry_eq hf hrest] at h
  obtain ⟨_, w₀, hparent, h⟩ := Effect.bind_eq_ok.1 h
  obtain ⟨_, w₁, hmake, h⟩ := Effect.bind_eq_ok.1 h
  obtain ⟨_, w₂, hcheck, h⟩ := Effect.bind_eq_ok.1 h
  obtain ⟨_, w₃, hcheck', h⟩ := Effect.bind_eq_ok.1 h
  obtain ⟨_, w₄, hcopy, h⟩ := Effect.bind_eq_ok.1 h
  cases h
  obtain rfl : w = w₀ := by
    rcases hq : (outputDir.join rest).parent? with _ | q
    · rw [hq] at hparent
      cases hparent
      rfl
    · rw [hq] at hparent
      exact checkLength_eq_ok hparent
  obtain rfl := checkLength_eq_ok hcheck
  obtain rfl := checkLength_eq_ok hcheck'
  exact ⟨rfl, w₁, hmake, hcopy⟩

/-- Copying what was found takes it if it is a file. -/
theorem takes_copyEntry (hproject : project.isAbsolute = true) {f : Found}
    (hnamed : Path.Named project f.path)
    (h : (do return (← copyEntry project outputDir f).toNat : Action Nat) w = (r, w')) :
    Takes project outputDir ([f].filter Found.isFile) w r w' := by
  rw [Effect.bind_pure_apply] at h
  cases hfile : f.isFile with
  | false =>
    rw [copyEntry_of_not_file hfile] at h
    cases h
    rw [List.filter_cons_of_neg (by simp [hfile])]
    exact .none w
  | true =>
    rw [List.filter_cons_of_pos hfile]
    rcases hcopy : copyEntry project outputDir f w with ⟨e | b, w₁⟩
    · rw [hcopy] at h
      rw [← World.logged_nil w] at hcopy
      cases h
      exact ⟨.stop hcopy, by rintro n ⟨⟩⟩
    · obtain ⟨rest, hrest, -⟩ := Path.inside_relativeTo hproject hnamed
      obtain ⟨rfl, -⟩ := copyEntry_eq_ok hfile hrest hcopy
      rw [hcopy] at h
      rw [← World.logged_nil w] at hcopy
      cases h
      exact ⟨.cons hcopy (Takes.none w₁).copies, by rintro n ⟨⟩; rfl⟩

/-- Actions that take files, one after the other. Each has its own say in what it takes, and what
    is left over if one fails can be anything that it could have taken. -/
theorem takes_mapM {step : String → Action Nat} {I : World → Prop}
    {P : String → List Found → Prop} {names : List String}
    (hstep : ∀ n ∈ names, ∀ w r w', I w → step n w = (r, w') →
      I w' ∧ ∃ fs, P n fs ∧ Takes project outputDir fs w r w')
    {left : String → List Found} (hleft : ∀ n ∈ names, P n (left n))
    {rs : Except Error (List Nat)} (hw : I w)
    (h : names.mapM step w = (rs, w')) :
    ∃ fss, List.Forall₂ P names fss ∧
      Takes project outputDir fss.flatten w (rs.map (List.foldr (· + ·) 0)) w' := by
  induction names generalizing w w' rs with
  | nil =>
    cases h
    exact ⟨[], .nil, .none w⟩
  | cons n names ih =>
    obtain ⟨hn, hnames⟩ := List.forall_mem_cons.1 hstep
    obtain ⟨-, hleft⟩ := List.forall_mem_cons.1 hleft
    rw [List.mapM_cons] at h
    rcases hrun : step n w with ⟨e | k, w₁⟩
    · obtain ⟨-, fs, hfs, htakes⟩ := hn _ _ _ hw hrun
      rw [Effect.bind_of_error hrun] at h
      cases h
      have hfss : List.Forall₂ P names (names.map left) :=
        List.forall₂_map_right_iff.2 (List.forall₂_same.2 hleft)
      exact ⟨fs :: names.map left, .cons hfs hfss, htakes.copies.stopped rfl _, by rintro n ⟨⟩⟩
    · obtain ⟨hw₁, fs, hfs, htakes⟩ := hn _ _ _ hw hrun
      rcases hrest : names.mapM step w₁ with ⟨rest, w₂⟩
      obtain ⟨fss, hfss, htakes'⟩ := ih hnames hleft hw₁ hrest
      rw [Effect.bind_of_ok hrun, Effect.bind_pure_apply, hrest] at h
      cases h
      refine ⟨fs :: fss, .cons hfs hfss, ?_, fun total htotal => ?_⟩
      · have hcopies := htakes.copies.append rfl htakes'.copies
        cases rest <;> exact hcopies
      · obtain ⟨ks, hks, rfl⟩ := Except.map_eq_ok.1 htotal
        obtain ⟨more, rfl, rfl⟩ := Except.map_eq_ok.1 hks
        rw [List.foldr_cons, List.flatten_cons, List.length_append, htakes.count k rfl,
          htakes'.count _ rfl]

/-! ## What is met -/

/-- Files that lie below a path, as paths are written, but not below the output. No two of them
    have the same path. -/
structure Met (output path : Path) (loc : Location) (fs : List Found) : Prop where
  file : ∀ f ∈ fs, f.isFile = true
  outside : ∀ f ∈ fs, output.isBelow f.path = false
  spelled : ∀ f ∈ fs, ∃ ns, ns ≠ [] ∧ f.path.components = path.components ++ ns.map .name ∧
    f.location = loc ++ ns
  distinct : fs.Pairwise fun f g => f.path ≠ g.path

theorem Met.nil (output path : Path) (loc : Location) : Met output path loc [] :=
  ⟨by simp, by simp, by simp, .nil⟩

/-- Files that are met under one name in a directory. -/
structure MetAt (output path : Path) (loc : Location) (n : String) (fs : List Found) : Prop
    extends Met output path loc fs where
  first : ∀ f ∈ fs, ∃ cs, f.path.components = path.components ++ .name n :: cs

theorem MetAt.nil (output path : Path) (loc : Location) (n : String) :
    MetAt output path loc n [] := ⟨.nil output path loc, by simp⟩

/-- What is met below a directory is met under its name. -/
theorem Met.at {n : String} (hn : Path.IsName n)
    (h : Met output (path.join ⟨n⟩) (loc ++ [n]) fs) : MetAt output path loc n fs := by
  have hjoin := path.components_join hn
  refine ⟨⟨h.file, h.outside, fun f hf => ?_, h.distinct⟩, fun f hf => ?_⟩
  · obtain ⟨ns, -, hpath, hlocation⟩ := h.spelled f hf
    exact ⟨n :: ns, by simp, by rw [hpath, hjoin, List.append_assoc]; rfl,
      by rw [hlocation, List.append_assoc]; rfl⟩
  · obtain ⟨ns, -, hpath, -⟩ := h.spelled f hf
    exact ⟨ns.map .name, by rw [hpath, hjoin, List.append_assoc]; rfl⟩

theorem exists_of_mem_flatten {P : String → List Found → Prop} {names : List String}
    {fss : List (List Found)} (h : List.Forall₂ P names fss) {f : Found} (hf : f ∈ fss.flatten) :
    ∃ n ∈ names, ∃ fs, P n fs ∧ f ∈ fs := by
  induction h with
  | nil => cases hf
  | @cons n fs names fss hfs h ih =>
    rw [List.flatten_cons, List.mem_append] at hf
    rcases hf with hf | hf
    · exact ⟨n, List.mem_cons_self, fs, hfs, hf⟩
    · obtain ⟨m, hm, gs, hgs⟩ := ih hf
      exact ⟨m, List.mem_cons_of_mem _ hm, gs, hgs⟩

/-- What is met under different names is different. -/
theorem Met.flatten {names : List String} {fss : List (List Found)} (hnames : names.Nodup)
    (h : List.Forall₂ (MetAt output path loc) names fss) : Met output path loc fss.flatten := by
  have hdistinct : fss.flatten.Pairwise fun f g => f.path ≠ g.path := by
    induction h with
    | nil => exact .nil
    | @cons n fs names fss hfs h ih =>
      rw [List.nodup_cons] at hnames
      rw [List.flatten_cons, List.pairwise_append]
      refine ⟨hfs.distinct, ih hnames.2, fun f hf g hg heq => ?_⟩
      obtain ⟨m, hm, gs, hgs, hg⟩ := exists_of_mem_flatten h hg
      obtain ⟨cs, hcs⟩ := hfs.first f hf
      obtain ⟨cs', hcs'⟩ := hgs.first g hg
      rw [heq, hcs', List.append_cancel_left_eq, List.cons.injEq] at hcs
      cases hcs.1
      exact hnames.1 hm
  have hmet : ∀ f ∈ fss.flatten, ∃ fs, f ∈ fs ∧ Met output path loc fs := by
    intro f hf
    obtain ⟨n, -, fs, hfs, hf⟩ := exists_of_mem_flatten h hf
    exact ⟨fs, hf, hfs.toMet⟩
  refine ⟨fun f hf => ?_, fun f hf => ?_, fun f hf => ?_, hdistinct⟩
  · obtain ⟨fs, hf, hfs⟩ := hmet f hf
    exact hfs.file f hf
  · obtain ⟨fs, hf, hfs⟩ := hmet f hf
    exact hfs.outside f hf
  · obtain ⟨fs, hf, hfs⟩ := hmet f hf
    exact hfs.spelled f hf

/-- A file that is met under a name. -/
theorem MetAt.filter_singleton {n : String} (hn : Path.IsName n) {f : Found}
    (hpath : f.path = path.join ⟨n⟩) (hlocation : f.location = loc ++ [n])
    (houtside : output.isBelow f.path = false) :
    MetAt output path loc n ([f].filter Found.isFile) := by
  have hjoin := path.components_join hn
  have hmem : ∀ g ∈ [f].filter Found.isFile, g = f ∧ g.isFile = true := by
    intro g hg
    obtain ⟨hg, hfile⟩ := List.mem_filter.1 hg
    exact ⟨List.mem_singleton.1 hg, hfile⟩
  refine ⟨⟨fun g hg => (hmem g hg).2, fun g hg => ?_, fun g hg => ?_, ?_⟩, fun g hg => ?_⟩
  · rw [(hmem g hg).1, houtside]
  · rw [(hmem g hg).1, hpath, hlocation]
    exact ⟨[n], by simp, hjoin, rfl⟩
  · exact (List.pairwise_singleton _ f).sublist List.filter_sublist
  · rw [(hmem g hg).1, hpath]
    exact ⟨[], hjoin⟩

section Name

variable {enter : Ignore.RuleChain → Path → Location → Action Nat} {chain : Ignore.RuleChain}
  {n : String}

theorem copyName_of_none (h : w.disk.lookup (loc ++ [n]) = none) :
    copyName project output outputDir enter chain path loc n w = (.ok 0, w) := by
  unfold copyName
  rw [Effect.bind_of_ok (rfl : (get : Action World) w = (.ok w, w))]
  simp only [h]
  rfl

theorem copyName_of_directory (h : w.disk.lookup (loc ++ [n]) = some .directory) :
    copyName project output outputDir enter chain path loc n w =
      if chain.passesOver true (loc ++ [n]) true || output.isBelow (path.join ⟨n⟩) then (.ok 0, w)
      else if isTooLong (path.join ⟨n⟩) then
        (do warnOfFault project (path.join ⟨n⟩) .nameTooLong; return 0 : Action Nat) w
      else enter (Ignore.DirectoryRules.ofDirectory w.disk (loc ++ [n]) :: chain) (path.join ⟨n⟩)
        (loc ++ [n]) w := by
  unfold copyName
  rw [Effect.bind_of_ok (rfl : (get : Action World) w = (.ok w, w))]
  simp only [h]
  split_ifs <;> rfl

theorem copyName_of_entry {e : Entry} (h : w.disk.lookup (loc ++ [n]) = some e)
    (he : e ≠ .directory) :
    copyName project output outputDir enter chain path loc n w =
      if chain.passesOver true (loc ++ [n]) false || output.isBelow (path.join ⟨n⟩) then
        (.ok 0, w)
      else (do return (← copyEntry project outputDir ⟨path.join ⟨n⟩, loc ++ [n], e⟩).toNat :
        Action Nat) w := by
  unfold copyName
  rw [Effect.bind_of_ok (rfl : (get : Action World) w = (.ok w, w))]
  rcases e with content | _ | target
  · simp only [h]
    split_ifs <;> rfl
  · exact absurd rfl he
  · simp only [h]
    split_ifs <;> rfl

/-- What a copy takes under one name. -/
theorem takes_copyName (hproject : project.isAbsolute = true) (hpath : Path.Named project path)
    (hn : Path.IsName n)
    (henter : ∀ chain, enter chain (path.join ⟨n⟩) (loc ++ [n]) w = (r, w') →
      ∃ fs, Met output (path.join ⟨n⟩) (loc ++ [n]) fs ∧ Takes project outputDir fs w r w')
    (h : copyName project output outputDir enter chain path loc n w = (r, w')) :
    ∃ fs, MetAt output path loc n fs ∧ Takes project outputDir fs w r w' := by
  have hnamed : Path.Named project (path.join ⟨n⟩) :=
    hpath.trans ⟨[n], path.components_join hn⟩
  have hnone : ∃ fs, MetAt output path loc n fs ∧ Takes project outputDir fs w (.ok 0) w :=
    ⟨[], .nil output path loc n, .none w⟩
  rcases hlookup : w.disk.lookup (loc ++ [n]) with _ | e
  · rw [copyName_of_none hlookup] at h
    cases h
    exact hnone
  by_cases hdirectory : e = .directory
  · subst hdirectory
    rw [copyName_of_directory hlookup] at h
    split_ifs at h
    · cases h
      exact hnone
    · exact ⟨[], .nil output path loc n, takes_warnOfFault h⟩
    · obtain ⟨fs, hmet, htakes⟩ := henter _ h
      exact ⟨fs, hmet.at hn, htakes⟩
  · rw [copyName_of_entry hlookup hdirectory] at h
    split_ifs at h with hpass
    · cases h
      exact hnone
    · rw [Bool.or_eq_true, not_or, Bool.not_eq_true, Bool.not_eq_true] at hpass
      generalize hf : (⟨path.join ⟨n⟩, loc ++ [n], e⟩ : Found) = f at h
      have hmet : MetAt output path loc n ([f].filter Found.isFile) :=
        .filter_singleton hn (by rw [← hf]) (by rw [← hf]) (by rw [← hf, hpass.2])
      exact ⟨_, hmet, takes_copyEntry hproject (by rw [← hf]; exact hnamed) h⟩

end Name

theorem sound_copyName (hproject : project.isAbsolute = true) (hpath : Path.Named project path)
    {n : String} (hn : Path.IsName n) {depth : Nat} {chain : Ignore.RuleChain}
    (hsound : w.disk.Sound w.cwd)
    (h : copyName project output outputDir (copyBelow project output outputDir depth) chain path
      loc n w = (r, w')) : w'.disk.Sound w'.cwd := by
  have hcopy : ∀ f : Found, Path.Named project f.path →
      Keeps (World.Writes fun _ _ => True) (copyEntry project outputDir f) :=
    fun f => keeps_copyEntry hproject fun _ _ _ => trivial
  have hbelow : ∀ chain p loc, Path.Named project p →
      Keeps (World.Writes fun _ _ => True) (copyBelow project output outputDir depth chain p loc) :=
    keeps_copyBelow (R := World.Writes fun _ _ => True) (fun _ _ hw hsound => hw hsound hsound)
      hcopy depth
  exact ((keeps_copyName hcopy hbelow hpath hn chain loc).of_eq h).sound hsound

/-- What a copy takes from below a directory, whatever it meets. -/
theorem takes_copyBelow (hproject : project.isAbsolute = true) (depth : Nat) :
    ∀ {chain path loc w r w'}, Path.Named project path → w.disk.Sound w.cwd →
      copyBelow project output outputDir depth chain path loc w = (r, w') →
        ∃ fs, Met output path loc fs ∧ Takes project outputDir fs w r w' := by
  induction depth with
  | zero =>
    intro chain path loc w r w' _ _ h
    cases h
    exact ⟨[], .nil output path loc, .none w⟩
  | succ depth ih =>
    intro chain path loc w r w' hpath hsound h
    rw [copyBelow, Effect.bind_of_ok (rfl : (get : Action World) w = (.ok w, w))] at h
    rcases hrun : (w.disk.names loc).mapM (copyName project output outputDir
      (copyBelow project output outputDir depth) chain path loc) w with ⟨rs, w₁⟩
    rw [Effect.bind_pure_apply, hrun] at h
    cases h
    have hstep : ∀ n ∈ w.disk.names loc, ∀ w₁ r w₂, w₁.disk.Sound w₁.cwd →
        copyName project output outputDir (copyBelow project output outputDir depth) chain path loc
          n w₁ = (r, w₂) → w₂.disk.Sound w₂.cwd ∧
            ∃ fs, MetAt output path loc n fs ∧ Takes project outputDir fs w₁ r w₂ := by
      intro n hn w₁ r w₂ hsound₁ h
      have hname := hsound.wellFormed.isName hn
      have hnamed := hpath.trans ⟨[n], path.components_join hname⟩
      exact ⟨sound_copyName hproject hpath hname hsound₁ h,
        takes_copyName hproject hpath hname (fun chain => ih hnamed hsound₁) h⟩
    obtain ⟨fss, hfss, htakes⟩ := takes_mapM hstep (fun n _ => .nil output path loc n) hsound hrun
    exact ⟨fss.flatten, .flatten (hsound.wellFormed.nodup_names loc) hfss, htakes⟩

/-! ## How long it takes -/

/-- A name below a path makes it longer. -/
theorem bytes_join {n : String} (hn : Path.IsName n) (p : Path) :
    p.text.utf8ByteSize < (p.join ⟨n⟩).text.utf8ByteSize := by
  have hpos : 0 < n.utf8ByteSize := by
    rw [Nat.pos_iff_ne_zero, Ne, String.utf8ByteSize_eq_zero_iff]
    exact hn.ne_empty
  unfold Path.join
  rw [hn.not_absolute, Bool.false_or]
  split_ifs with hempty hslash
  · have hp : p.text = "" := by simpa [Path.isEmpty] using hempty
    simpa [hp] using hpos
  · simpa [String.utf8ByteSize_append] using hpos
  · simp only [String.utf8ByteSize_append]
    omega

theorem not_isTooLong_iff {p : Path} : isTooLong p = false ↔ p.text.utf8ByteSize ≤ maxPath := by
  rw [isTooLong, decide_eq_false_iff_not, Nat.not_lt]

/-- Steps that do the same as long as something holds, and keep it, do the same one after the
    other. -/
theorem mapM_congr_of_inv {I : World → Prop} {step step' : String → Action Nat}
    {names : List String}
    (hstep : ∀ n ∈ names, ∀ w, I w → step n w = step' n w ∧ I (step n w).2) (hw : I w) :
    names.mapM step w = names.mapM step' w := by
  induction names generalizing w with
  | nil => rfl
  | cons n names ih =>
    obtain ⟨hn, hnames⟩ := List.forall_mem_cons.1 hstep
    obtain ⟨heq, hinv⟩ := hn w hw
    rw [List.mapM_cons, List.mapM_cons, Effect.bind_eq_of_eq heq]
    rcases hrun : step' n w with ⟨e | k, w₁⟩
    · rw [Effect.bind_of_error hrun, Effect.bind_of_error hrun]
    · rw [heq, hrun] at hinv
      rw [Effect.bind_of_ok hrun, Effect.bind_of_ok hrun]
      exact Effect.bind_eq_of_eq (ih hnames hinv) _

/-- A copy goes no deeper than the longest path, so it ends by itself. -/
theorem copyBelow_of_long (hproject : project.isAbsolute = true) (depth : Nat) :
    ∀ {depth' chain path loc w}, Path.Named project path → w.disk.Sound w.cwd →
      isTooLong path = false → maxPath < path.text.utf8ByteSize + depth →
        maxPath < path.text.utf8ByteSize + depth' →
          copyBelow project output outputDir depth chain path loc w =
            copyBelow project output outputDir depth' chain path loc w := by
  induction depth with
  | zero =>
    intro depth' chain path loc w _ _ hshort hdepth _
    rw [not_isTooLong_iff] at hshort
    omega
  | succ depth ih =>
    intro depth' chain path loc w hpath hsound hshort hdepth hdepth'
    rw [not_isTooLong_iff] at hshort
    obtain ⟨depth', rfl⟩ : ∃ k, depth' = k + 1 := ⟨depth' - 1, by omega⟩
    rw [copyBelow, copyBelow, Effect.bind_of_ok (rfl : (get : Action World) w = (.ok w, w)),
      Effect.bind_of_ok (rfl : (get : Action World) w = (.ok w, w))]
    refine Effect.bind_eq_of_eq ?_ _
    refine mapM_congr_of_inv (I := fun w => w.disk.Sound w.cwd) (fun n hn w₁ hsound₁ => ?_) hsound
    have hname := hsound.wellFormed.isName hn
    have hlonger := bytes_join hname path
    refine ⟨?_, sound_copyName hproject hpath hname hsound₁ rfl⟩
    rcases hlookup : w₁.disk.lookup (loc ++ [n]) with _ | e
    · rw [copyName_of_none hlookup, copyName_of_none hlookup]
    by_cases hdirectory : e = .directory
    · subst hdirectory
      rw [copyName_of_directory hlookup, copyName_of_directory hlookup]
      split_ifs with hpass hlong
      · rfl
      · rfl
      · exact ih (hpath.trans ⟨[n], path.components_join hname⟩) hsound₁
          (Bool.not_eq_true _ ▸ hlong) (by omega) (by omega)
    · rw [copyName_of_entry hlookup hdirectory, copyName_of_entry hlookup hdirectory]

/-! ## What was there before -/

section Listed

variable {home : Location} {w₀ : World}

/-- The walk over a project, as it would be on a disk that does not change. -/
def projectWalk (output : Path) : WalkOptions := { anywhere := true, skip := output.isBelow }

theorem projectWalk_anywhere : (projectWalk output).anywhere = true := rfl

theorem projectWalk_skip : (projectWalk output).skip = output.isBelow := rfl

/-- Nothing of what was found lies below a directory, and paths lead to the directories. -/
structure Clear (home : Location) (fs : List Found) : Prop where
  apart : ∀ f ∈ fs, ¬ home <+: f.location
  short : ∀ f ∈ fs, f.entry = .directory → isTooLong f.path = false

theorem Clear.mono (h : Clear home gs) (hsub : fs ⊆ gs) : Clear home fs :=
  ⟨fun f hf => h.apart f (hsub hf), fun f hf => h.short f (hsub hf)⟩

theorem fills_copyName (hproject : project.isAbsolute = true) (hpath : Path.Named project path)
    {n : String} (hn : Path.IsName n) (depth : Nat) (chain : Ignore.RuleChain) (loc : Location) :
    Keeps (World.Fills outputDir home) (copyName project output outputDir
      (copyBelow project output outputDir depth) chain path loc n) := by
  have hcopy : ∀ f : Found, Path.Named project f.path →
      Keeps (World.Fills outputDir home) (copyEntry project outputDir f) :=
    fun f => fills_copyEntry hproject
  have hbelow : ∀ chain p loc, Path.Named project p → Keeps (World.Fills outputDir home)
      (copyBelow project output outputDir depth chain p loc) :=
    keeps_copyBelow (R := World.Fills outputDir home) (fun _ _ hw hhome => hw hhome.sound hhome)
      hcopy depth
  exact keeps_copyName hcopy hbelow hpath hn chain loc

section Name

variable {n : String} {depth : Nat} {chain : Ignore.RuleChain}

/-- What a copy takes under one name is what was listed there before. -/
theorem takes_belowName (hproject : project.isAbsolute = true) (hrules : RulesInPlace w₀.disk home)
    (hpath : Path.Named project path) (hn : Path.IsName n)
    (hfilled : World.FilledTo outputDir home w₀ w) (haway : ¬ home <+: loc)
    (hclear : Clear home (w₀.disk.belowName (projectWalk output) depth chain path loc n))
    {enter : Ignore.RuleChain → Path → Location → Action Nat}
    (henter : ∀ chain, ¬ home <+: loc ++ [n] → isTooLong (path.join ⟨n⟩) = false →
      Clear home (w₀.disk.below (projectWalk output) depth chain (path.join ⟨n⟩) (loc ++ [n])) →
        enter chain (path.join ⟨n⟩) (loc ++ [n]) w = (r, w') →
          Takes project outputDir ((w₀.disk.below (projectWalk output) depth chain (path.join ⟨n⟩)
            (loc ++ [n])).filter Found.isFile) w r w')
    (h : copyName project output outputDir enter chain path loc n w = (r, w')) :
    Takes project outputDir ((w₀.disk.belowName (projectWalk output) depth chain path loc n).filter
      Found.isFile) w r w' := by
  have hnamed : Path.Named project (path.join ⟨n⟩) :=
    hpath.trans ⟨[n], path.components_join hn⟩
  have hsame := hfilled.filled.lookup haway n
  rcases hlookup : w₀.disk.lookup (loc ++ [n]) with _ | e
  · rw [copyName_of_none (hsame.trans hlookup)] at h
    rw [Disk.belowName_of_none hlookup]
    cases h
    exact .none w
  by_cases hdirectory : e = .directory
  · subst hdirectory
    rw [copyName_of_directory (hsame.trans hlookup)] at h
    rw [Disk.belowName_of_directory hlookup, projectWalk_anywhere, projectWalk_skip] at hclear ⊢
    split_ifs at h hclear ⊢ with hpass hlong
    · cases h
      exact .none w
    · -- paths lead to the directories that are listed
      exact absurd (hclear.short _ List.mem_cons_self rfl) (by simp [hlong])
    · have haway' := hclear.apart _ List.mem_cons_self
      rw [hfilled.filled.ofDirectory hrules haway'] at h
      rw [List.filter_cons_of_neg (by simp [Found.isFile])]
      exact henter _ haway' (Bool.not_eq_true _ ▸ hlong)
        (hclear.mono (List.subset_cons_self _ _)) h
  · rw [copyName_of_entry (hsame.trans hlookup) hdirectory] at h
    rw [Disk.belowName_of_entry hlookup hdirectory, projectWalk_anywhere, projectWalk_skip]
    split_ifs at h ⊢
    · cases h
      exact .none w
    · generalize hf : (⟨path.join ⟨n⟩, loc ++ [n], e⟩ : Found) = f at h ⊢
      exact takes_copyEntry hproject (by rw [← hf]; exact hnamed) h

end Name

/-- A copy takes what a walk lists that was there before, if files are copied into a directory
    that the walk does not come to. -/
theorem takes_listed (hproject : project.isAbsolute = true) (hd : w₀.disk.WellFormed)
    (hrules : RulesInPlace w₀.disk home) (depth : Nat) :
    ∀ {depth' chain path loc w r w'}, Path.Named project path →
      World.FilledTo outputDir home w₀ w → ¬ home <+: loc →
        Clear home (w₀.disk.below (projectWalk output) depth' chain path loc) →
          isTooLong path = false → maxPath < path.text.utf8ByteSize + depth →
            (∀ x ∈ w₀.disk.entries, x.1.length < loc.length + depth') →
              copyBelow project output outputDir depth chain path loc w = (r, w') →
                Takes project outputDir ((w₀.disk.below (projectWalk output) depth' chain path
                  loc).filter Found.isFile) w r w' := by
  induction depth with
  | zero =>
    intro depth' chain path loc w r w' _ _ _ _ hshort hdepth
    rw [not_isTooLong_iff] at hshort
    omega
  | succ depth ih =>
    intro depth' chain path loc w r w' hpath hfilled haway hclear _ hdepth hdeep h
    rw [copyBelow, Effect.bind_of_ok (rfl : (get : Action World) w = (.ok w, w)),
      hfilled.filled.names haway] at h
    rcases hrun : (w₀.disk.names loc).mapM (copyName project output outputDir
      (copyBelow project output outputDir depth) chain path loc) w with ⟨rs, w₁⟩
    rw [Effect.bind_pure_apply, hrun] at h
    cases h
    cases depth' with
    | zero =>
      rw [Disk.names_of_deep hdeep] at hrun
      cases hrun
      exact .none w
    | succ depth' =>
      rw [Disk.below_succ] at hclear ⊢
      have hstep : ∀ n ∈ w₀.disk.names loc, ∀ w r w', World.FilledTo outputDir home w₀ w →
          copyName project output outputDir (copyBelow project output outputDir depth) chain path
            loc n w = (r, w') → World.FilledTo outputDir home w₀ w' ∧ ∃ fs,
              (w₀.disk.belowName (projectWalk output) depth' chain path loc n).filter
                Found.isFile = fs ∧ Takes project outputDir fs w r w' := by
        intro n hn w r w' hfilled h
        have hname := hd.isName hn
        have hnamed := hpath.trans ⟨[n], path.components_join hname⟩
        have hlonger := bytes_join hname path
        have hlength : (loc ++ [n]).length = loc.length + 1 := by simp
        have hfills := (fills_copyName hproject hpath hname depth chain loc).of_eq h hfilled.home
        refine ⟨hfilled.trans hfills, _, rfl, ?_⟩
        refine takes_belowName hproject hrules hpath hname hfilled haway
          (hclear.mono fun f hf => List.mem_flatMap.2 ⟨n, hn, hf⟩) (fun chain haway hshort hclear h => ?_) h
        exact ih hnamed hfilled haway hclear hshort (by omega)
          (fun x hx => by have := hdeep x hx; omega) h
      obtain ⟨fss, hfss, htakes⟩ := takes_mapM hstep (fun n _ => rfl) hfilled hrun
      obtain rfl : (w₀.disk.names loc).map (fun n => (w₀.disk.belowName (projectWalk output) depth'
          chain path loc n).filter Found.isFile) = fss := by
        rw [← List.forall₂_eq_eq_eq]
        exact List.forall₂_map_left_iff.2 hfss
      rwa [List.filter_flatMap, List.flatMap]

/-- A copy does nothing under a name under which a walk lists nothing. -/
theorem copyName_of_nothing {n : String} {depth : Nat} {chain : Ignore.RuleChain}
    {enter : Ignore.RuleChain → Path → Location → Action Nat}
    (hnone : w.disk.belowName (projectWalk output) depth chain path loc n = []) :
    copyName project output outputDir enter chain path loc n w = (.ok 0, w) := by
  rcases hlookup : w.disk.lookup (loc ++ [n]) with _ | e
  · rw [copyName_of_none hlookup]
  by_cases hdirectory : e = .directory
  · subst hdirectory
    rw [Disk.belowName_of_directory hlookup, projectWalk_anywhere, projectWalk_skip] at hnone
    rw [copyName_of_directory hlookup]
    split_ifs at hnone ⊢
    rfl
  · rw [Disk.belowName_of_entry hlookup hdirectory, projectWalk_anywhere, projectWalk_skip]
      at hnone
    rw [copyName_of_entry hlookup hdirectory]
    split_ifs at hnone ⊢
    rfl

/-- A copy takes nothing if a walk lists nothing. -/
theorem takes_nothing {depth depth' : Nat} {chain : Ignore.RuleChain}
    (hnone : w.disk.below (projectWalk output) (depth' + 1) chain path loc = [])
    (h : copyBelow project output outputDir depth chain path loc w = (r, w')) :
    Takes project outputDir [] w r w' := by
  cases depth with
  | zero =>
    cases h
    exact .none w
  | succ depth =>
    rw [Disk.below_succ, List.flatMap_eq_nil_iff] at hnone
    rw [copyBelow, Effect.bind_of_ok (rfl : (get : Action World) w = (.ok w, w))] at h
    rcases hrun : (w.disk.names loc).mapM (copyName project output outputDir
      (copyBelow project output outputDir depth) chain path loc) w with ⟨rs, w₁⟩
    rw [Effect.bind_pure_apply, hrun] at h
    cases h
    have hstep : ∀ n ∈ w.disk.names loc, ∀ w₁ r w₂, w₁ = w →
        copyName project output outputDir (copyBelow project output outputDir depth) chain path
          loc n w₁ = (r, w₂) → w₂ = w ∧ ∃ fs, fs = [] ∧ Takes project outputDir fs w₁ r w₂ := by
      rintro n hn w₁ r w₂ rfl h
      rw [copyName_of_nothing (hnone n hn)] at h
      cases h
      exact ⟨rfl, [], rfl, .none w₁⟩
    obtain ⟨fss, hfss, htakes⟩ := takes_mapM hstep (fun n _ => rfl) rfl hrun
    have hflatten : fss.flatten = [] := by
      refine List.eq_nil_iff_forall_not_mem.2 fun f hf => ?_
      obtain ⟨n, -, fs, rfl, hf⟩ := exists_of_mem_flatten hfss hf
      cases hf
    rwa [hflatten] at htakes

end Listed

end Instrument

end Tracepoint
