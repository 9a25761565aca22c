import Tracepoint.Proofs.Instrument.CopyRun
import Tracepoint.Proofs.Model.Print

/-!
# Where a copy puts files

The path of a file that a walk has found leads where it was found, as long as nothing but
growing happens to the disk, and the path that it is copied to leads below the directory of the
copy, to the place of the same names. So a copy that has come to its end has put each file that
it took in its place, and has written nothing else.

Results:

* `Spelled.resolve`: the path of what was found leads to it.
* `content_copyEntry`: what copying one file does.
* `contents_of_copies`: what copying one file after the other comes to.
-/

namespace Tracepoint

namespace Disk

variable {d d' : Disk} {cwd loc l : Location} {path : Path} {f : Found} {n : String}
  {ns : List String}

/-! ## What was found -/

/-- What was found below a path that leads to a location: its names lead down to it from there. -/
structure Spelled (d : Disk) (path : Path) (loc : Location) (f : Found) (ns : List String) :
    Prop where
  ne_nil : ns ≠ []
  isName : ∀ n ∈ ns, Path.IsName n
  absolute : f.path.isAbsolute = path.isAbsolute
  components : f.path.components = path.components ++ ns.map .name
  names : f.path.names = path.names ++ ns
  location : f.location = loc ++ ns
  directories : ∀ init, init <+: ns → init ≠ [] → init ≠ ns →
    d.lookup (loc ++ init) = some .directory
  entry : d.lookup (loc ++ ns) = some f.entry

theorem Spelled.single (hn : Path.IsName n) {e : Entry} (h : d.lookup (loc ++ [n]) = some e) :
    Spelled d path loc ⟨path.join ⟨n⟩, loc ++ [n], e⟩ [n] where
  ne_nil := by simp
  isName := by simpa using hn
  absolute := Path.isAbsolute_join path hn.not_absolute
  components := path.components_join hn
  names := by rw [Path.names_join path hn.not_absolute, hn.names_eq]
  location := rfl
  directories := by
    intro init hinit hne hproper
    rcases List.prefix_concat_iff.1 (show init <+: [] ++ [n] from hinit) with heq | hinit
    · exact absurd heq hproper
    · exact absurd (List.prefix_nil.1 hinit) hne
  entry := h

theorem Spelled.cons (hn : Path.IsName n) (hdirectory : d.lookup (loc ++ [n]) = some .directory)
    (h : Spelled d (path.join ⟨n⟩) (loc ++ [n]) f ns) : Spelled d path loc f (n :: ns) where
  ne_nil := by simp
  isName := List.forall_mem_cons.2 ⟨hn, h.isName⟩
  absolute := h.absolute.trans (Path.isAbsolute_join path hn.not_absolute)
  components := by
    rw [h.components, path.components_join hn, List.append_assoc]
    rfl
  names := by
    rw [h.names, Path.names_join path hn.not_absolute, hn.names_eq, List.append_assoc]
    rfl
  location := by
    rw [h.location, List.append_assoc]
    rfl
  directories := by
    intro init hinit hne hproper
    obtain ⟨m, init, rfl⟩ := List.exists_cons_of_ne_nil hne
    obtain ⟨hm, hrest⟩ := List.cons_prefix_cons.1 hinit
    subst hm
    rw [List.append_cons]
    by_cases hnil : init = []
    · rwa [hnil, List.append_nil]
    · exact h.directories init hrest hnil fun heq => hproper (by rw [heq])
  entry := by
    rw [List.append_cons]
    exact h.entry

/-- What a walk lists is found below its start. -/
theorem exists_spelled_below (hd : d.WellFormed) (options : WalkOptions) (depth : Nat) :
    ∀ (chain : Ignore.RuleChain) (path : Path) (loc : Location),
      ∀ f ∈ d.below options depth chain path loc, ∃ ns, Spelled d path loc f ns := by
  induction depth with
  | zero => intro chain path loc f hf; cases hf
  | succ depth ih =>
    intro chain path loc f hf
    rw [below_succ] at hf
    obtain ⟨n, hn, hf⟩ := List.mem_flatMap.1 hf
    have hname := hd.isName hn
    rcases hlookup : d.lookup (loc ++ [n]) with _ | e
    · rw [belowName_of_none hlookup] at hf
      cases hf
    by_cases hdirectory : e = .directory
    · subst hdirectory
      rw [belowName_of_directory hlookup] at hf
      split_ifs at hf
      · cases hf
      rcases List.mem_cons.1 hf with rfl | hf
      · exact ⟨[n], .single hname hlookup⟩
      · obtain ⟨ns, hns⟩ := ih _ _ _ f hf
        exact ⟨n :: ns, hns.cons hname hlookup⟩
    · rw [belowName_of_entry hlookup hdirectory] at hf
      split_ifs at hf
      · cases hf
      · rw [List.mem_singleton.1 hf]
        exact ⟨[n], .single hname hlookup⟩

/-- The path of a file that was found leads to it, if it leads anywhere. -/
theorem Spelled.resolve (h : Spelled d path loc f ns) (hfile : f.isFile = true)
    (hpath : d.resolve cwd path true = .ok loc) (hdirectory : d.lookup loc = some .directory)
    (hg : Grown d d') (hl : d'.resolve cwd f.path true = .ok l) : l = f.location := by
  have hstart := leads_steps_iff.1 ⟨(resolve_eq_ok.1 hpath).2.2, hdirectory⟩
  have hleads : Leads d' maxLinks (path.start cwd) (path.names ++ ns) l := by
    have hsteps := (resolve_eq_ok.1 hl).2.2
    rw [Path.steps_eq, Path.start, h.absolute, h.names] at hsteps
    by_cases hslash : Text.endsWith ['/'] f.path.text.toList = true
    · rw [if_pos hslash] at hsteps
      exact (leads_dot_iff.1 hsteps).1
    · rwa [if_neg hslash, List.append_nil] at hsteps
  obtain ⟨mid, links, -, hmid, hlast⟩ := hleads.split h.ne_nil
  obtain rfl := hmid.unique (hstart.grown hg)
  rw [h.location]
  refine hlast.eq_append (fun n hn => ⟨(h.isName n hn).ne_here, (h.isName n hn).ne_up⟩)
    fun init hinit hne target hlink => ?_
  have hlink := hg.link.2 hlink
  by_cases hproper : init = ns
  · rw [hproper, h.entry, Option.some.injEq] at hlink
    rw [Found.isFile, hlink] at hfile
    cases hfile
  · rw [h.directories init hinit hne hproper] at hlink
    cases hlink

end Disk

/-! ## What a copy has put where -/

namespace Instrument

open Effect (Keeps)

variable {project output outputDir : Path} {home : Location} {w w' w₁ : World} {f : Found}
  {ns : List String} {fs : List Found}

/-- A file whose path leads to it: its names below a project, and its content. -/
structure CopySource (project : Path) (home : Location) (w : World) (f : Found) (ns : List String)
    (content : ByteArray) : Prop where
  file : f.isFile = true
  components : f.path.components = project.components ++ ns.map .name
  content : w.disk.contentAt f.location = some content
  away : ¬ home <+: f.location
  leads : ∀ d', Disk.Grown w.disk d' → ∀ l, d'.resolve w.cwd f.path true = .ok l → l = f.location

/-- Copying a file puts its content in its place, and nothing else anywhere. -/
theorem content_copyEntry (hproject : project.isAbsolute = true)
    (hhome : w.disk.Home w.cwd outputDir home) {content : ByteArray}
    (hf : CopySource project home w f ns content)
    (h : copyEntry project outputDir f w = (.ok true, w')) (loc : Location) :
    w'.disk.contentAt loc = if loc = home ++ ns then some content else w.disk.contentAt loc := by
  obtain ⟨rest, hrest, hinside⟩ := Path.inside_relativeTo hproject ⟨ns, hf.components⟩
  have hunder := Path.Under.join outputDir hinside
  rw [Path.names_relativeTo hproject hf.components hrest] at hunder
  obtain ⟨-, w₁, hmake, hcopy⟩ := copyEntry_eq_ok hf.file hrest h
  -- creating directories changes no content
  obtain ⟨hcwd, hwrote⟩ := (Keeps.makeParent (Q := fun _ _ => False)
    (outputDir.join rest)).of_eq hmake hhome.sound
  have hmade : ∀ loc, w₁.disk.contentAt loc = w.disk.contentAt loc := by
    intro loc
    rcases hwrote.content loc with hsame | ⟨p, content, hp, -⟩
    · exact hsame
    · exact hp.elim
  have hhome₁ := ((Keeps.makeParent_fills hunder).of_eq hmake hhome).home
  obtain ⟨d, hd, rfl⟩ := Action.changeDisk_eq_ok.1 hcopy
  obtain ⟨origin, l, content', horigin, hcontent', hslash, hl, hfree, rfl⟩ := Disk.copy_eq_ok.1 hd
  obtain ⟨hne, rfl⟩ := hhome₁.below_of_resolve hunder hslash hl hfree
  rw [hcwd] at horigin
  obtain rfl := hf.leads _ hwrote.grown _ horigin
  rw [hmade, hf.content] at hcontent'
  cases hcontent'
  have hdiffer : f.location ≠ home ++ ns := fun heq => hf.away (heq ▸ List.prefix_append ..)
  show (Disk.putCopy _ _ _ _).contentAt loc = _
  split_ifs with hloc
  · rw [hloc, Disk.contentAt_eq_some, Disk.lookup_putCopy_self _ (by simp [hne]), Disk.copied,
      if_neg hdiffer]
  · rw [Disk.contentAt_of_lookup_eq (Disk.lookup_putCopy_of_ne _ hloc _), hmade]

/-- What was a source before things were put below the directory still is one. -/
theorem CopySource.filled {content : ByteArray} (hf : CopySource project home w f ns content)
    (h : World.FilledTo outputDir home w w') : CopySource project home w' f ns content where
  file := hf.file
  components := hf.components
  content := by
    rw [← hf.content]
    refine Disk.contentAt_of_lookup_eq ?_
    by_contra hne
    obtain ⟨rel, -, heq⟩ := h.filled.below_of_lookup_ne hne
    exact hf.away (heq ▸ List.prefix_append ..)
  away := hf.away
  leads := by
    intro d' hg l hl
    rw [h.cwd] at hl
    exact hf.leads d' (h.grown.trans hg) l hl

/-- A file has one place. -/
theorem CopySource.unique {ms : List String} {content content' : ByteArray}
    (h : CopySource project home w f ns content) (h' : CopySource project home w f ms content') :
    ms = ns ∧ content' = content := by
  have hnames := h'.components.symm.trans h.components
  have hcontent := h'.content.symm.trans h.content
  rw [List.append_cancel_left_eq] at hnames
  exact ⟨List.map_injective_iff.2 (fun _ _ => Path.Component.name.inj) hnames,
    Option.some.inj hcontent⟩

/-- Files that were copied one after the other are in their places, and nothing else has been
    written. -/
theorem contents_of_copies {r : Except Error Unit} (hproject : project.isAbsolute = true)
    (h : Copies project outputDir fs w r w') (hok : r = .ok ())
    (hhome : w.disk.Home w.cwd outputDir home)
    (hfs : ∀ f ∈ fs, ∃ ns content, CopySource project home w f ns content)
    (hdistinct : fs.Pairwise fun f g => f.path.components ≠ g.path.components) :
    (∀ f ∈ fs, ∀ ns content, CopySource project home w f ns content →
      w'.disk.contentAt (home ++ ns) = some content) ∧
    ∀ loc, w'.disk.contentAt loc ≠ w.disk.contentAt loc → ∃ f ∈ fs, ∃ ns content,
      CopySource project home w f ns content ∧ loc = home ++ ns := by
  induction h with
  | nil w lines => exact ⟨by simp, fun loc hne => absurd rfl hne⟩
  | stop => cases hok
  | @cons f fs w w₁ w₂ r lines hcopy h ih =>
    obtain ⟨hf, hrest⟩ := List.forall_mem_cons.1 hfs
    obtain ⟨hother, hdistinct⟩ := List.pairwise_cons.1 hdistinct
    obtain ⟨ns, content, hsource⟩ := hf
    have hhome' : (w.logged lines).disk.Home (w.logged lines).cwd outputDir home := hhome
    have hsource' : CopySource project home (w.logged lines) f ns content :=
      ⟨hsource.file, hsource.components, hsource.content, hsource.away, hsource.leads⟩
    have hcontent := content_copyEntry hproject hhome' hsource' hcopy
    have hfilled : World.FilledTo outputDir home w w₁ := by
      have hfills := (fills_copyEntry hproject ⟨ns, hsource.components⟩).of_eq hcopy hhome'
      exact ⟨hfills.cwd, hfills.filled, hfills.grown, hfills.home⟩
    obtain ⟨hplaced, hchanged⟩ := ih hok hfilled.home (fun g hg => by
      obtain ⟨ms, content', hg⟩ := hrest g hg
      exact ⟨ms, content', hg.filled hfilled⟩) hdistinct
    -- what comes after it is put in other places
    have hkept : w₂.disk.contentAt (home ++ ns) = w₁.disk.contentAt (home ++ ns) := by
      by_contra hne
      obtain ⟨g, hg, ms, content', hms, heq⟩ := hchanged _ hne
      rw [List.append_cancel_left_eq] at heq
      exact hother g hg (by rw [hsource.components, hms.components, heq])
    constructor
    · intro g hg ms content' hms
      rcases List.mem_cons.1 hg with rfl | hg
      · obtain ⟨rfl, rfl⟩ := hsource.unique hms
        rw [hkept, hcontent, if_pos rfl]
      · exact hplaced g hg ms content' (hms.filled hfilled)
    · intro loc hne
      by_cases hloc : loc = home ++ ns
      · exact ⟨f, List.mem_cons_self, ns, content, hsource, hloc⟩
      · have hsame : w₁.disk.contentAt loc = w.disk.contentAt loc := by
          rw [hcontent, if_neg hloc]
          rfl
        rw [← hsame] at hne
        obtain ⟨g, hg, ms, content', hms, rfl⟩ := hchanged loc hne
        obtain ⟨ms', content'', hg'⟩ := hrest g hg
        obtain ⟨rfl, rfl⟩ := hms.unique (hg'.filled hfilled)
        exact ⟨g, List.mem_cons_of_mem _ hg, _, _, hg', rfl⟩

end Instrument

end Tracepoint
