import Tracepoint.Proofs.Disk.Repeat
import Tracepoint.Proofs.Instrument.Containment
import Tracepoint.Proofs.Spelling

/-!
# Filling a directory

A copy puts files and directories below one directory and nothing anywhere else. So what is
not below that directory is the same at every time of the copy: entries, the names in
directories, and the rules of ignore files, as long as these do not lie in it.

Results:

* `Filled.lookup`, `Filled.names`: what is not below the directory stays as it is.
* `filled_makeHome`, `filled_copy`: creating directories and copying a file.
* `Filled.walk_eq`: what a walk lists that does not come to the directory.
* `fills_copyEntry`: copying a file of a project.
-/

namespace Tracepoint

namespace Disk

/-! ## Filling -/

/-- A disk with entries put below a location. -/
inductive Filled (home : Location) : Disk → Disk → Prop
  | refl (d : Disk) : Filled home d d
  | put {d d' : Disk} (h : Filled home d d') {rel : Location} (hrel : rel ≠ []) (e : Entry) :
      Filled home d (d'.put (home ++ rel) e)

namespace Filled

variable {home loc : Location} {d d' d'' : Disk}

theorem trans (h : Filled home d d') (h' : Filled home d' d'') : Filled home d d'' := by
  induction h' with
  | refl => exact h
  | put _ hrel e ih => exact .put ih hrel e

/-- An entry that has changed is a new one below the directory. -/
theorem below_of_lookup_ne (h : Filled home d d') (hloc : d'.lookup loc ≠ d.lookup loc) :
    ∃ rel, rel ≠ [] ∧ loc = home ++ rel := by
  induction h with
  | refl => exact absurd rfl hloc
  | @put d' _ rel hrel e ih =>
    by_cases heq : loc = home ++ rel
    · exact ⟨rel, hrel, heq⟩
    · rw [lookup_put_of_ne d' heq] at hloc
      exact ih hloc

/-- In a directory that is not below it, each name has the entry that it had. -/
theorem lookup (h : Filled home d d') (hloc : ¬ home <+: loc) (n : String) :
    d'.lookup (loc ++ [n]) = d.lookup (loc ++ [n]) := by
  by_contra hne
  obtain ⟨rel, hrel, heq⟩ := h.below_of_lookup_ne hne
  have hbelow : home <+: loc ++ [n] := heq ▸ List.prefix_append home rel
  rcases List.prefix_concat_iff.1 hbelow with hself | hloc'
  · rw [hself] at heq
    exact hrel (by simpa using heq)
  · exact hloc hloc'

theorem filterMap_putIn {loc l : Location} (h : nameIn? loc l = none) (e : Entry)
    (es : List (Location × Entry)) :
    (putIn l e es).filterMap (fun x => nameIn? loc x.1) =
      es.filterMap fun x => nameIn? loc x.1 := by
  induction es with
  | nil => simp [putIn, h]
  | cons x es ih =>
    obtain ⟨l', y⟩ := x
    rw [putIn]
    split_ifs with hl
    · rw [List.filterMap_cons, List.filterMap_cons]
    · rw [List.filterMap_cons, List.filterMap_cons, ih]

/-- A directory that is not below it has the names that it had. -/
theorem names (h : Filled home d d') (hloc : ¬ home <+: loc) : d'.names loc = d.names loc := by
  induction h with
  | refl => rfl
  | @put d' _ rel hrel e ih =>
    rw [← ih]
    have hnone : nameIn? loc (home ++ rel) = none := by
      rcases hname : nameIn? loc (home ++ rel) with _ | n
      · rfl
      · -- the new entry would have to lie in the directory itself
        have heq := nameIn?_eq_some hname
        have hdrop := congrArg List.dropLast heq
        rw [List.dropLast_append_of_ne_nil hrel, List.dropLast_concat] at hdrop
        exact absurd (hdrop ▸ List.prefix_append home _) hloc
    exact congrArg (List.foldr placeName []) (filterMap_putIn hnone e d'.entries)

theorem exists_mem_putIn (l : Location) (e : Entry) {es : List (Location × Entry)}
    {x : Location × Entry} (hx : x ∈ es) : ∃ y ∈ putIn l e es, y.1 = x.1 := by
  induction es with
  | nil => cases hx
  | cons y es ih =>
    obtain ⟨l', z⟩ := y
    rw [putIn]
    rcases List.mem_cons.1 hx with rfl | hx
    · split_ifs with hl
      · exact ⟨(l', e), List.mem_cons_self, rfl⟩
      · exact ⟨(l', z), List.mem_cons_self, rfl⟩
    · split_ifs with hl
      · exact ⟨x, List.mem_cons_of_mem _ hx, rfl⟩
      · obtain ⟨y, hy, heq⟩ := ih hx
        exact ⟨y, List.mem_cons_of_mem _ hy, heq⟩

/-- Locations that have an entry keep one. -/
theorem exists_entry (h : Filled home d d') {x : Location × Entry} (hx : x ∈ d.entries) :
    ∃ y ∈ d'.entries, y.1 = x.1 := by
  induction h with
  | refl => exact ⟨x, hx, rfl⟩
  | put _ hrel e ih =>
    obtain ⟨y, hy, heq⟩ := ih
    obtain ⟨z, hz, heq'⟩ := exists_mem_putIn _ e hy
    exact ⟨z, hz, heq'.trans heq⟩

end Filled

/-! ## Paths below a directory -/

end Disk

/-- A path is written as another one with names after it that lead nowhere up. Points do not
    count. -/
structure Path.Under (out p : Path) (rest : List String) : Prop where
  absolute : p.isAbsolute = out.isAbsolute
  names : p.names.filter (· ≠ ".") = out.names.filter (· ≠ ".") ++ rest
  up : ".." ∉ rest

namespace Path.Under

variable {out p q : Path} {rest : List String}

theorem join (out : Path) {r : Path} (hr : r.Inside) :
    out.Under (out.join r) (r.names.filter (· ≠ ".")) where
  absolute := isAbsolute_join out hr.relative
  names := by rw [names_join out hr.relative, List.filter_append]
  up := fun h => hr.up (List.mem_filter.1 h).1

/-- The last name is one of the names below, unless there are none. -/
theorem split (h : out.Under p rest) {ns : List String} {n : String} (hp : p.names = ns ++ [n])
    (hn : n ≠ ".") (hrest : rest ≠ []) :
    ∃ init, rest = init ++ [n] ∧
      ns.filter (· ≠ ".") = out.names.filter (· ≠ ".") ++ init := by
  have hnames := h.names
  rw [hp, List.filter_append, List.filter_cons_of_pos (by simpa using hn), List.filter_nil,
    ← List.dropLast_append_getLast hrest, ← List.append_assoc] at hnames
  have hlast := List.append_inj_right' hnames rfl
  exact ⟨rest.dropLast, by rw [hlast, List.dropLast_append_getLast],
    List.append_inj_left' hnames rfl⟩

/-- So is the directory that holds the path, unless it holds the other one too. -/
theorem parent (h : out.Under p rest) {before after : List String} {last : String}
    (hq : q.Holds p before last after) (hrest : rest ≠ []) : out.Under q rest.dropLast := by
  have hpoints : ∀ {xs : List String}, (∀ n ∈ xs, n = ".") → xs.filter (· ≠ ".") = [] := by
    intro xs hxs
    exact List.filter_eq_nil_iff.2 fun n hn => by simp [hxs n hn]
  have hnames := h.names
  rw [hq.names, List.filter_append, List.filter_append, hpoints hq.before, List.append_nil,
    List.filter_cons_of_pos (by simpa using hq.last), hpoints hq.after,
    ← List.dropLast_append_getLast hrest, ← List.append_assoc] at hnames
  exact ⟨hq.absolute.trans h.absolute, List.append_inj_left' hnames rfl,
    fun hup => h.up (List.dropLast_subset rest hup)⟩

end Path.Under

namespace Disk

section Operations

variable {d d' : Disk} {cwd home loc l : Location} {out p q : Path} {rest ns : List String}
  {links : Nat} {n : String}

theorem leads_points_after_iff (xs : List String) :
    Leads d links loc (xs ++ ns ++ ["."]) l ↔
      Leads d links loc (xs ++ ns.filter (· ≠ ".") ++ ["."]) l := by
  induction ns generalizing xs with
  | nil => rfl
  | cons n ns ih =>
    rw [List.append_cons xs n ns]
    by_cases hn : n = "."
    · subst hn
      rw [List.filter_cons_of_neg (by simp), ← ih, List.append_assoc (xs ++ ["."]),
        leads_dots_iff (by simp) (by simp), List.append_assoc]
    · rw [List.filter_cons_of_pos (by simpa using hn), ih, ← List.append_cons]

/-- Points on the way to a directory do not count. -/
theorem leads_points_iff :
    Leads d links loc (ns ++ ["."]) l ↔ Leads d links loc (ns.filter (· ≠ ".") ++ ["."]) l :=
  leads_points_after_iff []

/-- A path leads to a directory below which there are no links. -/
structure Home (d : Disk) (cwd : Location) (out : Path) (home : Location) : Prop where
  sound : d.Sound cwd
  zero : out.text.toList.contains '\x00' = false
  leads : Leads d maxLinks (out.start cwd) (out.names ++ ["."]) home
  links : ∀ loc target, home <+: loc → d.lookup loc ≠ some (.link target)

namespace Home

theorem grown (h : Home d cwd out home) (hsound : d'.Sound cwd) (hg : Grown d d') :
    Home d' cwd out home :=
  ⟨hsound, h.zero, h.leads.grown hg, fun loc target hloc he => h.links loc target hloc (hg.link.2 he)⟩

/-- Names that lead into the directory lead down in it. -/
theorem below (h : Home d cwd out home) (hp : p.isAbsolute = out.isAbsolute)
    (hns : ns.filter (· ≠ ".") = out.names.filter (· ≠ ".") ++ rest) (hup : ".." ∉ rest)
    (hl : Leads d maxLinks (p.start cwd) (ns ++ ["."]) l) : l = home ++ rest := by
  have hstart : p.start cwd = out.start cwd := by rw [Path.start, hp, Path.start]
  have hhome := leads_points_iff.1 h.leads
  rw [leads_points_iff, hns, hstart, List.append_assoc] at hl
  obtain ⟨mid, links', -, hmid, hrest⟩ := hl.split (by simp)
  obtain rfl := hmid.unique hhome
  refine (leads_dot_iff.1 hrest).1.eq_append (fun n hn => ⟨?_, fun heq => hup (heq ▸ hn)⟩)
    fun init _ _ target => h.links _ target (List.prefix_append ..)
  have hfilter : n ∈ ns.filter (· ≠ ".") := hns ▸ List.mem_append_right _ hn
  simpa using (List.mem_filter.1 hfilter).2

/-- Names that lead to the directory itself. -/
theorem self (h : Home d cwd out home) (hu : out.Under p []) :
    Leads d maxLinks (p.start cwd) (p.names ++ ["."]) home := by
  have hstart : p.start cwd = out.start cwd := by rw [Path.start, hu.absolute, Path.start]
  rw [leads_points_iff, hu.names, List.append_nil, hstart]
  exact leads_points_iff.1 h.leads

/-- What holds a path below the directory is a directory that exists, or is below it as well. -/
theorem parent (h : Home d cwd out home) (hu : out.Under p rest) (hparent : p.parent? = some q) :
    (∀ depth, d.makeDirectoriesUpTo cwd (depth + 1) q = .ok d) ∨ out.Under q rest.dropLast := by
  cases hempty : q.isEmpty with
  | true => exact .inl fun depth => by rw [makeDirectoriesUpTo, hempty, if_pos rfl]
  | false =>
    rcases Path.holds_of_parent hparent with ⟨hq, -⟩ | ⟨before, last, after, hholds⟩
    · rw [hq] at hempty
      cases hempty
    by_cases hrest : rest = []
    · subst hrest
      have hzero : p.text.toList.contains '\x00' = false := by
        have hout := h.zero
        rw [List.contains_eq_mem, decide_eq_false_iff_not, Path.mem_toList_iff (by decide)]
          at hout ⊢
        rintro ⟨n, hn, hmem⟩
        by_cases hpoint : n = "."
        · subst hpoint
          revert hmem
          decide
        · have hin : n ∈ p.names.filter (· ≠ ".") := List.mem_filter.2 ⟨hn, by simpa using hpoint⟩
          rw [hu.names, List.append_nil] at hin
          exact hout ⟨n, (List.mem_filter.1 hin).1, hmem⟩
      have hdirectory := isDirectory_of_holds hholds hzero (h.self hu) hempty
      refine .inl fun depth => ?_
      rw [makeDirectoriesUpTo, hempty, makeDirectory_of_isDirectory hdirectory]
      simp [hdirectory]
    · exact .inr (hu.parent hholds hrest)

end Home

theorem filled_makeDirectory (h : Home d cwd out home) (hu : out.Under p rest)
    (hm : d.makeDirectory cwd p = .ok d') : Filled home d d' := by
  obtain ⟨hempty, hzero, ns, n, above, hnames, hn, hleads, hnone, rfl⟩ := makeDirectory_eq_ok.1 hm
  by_cases hrest : rest = []
  · -- the directory itself exists
    subst hrest
    have hdirectory := isDirectory_iff.2 ⟨hempty, hzero, home, h.self hu⟩
    rw [makeDirectory_of_isDirectory hdirectory] at hm
    cases hm
  · obtain ⟨init, rfl, hinit⟩ := hu.split hnames hn.ne_here hrest
    have hup : ".." ∉ init := fun hin => hu.up (List.mem_append_left _ hin)
    obtain rfl := h.below hu.absolute hinit hup hleads
    rw [List.append_assoc]
    exact .put (.refl d) (by simp) .directory

theorem filled_makeDirectoriesUpTo (h : Home d cwd out home) (depth : Nat) :
    ∀ {p rest d'}, out.Under p rest → d.makeDirectoriesUpTo cwd depth p = .ok d' →
      Filled home d d' := by
  induction depth with
  | zero => intro p rest d' _ hm; cases hm
  | succ depth ih =>
    intro p rest d' hu hm
    rw [makeDirectoriesUpTo] at hm
    split at hm
    · cases hm
      exact .refl d
    rename_i hempty
    split at hm
    · rename_i hp
      cases hm
      exact filled_makeDirectory h hu hp
    · rename_i hp
      split at hm
      · cases hm
      rename_i above hparent
      split at hm
      · cases hm
      rename_i d₁ habove
      have hfilled : Filled home d d₁ := by
        rcases h.parent hu hparent with hmade | hu'
        · cases depth with
          | zero => cases habove
          | succ depth =>
            rw [hmade depth] at habove
            cases habove
            exact .refl d
        · exact ih hu' habove
      have hwrote := wrote_makeDirectoriesUpTo (Q := fun _ _ => True) h.sound depth habove
      have hhome := h.grown hwrote.sound hwrote.grown
      split at hm
      · rename_i hp'
        cases hm
        exact hfilled.trans (filled_makeDirectory hhome hu hp')
      · split_ifs at hm
        cases hm
        exact hfilled
    · split_ifs at hm
      cases hm
      exact .refl d

/-- Creating the directory that holds a path below the directory. -/
theorem filled_makeHome (h : Home d cwd out home) (hu : out.Under p rest)
    (hm : d.makeHome cwd p = .ok d') : Filled home d d' := by
  unfold makeHome at hm
  split at hm
  · rename_i q hparent
    rcases h.parent hu hparent with hmade | hu'
    · rw [makeDirectories, hmade] at hm
      cases hm
      exact .refl d
    · exact filled_makeDirectoriesUpTo h _ hu' hm
  · cases hm
    exact .refl d

/-- A file that a path below the directory leads to lies below it, where the path says. -/
theorem Home.below_of_resolve (h : Home d cwd out home) (hu : out.Under p rest)
    (hslash : Text.endsWith ['/'] p.text.toList = false) (hl : d.resolve cwd p true = .ok l)
    (hfree : d.lookup l ≠ some .directory) : rest ≠ [] ∧ l = home ++ rest := by
  obtain ⟨-, -, hleads⟩ := resolve_eq_ok.1 hl
  rw [Path.steps_eq, hslash, if_neg Bool.false_ne_true, List.append_nil] at hleads
  have hnot : ¬ Leads d maxLinks (p.start cwd) (p.names ++ ["."]) l :=
    fun hdot => hfree (leads_dot_iff.1 hdot).2
  have hrest : rest ≠ [] := by
    rintro rfl
    have hself := h.self hu
    exact hnot (hleads.unique (leads_dot_iff.1 hself).1 ▸ hself)
  refine ⟨hrest, ?_⟩
  rcases List.eq_nil_or_concat p.names with hnil | ⟨ns, n, hnames⟩
  · have hnames := hu.names
    rw [hnil, List.filter_nil, eq_comm, List.append_eq_nil_iff] at hnames
    exact absurd hnames.2 hrest
  rw [List.concat_eq_append] at hnames
  rw [hnames] at hleads
  have hn : n ≠ "." := by
    rintro rfl
    exact hfree (leads_dot_iff.1 hleads).2
  obtain ⟨init, rfl, hinit⟩ := hu.split hnames hn hrest
  obtain ⟨mid, links', -, hmid, hlast⟩ := hleads.split (by simp)
  have hup : ".." ∉ init ∧ ".." ≠ n := by simpa using hu.up
  obtain rfl := h.below hu.absolute hinit hup.1 hmid
  rw [← List.append_assoc]
  refine hlast.eq_append (by simpa using ⟨hn, Ne.symm hup.2⟩) fun rel _ _ target => ?_
  rw [List.append_assoc]
  exact h.links _ target (List.prefix_append ..)

theorem filled_copy {source : Path} (h : Home d cwd out home) (hu : out.Under p rest)
    (hc : d.copy cwd source p = .ok d') : Filled home d d' := by
  obtain ⟨origin, l, content, -, -, hslash, hl, hfree, rfl⟩ := copy_eq_ok.1 hc
  obtain ⟨hrel, rfl⟩ := h.below_of_resolve hu hslash hl hfree
  unfold putCopy
  split_ifs
  · exact .put (.refl d) hrel _
  · exact .put (.put (.refl d) hrel _) hrel _

end Operations

/-! ## Ignore files -/

section Rules

variable {d d' : Disk} {home loc : Location}

/-- Names without points and links lead the same way on disks that are the same there. -/
theorem walk_congr {links : Nat} {ns : List String} (hns : ∀ n ∈ ns, n ≠ "." ∧ n ≠ "..")
    (hlinks : ∀ init, init <+: ns → init ≠ [] → ∀ target,
      d.lookup (loc ++ init) ≠ some (.link target))
    (hsame : ∀ init, init <+: ns → d'.lookup (loc ++ init) = d.lookup (loc ++ init)) :
    d'.walk true links loc ns = d.walk true links loc ns := by
  induction ns generalizing loc with
  | nil => rw [walk_nil, walk_nil]
  | cons n ns ih =>
    obtain ⟨⟨hhere, hup⟩, hns⟩ := List.forall_mem_cons.1 hns
    have hloc : d'.lookup loc = d.lookup loc := by simpa using hsame [] List.nil_prefix
    have hstep : d'.lookup (loc ++ [n]) = d.lookup (loc ++ [n]) := hsame [n] (by simp)
    have hdeeper : ∀ init : List String, loc ++ n :: init = loc ++ [n] ++ init := by simp
    rcases hentry : d.lookup loc with _ | (content | _ | target)
    · rw [walk_of_none hentry, walk_of_none (hloc.trans hentry)]
    · rw [walk_eq, walk_eq, walkNames, walkNames, hloc, hentry]
    · have hentry' := hloc.trans hentry
      by_cases hlong : n.utf8ByteSize > 255
      · rw [walk_long hentry hhere hup hlong, walk_long hentry' hhere hup hlong]
      have hn : IsStep n := ⟨hhere, hup, Nat.not_lt.1 hlong⟩
      rcases hnext : d.lookup (loc ++ [n]) with _ | e
      · rw [walk_fresh hentry hn hnext, walk_fresh hentry' hn (hstep.trans hnext)]
      · have hlink : ∀ target, e ≠ .link target := by
          rintro target rfl
          exact hlinks [n] (by simp) (by simp) target hnext
        rw [walk_down hentry hn hnext hlink, walk_down hentry' hn (hstep.trans hnext) hlink]
        refine ih hns (fun init hinit _ target => ?_) fun init hinit => ?_
        · rw [← hdeeper]
          exact hlinks (n :: init) (by simpa using hinit) (by simp) target
        · rw [← hdeeper]
          exact hsame (n :: init) (by simpa using hinit)
    · rw [walk_eq, walk_eq, walkNames, walkNames, hloc, hentry]

/-- A relative path without points and links leads to the same entry on disks that are the same
    there. -/
theorem entryAt_congr {r : Path} (hrelative : r.isAbsolute = false)
    (hns : ∀ n ∈ steps r, n ≠ "." ∧ n ≠ "..")
    (hlinks : ∀ init, init <+: steps r → init ≠ [] → ∀ target,
      d.lookup (loc ++ init) ≠ some (.link target))
    (hsame : ∀ init, init <+: steps r → d'.lookup (loc ++ init) = d.lookup (loc ++ init)) :
    d'.entryAt loc r = d.entryAt loc r := by
  have hwalk : d'.walk true maxLinks loc (steps r) = d.walk true maxLinks loc (steps r) :=
    walk_congr hns hlinks hsame
  have hresolve : d'.resolve loc r true = d.resolve loc r true := by
    unfold resolve
    rw [hrelative, if_neg Bool.false_ne_true, hwalk]
  unfold entryAt
  rw [hresolve]
  rcases hl : d.resolve loc r true with fault | l
  · rfl
  · obtain ⟨-, -, hleads⟩ := resolve_eq_ok.1 hl
    rw [Path.start, hrelative, if_neg Bool.false_ne_true] at hleads
    obtain rfl := hleads.eq_append hns hlinks
    simp only [bind, Except.bind, hsame _ List.prefix_rfl]

/-- Ignore files stand where they are looked for: they are no links, and they are not in a
    directory of version control that is above the given one. -/
structure RulesInPlace (d : Disk) (home : Location) : Prop where
  apart : ".git" ∉ home
  links : ∀ loc target, d.lookup loc = some (.link target) →
    ".git" ∉ loc ∧ loc.getLast? ≠ some ".ignore" ∧ loc.getLast? ≠ some ".gitignore"

/-- What the rules of a directory are read from. -/
def ruleFiles : List Path := [⟨".ignore"⟩, ⟨".gitignore"⟩, ⟨".git/info/exclude"⟩, ⟨".git"⟩]

theorem ruleFiles_names {r : Path} (hr : r ∈ ruleFiles) {init : List String}
    (hinit : init <+: steps r) (hne : init ≠ []) :
    ".git" ∈ init ∨ init = [".ignore"] ∨ init = [".gitignore"] := by
  have hall : ∀ r ∈ ruleFiles, ∀ init ∈ (steps r).inits, init ≠ [] →
      ".git" ∈ init ∨ init = [".ignore"] ∨ init = [".gitignore"] := by decide +kernel
  exact hall r hr init ((List.mem_inits _ _).2 hinit) hne

/-- Only `.git` holds further names. -/
theorem ruleFiles_front {r : Path} (hr : r ∈ ruleFiles) {front rel : List String}
    (hinit : front ++ rel <+: steps r) (hne : front ≠ []) (hrel : rel ≠ []) : ".git" ∈ front := by
  have hall : ∀ r ∈ ruleFiles, ∀ front ∈ (steps r).inits, front ≠ [] → front ≠ steps r →
      ".git" ∈ front := by decide +kernel
  have hfront := (List.prefix_append front rel).trans hinit
  refine hall r hr front ((List.mem_inits _ _).2 hfront) hne fun heq => hrel ?_
  have hlength := hinit.length_le
  rw [← heq, List.length_append] at hlength
  exact List.length_eq_zero_iff.1 (by omega)

/-- What is asked for rules in a directory that is not below the given one. -/
theorem Filled.entryAt_rules (h : Filled home d d') (hrules : RulesInPlace d home)
    (hloc : ¬ home <+: loc) {r : Path} (hr : r ∈ ruleFiles) :
    d'.entryAt loc r = d.entryAt loc r := by
  have hrelative : ∀ r ∈ ruleFiles, r.isAbsolute = false := by decide +kernel
  have hpoints : ∀ r ∈ ruleFiles, ∀ n ∈ steps r, n ≠ "." ∧ n ≠ ".." := by decide +kernel
  refine entryAt_congr (hrelative r hr) (hpoints r hr) (fun init hinit hne target hlink => ?_)
    fun init hinit => ?_
  · obtain ⟨hgit, hignore, hgitignore⟩ := hrules.links _ target hlink
    rcases ruleFiles_names hr hinit hne with hin | rfl | rfl
    · exact hgit (List.mem_append_right loc hin)
    · exact hignore (List.getLast?_concat ..)
    · exact hgitignore (List.getLast?_concat ..)
  · by_contra hchanged
    obtain ⟨rel, hrel, heq⟩ := h.below_of_lookup_ne hchanged
    have hbelow : home <+: loc ++ init := heq ▸ List.prefix_append home rel
    rcases Path.prefix_append_iff_cases.1 hbelow with hself | ⟨front, rfl, hfront⟩
    · exact hloc hself
    -- the directory itself would be on the way
    have hne : front ≠ [] := by
      rintro rfl
      exact hloc (by rw [List.append_nil])
    rw [List.append_assoc, List.append_cancel_left_eq] at heq
    subst heq
    exact hrules.apart (List.mem_append_right loc (ruleFiles_front hr hinit hne hrel))

theorem Filled.ofDirectory (h : Filled home d d') (hrules : RulesInPlace d home)
    (hloc : ¬ home <+: loc) :
    Ignore.DirectoryRules.ofDirectory d' loc = Ignore.DirectoryRules.ofDirectory d loc := by
  have hentry : ∀ r ∈ ruleFiles, d'.entryAt loc r = d.entryAt loc r :=
    fun r hr => h.entryAt_rules hrules hloc hr
  have hread : ∀ r ∈ ruleFiles, d'.read loc r = d.read loc r := by
    intro r hr
    unfold read
    rw [hentry r hr]
  unfold Ignore.DirectoryRules.ofDirectory
  dsimp only
  rw [hread ⟨".ignore"⟩ (by simp [ruleFiles]), hread ⟨".gitignore"⟩ (by simp [ruleFiles]),
    hread ⟨".git/info/exclude"⟩ (by simp [ruleFiles]), hentry ⟨".git"⟩ (by simp [ruleFiles])]

theorem Filled.ruleChain (h : Filled home d d') (hrules : RulesInPlace d home)
    (hloc : ¬ home <+: loc) :
    Ignore.RuleChain.ofDirectory d' loc = Ignore.RuleChain.ofDirectory d loc := by
  unfold Ignore.RuleChain.ofDirectory
  congr 1
  refine List.map_congr_left fun n _ => h.ofDirectory hrules fun hn => hloc ?_
  exact hn.trans (List.take_prefix n loc)

end Rules

/-! ## Walks -/

section Walks

variable {d d' : Disk} {cwd home loc : Location} {options : WalkOptions} {path : Path}
  {chain : Ignore.RuleChain}

theorem exists_entry_of_mem_names {n : String} (hn : n ∈ d.names loc) :
    ∃ x ∈ d.entries, x.1 = loc ++ [n] := by
  rw [(names_perm d loc).mem_iff] at hn
  obtain ⟨l, hl, hname⟩ := List.mem_filterMap.1 hn
  obtain ⟨x, hx, rfl⟩ := List.mem_map.1 hl
  exact ⟨x, hx, nameIn?_eq_some hname⟩

theorem names_of_deep (h : ∀ x ∈ d.entries, x.1.length < loc.length + 0) : d.names loc = [] := by
  refine List.eq_nil_iff_forall_not_mem.2 fun name hname => ?_
  obtain ⟨x, hx, heq⟩ := exists_entry_of_mem_names hname
  have hlength := h x hx
  rw [heq, List.length_append] at hlength
  omega

/-- A walk that may go deeper than there are entries lists the same, however deep it may go. -/
theorem below_of_deep (n : Nat) : ∀ (m : Nat) (chain : Ignore.RuleChain) (path : Path)
    (loc : Location), (∀ x ∈ d.entries, x.1.length < loc.length + n) →
    (∀ x ∈ d.entries, x.1.length < loc.length + m) →
      d.below options n chain path loc = d.below options m chain path loc := by
  induction n with
  | zero =>
    intro m chain path loc hdeep _
    cases m with
    | zero => rfl
    | succ m => rw [below_succ, names_of_deep hdeep]; rfl
  | succ n ih =>
    intro m chain path loc hdeep hdeep'
    cases m with
    | zero => rw [below_succ, names_of_deep hdeep']; rfl
    | succ m =>
      rw [below_succ, below_succ]
      congr 1
      funext name
      unfold belowName
      dsimp only
      have hlength : (loc ++ [name]).length = loc.length + 1 := by simp
      rw [ih m _ _ (loc ++ [name]) (fun x hx => by have := hdeep x hx; omega)
        (fun x hx => by have := hdeep' x hx; omega)]

theorem length_le_height {x : Location × Entry} (hx : x ∈ d.entries) : x.1.length ≤ d.height := by
  have hfold : ∀ (ks : List Nat) (k : Nat), k ≤ ks.foldl max k ∧ ∀ i ∈ ks, i ≤ ks.foldl max k := by
    intro ks
    induction ks with
    | nil => exact fun k => ⟨le_rfl, by simp⟩
    | cons j ks ih =>
      intro k
      obtain ⟨hstart, hmem⟩ := ih (max k j)
      refine ⟨(Nat.le_max_left k j).trans hstart, fun i hi => ?_⟩
      rcases List.mem_cons.1 hi with rfl | hi
      · exact (Nat.le_max_right k i).trans hstart
      · exact hmem i hi
  exact (hfold _ 0).2 _ (List.mem_map_of_mem hx)

section Name

variable {n : String} {depth : Nat}

theorem belowName_of_none (h : d.lookup (loc ++ [n]) = none) :
    d.belowName options depth chain path loc n = [] := by
  unfold belowName
  simp only [h]

theorem belowName_of_directory (h : d.lookup (loc ++ [n]) = some .directory) :
    d.belowName options depth chain path loc n =
      if chain.passesOver options.anywhere (loc ++ [n]) true || options.skip (path.join ⟨n⟩) then []
      else ⟨path.join ⟨n⟩, loc ++ [n], .directory⟩ ::
        d.below options depth (Ignore.DirectoryRules.ofDirectory d (loc ++ [n]) :: chain)
          (path.join ⟨n⟩) (loc ++ [n]) := by
  unfold belowName
  simp only [h]

theorem belowName_of_entry {e : Entry} (h : d.lookup (loc ++ [n]) = some e)
    (he : e ≠ .directory) :
    d.belowName options depth chain path loc n =
      if chain.passesOver options.anywhere (loc ++ [n]) false || options.skip (path.join ⟨n⟩) then []
      else [⟨path.join ⟨n⟩, loc ++ [n], e⟩] := by
  unfold belowName
  rcases e with content | _ | target
  · simp only [h]
  · exact absurd rfl he
  · simp only [h]

end Name

/-- A walk that does not come to the directory lists what it listed. -/
theorem Filled.walk_eq (h : Filled home d d') (hrules : RulesInPlace d home) (depth : Nat) :
    ∀ (chain : Ignore.RuleChain) (path : Path) (loc : Location), ¬ home <+: loc →
      (∀ f ∈ d.below options depth chain path loc, ¬ home <+: f.location) →
        d'.below options depth chain path loc = d.below options depth chain path loc := by
  induction depth with
  | zero => exact fun _ _ _ _ _ => rfl
  | succ depth ih =>
    intro chain path loc hloc hapart
    rw [below_succ] at hapart
    rw [below_succ, below_succ, h.names hloc]
    refine List.flatMap_congr fun n hn => ?_
    have hapart' : ∀ f ∈ d.belowName options depth chain path loc n, ¬ home <+: f.location :=
      fun f hf => hapart f (List.mem_flatMap.2 ⟨n, hn, hf⟩)
    have hsame := h.lookup hloc n
    rcases hlookup : d.lookup (loc ++ [n]) with _ | e
    · rw [belowName_of_none hlookup, belowName_of_none (hsame.trans hlookup)]
    by_cases hdirectory : e = .directory
    · subst hdirectory
      rw [belowName_of_directory hlookup] at hapart' ⊢
      rw [belowName_of_directory (hsame.trans hlookup)]
      split_ifs at hapart' ⊢
      · rfl
      · have haway := hapart' _ List.mem_cons_self
        rw [h.ofDirectory hrules haway,
          ih _ _ _ haway fun f hf => hapart' f (List.mem_cons_of_mem _ hf)]
    · rw [belowName_of_entry hlookup hdirectory,
        belowName_of_entry (hsame.trans hlookup) hdirectory]

end Walks

end Disk

/-! ## Copying into a directory -/

/-- What has come of a world by putting things below a directory. -/
structure World.FilledTo (out : Path) (home : Location) (w w' : World) : Prop where
  cwd : w'.cwd = w.cwd
  filled : Disk.Filled home w.disk w'.disk
  grown : Disk.Grown w.disk w'.disk
  home : w'.disk.Home w'.cwd out home

/-- What has come of a world by putting things below a directory, if a path leads there. -/
def World.Fills (out : Path) (home : Location) (w w' : World) : Prop :=
  w.disk.Home w.cwd out home → World.FilledTo out home w w'

variable {out : Path} {home : Location}

theorem World.FilledTo.refl {w : World} (h : w.disk.Home w.cwd out home) :
    World.FilledTo out home w w := ⟨rfl, .refl w.disk, .refl w.disk, h⟩

theorem World.FilledTo.trans {w w' w'' : World} (h : World.FilledTo out home w w')
    (h' : World.FilledTo out home w' w'') : World.FilledTo out home w w'' :=
  ⟨h'.cwd.trans h.cwd, h.filled.trans h'.filled, h.grown.trans h'.grown, h'.home⟩

instance : World.IgnoresLog (World.Fills out home) where
  refl := fun _ h => .refl h
  trans := fun _ _ _ h h' hw => (h hw).trans (h' (h hw).home)
  log := fun w _ h => ⟨rfl, .refl w.disk, .refl w.disk, h⟩

namespace Effect.Keeps

theorem changeDisk_fills {f : Disk → Location → Except Fault Disk}
    (hf : ∀ d cwd d', d.Home cwd out home → f d cwd = .ok d' →
      Disk.Filled home d d' ∧ Disk.Wrote cwd (fun _ _ => True) d d') :
    Keeps (World.Fills out home) (Action.changeDisk f) := by
  intro w hw
  unfold Action.changeDisk
  rw [bind_of_ok (rfl : (MonadState.get : Action World) w = (.ok w, w))]
  rcases hd : f w.disk w.cwd with e | d
  · rw [bind_of_error (rfl : Action.ofFault (.error e) w = (.error (.io e), w))]
    exact .refl hw
  · rw [bind_of_ok (rfl : Action.ofFault (.ok d) w = (.ok d, w))]
    obtain ⟨hfilled, hwrote⟩ := hf _ _ d hw hd
    exact ⟨rfl, hfilled, hwrote.grown, hw.grown hwrote.sound hwrote.grown⟩

theorem makeParent_fills {p : Path} {rest : List String} (hu : out.Under p rest) :
    Keeps (World.Fills out home) (Action.makeParent p) := by
  unfold Action.makeParent
  split
  · rename_i q hq
    refine changeDisk_fills fun d cwd d' hd hm => ⟨Disk.filled_makeHome hd hu ?_, ?_⟩
    · rw [Disk.makeHome, hq]
      exact hm
    · exact Disk.wrote_makeDirectories hd.sound hm
  · exact pure _

theorem copy_fills (source : Path) {p : Path} {rest : List String} (hu : out.Under p rest) :
    Keeps (World.Fills out home) (Action.copy source p) :=
  changeDisk_fills fun _ _ _ hd hc =>
    ⟨Disk.filled_copy hd hu hc, Disk.wrote_copy hd.sound hc fun _ => trivial⟩

end Effect.Keeps

namespace Instrument

/-- Copying a file of a project puts things below the output only. -/
theorem fills_copyEntry {project : Path} (hproject : project.isAbsolute = true) {found : Found}
    (hfound : Path.Named project found.path) :
    Effect.Keeps (World.Fills out home) (copyEntry project out found) := by
  obtain ⟨r, hr, hinside⟩ := Path.inside_relativeTo hproject hfound
  have hunder := Path.Under.join out hinside
  unfold copyEntry
  rw [hr]
  split
  · rename_i hrelative
    cases hrelative
    refine .bind ?_ fun _ => .bind (.makeParent_fills hunder) fun _ =>
      .bind (keeps_checkLength _) fun _ => .bind (keeps_checkLength _) fun _ =>
        .bind (.copy_fills _ hunder) fun _ => .pure _
    rcases (out.join r).parent? with _ | q
    · exact .pure _
    · exact keeps_checkLength q
  · exact .pure _

end Instrument

end Tracepoint
