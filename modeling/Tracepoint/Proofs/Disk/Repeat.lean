import Tracepoint.Proofs.Disk.Growth

/-!
# Operations on a disk that has grown

An operation that succeeds on a disk succeeds on one that has grown out of it, and has nothing
left to do there if its result has stayed. The converse needs that links lead somewhere: a
directory cannot be created where a link leads to nothing, but it can be entered there once
something else has created what the link leads to. Where all links on the way to a file are
live, what cannot be written at first cannot be written later either.

Results:

* `makeDirectories_of_isDirectory`: directories that exist are left as they are.
* `isDirectory_of_makeDirectories`: directories that were created exist.
* `exists_makeDirectories`: directories that exist later can be created.
* `exists_write`: a file that can be written later can be written.
-/

namespace Tracepoint.Disk

variable {d e : Disk} {links : Nat} {loc l : Location} {ns : List String} {cwd : Location} {p : Path}

/-! ## Following names -/

/-- Names that lead somewhere lead there over fewer links, or these are not enough. -/
theorem Leads.fewer (h : Leads d links loc ns l) (links' : Nat) :
    Leads d links' loc ns l ∨ d.walk true links' loc ns = .error .linkLoop := by
  induction h generalizing links' with
  | stop => exact .inl .stop
  | here h _ ih =>
    rw [walk_here h]
    exact (ih links').imp_left (.here h)
  | up h _ ih =>
    rw [walk_up h]
    exact (ih links').imp_left (.up h)
  | down h hn he hlink _ ih =>
    rw [walk_down h hn he hlink]
    exact (ih links').imp_left (.down h hn he hlink)
  | fresh h hn he => exact .inl (.fresh h hn he)
  | follow h hn he _ ih =>
    rw [walk_follow h hn he]
    cases links' with
    | zero => exact .inr rfl
    | succ links' => exact (ih links').imp_left (.follow h hn he)

/-- Names that cannot be followed cannot be followed by others. -/
theorem walk_append_of_error {fault : Fault} (h : d.walk true links loc ns = .error fault)
    (more : List String) : d.walk true links loc (ns ++ more) = .error fault := by
  induction links using Nat.strong_induction_on generalizing loc ns with
  | _ links ihlinks =>
    induction ns generalizing loc with
    | nil =>
      rw [walk_nil] at h
      cases h
    | cons n ns ih =>
      rw [List.cons_append]
      rcases hloc : d.lookup loc with _ | (content | _ | target)
      · rw [walk_of_none hloc] at h ⊢
        exact h
      · rw [walk_eq, walkNames, hloc] at h ⊢
        exact h
      · by_cases hhere : n = "."
        · subst hhere
          rw [walk_here hloc] at h ⊢
          exact ih h
        by_cases hup : n = ".."
        · subst hup
          rw [walk_up hloc] at h ⊢
          exact ih h
        by_cases hlong : n.utf8ByteSize > 255
        · rw [walk_long hloc hhere hup hlong] at h ⊢
          exact h
        have hn : IsStep n := ⟨hhere, hup, Nat.not_lt.1 hlong⟩
        rcases he : d.lookup (loc ++ [n]) with _ | (content | _ | target)
        · rw [walk_fresh hloc hn he] at h ⊢
          split_ifs at h with hns
          rw [if_neg (by simp [hns])]
          exact h
        · rw [walk_down hloc hn he (by simp)] at h ⊢
          exact ih h
        · rw [walk_down hloc hn he (by simp)] at h ⊢
          exact ih h
        · rw [walk_follow hloc hn he] at h ⊢
          cases links with
          | zero => exact h
          | succ links =>
            rw [← List.append_assoc]
            exact ihlinks links (Nat.lt_succ_self _) h
      · rw [walk_eq, walkNames, hloc] at h ⊢
        exact h

/-- Names that lead to a file cannot be followed by a point. -/
theorem Leads.walk_dot (h : Leads d links loc ns l) {content : ByteArray}
    (hl : d.lookup l = some (.file content)) :
    d.walk true links loc (ns ++ ["."]) = .error .notDirectory := by
  induction h with
  | stop => rw [List.nil_append, walk_eq, walkNames, hl]
  | here h _ ih => rw [List.cons_append, walk_here h, ih hl]
  | up h _ ih => rw [List.cons_append, walk_up h, ih hl]
  | down h hn he hlink _ ih => rw [List.cons_append, walk_down h hn he hlink, ih hl]
  | fresh _ _ he => rw [he] at hl; cases hl
  | follow h hn he _ ih =>
    rw [List.cons_append, walk_follow h hn he, next, ← List.append_assoc, ih hl]

theorem leads_of_dots (hloc : d.lookup loc = some .directory) (hns : ∀ n ∈ ns, n = ".") :
    Leads d links loc ns loc := by
  induction ns with
  | nil => exact .stop
  | cons n ns ih =>
    obtain rfl := hns n List.mem_cons_self
    exact .here hloc (ih fun n hn => hns n (List.mem_cons_of_mem _ hn))

/-! ## Directories that exist -/

theorem makeDirectory_of_isDirectory (h : d.isDirectory cwd p = true) :
    d.makeDirectory cwd p = .error .exists := by
  obtain ⟨hempty, hzero, l, hl⟩ := isDirectory_iff.1 h
  rw [makeDirectory_eq, hempty, hzero]
  simp only [Bool.false_eq_true, if_false]
  rcases List.eq_nil_or_concat p.names with hnames | ⟨ns, n, hnames⟩
  · rw [hnames] at hl ⊢
    have hstart := hl.directory (by simp)
    show d.makeIn (p.start cwd) none = _
    unfold makeIn
    rw [hstart]
  · rw [List.concat_eq_append] at hnames
    rw [hnames, List.append_assoc] at hl
    obtain ⟨mid, links', -, hmid, hlast⟩ := hl.split (by simp)
    obtain ⟨hmid, hdirectory⟩ := leads_dot_iff.1 hmid
    rw [hnames, List.dropLast_concat, List.getLast?_concat, hmid.walk]
    show d.makeIn mid (some n) = _
    unfold makeIn
    simp only [hdirectory]
    split_ifs with hpoint hlong
    · rfl
    · have hwalk := hlast.walk
      simp only [Bool.or_eq_true, decide_eq_true_eq, not_or] at hpoint
      rw [List.singleton_append, walk_long hdirectory hpoint.1 hpoint.2 hlong] at hwalk
      cases hwalk
    · simp only [Bool.or_eq_true, decide_eq_true_eq, not_or] at hpoint
      have hn : IsStep n := ⟨hpoint.1, hpoint.2, Nat.not_lt.1 hlong⟩
      rcases hentry : d.lookup (mid ++ [n]) with _ | x
      · have hwalk := hlast.walk
        rw [List.singleton_append, walk_fresh hdirectory hn hentry] at hwalk
        cases hwalk
      · rfl

theorem makeDirectories_of_isEmpty (h : p.isEmpty = true) : d.makeDirectories cwd p = .ok d := by
  unfold makeDirectories
  rw [makeDirectoriesUpTo, h]
  rfl

/-- Directories that exist are left as they are. -/
theorem makeDirectories_of_isDirectory (h : d.isDirectory cwd p = true) :
    d.makeDirectories cwd p = .ok d := by
  have hempty := (isDirectory_iff.1 h).1
  unfold makeDirectories
  rw [makeDirectoriesUpTo, hempty, makeDirectory_of_isDirectory h]
  simp [h]

theorem isDirectory_of_makeDirectory {d' : Disk} (h : d.makeDirectory cwd p = .ok d') :
    d'.isDirectory cwd p = true := by
  obtain ⟨hempty, hzero, ns, n, home, hnames, hn, hleads, hnone, rfl⟩ := makeDirectory_eq_ok.1 h
  have hgrown := grown_put_directory hnone
  have hself : (d.put (home ++ [n]) .directory).lookup (home ++ [n]) = some .directory :=
    lookup_put_self d (by simp) _
  refine isDirectory_iff.2 ⟨hempty, hzero, home ++ [n], ?_⟩
  obtain ⟨links', hwalk⟩ := (hleads.grown hgrown).walk_append
  rw [hnames, List.append_assoc, ← walk_eq_ok, hwalk _ (by simp), walk_eq_ok]
  refine .down (hgrown.directory (leads_dot_iff.1 hleads).2) hn hself (by simp) ?_
  exact .here hself .stop

/-- Directories that were created exist. -/
theorem isDirectory_of_makeDirectoriesUpTo {depth : Nat} {d' : Disk}
    (h : d.makeDirectoriesUpTo cwd depth p = .ok d') (hp : p.isEmpty = false) :
    d'.isDirectory cwd p = true := by
  cases depth with
  | zero => cases h
  | succ depth =>
    rw [makeDirectoriesUpTo, hp] at h
    simp only [Bool.false_eq_true, if_false] at h
    split at h
    · rename_i hmake
      cases h
      exact isDirectory_of_makeDirectory hmake
    · split at h
      · cases h
      · split at h
        · cases h
        · split at h
          · rename_i hmake
            cases h
            exact isDirectory_of_makeDirectory hmake
          · split_ifs at h with hdirectory
            cases h
            exact hdirectory
    · split_ifs at h with hdirectory
      cases h
      exact hdirectory

theorem isDirectory_of_makeDirectories {d' : Disk} (h : d.makeDirectories cwd p = .ok d')
    (hp : p.isEmpty = false) : d'.isDirectory cwd p = true :=
  isDirectory_of_makeDirectoriesUpTo h hp

/-- A directory holds what lies below it. -/
theorem isDirectory_of_join {r : Path} (hr : r.isAbsolute = false) (hne : r.names ≠ [])
    (hp : p.isEmpty = false) (h : d.resolve cwd (p.join r) true = .ok l) :
    d.isDirectory cwd p = true := by
  obtain ⟨-, hzero, hleads⟩ := resolve_eq_ok.1 h
  rw [Path.steps_eq, Path.names_join p hr, List.append_assoc, Path.start,
    Path.isAbsolute_join p hr] at hleads
  obtain ⟨mid, -, -, hmid, -⟩ := hleads.split (by simp [hne])
  refine isDirectory_iff.2 ⟨hp, ?_, mid, hmid⟩
  rw [List.contains_eq_mem, decide_eq_false_iff_not] at hzero ⊢
  exact fun hmem => hzero ((Path.prefix_join p hr).subset hmem)

/-! ## Live links -/

/-- A link leads to something. -/
def LinkAlive (d : Disk) (home : Location) (target : Path) : Prop :=
  ∃ l, Leads d maxLinks (target.start home) (steps target) l ∧ d.lookup l ≠ none

/-- Every link leads to something that a path meets, now or once there is more on its way. -/
def LiveOn (d : Disk) (cwd : Location) (p : Path) : Prop :=
  ∀ e, Grown d e → ∀ ns n after home target, p.names = ns ++ n :: after →
    Leads e maxLinks (p.start cwd) (ns ++ ["."]) home →
      d.lookup (home ++ [n]) = some (.link target) → d.LinkAlive home target

theorem LiveOn.grown {d' : Disk} (h : d.LiveOn cwd p) (hg : Grown d d') : d'.LiveOn cwd p := by
  intro e he ns n after home target hnames hhome hlink
  obtain ⟨l, hl, hsome⟩ := h e (hg.trans he) ns n after home target hnames hhome (hg.link.2 hlink)
  exact ⟨l, hl.grown hg, fun hnone => hsome (hg.missing hnone)⟩

/-- What a last name leads to later it leads to before, or it leads to nothing that is new. -/
theorem Leads.last (hd : d.Rooted) (hg : Grown d e) {home : Location} {n : String}
    (hlive : ∀ target, d.lookup (home ++ [n]) = some (.link target) → d.LinkAlive home target)
    (hhome : d.lookup home = some .directory) (he : Leads e links home [n] l) :
    (IsStep n ∧ d.lookup (home ++ [n]) = none ∧ l = home ++ [n]) ∨
      (d.lookup l ≠ none ∧
        ∀ links', Leads d links' home [n] l ∨ d.walk true links' home [n] = .error .linkLoop) := by
  cases he with
  | here _ rest =>
    cases rest
    exact .inr ⟨by simp [hhome], fun _ => .inl (.here hhome .stop)⟩
  | up _ rest =>
    cases rest
    exact .inr ⟨by simp [hd.dropLast hhome], fun _ => .inl (.up hhome .stop)⟩
  | @down _ _ _ _ _ x _ hn hx hlink rest =>
    cases rest
    rcases hy : d.lookup (home ++ [n]) with _ | y
    · exact .inl ⟨hn, rfl, rfl⟩
    · have hlink' : ∀ target, y ≠ .link target := by
        rintro target rfl
        rw [hg.link.1 hy] at hx
        exact hlink target (Option.some.inj hx).symm
      exact .inr ⟨by simp, fun _ => .inl (.down hhome hn hy hlink' .stop)⟩
  | fresh _ hn hx => exact .inl ⟨hn, hg.missing hx, rfl⟩
  | @follow links _ _ _ _ target _ hn hx rest =>
    have hx' := hg.link.2 hx
    rw [List.append_nil] at rest
    obtain ⟨l', hl', hsome⟩ := hlive target hx'
    obtain rfl := (hl'.grown hg).unique rest
    refine .inr ⟨hsome, fun links' => ?_⟩
    rw [walk_follow hhome hn hx']
    cases links' with
    | zero => exact .inr rfl
    | succ links' =>
      rw [List.append_nil, next]
      refine (hl'.fewer links').imp_left fun hleads => ?_
      exact .follow hhome hn hx' (by rwa [List.append_nil])

/-- Where names of a path lead that lead through a directory that is there before. -/
theorem LiveOn.leads_snoc (h : d.LiveOn cwd p) (hd : d.Rooted) (hg : Grown d e) {n : String}
    {after : List String} (hnames : p.names = ns ++ n :: after) {mid : Location}
    (hmid : Leads d maxLinks (p.start cwd) (ns ++ ["."]) mid)
    (he : Leads e maxLinks (p.start cwd) (ns ++ [n]) l) :
    Leads d maxLinks (p.start cwd) (ns ++ [n]) l ∧
      ((IsStep n ∧ d.lookup (mid ++ [n]) = none ∧ l = mid ++ [n]) ∨ d.lookup l ≠ none) := by
  have hdirectory := (leads_dot_iff.1 hmid).2
  obtain ⟨links', hwalk⟩ := (hmid.grown hg).walk_append
  obtain ⟨links'', hwalk'⟩ := hmid.walk_append
  have hlast : Leads e links' mid [n] l := by
    rw [← walk_eq_ok, ← hwalk [n] (by simp)]
    exact he.walk
  have hcases := hlast.last hd hg
    (fun target => h d (Grown.refl d) ns n after mid target hnames hmid) hdirectory
  refine ⟨(he.shrink hg).resolve_right fun hmissing => ?_, hcases.imp_right And.left⟩
  rw [hwalk' [n] (by simp)] at hmissing
  rcases hcases with ⟨hn, hnone, -⟩ | ⟨-, hleads⟩
  · rw [walk_fresh hdirectory hn hnone] at hmissing
    cases hmissing
  · rcases hleads links'' with hleads | hloop
    · rw [hleads.walk] at hmissing
      cases hmissing
    · rw [hloop] at hmissing
      cases hmissing

/-! ## Directories that exist later -/

theorem Grown.put_directory (hg : Grown d e) (hnone : d.lookup l = none)
    (hl : e.lookup l = some .directory) : Grown (d.put l .directory) e := by
  have hne : l ≠ [] := by
    rintro rfl
    cases hnone
  have hself := lookup_put_self d hne .directory
  refine ⟨fun {loc} h => ?_, fun {loc content} h => ?_, fun {loc target} => ?_⟩
  · by_cases hloc : loc = l
    · rw [hloc, hl]
    · exact hg.directory (by rwa [lookup_put_of_ne d hloc] at h)
  · by_cases hloc : loc = l
    · rw [hloc, hself] at h
      cases h
    · exact hg.file (by rwa [lookup_put_of_ne d hloc] at h)
  · by_cases hloc : loc = l
    · rw [hloc, hself, hl]
    · rw [lookup_put_of_ne d hloc]
      exact hg.link

theorem grown_of_makeDirectory {d' : Disk} (hg : Grown d e) (he : e.isDirectory cwd p = true)
    (h : d.makeDirectory cwd p = .ok d') : Grown d' e := by
  obtain ⟨-, -, ns, n, home, hnames, hn, hleads, hnone, rfl⟩ := makeDirectory_eq_ok.1 h
  obtain ⟨-, -, l, hl⟩ := isDirectory_iff.1 he
  have hhome := hg.directory (leads_dot_iff.1 hleads).2
  obtain ⟨links', hwalk⟩ := (hleads.grown hg).walk_append
  have hlast : e.walk true links' home ([n] ++ ["."]) = .ok l := by
    rw [← hwalk _ (by simp), ← List.append_assoc, ← hnames]
    exact hl.walk
  rw [List.singleton_append] at hlast
  have hdirectory : e.lookup (home ++ [n]) = some .directory := by
    rcases hentry : e.lookup (home ++ [n]) with _ | (content | _ | target)
    · rw [walk_fresh hhome hn hentry] at hlast
      cases hlast
    · rw [walk_down hhome hn hentry (by simp), walk_eq, walkNames, hentry] at hlast
      cases hlast
    · rfl
    · rw [hg.link.2 hentry] at hnone
      cases hnone
  exact hg.put_directory hnone hdirectory

/-- A directory that exists later exists before, or it can be created, or something above it is
    missing. -/
theorem makeDirectory_cases (hsound : d.Sound cwd) (hlive : d.LiveOn cwd p) (hg : Grown d e)
    (he : e.isDirectory cwd p = true) :
    d.isDirectory cwd p = true ∨ (∃ d', d.makeDirectory cwd p = .ok d') ∨
      (d.makeDirectory cwd p = .error .notFound ∧ ∃ ns n, p.names = ns ++ [n] ∧
        d.walk true maxLinks (p.start cwd) (ns ++ ["."]) = .error .notFound) := by
  obtain ⟨hempty, hzero, l, hl⟩ := isDirectory_iff.1 he
  rcases List.eq_nil_or_concat p.names with hnames | ⟨ns, n, hnames⟩
  · refine .inl (isDirectory_iff.2 ⟨hempty, hzero, p.start cwd, ?_⟩)
    rw [hnames]
    exact .here (hsound.start p) .stop
  rw [List.concat_eq_append] at hnames
  rw [hnames] at hl
  obtain ⟨hl, hdirectory⟩ := leads_dot_iff.1 hl
  obtain ⟨mid, -, -, hmid, -⟩ := hl.split (by simp)
  rcases hmid.shrink hg with hmid | hmissing
  · obtain ⟨hleads, hnew | hold⟩ := hlive.leads_snoc hsound.rooted hg hnames hmid hl
    · -- the directory above exists, and there is nothing yet of that name
      exact .inr (.inl ⟨_, makeDirectory_eq_ok.2
        ⟨hempty, hzero, ns, n, mid, hnames, hnew.1, hmid, hnew.2.1, rfl⟩⟩)
    · refine .inl (isDirectory_iff.2 ⟨hempty, hzero, l, ?_⟩)
      rw [hnames]
      exact leads_dot_iff.2 ⟨hleads, (hg.of_directory hdirectory).resolve_right hold⟩
  · refine .inr (.inr ⟨?_, ns, n, hnames, hmissing⟩)
    rw [makeDirectory_eq, hempty, hzero, hnames, List.dropLast_concat, List.getLast?_concat]
    simp only [Bool.false_eq_true, if_false]
    cases hwalk : d.walk true maxLinks (p.start cwd) ns with
    | error fault =>
      rw [walk_append_of_error hwalk] at hmissing
      cases hmissing
      rfl
    | ok home =>
      have hhome : d.lookup home = none := by
        have hleads := walk_eq_ok.1 hwalk
        rcases hsound.arrived hleads with hdirectory | ⟨-, -, -, -, -, hnone | ⟨content, hfile⟩⟩
        · rw [(leads_dot_iff.2 ⟨hleads, hdirectory⟩).walk] at hmissing
          cases hmissing
        · exact hnone
        · rw [hleads.walk_dot hfile] at hmissing
          cases hmissing
      show d.makeIn home (some n) = _
      unfold makeIn
      rw [hhome]

section Holds

variable {q : Path} {before after : List String} {last : String}

/-- What holds a path that leads somewhere is a directory. -/
theorem isDirectory_of_holds (h : q.Holds p before last after)
    (hzero : p.text.toList.contains '\x00' = false) {more : List String}
    (hl : Leads d maxLinks (p.start cwd) (p.names ++ more) l) (hq : q.isEmpty = false) :
    d.isDirectory cwd q = true := by
  rw [h.names, List.append_assoc, List.append_assoc] at hl
  obtain ⟨mid, -, -, hmid, -⟩ := hl.split (by simp)
  refine isDirectory_iff.2 ⟨hq, ?_, mid, ?_⟩
  · rw [List.contains_eq_mem, decide_eq_false_iff_not, Path.mem_toList_iff (by decide)] at hzero ⊢
    rintro ⟨n, hn, hmem⟩
    exact hzero ⟨n, by rw [h.names]; simp [hn], hmem⟩
  · rwa [Path.start, h.absolute]

/-- Names lead through the directory that holds a path. -/
theorem exists_leads_of_holds (h : q.Holds p before last after)
    (hq : d.isDirectory cwd q = true) :
    ∃ mid, Leads d maxLinks (p.start cwd) (q.names ++ before ++ ["."]) mid := by
  obtain ⟨-, -, mid, hmid⟩ := isDirectory_iff.1 hq
  refine ⟨mid, (leads_dots_iff h.before (by simp)).2 ?_⟩
  rwa [Path.start, ← h.absolute]

theorem LiveOn.of_holds (h : d.LiveOn cwd p) (hq : q.Holds p before last after) :
    d.LiveOn cwd q := by
  intro e he ns n rest home target hnames hhome
  refine h e he ns n (rest ++ before ++ last :: after) home target ?_ ?_
  · rw [hq.names, hnames]
    simp
  · rwa [Path.start, ← hq.absolute]

end Holds

/-- Directories that exist later can be created. -/
theorem exists_makeDirectoriesUpTo (hsound : d.Sound cwd) (hg : Grown d e) (depth : Nat) :
    ∀ {p : Path}, d.LiveOn cwd p → p.Trimmed → (p.names.filter (· ≠ ".")).length < depth →
      e.isDirectory cwd p = true →
        ∃ d', d.makeDirectoriesUpTo cwd depth p = .ok d' ∧ Grown d' e := by
  induction depth with
  | zero => intro p _ _ hdepth; cases hdepth
  | succ depth ih =>
    intro p hlive htrimmed hdepth he
    obtain ⟨hempty, hzero, l, hl⟩ := isDirectory_iff.1 he
    rw [makeDirectoriesUpTo, hempty]
    simp only [Bool.false_eq_true, if_false]
    rcases makeDirectory_cases hsound hlive hg he with hold | ⟨d', hmake⟩ | ⟨hmake, ns, n, hnames, hmissing⟩
    · exact ⟨d, by simp [makeDirectory_of_isDirectory hold, hold], hg⟩
    · exact ⟨d', by simp [hmake], grown_of_makeDirectory hg he hmake⟩
    have hpoints : ¬ ∀ n ∈ ns, n = "." := by
      intro hns
      rw [(leads_dot_iff.2 ⟨leads_of_dots (hsound.start p) hns, hsound.start p⟩).walk] at hmissing
      cases hmissing
    rw [hmake]
    simp only
    rcases hparent : p.parent? with _ | q
    · exact absurd (fun n hn => Path.names_of_parent_eq_none hparent n (by simp [hnames, hn])) hpoints
    rcases Path.holds_of_parent hparent with ⟨-, hdots⟩ | ⟨before, last, after, hholds⟩
    · exact absurd (fun n hn => hdots n (by simp [hnames, hn])) hpoints
    -- the last name is no point, so nothing follows it
    obtain rfl : after = [] := hholds.after_eq_nil htrimmed
    have hends := hholds.names
    rw [hnames] at hends
    obtain ⟨rfl, -⟩ := List.append_inj' hends rfl
    have hq : q.isEmpty = false := by
      rw [← Bool.not_eq_true]
      intro hq
      rw [Path.names_of_isEmpty hq, List.nil_append] at hpoints
      exact hpoints hholds.before
    obtain ⟨d₁, hmake₁, hg₁⟩ := ih (hlive.of_holds hholds) hholds.trimmed
      (Nat.lt_of_lt_of_le hholds.length_lt (Nat.le_of_lt_succ hdepth))
      (isDirectory_of_holds hholds hzero hl hq)
    have hwrote := wrote_makeDirectoriesUpTo (Q := fun _ _ => False) hsound depth hmake₁
    have hold₁ := isDirectory_of_makeDirectoriesUpTo hmake₁ hq
    simp only [hmake₁]
    rcases makeDirectory_cases hwrote.sound (hlive.grown hwrote.grown) hg₁ he with
      hold | ⟨d', hmake'⟩ | ⟨-, ns', n', hnames', hmissing'⟩
    · exact ⟨d₁, by simp [makeDirectory_of_isDirectory hold, hold], hg₁⟩
    · exact ⟨d', by simp [hmake'], grown_of_makeDirectory hg₁ he hmake'⟩
    · -- the directory above is there now
      obtain ⟨mid, hmid⟩ := exists_leads_of_holds hholds hold₁
      rw [hnames] at hnames'
      obtain ⟨rfl, -⟩ := List.append_inj' hnames' rfl
      rw [hmid.walk] at hmissing'
      cases hmissing'

theorem exists_makeDirectories (hsound : d.Sound cwd) (hlive : d.LiveOn cwd p) (hg : Grown d e)
    (hp : p.Trimmed) (he : e.isDirectory cwd p = true) :
    ∃ d', d.makeDirectories cwd p = .ok d' ∧ Grown d' e :=
  exists_makeDirectoriesUpTo hsound hg _ hlive hp (by have := p.length_names_le; omega) he

/-! ## Files that can be written later -/

/-- Creates the directory that holds a path. -/
def makeHome (d : Disk) (cwd : Location) (p : Path) : Except Fault Disk :=
  match p.parent? with
  | some above => d.makeDirectories cwd above
  | none => .ok d

theorem wrote_makeHome {Q : Path → ByteArray → Prop} (hd : d.Sound cwd) {d' : Disk}
    (h : d.makeHome cwd p = .ok d') : Wrote cwd Q d d' := by
  unfold makeHome at h
  cases hparent : p.parent? with
  | none =>
    rw [hparent] at h
    cases h
    exact .refl hd
  | some above =>
    rw [hparent] at h
    exact wrote_makeDirectories hd h

/-- Once it was tried to create the directory that holds a path, there is nothing left to do on a
    disk that has grown since. -/
theorem makeHome_again (hsound : d.Sound cwd) (hlive : d.LiveOn cwd p) (hsound' : e.Sound cwd)
    (hg : Grown d e) (hmade : ∀ d', d.makeHome cwd p = .ok d' → Grown d' e) {e' : Disk}
    (h : e.makeHome cwd p = .ok e') : e' = e := by
  unfold makeHome at h hmade
  rcases hparent : p.parent? with _ | q
  · rw [hparent] at h
    cases h
    rfl
  rw [hparent] at h
  simp only [hparent] at hmade
  replace h : e.makeDirectories cwd q = .ok e' := h
  cases hq : q.isEmpty with
  | true =>
    rw [makeDirectories_of_isEmpty hq] at h
    cases h
    rfl
  | false =>
    have hdirectory : e.isDirectory cwd q = true := by
      rcases hfirst : d.makeDirectories cwd q with fault | d'
      · -- it could not be created at first, so it does not exist later
        have hwrote := wrote_makeDirectories (Q := fun _ _ => False) hsound' h
        rcases Path.holds_of_parent hparent with ⟨hempty, -⟩ | ⟨before, last, after, hholds⟩
        · rw [hempty] at hq
          cases hq
        · obtain ⟨d', hd', -⟩ := exists_makeDirectories hsound (hlive.of_holds hholds)
            (hg.trans hwrote.grown) hholds.trimmed (isDirectory_of_makeDirectories h hq)
          rw [hfirst] at hd'
          cases hd'
      · exact isDirectory_grown (isDirectory_of_makeDirectories hfirst hq) (hmade d' hfirst)
    rw [makeDirectories_of_isDirectory hdirectory] at h
    cases h
    rfl

/-- What a path leads to that is no directory lies in the directory that holds the path. -/
theorem exists_holds_of_resolve (hsound : e.Sound cwd) (hp : e.resolve cwd p true = .ok l)
    (hl : e.lookup l ≠ some .directory) (hslash : Text.endsWith ['/'] p.text.toList = false) :
    ∃ q before last, p.parent? = some q ∧ q.Holds p before last [] := by
  obtain ⟨-, -, hleads⟩ := resolve_eq_ok.1 hp
  rw [Path.steps_eq, hslash, if_neg Bool.false_ne_true, List.append_nil] at hleads
  have hpoints : ¬ ∀ n ∈ p.names, n = "." := by
    intro hdots
    have hstay : Leads e maxLinks (p.start cwd) p.names (p.start cwd) :=
      leads_of_dots (hsound.start p) hdots
    obtain rfl := hleads.unique hstay
    exact hl (hsound.start p)
  rcases hparent : p.parent? with _ | q
  · exact absurd (Path.names_of_parent_eq_none hparent) hpoints
  rcases Path.holds_of_parent hparent with ⟨-, hdots⟩ | ⟨before, last, after, hholds⟩
  · exact absurd hdots hpoints
  rcases List.eq_nil_or_concat after with rfl | ⟨init, n, hinit⟩
  · exact ⟨q, before, last, rfl, hholds⟩
  · -- a point at the end leads to a directory
    have hn : n = "." := hholds.after n (by simp [hinit])
    rw [hholds.names, hinit, hn, List.concat_eq_append, ← List.cons_append,
      ← List.append_assoc] at hleads
    exact absurd (leads_dot_iff.1 hleads).2 hl

/-- A file that can be written later can be written, if the links on its way are live. -/
theorem exists_write (hsound : d.Sound cwd) (hlive : d.LiveOn cwd p) (hg : Grown d e)
    (hsound' : e.Sound cwd) (hp : e.resolve cwd p true = .ok l)
    (hl : e.lookup l ≠ some .directory) (hslash : Text.endsWith ['/'] p.text.toList = false)
    (content : ByteArray) :
    ∃ d' d'', d.makeHome cwd p = .ok d' ∧ d'.write cwd p content = .ok d'' := by
  obtain ⟨q, before, last, hparent, hholds⟩ := exists_holds_of_resolve hsound' hp hl hslash
  obtain ⟨hempty, hzero, hleads⟩ := resolve_eq_ok.1 hp
  rw [Path.steps_eq, hslash, if_neg Bool.false_ne_true, List.append_nil, hholds.names] at hleads
  -- the directory that holds the path exists later, so it can be created
  obtain ⟨d', hmake, hsound₁, hlive₁, hg₁, mid, hmid⟩ : ∃ d', d.makeDirectories cwd q = .ok d' ∧
      d'.Sound cwd ∧ d'.LiveOn cwd p ∧ Grown d' e ∧
        ∃ mid, Leads d' maxLinks (p.start cwd) (q.names ++ before ++ ["."]) mid := by
    cases hq : q.isEmpty with
    | true =>
      refine ⟨d, makeDirectories_of_isEmpty hq, hsound, hlive, hg,
        p.start cwd, leads_dot_iff.2 ⟨?_, hsound.start p⟩⟩
      rw [Path.names_of_isEmpty hq, List.nil_append]
      exact leads_of_dots (hsound.start p) hholds.before
    | false =>
      have heq : e.isDirectory cwd q = true := by
        have hl' : Leads e maxLinks (p.start cwd) (p.names ++ []) l := by
          rw [List.append_nil, hholds.names]
          exact hleads
        exact isDirectory_of_holds hholds hzero hl' hq
      obtain ⟨d', hmake, hg'⟩ := exists_makeDirectories hsound (hlive.of_holds hholds) hg
        hholds.trimmed heq
      have hwrote := wrote_makeDirectories (Q := fun _ _ => False) hsound hmake
      exact ⟨d', hmake, hwrote.sound, hlive.grown hwrote.grown, hg',
        exists_leads_of_holds hholds (isDirectory_of_makeDirectories hmake hq)⟩
  obtain ⟨hleads', -⟩ := hlive₁.leads_snoc hsound₁.rooted hg₁ hholds.names hmid hleads
  refine ⟨d', _, by rw [makeHome, hparent]; exact hmake, write_eq_ok.2 ⟨hslash, l, ?_, ?_, rfl⟩⟩
  · rw [resolve_eq_ok, Path.steps_eq, hslash, if_neg Bool.false_ne_true, List.append_nil,
      hholds.names]
    exact ⟨hempty, hzero, hleads'⟩
  · exact fun hdirectory => hl (hg₁.directory hdirectory)

end Tracepoint.Disk
