import Tracepoint.Proofs.Disk.Leads

/-!
# Disks that grow

A run writes files and creates directories, and never removes anything. So a path that leads
to a location leads there ever after, and what differs between two disks of a run is what was
written: the contents of files.

Results:

* `Leads.grown`, `Leads.shrink`: where names lead on a disk that has grown, and where they led
  before.
* `Wrote`: what a disk has become by writing, a relation that is reflexive and transitive.
* `wrote_write`, `wrote_makeDirectories`, `wrote_copy`: each operation on a disk.
-/

namespace Tracepoint.Disk

/-! ## Growing -/

/-- Directories and links stay as they are, files stay files, and no links are added. -/
structure Grown (d d' : Disk) : Prop where
  directory : ∀ {loc}, d.lookup loc = some .directory → d'.lookup loc = some .directory
  file : ∀ {loc content}, d.lookup loc = some (.file content) →
    ∃ content', d'.lookup loc = some (.file content')
  link : ∀ {loc target}, d.lookup loc = some (.link target) ↔ d'.lookup loc = some (.link target)

theorem Grown.refl (d : Disk) : Grown d d := ⟨id, fun h => ⟨_, h⟩, Iff.rfl⟩

theorem Grown.trans {d d' d'' : Disk} (h : Grown d d') (h' : Grown d' d'') : Grown d d'' where
  directory := fun hd => h'.directory (h.directory hd)
  file := fun hd => (h.file hd).elim fun _ hd' => h'.file hd'
  link := h.link.trans h'.link

section Grown

variable {d d' : Disk} {links : Nat} {loc l : Location} {ns : List String} {cwd : Location}
  {p : Path}

theorem Grown.missing (h : Grown d d') (hnone : d'.lookup loc = none) : d.lookup loc = none := by
  rcases hloc : d.lookup loc with _ | (content | _ | target)
  · rfl
  · obtain ⟨content', hcontent⟩ := h.file hloc
    rw [hnone] at hcontent
    cases hcontent
  · rw [h.directory hloc] at hnone
    cases hnone
  · rw [h.link.1 hloc] at hnone
    cases hnone

/-- A directory was one before, unless there was nothing. -/
theorem Grown.of_directory (h : Grown d d') (hdirectory : d'.lookup loc = some .directory) :
    d.lookup loc = some .directory ∨ d.lookup loc = none := by
  rcases hloc : d.lookup loc with _ | (content | _ | target)
  · exact .inr rfl
  · obtain ⟨content', hcontent⟩ := h.file hloc
    rw [hdirectory] at hcontent
    cases hcontent
  · exact .inl rfl
  · rw [h.link.1 hloc] at hdirectory
    cases hdirectory

/-- Names lead where they led before. -/
theorem Leads.grown (h : Leads d links loc ns l) (hg : Grown d d') : Leads d' links loc ns l := by
  induction h with
  | stop => exact .stop
  | here h _ ih => exact .here (hg.directory h) ih
  | up h _ ih => exact .up (hg.directory h) ih
  | @down _ _ _ _ _ e h hn he hlink _ ih =>
    cases e with
    | file content =>
      obtain ⟨content', hcontent⟩ := hg.file he
      exact .down (hg.directory h) hn hcontent (by simp) ih
    | directory => exact .down (hg.directory h) hn (hg.directory he) (by simp) ih
    | link target => exact absurd rfl (hlink target)
  | @fresh _ loc n h hn he =>
    rcases he' : d'.lookup (loc ++ [n]) with _ | (content | _ | target)
    · exact .fresh (hg.directory h) hn he'
    · exact .down (hg.directory h) hn he' (by simp) .stop
    · exact .down (hg.directory h) hn he' (by simp) .stop
    · rw [hg.link.2 he'] at he
      cases he
  | follow h hn he _ ih => exact .follow (hg.directory h) hn (hg.link.1 he) ih

/-- Where names lead, they led before, unless something on the way was missing. -/
theorem Leads.shrink (h : Leads d' links loc ns l) (hg : Grown d d') :
    Leads d links loc ns l ∨ d.walk true links loc ns = .error .notFound := by
  induction h with
  | stop => exact .inl .stop
  | here h _ ih =>
    rcases hg.of_directory h with hloc | hloc
    · rw [walk_here hloc]
      exact ih.imp_left (.here hloc)
    · exact .inr (walk_of_none hloc)
  | up h _ ih =>
    rcases hg.of_directory h with hloc | hloc
    · rw [walk_up hloc]
      exact ih.imp_left (.up hloc)
    · exact .inr (walk_of_none hloc)
  | @down links loc l n ns e h hn he hlink rest ih =>
    rcases hg.of_directory h with hloc | hloc
    · rcases he' : d.lookup (loc ++ [n]) with _ | e'
      · rw [walk_fresh hloc hn he']
        split_ifs with hns
        · subst hns
          cases rest
          exact .inl (.fresh hloc hn he')
        · exact .inr rfl
      · have hlink' : ∀ target, e' ≠ .link target := by
          rintro target rfl
          rw [hg.link.1 he'] at he
          exact hlink target (Option.some.inj he).symm
        rw [walk_down hloc hn he' hlink']
        exact ih.imp_left (.down hloc hn he' hlink')
    · exact .inr (walk_of_none hloc)
  | fresh h hn he =>
    rcases hg.of_directory h with hloc | hloc
    · exact .inl (.fresh hloc hn (hg.missing he))
    · exact .inr (walk_of_none hloc)
  | @follow links loc l n ns target h hn he rest ih =>
    rcases hg.of_directory h with hloc | hloc
    · rw [walk_follow hloc hn (hg.link.2 he)]
      exact ih.imp_left (.follow hloc hn (hg.link.2 he))
    · exact .inr (walk_of_none hloc)

theorem resolve_grown (h : d.resolve cwd p true = .ok l) (hg : Grown d d') :
    d'.resolve cwd p true = .ok l := by
  obtain ⟨hempty, hzero, hleads⟩ := resolve_eq_ok.1 h
  exact resolve_eq_ok.2 ⟨hempty, hzero, hleads.grown hg⟩

theorem isDirectory_grown (h : d.isDirectory cwd p = true) (hg : Grown d d') :
    d'.isDirectory cwd p = true := by
  obtain ⟨hempty, hzero, l, hleads⟩ := isDirectory_iff.1 h
  exact isDirectory_iff.2 ⟨hempty, hzero, l, hleads.grown hg⟩

end Grown

/-! ## Contents -/

/-- The bytes of the file at a location, if there is one. -/
def contentAt (d : Disk) (loc : Location) : Option ByteArray :=
  match d.lookup loc with
  | some (.file content) => some content
  | _ => none

theorem contentAt_eq_some {d : Disk} {loc : Location} {content : ByteArray} :
    d.contentAt loc = some content ↔ d.lookup loc = some (.file content) := by
  unfold contentAt
  split <;> simp_all

theorem contentAt_of_lookup_eq {d d' : Disk} {loc : Location}
    (h : d'.lookup loc = d.lookup loc) : d'.contentAt loc = d.contentAt loc := by
  unfold contentAt
  rw [h]

theorem read_eq_ok {d : Disk} {cwd : Location} {p : Path} {content : ByteArray} :
    d.read cwd p = .ok content ↔
      ∃ l, d.resolve cwd p true = .ok l ∧ d.contentAt l = some content := by
  unfold read entryAt
  cases d.resolve cwd p true with
  | error e => simp [bind, Except.bind]
  | ok l =>
    simp only [bind, Except.bind, Except.ok.injEq, exists_eq_left', contentAt]
    rcases d.lookup l with _ | (content' | _ | target) <;> simp [pure, Except.pure]

/-! ## Changes at one location -/

theorem mem_putIn {loc : Location} {e : Entry} {es : List (Location × Entry)}
    {x : Location × Entry} (h : x ∈ putIn loc e es) : x = (loc, e) ∨ x ∈ es := by
  induction es with
  | nil => exact .inl (List.mem_singleton.1 h)
  | cons y es ih =>
    obtain ⟨l, z⟩ := y
    rw [putIn] at h
    split_ifs at h with hl
    · rcases List.mem_cons.1 h with rfl | h
      · exact .inl (by rw [hl])
      · exact .inr (List.mem_cons_of_mem _ h)
    · rcases List.mem_cons.1 h with rfl | h
      · exact .inr List.mem_cons_self
      · exact (ih h).imp_right (List.mem_cons_of_mem _)

theorem nodup_putIn {loc : Location} {e : Entry} {es : List (Location × Entry)}
    (h : (es.map (·.1)).Nodup) : ((putIn loc e es).map (·.1)).Nodup := by
  induction es with
  | nil => exact List.nodup_singleton loc
  | cons y es ih =>
    obtain ⟨l, z⟩ := y
    obtain ⟨hl, hes⟩ := List.nodup_cons.1 h
    rw [putIn]
    split_ifs with hloc
    · exact List.nodup_cons.2 ⟨hl, hes⟩
    · refine List.nodup_cons.2 ⟨fun hmem => ?_, ih hes⟩
      obtain ⟨x, hx, hxl⟩ := List.mem_map.1 hmem
      rcases mem_putIn hx with rfl | hx
      · exact hloc hxl.symm
      · exact hl (hxl ▸ List.mem_map_of_mem hx)

/-- A disk as runs find it: it is well formed, every entry lies in a directory, and so does the
    current directory. -/
structure Sound (d : Disk) (cwd : Location) : Prop where
  wellFormed : d.WellFormed
  rooted : d.Rooted
  cwd : d.lookup cwd = some .directory

instance (d : Disk) (cwd : Location) : Decidable (d.Sound cwd) :=
  decidable_of_iff (d.WellFormed ∧ d.Rooted ∧ d.lookup cwd = some .directory)
    ⟨fun ⟨h, h', h''⟩ => ⟨h, h', h''⟩, fun h => ⟨h.wellFormed, h.rooted, h.cwd⟩⟩

namespace Sound

variable {d : Disk} {cwd l : Location} {p : Path}

theorem isName_cwd (h : d.Sound cwd) : ∀ n ∈ cwd, Path.IsName n := by
  intro n hn
  have hne : cwd ≠ [] := List.ne_nil_of_mem hn
  exact h.wellFormed.names _ (mem_entries_of_lookup hne h.cwd) n hn

theorem start (h : d.Sound cwd) (p : Path) : d.lookup (p.start cwd) = some .directory := by
  unfold Path.start
  split_ifs
  · exact lookup_nil d
  · exact h.cwd

theorem isName_start (h : d.Sound cwd) (p : Path) : ∀ n ∈ p.start cwd, Path.IsName n := by
  unfold Path.start
  split_ifs
  · simp
  · exact h.isName_cwd

theorem arrived (h : d.Sound cwd) {links : Nat} {ns : List String}
    (hl : Leads d links (p.start cwd) ns l) : d.Arrived l :=
  hl.arrived h.rooted (.inl (h.start p))

theorem isName (h : d.Sound cwd) {links : Nat} {ns : List String}
    (hl : Leads d links (p.start cwd) ns l) (hns : ∀ n ∈ ns, Path.IsPiece n) :
    ∀ n ∈ l, Path.IsName n :=
  hl.isName (h.isName_start p) hns

/-- A file or directory that is put into a directory, in the place of a file or of nothing,
    leaves a disk sound. -/
theorem put (h : d.Sound cwd) {home : Location} {n : String} (hl : l = home ++ [n])
    (hhome : d.lookup home = some .directory) (hnames : ∀ n ∈ l, Path.IsName n)
    (hfree : d.lookup l ≠ some .directory) (e : Entry) : (d.put l e).Sound cwd := by
  have hkept : ∀ loc, d.lookup loc = some .directory →
      (d.put l e).lookup loc = some .directory := by
    intro loc hloc
    have hne : loc ≠ l := fun heq => hfree (heq ▸ hloc)
    rw [lookup_put_of_ne d hne, hloc]
  refine ⟨⟨nodup_putIn h.wellFormed.nodup, fun x hx => ?_⟩, fun x hx hne => ?_, hkept _ h.cwd⟩
  · rcases mem_putIn hx with rfl | hx
    · exact hnames
    · exact h.wellFormed.names x hx
  · rcases mem_putIn hx with rfl | hx
    · have hdrop : l.dropLast = home := by rw [hl, List.dropLast_concat]
      show (d.put l e).lookup l.dropLast = _
      rw [hdrop]
      exact hkept _ hhome
    · exact hkept _ (h.rooted x hx hne)

end Sound

theorem grown_put_file {d : Disk} {l : Location} (content : ByteArray)
    (hfree : d.lookup l = none ∨ ∃ content', d.lookup l = some (.file content')) :
    Grown d (d.put l (.file content)) := by
  have hl : l ≠ [] := by
    rintro rfl
    rcases hfree with hfree | ⟨content', hfree⟩ <;> cases hfree
  have hself := lookup_put_self d hl (.file content)
  have hdiffers : ∀ {loc e}, d.lookup loc = some e → (∀ content', e ≠ .file content') → loc ≠ l := by
    rintro loc e he hfile rfl
    rcases hfree with hfree | ⟨content', hfree⟩
    · rw [hfree] at he
      cases he
    · rw [hfree] at he
      exact hfile content' (Option.some.inj he).symm
  refine ⟨fun h => ?_, fun {loc content'} h => ?_, fun {loc target} => ⟨fun h => ?_, fun h => ?_⟩⟩
  · rw [lookup_put_of_ne d (hdiffers h (by simp)), h]
  · by_cases hloc : loc = l
    · exact ⟨content, hloc ▸ hself⟩
    · exact ⟨content', by rw [lookup_put_of_ne d hloc, h]⟩
  · rw [lookup_put_of_ne d (hdiffers h (by simp)), h]
  · by_cases hloc : loc = l
    · rw [hloc, hself] at h
      cases h
    · rwa [lookup_put_of_ne d hloc] at h

theorem grown_put_directory {d : Disk} {l : Location} (hfree : d.lookup l = none) :
    Grown d (d.put l .directory) := by
  have hl : l ≠ [] := by
    rintro rfl
    cases hfree
  have hself := lookup_put_self d hl .directory
  have hdiffers : ∀ {loc e}, d.lookup loc = some e → loc ≠ l := by
    rintro loc e he rfl
    rw [hfree] at he
    cases he
  refine ⟨fun h => ?_, fun {loc content'} h => ?_, fun {loc target} => ⟨fun h => ?_, fun h => ?_⟩⟩
  · rw [lookup_put_of_ne d (hdiffers h), h]
  · exact ⟨content', by rw [lookup_put_of_ne d (hdiffers h), h]⟩
  · rw [lookup_put_of_ne d (hdiffers h), h]
  · by_cases hloc : loc = l
    · rw [hloc, hself] at h
      cases h
    · rwa [lookup_put_of_ne d hloc] at h

theorem contentAt_put_file {d : Disk} {l : Location} (hl : l ≠ []) (content : ByteArray)
    (loc : Location) :
    (d.put l (.file content)).contentAt loc =
      if loc = l then some content else d.contentAt loc := by
  split_ifs with hloc
  · rw [hloc, contentAt_eq_some]
    exact lookup_put_self d hl _
  · exact contentAt_of_lookup_eq (lookup_put_of_ne d hloc _)

theorem contentAt_put_directory {d : Disk} {l : Location} (hfree : d.lookup l = none)
    (loc : Location) : (d.put l .directory).contentAt loc = d.contentAt loc := by
  by_cases hloc : loc = l
  · have hl : l ≠ [] := by
      rintro rfl
      cases hfree
    subst hloc
    rw [contentAt, lookup_put_self d hl, contentAt, hfree]
  · exact contentAt_of_lookup_eq (lookup_put_of_ne d hloc _)

/-! ## Operations -/

theorem write_eq_ok {d d' : Disk} {cwd : Location} {p : Path} {content : ByteArray} :
    d.write cwd p content = .ok d' ↔ Text.endsWith ['/'] p.text.toList = false ∧
      ∃ l, d.resolve cwd p true = .ok l ∧ d.lookup l ≠ some .directory ∧
        d' = d.put l (.file content) := by
  unfold write
  cases hslash : Text.endsWith ['/'] p.text.toList with
  | true =>
    simp only [if_true, Bool.true_eq_false, false_and, iff_false]
    cases d.resolveParent cwd p with
    | error e => simp [bind, Except.bind]
    | ok home =>
      simp only [bind, Except.bind]
      rcases d.lookup home with _ | (content' | _ | target) <;>
        simp [throw, throwThe, MonadExceptOf.throw]
  | false =>
    simp only [Bool.false_eq_true, if_false, true_and]
    cases d.resolve cwd p true with
    | error e => simp [bind, Except.bind]
    | ok l =>
      simp only [bind, Except.bind, pure, Except.pure, Except.ok.injEq, exists_eq_left']
      rcases d.lookup l with _ | (content' | _ | target) <;> simp [eq_comm]

/-- Creates a directory of some name in another one. -/
def makeIn (d : Disk) (home : Location) (name : Option String) : Except Fault Disk :=
  match d.lookup home, name with
  | none, _ => .error .notFound
  | some .directory, none => .error .exists
  | some .directory, some n =>
    if n = "." || n = ".." then .error .exists
    else if n.utf8ByteSize > 255 then .error .nameTooLong
    else
      match d.lookup (home ++ [n]) with
      | some _ => .error .exists
      | none => return d.put (home ++ [n]) .directory
  | some _, _ => .error .notDirectory

theorem makeDirectory_eq (d : Disk) (cwd : Location) (p : Path) :
    d.makeDirectory cwd p =
      if p.isEmpty then .error .notFound
      else if p.text.toList.contains '\x00' then .error .zeroByte
      else d.walk true maxLinks (p.start cwd) p.names.dropLast >>= fun home =>
        d.makeIn home p.names.getLast? := rfl

/-- Creating a directory puts it into another one, where there was nothing. -/
theorem makeDirectory_eq_ok {d d' : Disk} {cwd : Location} {p : Path} :
    d.makeDirectory cwd p = .ok d' ↔
      p.isEmpty = false ∧ p.text.toList.contains '\x00' = false ∧ ∃ ns n home,
        p.names = ns ++ [n] ∧ IsStep n ∧ Leads d maxLinks (p.start cwd) (ns ++ ["."]) home ∧
          d.lookup (home ++ [n]) = none ∧ d' = d.put (home ++ [n]) .directory := by
  rw [makeDirectory_eq]
  cases hempty : p.isEmpty with
  | true => simp
  | false =>
  cases hzero : p.text.toList.contains '\x00' with
  | true => simp
  | false =>
  simp only [Bool.false_eq_true, if_false, true_and]
  constructor
  · intro h
    cases hwalk : d.walk true maxLinks (p.start cwd) p.names.dropLast with
    | error e => rw [hwalk] at h; cases h
    | ok home =>
      rw [hwalk] at h
      change d.makeIn home p.names.getLast? = .ok d' at h
      unfold makeIn at h
      split at h
      · cases h
      · cases h
      · rename_i n hhome hn
        split_ifs at h with hpoint hlong
        split at h
        · cases h
        · rename_i hnone
          cases h
          simp only [Bool.or_eq_true, decide_eq_true_eq, not_or] at hpoint
          exact ⟨p.names.dropLast, n, home, (List.dropLast_append_getLast? n hn).symm,
            ⟨hpoint.1, hpoint.2, Nat.not_lt.1 hlong⟩,
            leads_dot_iff.2 ⟨walk_eq_ok.1 hwalk, hhome⟩, hnone, rfl⟩
      · cases h
  · rintro ⟨ns, n, home, hnames, hn, hleads, hnone, rfl⟩
    obtain ⟨hleads, hhome⟩ := leads_dot_iff.1 hleads
    rw [hnames, List.dropLast_concat, List.getLast?_concat, hleads.walk]
    show d.makeIn home (some n) = _
    unfold makeIn
    simp only [hhome, hn.ne_here, hn.ne_up, Nat.not_lt.2 hn.short, hnone, if_false, decide_false,
      Bool.or_self, Bool.false_eq_true]
    rfl

/-! ## Writing -/

/-- What a disk has become by writing: it has grown, and where the content of a file differs,
    something was written through a path that leads there. -/
structure Wrote (cwd : Location) (Q : Path → ByteArray → Prop) (d d' : Disk) : Prop where
  sound : d'.Sound cwd
  grown : Grown d d'
  content : ∀ loc, d'.contentAt loc = d.contentAt loc ∨
    ∃ p content, Q p content ∧ d'.resolve cwd p true = .ok loc ∧ d'.contentAt loc = some content

namespace Wrote

variable {cwd : Location} {Q : Path → ByteArray → Prop} {d d' d'' : Disk}

theorem refl (h : d.Sound cwd) : Wrote cwd Q d d := ⟨h, Grown.refl d, fun _ => .inl rfl⟩

theorem trans (h : Wrote cwd Q d d') (h' : Wrote cwd Q d' d'') : Wrote cwd Q d d'' := by
  refine ⟨h'.sound, h.grown.trans h'.grown, fun loc => ?_⟩
  rcases h'.content loc with hsame' | hchanged
  · rcases h.content loc with hsame | ⟨p, content, hp, hresolve, hcontent⟩
    · exact .inl (hsame'.trans hsame)
    · exact .inr ⟨p, content, hp, resolve_grown hresolve h'.grown, hsame'.trans hcontent⟩
  · exact .inr hchanged

theorem mono {Q' : Path → ByteArray → Prop} (h : Wrote cwd Q d d')
    (hQ : ∀ p content, Q p content → Q' p content) : Wrote cwd Q' d d' :=
  ⟨h.sound, h.grown, fun loc => (h.content loc).imp_right
    fun ⟨p, content, hp, hrest⟩ => ⟨p, content, hQ p content hp, hrest⟩⟩

end Wrote

section Operations

variable {cwd : Location} {Q : Path → ByteArray → Prop} {d d' : Disk} {p : Path}
  {content : ByteArray}

theorem Sound.put_resolved (h : d.Sound cwd) {l : Location} (hl : d.resolve cwd p true = .ok l)
    (hfree : d.lookup l ≠ some .directory) (content : ByteArray) :
    (d.put l (.file content)).Sound cwd ∧ Grown d (d.put l (.file content)) ∧ l ≠ [] := by
  obtain ⟨-, -, hleads⟩ := resolve_eq_ok.1 hl
  have hnames := h.isName hleads fun n hn => Path.isPiece_of_mem_steps hn
  rcases h.arrived hleads with hdirectory | ⟨home, n, rfl, -, hhome, hentry⟩
  · exact absurd hdirectory hfree
  · exact ⟨h.put rfl hhome hnames hfree _, grown_put_file content hentry, by simp⟩

/-- A file that was written has its content. -/
theorem content_of_write (h : d.Sound cwd) (hw : d.write cwd p content = .ok d') :
    ∃ l, d'.resolve cwd p true = .ok l ∧ d'.contentAt l = some content := by
  obtain ⟨-, l, hl, hfree, rfl⟩ := write_eq_ok.1 hw
  obtain ⟨-, hgrown, hne⟩ := h.put_resolved hl hfree content
  exact ⟨l, resolve_grown hl hgrown, by rw [contentAt_put_file hne, if_pos rfl]⟩

theorem wrote_write (h : d.Sound cwd) (hw : d.write cwd p content = .ok d') (hQ : Q p content) :
    Wrote cwd Q d d' := by
  obtain ⟨-, l, hl, hfree, rfl⟩ := write_eq_ok.1 hw
  obtain ⟨hsound, hgrown, hne⟩ := h.put_resolved hl hfree content
  refine ⟨hsound, hgrown, fun loc => ?_⟩
  rw [contentAt_put_file hne]
  split_ifs with hloc
  · exact .inr ⟨p, content, hQ, by rw [hloc]; exact resolve_grown hl hgrown, rfl⟩
  · exact .inl rfl

theorem wrote_makeDirectory (h : d.Sound cwd) (hm : d.makeDirectory cwd p = .ok d') :
    Wrote cwd Q d d' := by
  obtain ⟨-, -, ns, n, home, hnames, hn, hleads, hnone, rfl⟩ := makeDirectory_eq_ok.1 hm
  have hhome := (leads_dot_iff.1 hleads).2
  have hname : ∀ x ∈ home ++ [n], Path.IsName x := by
    intro x hx
    have hpieces : ∀ y ∈ p.names, Path.IsPiece y := fun y hy => Path.isPiece_of_mem_names hy
    rw [hnames] at hpieces
    rcases List.mem_append.1 hx with hx | hx
    · refine h.isName (leads_dot_iff.1 hleads).1 (fun y hy => ?_) x hx
      exact hpieces y (List.mem_append_left _ hy)
    · rw [List.mem_singleton.1 hx]
      exact (hpieces n (by simp)).isName hn.ne_here hn.ne_up
  refine ⟨h.put rfl hhome hname (by rw [hnone]; simp) _, grown_put_directory hnone, fun loc => ?_⟩
  exact .inl (contentAt_put_directory hnone loc)

theorem wrote_makeDirectoriesUpTo (h : d.Sound cwd) (depth : Nat) :
    ∀ {p d'}, d.makeDirectoriesUpTo cwd depth p = .ok d' → Wrote cwd Q d d' := by
  induction depth with
  | zero => intro p d' hm; cases hm
  | succ depth ih =>
    intro p d' hm
    rw [makeDirectoriesUpTo] at hm
    split at hm
    · cases hm
      exact .refl h
    · split at hm
      · rename_i hp
        cases hm
        exact wrote_makeDirectory h hp
      · split at hm
        · cases hm
        · split at hm
          · cases hm
          · rename_i d₁ habove
            have hwrote := ih habove
            split at hm
            · rename_i hp
              cases hm
              exact hwrote.trans (wrote_makeDirectory hwrote.sound hp)
            · split_ifs at hm
              cases hm
              exact hwrote
      · split_ifs at hm
        cases hm
        exact .refl h

theorem wrote_makeDirectories (h : d.Sound cwd) (hm : d.makeDirectories cwd p = .ok d') :
    Wrote cwd Q d d' :=
  wrote_makeDirectoriesUpTo h _ hm

/-- What a file holds that was copied to a location. A file copied onto itself is emptied. -/
def copied (origin l : Location) (content : ByteArray) : ByteArray :=
  if origin = l then ByteArray.empty else content

/-- A disk with a file copied to a location. -/
def putCopy (d : Disk) (origin l : Location) (content : ByteArray) : Disk :=
  if origin = l then d.put l (.file ByteArray.empty)
  else (d.put l (.file ByteArray.empty)).put l (.file content)

theorem lookup_putCopy_self (d : Disk) {origin l : Location} (hl : l ≠ [])
    (content : ByteArray) :
    (d.putCopy origin l content).lookup l = some (.file (copied origin l content)) := by
  unfold putCopy copied
  split_ifs
  · exact lookup_put_self d hl _
  · exact lookup_put_self _ hl _

theorem lookup_putCopy_of_ne (d : Disk) {origin l loc : Location} (h : loc ≠ l)
    (content : ByteArray) : (d.putCopy origin l content).lookup loc = d.lookup loc := by
  unfold putCopy
  split_ifs
  · exact lookup_put_of_ne d h _
  · rw [lookup_put_of_ne _ h, lookup_put_of_ne d h]

theorem copy_eq_ok {source : Path} :
    d.copy cwd source p = .ok d' ↔ ∃ origin l content,
      d.resolve cwd source true = .ok origin ∧ d.contentAt origin = some content ∧
        Text.endsWith ['/'] p.text.toList = false ∧ d.resolve cwd p true = .ok l ∧
          d.lookup l ≠ some .directory ∧ d' = d.putCopy origin l content := by
  have hentry : ∀ content, d.entryAt cwd source = .ok (.file content) ↔
      ∃ origin, d.resolve cwd source true = .ok origin ∧ d.contentAt origin = some content := by
    intro content
    unfold entryAt
    cases d.resolve cwd source true with
    | error e => simp [bind, Except.bind]
    | ok origin =>
      simp only [bind, Except.bind, Except.ok.injEq, exists_eq_left', contentAt_eq_some]
      rcases d.lookup origin with _ | e <;> simp [pure, Except.pure]
  constructor
  · intro h
    unfold copy at h
    rcases hsource : d.entryAt cwd source with e | (content | _ | target)
    · rw [hsource] at h; cases h
    · obtain ⟨origin, horigin, hcontent⟩ := (hentry content).1 hsource
      rw [hsource] at h
      change (d.write cwd p ByteArray.empty >>= fun emptied => _) = _ at h
      rcases hw : d.write cwd p ByteArray.empty with e | emptied
      · rw [hw] at h; cases h
      · obtain ⟨hslash, l, hl, hfree, rfl⟩ := write_eq_ok.1 hw
        rw [hw, horigin, hl] at h
        refine ⟨origin, l, content, horigin, hcontent, hslash, hl, hfree, ?_⟩
        unfold putCopy
        change (if origin = l then pure _ else pure _) = _ at h
        split_ifs at h ⊢ <;> cases h <;> rfl
    · rw [hsource] at h; cases h
    · rw [hsource] at h; cases h
  · rintro ⟨origin, l, content, horigin, hcontent, hslash, hl, hfree, rfl⟩
    unfold copy putCopy
    rw [(hentry content).2 ⟨origin, horigin, hcontent⟩,
      write_eq_ok.2 ⟨hslash, l, hl, hfree, rfl⟩, horigin, hl]
    show (if origin = l then pure _ else pure _) = _
    split_ifs <;> rfl

theorem wrote_copy (h : d.Sound cwd) {source : Path} (hc : d.copy cwd source p = .ok d')
    (hQ : ∀ content, Q p content) : Wrote cwd Q d d' := by
  obtain ⟨origin, l, content, -, -, hslash, hl, hfree, rfl⟩ := copy_eq_ok.1 hc
  have hemptied : d.write cwd p ByteArray.empty = .ok (d.put l (.file ByteArray.empty)) :=
    write_eq_ok.2 ⟨hslash, l, hl, hfree, rfl⟩
  have hwrote := wrote_write h hemptied (hQ _)
  unfold putCopy
  split_ifs
  · exact hwrote
  · refine hwrote.trans (wrote_write hwrote.sound (write_eq_ok.2 ⟨hslash, l, ?_, ?_, rfl⟩) (hQ _))
    · exact resolve_grown hl hwrote.grown
    · rw [lookup_put_self d (h.put_resolved hl hfree content).2.2]
      simp

end Operations

end Tracepoint.Disk
