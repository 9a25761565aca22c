import Tracepoint.Proofs.Disk.Repeat

/-!
# Operations that are done again

An operation has turned one disk into another. Done again on a disk that has grown out of its
result, it succeeds again: directories are there, and each file that it wrote gets the same
content. Only what was written over in the meantime changes back.

Results:

* `Redone`: what an operation that is done again changes.
* `Redone.lookup_eq`: what comes of it if nothing of that kind was written in between.
* `makeDirectories_of_made`, `write_redone`, `copy_redone`: the operations one by one.
-/

namespace Tracepoint.Disk

variable {cwd : Location} {Q : Path → Prop} {d d' d'' e e' e'' : Disk} {p : Path}

/-- An operation that turned `d` into `d'` turns `e` into `e'` when it is done again. Nothing but
    the contents of files changes, and these change to what they became the first time. -/
structure Redone (cwd : Location) (Q : Path → Prop) (d d' e e' : Disk) : Prop where
  sound : e'.Sound cwd
  grown : Grown e e'
  shrunk : Grown e' e
  content : ∀ loc, (e'.lookup loc = e.lookup loc ∧ d'.contentAt loc = d.contentAt loc) ∨
    ∃ p content, Q p ∧ e.resolve cwd p true = .ok loc ∧ e'.lookup loc = some (.file content) ∧
      d'.contentAt loc = some content

namespace Redone

/-- An operation that has nothing left to do. -/
theorem of_kept (h : e.Sound cwd) (hd : ∀ loc, d'.contentAt loc = d.contentAt loc) :
    Redone cwd Q d d' e e :=
  ⟨h, Grown.refl e, Grown.refl e, fun loc => .inl ⟨rfl, hd loc⟩⟩

theorem trans (h : Redone cwd Q d d' e e') (h' : Redone cwd Q d' d'' e' e'') :
    Redone cwd Q d d'' e e'' := by
  refine ⟨h'.sound, h.grown.trans h'.grown, h'.shrunk.trans h.shrunk, fun loc => ?_⟩
  rcases h'.content loc with ⟨hsame', hcontent'⟩ | ⟨p, content, hp, hresolve, hrest⟩
  · rcases h.content loc with ⟨hsame, hcontent⟩ | ⟨p, content, hp, hresolve, hlookup, hcontent⟩
    · exact .inl ⟨hsame'.trans hsame, hcontent'.trans hcontent⟩
    · exact .inr ⟨p, content, hp, hresolve, hsame'.trans hlookup, hcontent'.trans hcontent⟩
  · exact .inr ⟨p, content, hp, resolve_grown hresolve h.shrunk, hrest⟩

theorem mono {Q' : Path → Prop} (h : Redone cwd Q d d' e e') (hQ : ∀ p, Q p → Q' p) :
    Redone cwd Q' d d' e e' :=
  ⟨h.sound, h.grown, h.shrunk, fun loc => (h.content loc).imp_right
    fun ⟨p, content, hp, hrest⟩ => ⟨p, content, hQ p hp, hrest⟩⟩

/-- A file that gets the same content again. -/
theorem of_file {l : Location} {content old : ByteArray} (hQ : Q p) (hsound : e'.Sound cwd)
    (hl : e.resolve cwd p true = .ok l) (hold : e.lookup l = some (.file old))
    (hself : e'.lookup l = some (.file content))
    (hother : ∀ loc, loc ≠ l → e'.lookup loc = e.lookup loc)
    (hd : d'.contentAt l = some content)
    (hd' : ∀ loc, loc ≠ l → d'.contentAt loc = d.contentAt loc) : Redone cwd Q d d' e e' := by
  have hgrown : ∀ {a b : Disk} {x y : ByteArray}, a.lookup l = some (.file x) →
      b.lookup l = some (.file y) → (∀ loc, loc ≠ l → b.lookup loc = a.lookup loc) →
      Grown a b := by
    intro a b x y ha hb hab
    refine ⟨fun {loc} h => ?_, fun {loc z} h => ?_, fun {loc target} => ?_⟩
    all_goals by_cases hloc : loc = l
    · rw [hloc, ha] at h
      cases h
    · rw [hab loc hloc, h]
    · exact ⟨y, by rw [hloc, hb]⟩
    · exact ⟨z, by rw [hab loc hloc, h]⟩
    · rw [hloc, ha, hb]
      simp
    · rw [hab loc hloc]
  refine ⟨hsound, hgrown hold hself hother,
    hgrown hself hold fun loc hloc => (hother loc hloc).symm, fun loc => ?_⟩
  by_cases hloc : loc = l
  · subst hloc
    exact .inr ⟨p, content, hQ, hl, hself, hd⟩
  · exact .inl ⟨hother loc hloc, hd' loc hloc⟩

/-- Three operations turned one disk into another: `d` into `d₁`, `d₁` into `d₂` and `d₂` into
    `e`. If the first and the last are done again and the one between has written elsewhere, all
    is as before. -/
theorem lookup_eq {d₁ d₂ : Disk} {Q' : Path → Prop} {P : Path → ByteArray → Prop}
    (hfirst : Redone cwd Q d d₁ e e') (hbetween : Wrote cwd P d₁ d₂) (hg : Grown d₂ e)
    (hlast : Redone cwd Q' d₂ e e' e'') (hapart : ∀ p content, P p content → ∀ q, Q q → ∀ loc,
      e.resolve cwd p true = .ok loc → e.resolve cwd q true ≠ .ok loc) (loc : Location) :
    e''.lookup loc = e.lookup loc := by
  rcases hlast.content loc with ⟨hsame', hcontent'⟩ | ⟨-, content, -, -, hlookup, hcontent⟩
  · rw [hsame']
    rcases hfirst.content loc with ⟨hsame, -⟩ | ⟨q, content, hq, hloc, hlookup, hcontent⟩
    · exact hsame
    · rcases hbetween.content loc with hkept | ⟨p, _, hp, hloc', -⟩
      · rw [hkept, hcontent] at hcontent'
        rw [hlookup, contentAt_eq_some.1 hcontent']
      · exact absurd hloc (hapart p _ hp q hq loc (resolve_grown hloc' hg))
  · rw [hlookup, contentAt_eq_some.1 hcontent]

end Redone

/-! ## Directories -/

theorem makeDirectories_of_made (h : d.makeDirectories cwd p = .ok d') (hg : Grown d' e) :
    e.makeDirectories cwd p = .ok e := by
  cases hp : p.isEmpty with
  | true => exact makeDirectories_of_isEmpty hp
  | false =>
    exact makeDirectories_of_isDirectory
      (isDirectory_grown (isDirectory_of_makeDirectories h hp) hg)

/-- Where nothing was written, contents stay as they are. -/
theorem Wrote.contentAt (h : Wrote cwd (fun _ _ => False) d d') (loc : Location) :
    d'.contentAt loc = d.contentAt loc := by
  rcases h.content loc with hsame | ⟨_, _, hfalse, _⟩
  · exact hsame
  · exact hfalse.elim

/-- The directory that holds a path is there when it was created once. -/
theorem makeHome_of_made (h : d.makeHome cwd p = .ok d') (hg : Grown d' e) :
    e.makeHome cwd p = .ok e := by
  unfold makeHome at h ⊢
  cases hparent : p.parent? with
  | none => rfl
  | some above =>
    rw [hparent] at h
    exact makeDirectories_of_made h hg

/-! ## Files -/

theorem write_redone {content : ByteArray} (hd : d.Sound cwd)
    (h : d.write cwd p content = .ok d') (hg : Grown d' e) (he : e.Sound cwd) (hQ : Q p) :
    ∃ e', e.write cwd p content = .ok e' ∧ Redone cwd Q d d' e e' := by
  obtain ⟨hslash, l, hl, hfree, rfl⟩ := write_eq_ok.1 h
  obtain ⟨-, hgrown, hne⟩ := hd.put_resolved hl hfree content
  have hl' := resolve_grown hl (hgrown.trans hg)
  obtain ⟨old, hold⟩ := hg.file (lookup_put_self d hne (.file content))
  have hfree' : e.lookup l ≠ some .directory := by rw [hold]; simp
  refine ⟨_, write_eq_ok.2 ⟨hslash, l, hl', hfree', rfl⟩,
    .of_file hQ (he.put_resolved hl' hfree' content).1 hl' hold (lookup_put_self e hne _)
      (fun loc hloc => lookup_put_of_ne e hloc _) ?_ fun loc hloc => ?_⟩
  · rw [contentAt_put_file hne, if_pos rfl]
  · rw [contentAt_put_file hne, if_neg hloc]

/-- A file can be copied again, and gets the same content if its origin has stayed the same. -/
theorem copy_redone {source : Path} (hd : d.Sound cwd) (h : d.copy cwd source p = .ok d')
    (hg : Grown d' e) (he : e.Sound cwd) (hQ : Q p)
    (hsource : ∀ origin, e.resolve cwd source true = .ok origin →
      e.contentAt origin = d.contentAt origin) :
    ∃ e', e.copy cwd source p = .ok e' ∧ Redone cwd Q d d' e e' ∧
      ∃ l, e.resolve cwd p true = .ok l ∧ e'.contentAt l = d'.contentAt l := by
  have hwrote := wrote_copy (Q := fun _ _ => True) hd h fun _ => trivial
  obtain ⟨origin, l, content, horigin, hcontent, hslash, hl, hfree, rfl⟩ := copy_eq_ok.1 h
  obtain ⟨-, -, hne⟩ := hd.put_resolved hl hfree content
  have horigin' := resolve_grown horigin (hwrote.grown.trans hg)
  have hl' := resolve_grown hl (hwrote.grown.trans hg)
  have hcopied : (d.putCopy origin l content).lookup l = some (.file (copied origin l content)) :=
    lookup_putCopy_self d hne content
  obtain ⟨old, hold⟩ := hg.file hcopied
  have hfree' : e.lookup l ≠ some .directory := by rw [hold]; simp
  have hcopy : e.copy cwd source p = .ok (e.putCopy origin l content) :=
    copy_eq_ok.2 ⟨origin, l, content, horigin', (hsource origin horigin').trans hcontent, hslash,
      hl', hfree', rfl⟩
  have hself := contentAt_eq_some.2 hcopied
  have hself' : (e.putCopy origin l content).lookup l = some (.file (copied origin l content)) :=
    lookup_putCopy_self e hne content
  refine ⟨_, hcopy, .of_file hQ (wrote_copy (Q := fun _ _ => True) he hcopy fun _ => trivial).sound
    hl' hold hself' (fun loc hloc => lookup_putCopy_of_ne e hloc _) hself fun loc hloc => ?_,
    l, hl', by rw [contentAt_eq_some.2 hself', hself]⟩
  exact contentAt_of_lookup_eq (lookup_putCopy_of_ne d hloc _)

end Tracepoint.Disk
