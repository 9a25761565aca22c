import Tracepoint.Proofs.Path

/-!
# Where paths lead

Following names from a location either leads to a location or ends in a fault. Names that
lead somewhere lead to a directory first, at every name but the last, so what they do can be
cut at each name: the first names lead to a directory, and the others lead on from there.

Results:

* `walk_eq_ok`: following names, as a relation.
* `Leads.unique`: names lead to one location, whatever number of links is allowed.
* `Leads.cut`, `Leads.walk_append`: names that lead on from a directory.
* `leads_dot_iff`: a point at the end asks for a directory.
* `Leads.arrived`: what is at the end of names, if every entry lies in a directory.
-/

namespace Tracepoint

/-- Where a path starts that is met at a location. -/
def Path.start (p : Path) (loc : Location) : Location := if p.isAbsolute then [] else loc

namespace Disk

/-- Contents are the same if their bytes are. -/
instance : DecidableEq Entry
  | .file c, .file c' =>
    decidable_of_iff (c.data = c'.data) (by rw [Entry.file.injEq, ByteArray.ext_iff])
  | .link p, .link q => decidable_of_iff (p = q) (by rw [Entry.link.injEq])
  | .directory, .directory => isTrue rfl
  | .file _, .directory | .file _, .link _ | .directory, .file _ | .directory, .link _
  | .link _, .file _ | .link _, .directory => isFalse (by simp)

/-! ## Steps -/

/-- A name that an entry can have. -/
structure IsStep (n : String) : Prop where
  ne_here : n ≠ "."
  ne_up : n ≠ ".."
  short : n.utf8ByteSize ≤ 255

/-- How names are followed after a link, if so many links may be followed. -/
def next (d : Disk) : Nat → Location → List String → Except Fault Location
  | 0, _, _ => .error .linkLoop
  | links + 1, loc, ns => d.walk true links loc ns

section Steps

variable {d : Disk} {links : Nat} {loc : Location} {n : String} {ns : List String}

theorem walk_eq (d : Disk) (links : Nat) : d.walk true links = d.walkNames true (d.next links) := by
  cases links <;> rfl

@[simp] theorem walk_nil : d.walk true links loc [] = .ok loc := by
  rw [walk_eq]
  rfl

theorem walk_of_none (h : d.lookup loc = none) :
    d.walk true links loc (n :: ns) = .error .notFound := by
  rw [walk_eq, walkNames, h]

theorem walk_here (h : d.lookup loc = some .directory) :
    d.walk true links loc ("." :: ns) = d.walk true links loc ns := by
  rw [walk_eq, walkNames, h]
  rfl

theorem walk_up (h : d.lookup loc = some .directory) :
    d.walk true links loc (".." :: ns) = d.walk true links loc.dropLast ns := by
  rw [walk_eq, walkNames, h]
  rfl

theorem walk_long (h : d.lookup loc = some .directory) (hhere : n ≠ ".") (hup : n ≠ "..")
    (hlong : n.utf8ByteSize > 255) :
    d.walk true links loc (n :: ns) = .error .nameTooLong := by
  rw [walk_eq, walkNames, h]
  simp [hhere, hup, hlong]

theorem walk_down (h : d.lookup loc = some .directory) (hn : IsStep n) {e : Entry}
    (he : d.lookup (loc ++ [n]) = some e) (hlink : ∀ target, e ≠ .link target) :
    d.walk true links loc (n :: ns) = d.walk true links (loc ++ [n]) ns := by
  rw [walk_eq, walkNames, h]
  simp only [hn.ne_here, hn.ne_up, Nat.not_lt.2 hn.short, if_false, he]

theorem walk_fresh (h : d.lookup loc = some .directory) (hn : IsStep n)
    (he : d.lookup (loc ++ [n]) = none) :
    d.walk true links loc (n :: ns) =
      if ns = [] then .ok (loc ++ [n]) else .error .notFound := by
  rw [walk_eq, walkNames, h]
  simp only [hn.ne_here, hn.ne_up, Nat.not_lt.2 hn.short, if_false, he]

theorem walk_follow (h : d.lookup loc = some .directory) (hn : IsStep n) {target : Path}
    (he : d.lookup (loc ++ [n]) = some (.link target)) :
    d.walk true links loc (n :: ns) = d.next links (target.start loc) (steps target ++ ns) := by
  rw [walk_eq, walkNames, h]
  simp only [hn.ne_here, hn.ne_up, Nat.not_lt.2 hn.short, if_false, he, Bool.not_true,
    Bool.and_false, Bool.false_eq_true]
  rfl

end Steps

/-! ## The relation -/

/-- Names lead from a location to another one, over at most so many links. -/
inductive Leads (d : Disk) : Nat → Location → List String → Location → Prop
  | stop {links : Nat} {loc : Location} : Leads d links loc [] loc
  | here {links : Nat} {loc l : Location} {ns : List String}
      (h : d.lookup loc = some .directory) (rest : Leads d links loc ns l) :
      Leads d links loc ("." :: ns) l
  | up {links : Nat} {loc l : Location} {ns : List String}
      (h : d.lookup loc = some .directory) (rest : Leads d links loc.dropLast ns l) :
      Leads d links loc (".." :: ns) l
  | down {links : Nat} {loc l : Location} {n : String} {ns : List String} {e : Entry}
      (h : d.lookup loc = some .directory) (hn : IsStep n)
      (he : d.lookup (loc ++ [n]) = some e) (hlink : ∀ target, e ≠ .link target)
      (rest : Leads d links (loc ++ [n]) ns l) : Leads d links loc (n :: ns) l
  | fresh {links : Nat} {loc : Location} {n : String} (h : d.lookup loc = some .directory)
      (hn : IsStep n) (he : d.lookup (loc ++ [n]) = none) : Leads d links loc [n] (loc ++ [n])
  | follow {links : Nat} {loc l : Location} {n : String} {ns : List String} {target : Path}
      (h : d.lookup loc = some .directory) (hn : IsStep n)
      (he : d.lookup (loc ++ [n]) = some (.link target))
      (rest : Leads d links (target.start loc) (steps target ++ ns) l) :
      Leads d (links + 1) loc (n :: ns) l

variable {d : Disk} {links : Nat} {loc l : Location} {ns : List String}

theorem Leads.walk (h : Leads d links loc ns l) : d.walk true links loc ns = .ok l := by
  induction h with
  | stop => exact walk_nil
  | here h _ ih => rw [walk_here h, ih]
  | up h _ ih => rw [walk_up h, ih]
  | down h hn he hlink _ ih => rw [walk_down h hn he hlink, ih]
  | fresh h hn he => rw [walk_fresh h hn he, if_pos rfl]
  | follow h hn he _ ih => rw [walk_follow h hn he, next, ih]

theorem leads_of_walk (h : d.walk true links loc ns = .ok l) : Leads d links loc ns l := by
  induction links using Nat.strong_induction_on generalizing loc ns l with
  | _ links ihlinks =>
    induction ns generalizing loc l with
    | nil =>
      rw [walk_nil] at h
      cases h
      exact .stop
    | cons n ns ih =>
      rcases hloc : d.lookup loc with _ | (content | _ | target)
      · rw [walk_of_none hloc] at h
        cases h
      · rw [walk_eq, walkNames, hloc] at h
        cases h
      · by_cases hhere : n = "."
        · subst hhere
          rw [walk_here hloc] at h
          exact .here hloc (ih h)
        by_cases hup : n = ".."
        · subst hup
          rw [walk_up hloc] at h
          exact .up hloc (ih h)
        by_cases hlong : n.utf8ByteSize > 255
        · rw [walk_long hloc hhere hup hlong] at h
          cases h
        have hn : IsStep n := ⟨hhere, hup, Nat.not_lt.1 hlong⟩
        rcases he : d.lookup (loc ++ [n]) with _ | (content | _ | target)
        · rw [walk_fresh hloc hn he] at h
          split_ifs at h with hns
          cases h
          subst hns
          exact .fresh hloc hn he
        · rw [walk_down hloc hn he (by simp)] at h
          exact .down hloc hn he (by simp) (ih h)
        · rw [walk_down hloc hn he (by simp)] at h
          exact .down hloc hn he (by simp) (ih h)
        · rw [walk_follow hloc hn he] at h
          cases links with
          | zero => cases h
          | succ links => exact .follow hloc hn he (ihlinks links (Nat.lt_succ_self _) h)
      · rw [walk_eq, walkNames, hloc] at h
        cases h

/-- Following names, as a relation. -/
theorem walk_eq_ok : d.walk true links loc ns = .ok l ↔ Leads d links loc ns l :=
  ⟨leads_of_walk, Leads.walk⟩

namespace Leads

theorem mono {links' : Nat} (h : Leads d links loc ns l) (hle : links ≤ links') :
    Leads d links' loc ns l := by
  induction h generalizing links' with
  | stop => exact .stop
  | here h _ ih => exact .here h (ih hle)
  | up h _ ih => exact .up h (ih hle)
  | down h hn he hlink _ ih => exact .down h hn he hlink (ih hle)
  | fresh h hn he => exact .fresh h hn he
  | follow h hn he _ ih =>
    obtain ⟨k, rfl⟩ := Nat.exists_eq_add_of_lt (Nat.lt_of_succ_le hle)
    exact .follow h hn he (ih (by omega))

/-- Names lead to one location, whatever number of links is allowed. -/
theorem unique {links' : Nat} {l' : Location} (h : Leads d links loc ns l)
    (h' : Leads d links' loc ns l') : l = l' := by
  have hwalk := (h.mono (Nat.le_max_left links links')).walk
  rw [(h'.mono (Nat.le_max_right links links')).walk] at hwalk
  exact (Except.ok.inj hwalk).symm

/-- Names that are no points lead down, where no links are in the way. -/
theorem eq_append (h : Leads d links loc ns l) (hns : ∀ n ∈ ns, n ≠ "." ∧ n ≠ "..")
    (hlinks : ∀ init, init <+: ns → init ≠ [] → ∀ target,
      d.lookup (loc ++ init) ≠ some (.link target)) : l = loc ++ ns := by
  induction h with
  | stop => rw [List.append_nil]
  | here => exact absurd rfl (hns _ List.mem_cons_self).1
  | up => exact absurd rfl (hns _ List.mem_cons_self).2
  | @down links loc l n ns e h hn he hlink rest ih =>
    rw [ih (List.forall_mem_cons.1 hns).2 fun init hinit _ target => ?_, List.append_assoc]
    · rfl
    · rw [List.append_assoc]
      exact hlinks (n :: init) (by simpa using hinit) (by simp) target
  | fresh => rfl
  | @follow links loc l n ns target h hn he rest ih =>
    exact absurd he (hlinks [n] (by simp) (by simp) target)

/-- Names are followed from directories only. -/
theorem directory (h : Leads d links loc ns l) (hns : ns ≠ []) :
    d.lookup loc = some .directory := by
  cases h with
  | stop => exact absurd rfl hns
  | here h | up h | down h | fresh h | follow h => exact h

/-- The first names lead to a directory, and the others lead on from there. -/
theorem cut {xs ys : List String} (h : Leads d links loc (xs ++ ys) l) (hys : ys ≠ []) :
    ∃ mid links', links' ≤ links ∧ Leads d links loc xs mid ∧ d.lookup mid = some .directory ∧
      Leads d links' mid ys l := by
  generalize hns : xs ++ ys = ns at h
  induction h generalizing xs with
  | stop => exact absurd (List.append_eq_nil_iff.1 hns).2 hys
  | @here links loc l ns h rest ih =>
    cases xs with
    | nil => exact ⟨loc, links, le_rfl, .stop, h, by subst hns; exact .here h rest⟩
    | cons x xs =>
      obtain ⟨rfl, rfl⟩ := List.cons.inj hns
      obtain ⟨mid, links', hle, hfirst, hmid, hlast⟩ := ih rfl
      exact ⟨mid, links', hle, .here h hfirst, hmid, hlast⟩
  | @up links loc l ns h rest ih =>
    cases xs with
    | nil => exact ⟨loc, links, le_rfl, .stop, h, by subst hns; exact .up h rest⟩
    | cons x xs =>
      obtain ⟨rfl, rfl⟩ := List.cons.inj hns
      obtain ⟨mid, links', hle, hfirst, hmid, hlast⟩ := ih rfl
      exact ⟨mid, links', hle, .up h hfirst, hmid, hlast⟩
  | @down links loc l n ns e h hn he hlink rest ih =>
    cases xs with
    | nil => exact ⟨loc, links, le_rfl, .stop, h, by subst hns; exact .down h hn he hlink rest⟩
    | cons x xs =>
      obtain ⟨rfl, rfl⟩ := List.cons.inj hns
      obtain ⟨mid, links', hle, hfirst, hmid, hlast⟩ := ih rfl
      exact ⟨mid, links', hle, .down h hn he hlink hfirst, hmid, hlast⟩
  | @fresh links loc n h hn he =>
    cases xs with
    | nil => exact ⟨loc, links, le_rfl, .stop, h, by subst hns; exact .fresh h hn he⟩
    | cons x xs => exact absurd (List.append_eq_nil_iff.1 (List.cons.inj hns).2).2 hys
  | @follow links loc l n ns target h hn he rest ih =>
    cases xs with
    | nil => exact ⟨loc, links + 1, le_rfl, .stop, h, by subst hns; exact .follow h hn he rest⟩
    | cons x xs =>
      obtain ⟨rfl, rfl⟩ := List.cons.inj hns
      obtain ⟨mid, links', hle, hfirst, hmid, hlast⟩ :=
        ih (List.append_assoc (steps target) xs ys)
      exact ⟨mid, links', Nat.le_succ_of_le hle, .follow h hn he hfirst, hmid, hlast⟩

end Leads

/-- A point at the end asks for a directory. -/
theorem leads_dot_iff :
    Leads d links loc (ns ++ ["."]) l ↔ Leads d links loc ns l ∧ d.lookup l = some .directory := by
  constructor
  · intro h
    obtain ⟨mid, links', -, hfirst, hmid, hlast⟩ := h.cut (List.cons_ne_nil _ _)
    obtain rfl : l = mid := Except.ok.inj (by rw [← hlast.walk, walk_here hmid, walk_nil])
    exact ⟨hfirst, hmid⟩
  · rintro ⟨h, hl⟩
    induction h with
    | stop => exact .here hl .stop
    | here h _ ih => exact .here h (ih hl)
    | up h _ ih => exact .up h (ih hl)
    | down h hn he hlink _ ih => exact .down h hn he hlink (ih hl)
    | fresh _ _ he => rw [he] at hl; cases hl
    | follow h hn he _ ih =>
      have hrest := ih hl
      rw [List.append_assoc] at hrest
      exact .follow h hn he hrest

namespace Leads

/-- Names are cut where a point can stand between them. -/
theorem split {xs ys : List String} (h : Leads d links loc (xs ++ ys) l) (hys : ys ≠ []) :
    ∃ mid links', links' ≤ links ∧ Leads d links loc (xs ++ ["."]) mid ∧
      Leads d links' mid ys l := by
  obtain ⟨mid, links', hle, hfirst, hmid, hlast⟩ := h.cut hys
  exact ⟨mid, links', hle, leads_dot_iff.2 ⟨hfirst, hmid⟩, hlast⟩

/-- Names that lead to a directory, followed by others. -/
theorem walk_append {xs : List String} {mid : Location}
    (h : Leads d links loc (xs ++ ["."]) mid) :
    ∃ links', ∀ ys, ys ≠ [] →
      d.walk true links loc (xs ++ ys) = d.walk true links' mid ys := by
  obtain ⟨hxs, hmid⟩ := leads_dot_iff.1 h
  clear h
  induction hxs with
  | @stop links loc => exact ⟨links, fun ys _ => rfl⟩
  | here h _ ih =>
    obtain ⟨links', hwalk⟩ := ih hmid
    exact ⟨links', fun ys hys => by rw [List.cons_append, walk_here h, hwalk ys hys]⟩
  | up h _ ih =>
    obtain ⟨links', hwalk⟩ := ih hmid
    exact ⟨links', fun ys hys => by rw [List.cons_append, walk_up h, hwalk ys hys]⟩
  | down h hn he hlink _ ih =>
    obtain ⟨links', hwalk⟩ := ih hmid
    exact ⟨links', fun ys hys => by rw [List.cons_append, walk_down h hn he hlink, hwalk ys hys]⟩
  | fresh _ _ he =>
    rw [he] at hmid
    cases hmid
  | follow h hn he _ ih =>
    obtain ⟨links', hwalk⟩ := ih hmid
    exact ⟨links', fun ys hys => by
      rw [List.cons_append, walk_follow h hn he, next, ← hwalk ys hys, List.append_assoc]⟩

end Leads

/-- Points in the middle of names do not count. -/
theorem leads_dots_iff {xs dots ys : List String} (hdots : ∀ n ∈ dots, n = ".") (hys : ys ≠ []) :
    Leads d links loc (xs ++ dots ++ ys) l ↔ Leads d links loc (xs ++ ys) l := by
  have hone : ∀ {zs : List String}, zs ≠ [] → ∀ {links loc}, d.walk true links loc ("." :: zs) =
      d.walk true links loc zs := by
    intro zs hzs links loc
    obtain ⟨z, zs, rfl⟩ := List.exists_cons_of_ne_nil hzs
    rcases hloc : d.lookup loc with _ | (content | _ | target)
    · rw [walk_of_none hloc, walk_of_none hloc]
    · rw [walk_eq, walkNames, walkNames, hloc]
    · exact walk_here hloc
    · rw [walk_eq, walkNames, walkNames, hloc]
  have hall : ∀ {links loc}, d.walk true links loc (dots ++ ys) = d.walk true links loc ys := by
    intro links loc
    induction dots with
    | nil => rfl
    | cons n dots ih =>
      obtain rfl := hdots n List.mem_cons_self
      rw [List.cons_append, hone (List.append_ne_nil_of_right_ne_nil _ hys)]
      exact ih fun n hn => hdots n (List.mem_cons_of_mem _ hn)
  rw [List.append_assoc]
  constructor
  · intro h
    obtain ⟨mid, -, -, hfirst, -⟩ := h.split (List.append_ne_nil_of_right_ne_nil _ hys)
    obtain ⟨links', hwalk⟩ := hfirst.walk_append
    rw [← walk_eq_ok, hwalk ys hys, ← hall, ← hwalk _ (List.append_ne_nil_of_right_ne_nil _ hys)]
    exact h.walk
  · intro h
    obtain ⟨mid, -, -, hfirst, -⟩ := h.split hys
    obtain ⟨links', hwalk⟩ := hfirst.walk_append
    rw [← walk_eq_ok, hwalk _ (List.append_ne_nil_of_right_ne_nil _ hys), hall, ← hwalk ys hys]
    exact h.walk

/-! ## What is reached -/

/-- Every entry lies in a directory. -/
def Rooted (d : Disk) : Prop :=
  ∀ e ∈ d.entries, e.1 ≠ [] → d.lookup e.1.dropLast = some .directory

instance (d : Disk) : Decidable d.Rooted :=
  inferInstanceAs (Decidable (∀ e ∈ d.entries, e.1 ≠ [] → d.lookup e.1.dropLast = some .directory))

theorem mem_entries_of_lookup {e : Entry} (hloc : loc ≠ []) (h : d.lookup loc = some e) :
    (loc, e) ∈ d.entries := by
  rw [lookup, if_neg hloc] at h
  obtain ⟨before, after, hentries, -⟩ := List.lookup_eq_some_iff.1 h
  rw [hentries]
  simp

@[simp] theorem lookup_nil (d : Disk) : d.lookup [] = some .directory := rfl

theorem Rooted.dropLast (hd : d.Rooted) (h : d.lookup loc = some .directory) :
    d.lookup loc.dropLast = some .directory := by
  by_cases hloc : loc = []
  · rw [hloc]
    rfl
  · exact hd _ (mem_entries_of_lookup hloc h) hloc

/-- A directory, or a file or nothing in a directory. -/
def Arrived (d : Disk) (l : Location) : Prop :=
  d.lookup l = some .directory ∨ ∃ home n, l = home ++ [n] ∧ IsStep n ∧
    d.lookup home = some .directory ∧ (d.lookup l = none ∨ ∃ content, d.lookup l = some (.file content))

/-- What is at the end of names, if every entry lies in a directory. -/
theorem Leads.arrived (hd : d.Rooted) (h : Leads d links loc ns l) (hloc : Arrived d loc) :
    Arrived d l := by
  induction h with
  | stop => exact hloc
  | here _ _ ih => exact ih hloc
  | up h _ ih => exact ih (.inl (hd.dropLast h))
  | @down _ loc _ n _ e h hn he hlink _ ih =>
    refine ih ?_
    cases e with
    | file content => exact .inr ⟨loc, n, rfl, hn, h, .inr ⟨content, he⟩⟩
    | directory => exact .inl he
    | link target => exact absurd rfl (hlink target)
  | @fresh _ loc n h hn he => exact .inr ⟨loc, n, rfl, hn, h, .inl he⟩
  | @follow _ loc _ _ _ target h _ _ _ ih =>
    refine ih (.inl ?_)
    unfold Path.start
    split_ifs
    · exact lookup_nil d
    · exact h

/-- The names at the end are those at the start and those that were followed. -/
theorem Leads.isName (h : Leads d links loc ns l) (hloc : ∀ n ∈ loc, Path.IsName n)
    (hns : ∀ n ∈ ns, Path.IsPiece n) : ∀ n ∈ l, Path.IsName n := by
  have hdown : ∀ {loc : Location} {n : String}, (∀ x ∈ loc, Path.IsName x) → IsStep n →
      Path.IsPiece n → ∀ x ∈ loc ++ [n], Path.IsName x := by
    intro loc n hloc hn hpiece x hx
    rcases List.mem_append.1 hx with hx | hx
    · exact hloc x hx
    · rw [List.mem_singleton.1 hx]
      exact hpiece.isName hn.ne_here hn.ne_up
  induction h with
  | stop => exact hloc
  | here _ _ ih => exact ih hloc (List.forall_mem_cons.1 hns).2
  | @up _ loc _ _ _ _ ih =>
    exact ih (fun n hn => hloc n (List.dropLast_subset loc hn)) (List.forall_mem_cons.1 hns).2
  | down _ hn _ _ _ ih =>
    obtain ⟨hpiece, hns⟩ := List.forall_mem_cons.1 hns
    exact ih (hdown hloc hn hpiece) hns
  | fresh _ hn _ => exact hdown hloc hn (List.forall_mem_cons.1 hns).1
  | @follow _ loc _ _ _ target _ _ _ _ ih =>
    refine ih (fun n hn => hloc n ?_) fun n hn => ?_
    · unfold Path.start at hn
      split_ifs at hn
      · simp at hn
      · exact hn
    · rcases List.mem_append.1 hn with hn | hn
      · exact Path.isPiece_of_mem_steps hn
      · exact (List.forall_mem_cons.1 hns).2 n hn

/-! ## Paths -/

theorem resolve_eq_ok {cwd : Location} {p : Path} :
    d.resolve cwd p true = .ok l ↔ p.isEmpty = false ∧ p.text.toList.contains '\x00' = false ∧
      Leads d maxLinks (p.start cwd) (steps p) l := by
  rw [← walk_eq_ok, resolve, Path.start]
  cases p.isEmpty <;> cases p.text.toList.contains '\x00' <;> simp

theorem isDirectory_iff_resolve {cwd : Location} {p : Path} : d.isDirectory cwd p = true ↔
    ∃ l, d.resolve cwd p true = .ok l ∧ d.lookup l = some .directory := by
  unfold isDirectory entryAt
  cases d.resolve cwd p true with
  | error e => simp [bind, Except.bind]
  | ok l =>
    simp only [bind, Except.bind, Except.ok.injEq, exists_eq_left']
    rcases d.lookup l with _ | (content | _ | target) <;> simp [pure, Except.pure]

/-- A path leads to a directory as its names and a point do. -/
theorem leads_steps_iff {cwd : Location} {p : Path} :
    (Leads d maxLinks (p.start cwd) (steps p) l ∧ d.lookup l = some .directory) ↔
      Leads d maxLinks (p.start cwd) (p.names ++ ["."]) l := by
  rw [Path.steps_eq]
  split_ifs
  · exact ⟨fun h => h.1, fun h => ⟨h, (leads_dot_iff.1 h).2⟩⟩
  · rw [List.append_nil, leads_dot_iff]

theorem isDirectory_iff {cwd : Location} {p : Path} :
    d.isDirectory cwd p = true ↔ p.isEmpty = false ∧ p.text.toList.contains '\x00' = false ∧
      ∃ l, Leads d maxLinks (p.start cwd) (p.names ++ ["."]) l := by
  rw [isDirectory_iff_resolve]
  constructor
  · rintro ⟨l, hl, hdirectory⟩
    obtain ⟨hempty, hzero, hleads⟩ := resolve_eq_ok.1 hl
    exact ⟨hempty, hzero, l, leads_steps_iff.1 ⟨hleads, hdirectory⟩⟩
  · rintro ⟨hempty, hzero, l, hleads⟩
    obtain ⟨hleads, hdirectory⟩ := leads_steps_iff.2 hleads
    exact ⟨l, resolve_eq_ok.2 ⟨hempty, hzero, hleads⟩, hdirectory⟩

end Disk

end Tracepoint
