import Mathlib.Data.List.Nodup
import Tracepoint.Proofs.Effects
import Tracepoint.Proofs.PathSet
import Tracepoint.Proofs.Text.Split
import Tracepoint.Walk

/-!
# Walks list every path once

On a well-formed disk each location holds one entry, and names are names. Writing a name
below a path adds one component to it, so the paths that a walk lists differ: two of them
take different turns at some directory, or one ends where the other goes on.

Results:

* `Path.components_join`: a name below a path adds a component.
* `sourceFiles_eq_ok`: listing source files leaves the world as it is.
* `distinct_sourceFiles`: the source files at or below a path are all different.
-/

namespace Tracepoint

namespace Path

open Text

/-! ## Names below a path -/

/-- A text that can be the name of a file or directory. -/
structure IsName (n : String) : Prop where
  ne_empty : n ≠ ""
  no_slash : '/' ∉ n.toList
  ne_here : n ≠ "."
  ne_up : n ≠ ".."

instance (n : String) : Decidable (IsName n) :=
  decidable_of_iff (n ≠ "" ∧ '/' ∉ n.toList ∧ n ≠ "." ∧ n ≠ "..")
    ⟨fun ⟨h₁, h₂, h₃, h₄⟩ => ⟨h₁, h₂, h₃, h₄⟩,
      fun h => ⟨h.ne_empty, h.no_slash, h.ne_here, h.ne_up⟩⟩

/-- The components of a path with given pieces between its slashes. -/
def componentsOf (absolute : Bool) (pieces : List (List Char)) : List Component :=
  let head := if absolute then [.root] else if pieces.head? = some ['.'] then [.here] else []
  head ++ ((pieces.drop head.length).filter (!isFiller ·)).map component

theorem components_eq (p : Path) :
    p.components = componentsOf p.isAbsolute (splitAll '/' p.text.toList) := rfl

namespace IsName

variable {n : String}

theorem toList_ne_nil (h : IsName n) : n.toList ≠ [] := fun hn => h.ne_empty (String.toList_eq_nil_iff.1 hn)

theorem not_filler (h : IsName n) : isFiller n.toList = false := by
  have hdot : n.toList ≠ ['.'] := fun hn => h.ne_here (String.ext (by simpa using hn))
  simp [isFiller, h.toList_ne_nil, hdot]

theorem component_eq (h : IsName n) : component n.toList = .name n := by
  have hup : n.toList ≠ ['.', '.'] := fun hn => h.ne_up (String.ext (by simpa using hn))
  simp [component, hup]

theorem not_absolute (h : IsName n) : isAbsolute ⟨n⟩ = false := by
  unfold isAbsolute startsWith
  cases hn : n.toList with
  | nil => rfl
  | cons c cs =>
    have hc : '/' ≠ c := by
      rintro rfl
      exact h.no_slash (by simp [hn])
    simp [dropStart?, hc]

end IsName

theorem length_head_le (absolute : Bool) (pieces : List (List Char)) :
    (if absolute then [Component.root] else if pieces.head? = some ['.'] then [.here]
      else []).length ≤ 1 := by
  split_ifs <;> simp

/-- What a last piece adds to the components. -/
theorem componentsOf_append (absolute : Bool) {pieces : List (List Char)} (hp : pieces ≠ [])
    (last : List Char) :
    componentsOf absolute (pieces ++ [last]) =
      componentsOf absolute pieces ++ if isFiller last then [] else [component last] := by
  have hhead : (pieces ++ [last]).head? = pieces.head? := by
    rw [List.head?_append_of_ne_nil _ hp]
  have hlength := length_head_le absolute pieces
  unfold componentsOf
  simp only [hhead]
  rw [List.drop_append_of_le_length (Nat.le_trans hlength (List.length_pos_iff.2 hp)),
    List.filter_append, List.map_append, List.append_assoc]
  cases hlast : isFiller last <;> simp [hlast]

theorem startsWith_append {c : Char} {s : List Char} (hs : s ≠ []) (t : List Char) :
    startsWith [c] (s ++ t) = startsWith [c] s := by
  cases s with
  | nil => exact absurd rfl hs
  | cons d s => by_cases hcd : c = d <;> simp [startsWith, dropStart?, hcd]

/-- A name below a path adds a component. -/
theorem components_join (p : Path) {n : String} (h : IsName n) :
    (p.join ⟨n⟩).components = p.components ++ [.name n] := by
  have hpieces : splitAll '/' n.toList = [n.toList] := splitAll_of_not_mem h.no_slash
  have hname (absolute : Bool) {pieces : List (List Char)} (hp : pieces ≠ []) :
      componentsOf absolute (pieces ++ [n.toList]) =
        componentsOf absolute pieces ++ [.name n] := by
    rw [componentsOf_append absolute hp, h.not_filler, h.component_eq]
    rfl
  unfold join
  rw [h.not_absolute, Bool.false_or]
  split_ifs with hempty hslash
  · obtain rfl : p = ⟨""⟩ := by
      obtain ⟨text⟩ := p
      rw [show text = "" by simpa [isEmpty] using hempty]
    rw [components_eq, h.not_absolute, hpieces]
    have hlone : n.toList ≠ ['.'] := fun hn => h.ne_here (String.ext (by simpa using hn))
    have hcomponents : componentsOf false [n.toList] = [.name n] := by
      simp [componentsOf, hlone, h.not_filler, h.component_eq]
    rw [hcomponents, show components ⟨""⟩ = [] by decide, List.nil_append]
  · obtain ⟨t, ht⟩ := Option.isSome_iff_exists.1 hslash
    have htext := dropEnd?_eq_some_iff.1 ht
    have hne : p.text.toList ≠ [] := by rw [htext]; simp
    have habsolute : isAbsolute ⟨p.text ++ n⟩ = p.isAbsolute := by
      rw [isAbsolute, String.toList_append, startsWith_append hne, isAbsolute]
    rw [components_eq, habsolute, String.toList_append, components_eq, htext, List.append_assoc,
      List.singleton_append, splitAll_append, hpieces, splitAll_append,
      hname _ (splitAll_ne_nil _ _)]
    show _ = componentsOf _ (_ ++ [[]]) ++ _
    rw [componentsOf_append _ (splitAll_ne_nil _ _)]
    simp [isFiller]
  · have hne : p.text.toList ≠ [] := by
      intro hn
      apply hempty
      rw [isEmpty, String.toList_eq_nil_iff.1 hn]
      rfl
    have habsolute : isAbsolute ⟨p.text ++ "/" ++ n⟩ = p.isAbsolute := by
      rw [isAbsolute, String.append_assoc, String.toList_append, startsWith_append hne, isAbsolute]
    rw [components_eq, habsolute, String.append_assoc, String.toList_append, components_eq]
    have hsplit : splitAll '/' (p.text.toList ++ ("/" ++ n).toList) =
        splitAll '/' p.text.toList ++ [n.toList] := by
      rw [String.toList_append, show "/".toList = ['/'] from rfl, List.singleton_append,
        splitAll_append, hpieces]
    rw [hsplit, hname _ (splitAll_ne_nil _ _)]

end Path

namespace Disk

/-- Each location has one entry, and names are names. -/
structure WellFormed (d : Disk) : Prop where
  nodup : (d.entries.map (·.1)).Nodup
  names : ∀ e ∈ d.entries, ∀ n ∈ e.1, Path.IsName n

instance (d : Disk) : Decidable d.WellFormed :=
  decidable_of_iff ((d.entries.map (·.1)).Nodup ∧ ∀ e ∈ d.entries, ∀ n ∈ e.1, Path.IsName n)
    ⟨fun ⟨h, h'⟩ => ⟨h, h'⟩, fun h => ⟨h.nodup, h.names⟩⟩

/-- The name of a location in a directory. -/
def nameIn? (loc l : Location) : Option String :=
  match l.getLast? with
  | some n => if l.dropLast = loc then some n else none
  | none => none

theorem nameIn?_eq_some {loc l : Location} {n : String} (h : nameIn? loc l = some n) :
    l = loc ++ [n] := by
  unfold nameIn? at h
  split at h
  · rename_i m hm
    split_ifs at h with hloc
    cases h
    rw [← hloc]
    exact (List.dropLast_append_getLast? n hm).symm
  · cases h

theorem perm_placeName (n : String) (ns : List String) : (placeName n ns).Perm (n :: ns) := by
  induction ns with
  | nil => exact List.Perm.refl _
  | cons m ms ih =>
    simp only [placeName]
    split_ifs
    · exact List.Perm.refl _
    · exact (ih.cons m).trans (List.Perm.swap n m ms)

theorem perm_foldr_placeName (ns : List String) : (ns.foldr placeName []).Perm ns := by
  induction ns with
  | nil => exact List.Perm.refl _
  | cons n ns ih => exact (perm_placeName n _).trans (ih.cons n)

theorem names_perm (d : Disk) (loc : Location) :
    (d.names loc).Perm ((d.entries.map (·.1)).filterMap (nameIn? loc)) := by
  rw [List.filterMap_map]
  exact perm_foldr_placeName _

namespace WellFormed

variable {d : Disk}

theorem isName (hd : d.WellFormed) {loc : Location} {n : String} (h : n ∈ d.names loc) :
    Path.IsName n := by
  rw [(names_perm d loc).mem_iff] at h
  obtain ⟨l, hl, hn⟩ := List.mem_filterMap.1 h
  obtain ⟨e, he, rfl⟩ := List.mem_map.1 hl
  exact hd.names e he n (by simp [nameIn?_eq_some hn])

theorem nodup_names (hd : d.WellFormed) (loc : Location) : (d.names loc).Nodup := by
  rw [(names_perm d loc).nodup_iff]
  refine List.Nodup.filterMap (fun l l' n hl hl' => ?_) hd.nodup
  rw [nameIn?_eq_some hl, nameIn?_eq_some hl']

end WellFormed

/-! ## Walks -/

/-- What is listed for one name in a directory. -/
def belowName (d : Disk) (options : WalkOptions) (depth : Nat) (chain : Ignore.RuleChain)
    (path : Path) (loc : Location) (name : String) : List Found :=
  let here := loc ++ [name]
  let p := path.join ⟨name⟩
  match d.lookup here with
  | none => []
  | some .directory =>
    if chain.passesOver options.anywhere here true || options.skip p then []
    else ⟨p, here, .directory⟩ ::
      d.below options depth (Ignore.DirectoryRules.ofDirectory d here :: chain) p here
  | some e =>
    if chain.passesOver options.anywhere here false || options.skip p then [] else [⟨p, here, e⟩]

theorem below_succ (d : Disk) (options : WalkOptions) (depth : Nat) (chain : Ignore.RuleChain)
    (path : Path) (loc : Location) :
    d.below options (depth + 1) chain path loc =
      (d.names loc).flatMap (d.belowName options depth chain path loc) := rfl

/-- What is listed for a name is the entry of that name itself, or lies below it. -/
theorem mem_belowName {d : Disk} {options : WalkOptions} {depth : Nat}
    {chain : Ignore.RuleChain} {path : Path} {loc : Location} {name : String} {f : Found}
    (h : f ∈ d.belowName options depth chain path loc name) :
    f.path = path.join ⟨name⟩ ∨
      ∃ chain', f ∈ d.below options depth chain' (path.join ⟨name⟩) (loc ++ [name]) := by
  unfold belowName at h
  simp only at h
  split at h
  · simp at h
  · split_ifs at h
    · simp at h
    · rcases List.mem_cons.1 h with rfl | h
      · exact .inl rfl
      · exact .inr ⟨_, h⟩
  · split_ifs at h
    · simp at h
    · rw [List.mem_singleton.1 h]
      exact .inl rfl

/-- What is listed for a name has that name as a further component, given that walks list what
    lies below their start. -/
theorem belowName_components {d : Disk} (hd : d.WellFormed) {options : WalkOptions} {depth : Nat}
    (hbelow : ∀ chain path loc, ∀ f ∈ d.below options depth chain path loc, ∃ c cs,
      f.path.components = path.components ++ c :: cs)
    {chain : Ignore.RuleChain} {path : Path} {loc : Location} {n : String} (hn : n ∈ d.names loc)
    {f : Found} (hf : f ∈ d.belowName options depth chain path loc n) :
    ∃ cs, f.path.components = path.components ++ .name n :: cs := by
  have hjoin := path.components_join (hd.isName hn)
  rcases mem_belowName hf with hpath | ⟨chain', hf⟩
  · exact ⟨[], by rw [hpath, hjoin]⟩
  · obtain ⟨c, cs, hcs⟩ := hbelow _ _ _ f hf
    exact ⟨c :: cs, by rw [hcs, hjoin, List.append_assoc, List.singleton_append]⟩

/-- What a walk lists lies below where it starts. -/
theorem below_components {d : Disk} (hd : d.WellFormed) (options : WalkOptions) (depth : Nat) :
    ∀ (chain : Ignore.RuleChain) (path : Path) (loc : Location),
      ∀ f ∈ d.below options depth chain path loc, ∃ c cs,
        f.path.components = path.components ++ c :: cs := by
  induction depth with
  | zero => intro chain path loc f hf; simp [below] at hf
  | succ depth ih =>
    intro chain path loc f hf
    rw [below_succ] at hf
    obtain ⟨n, hn, hf⟩ := List.mem_flatMap.1 hf
    obtain ⟨cs, hcs⟩ := belowName_components hd ih hn hf
    exact ⟨.name n, cs, hcs⟩

theorem distinct_below {d : Disk} (hd : d.WellFormed) (options : WalkOptions) (depth : Nat) :
    ∀ (chain : Ignore.RuleChain) (path : Path) (loc : Location),
      (d.below options depth chain path loc).Pairwise fun f g => f.path.same g.path = false := by
  induction depth with
  | zero => intro chain path loc; simp [below]
  | succ depth ih =>
    intro chain path loc
    have hbelow := below_components hd options depth
    rw [below_succ, List.pairwise_flatMap]
    constructor
    · intro n hn
      unfold belowName
      simp only
      split
      · exact List.Pairwise.nil
      · split_ifs
        · exact List.Pairwise.nil
        · refine List.pairwise_cons.2 ⟨fun f hf => ?_, ih _ _ _⟩
          obtain ⟨c, cs, hcs⟩ := hbelow _ _ _ f hf
          simp [Path.same, hcs]
      · split_ifs <;> simp
    · refine (hd.nodup_names loc).imp_of_mem fun {n m} hn hm hne f hf g hg => ?_
      obtain ⟨cs, hcs⟩ := belowName_components hd hbelow hn hf
      obtain ⟨cs', hcs'⟩ := belowName_components hd hbelow hm hg
      simp [Path.same, hcs, hcs', hne]

end Disk

/-! ## Source files -/

/-- The source files at or below a path on a disk. -/
def listing (registry : Registry) (root : Path) (d : Disk) (cwd : Location) :
    Except Error (List Path) :=
  if d.isFile cwd root then .ok (if registry.supports root then [root] else [])
  else if !d.isDirectory cwd root then .error (.io (.rootMissing root))
  else if !d.rulesAbove cwd root then .error (.walk "malformed pattern in an ignore file")
  else .ok (((d.walkFrom cwd {} root).map (·.path)).filter fun p =>
    d.isFile cwd p && registry.supports p)

theorem sourceFiles_fst (registry : Registry) (root : Path) (w : World) :
    (sourceFiles registry root w).1 = listing registry root w.disk w.cwd := by
  unfold sourceFiles listing
  rw [Effect.bind_of_ok (rfl : (get : Action World) w = (.ok w, w))]
  split_ifs <;> rfl

/-- Listing files that can be listed leaves the world as it is. -/
theorem sourceFiles_eq_ok {registry : Registry} {root : Path} {w w' : World}
    {files : List Path} :
    sourceFiles registry root w = (.ok files, w') ↔
      listing registry root w.disk w.cwd = .ok files ∧ w' = w := by
  have hsame : ∀ files', listing registry root w.disk w.cwd = .ok files' →
      (sourceFiles registry root w).2 = w := by
    intro files' h
    unfold listing at h
    unfold sourceFiles
    rw [Effect.bind_of_ok (rfl : (get : Action World) w = (.ok w, w))]
    split_ifs at h ⊢ <;> rfl
  rw [← sourceFiles_fst] at hsame ⊢
  constructor
  · intro h
    rw [h]
    refine ⟨rfl, ?_⟩
    have hw := hsame files (by rw [h])
    rwa [h] at hw
  · rintro ⟨h, rfl⟩
    exact Prod.ext h (hsame files h)

theorem mem_sourceFiles {registry : Registry} {root : Path} {w w' : World} {files : List Path}
    (h : sourceFiles registry root w = (.ok files, w')) {p : Path} (hp : p ∈ files) :
    w.disk.isFile w.cwd p = true ∧ registry.supports p = true := by
  have hlisting := (sourceFiles_eq_ok.1 h).1
  unfold listing at hlisting
  split_ifs at hlisting with hfile hsupports
  · cases hlisting
    rw [List.mem_singleton.1 hp]
    exact ⟨hfile, hsupports⟩
  · cases hlisting
    simp at hp
  · cases hlisting
    simpa using (List.mem_filter.1 hp).2

theorem sourceFiles_of_isFile {registry : Registry} {p : Path} {w : World}
    (hf : w.disk.isFile w.cwd p = true) (hs : registry.supports p = true) :
    sourceFiles registry p w = (.ok [p], w) :=
  sourceFiles_eq_ok.2 ⟨by rw [listing, if_pos hf, if_pos hs], rfl⟩

/-- The source files at or below a path are all different. -/
theorem distinct_sourceFiles {registry : Registry} {root : Path} {w w' : World}
    {files : List Path} (hd : w.disk.WellFormed)
    (h : sourceFiles registry root w = (.ok files, w')) : PathSet.Distinct files := by
  have hlisting := (sourceFiles_eq_ok.1 h).1
  unfold listing at hlisting
  split_ifs at hlisting
  · cases hlisting; exact List.pairwise_singleton _ _
  · cases hlisting; exact List.Pairwise.nil
  · cases hlisting
    refine List.Pairwise.sublist List.filter_sublist (List.pairwise_map.2 ?_)
    unfold Disk.walkFrom
    split
    · exact List.Pairwise.nil
    · exact Disk.distinct_below hd _ _ _ _ _

end Tracepoint
