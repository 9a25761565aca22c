import Tracepoint.Proofs.Java.Ordered
import Tracepoint.Source.Unit

/-!
# Positions in a unit

In a unit that was parsed from a text, every node fits that text, the ranges of the nodes are in
order, and the place for further imports is its start or the end of a declaration.
-/

namespace Tracepoint

/-- A result of which something can be found true is no error. -/
theorem exists_ok_of_any {ε α : Type} {x : Except ε α} {f : α → Bool}
    (h : x.toOption.any f = true) : ∃ a, x = .ok a ∧ f a = true := by
  cases x with
  | error e => cases h
  | ok a => exact ⟨a, rfl, h⟩

namespace Source.CompilationUnit

open Java Text

/-- What is known of a unit that was parsed from its text and can be outlined. -/
structure Fits (u : CompilationUnit) : Prop where
  nodes : u.parsed.root.All (Node.FitsIn u.parsed.source)
  ranges : u.parsed.root.All (Node.RangedIn u.parsed.source)
  /-- Further imports go to the start or after a semicolon. -/
  anchor : u.importAnchor = 0 ∨ SemicolonBefore u.parsed.source u.importAnchor
  proper : ∀ p ∈ pieces (unmarked u.parsed.source), p.1 ≠ .token .stray
  outlines : u.language.outlines = true

theorem Fits.ordered {u : CompilationUnit} (h : u.Fits) : u.parsed.root.All Node.Ordered :=
  h.ranges.imp fun _ hn => hn.toOrdered

theorem Fits.isBoundary_anchor {u : CompilationUnit} (h : u.Fits) :
    isBoundary u.parsed.source u.importAnchor = true := by
  rcases h.anchor with h | h
  · rw [h]
    exact isBoundary_zero _
  · exact h.isBoundary

/-- The largest of some numbers is one of them. -/
theorem foldl_max_eq_or_mem (ns : List Nat) (start : Nat) :
    ns.foldl max start = start ∨ ns.foldl max start ∈ ns := by
  induction ns generalizing start with
  | nil => exact .inl rfl
  | cons n ns ih =>
    rw [List.foldl_cons]
    rcases ih (max start n) with h | h
    · rw [h]
      rcases Nat.le_total start n with hle | hle
      · exact .inr (by simp [hle])
      · exact .inl (Nat.max_eq_left hle)
    · exact .inr (List.mem_cons_of_mem _ h)

theorem findAnchor_cases {t : ParsedText} (h : t.root.All (Node.FitsIn t.source)) :
    findAnchor t = 0 ∨ SemicolonBefore t.source (findAnchor t) := by
  refine (foldl_max_eq_or_mem _ 0).imp_right fun hmem => ?_
  obtain ⟨m, hm, hstop⟩ := List.mem_map.1 hmem
  obtain ⟨hm, hkind⟩ := List.mem_filter.1 hm
  obtain ⟨p, hp, rfl⟩ := List.mem_map.1 hm
  rw [Bool.or_eq_true, beq_iff_eq, beq_iff_eq] at hkind
  rw [findAnchor, ← hstop]
  apply (h.places p hp).here.semicolon
  rcases hkind with hkind | hkind <;> rw [hkind]

theorem ofSource_source {path relativePath : Path} {language : Language} {source : List Char}
    {u : CompilationUnit} (h : ofSource path relativePath language source = .ok u) :
    u.parsed.source = source := by
  unfold ofSource at h
  split at h
  · cases h
    unfold ofParsed
    split_ifs <;> rfl
  · cases h

theorem ofSource_path {path relativePath : Path} {language : Language} {source : List Char}
    {u : CompilationUnit} (h : ofSource path relativePath language source = .ok u) :
    u.path = path := by
  unfold ofSource at h
  split at h
  · cases h
    unfold ofParsed
    split_ifs <;> rfl
  · cases h

theorem ofSource_relativePath {path relativePath : Path} {language : Language}
    {source : List Char} {u : CompilationUnit}
    (h : ofSource path relativePath language source = .ok u) : u.relativePath = relativePath := by
  unfold ofSource at h
  split at h
  · cases h
    unfold ofParsed
    split_ifs <;> rfl
  · cases h

theorem ofSource_language {path relativePath : Path} {language : Language} {source : List Char}
    {u : CompilationUnit} (h : ofSource path relativePath language source = .ok u) :
    u.language = language := by
  unfold ofSource at h
  split at h
  · cases h
    unfold ofParsed
    split_ifs <;> rfl
  · cases h

/-- What a unit has is what is found in its tree. -/
theorem outline_of_ofSource {path relativePath : Path} {language : Language} {source : List Char}
    {u : CompilationUnit} (hl : language.outlines = true)
    (hu : ofSource path relativePath language source = .ok u) :
    u.package = findPackage u.parsed ∧ u.imports = findImports u.parsed ∧
      u.declaredTypes = findTypes u.parsed u.package := by
  unfold ofSource at hu
  split at hu
  · cases hu
    rw [ofParsed, if_pos hl]
    exact ⟨rfl, rfl, rfl⟩
  · cases hu

theorem ofSource_fits {path relativePath : Path} {language : Language} {source : List Char}
    {u : CompilationUnit} (hl : language.outlines = true)
    (h : ofSource path relativePath language source = .ok u) : u.Fits := by
  unfold ofSource at h
  split at h
  · rename_i root hroot
    cases h
    have hfits := parse_fits hroot
    rw [ofParsed, if_pos hl]
    exact ⟨hfits, parse_ranged hroot, findAnchor_cases (t := ⟨source, root⟩) hfits,
      ne_stray_of_parse hroot, hl⟩
  · cases h

end Source.CompilationUnit

end Tracepoint
