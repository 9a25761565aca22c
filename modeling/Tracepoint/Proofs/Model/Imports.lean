import Tracepoint.Proofs.Java.Sequence
import Tracepoint.Proofs.Model.Build
import Tracepoint.Proofs.Text.Split

/-!
# Imports that resolve

An import resolves if the platform, the model or the classpath has what it names. The packages of
the platform are told by how the path starts. For most of them that start ends in a dot; for
`org.w3c.dom` and `org.xml.sax`, which can be imported as they are, it does not, so that a package
like `org.w3c.domino` passes for one of the platform.

Results:

* `Source.Import.needs_target`, `Source.Import.Needs.eq_target`: what has to be known for an import
  is its target, and nothing else.
* `Source.CompilationUnit.pairwise_line_imports`: imports are listed as they stand in the source.
* `resolves_iff`: which imports pass.
* `checkImports_exact`: which models pass, and which import is reported of those that do not.
* `checkImports_passes_domino`: a package that is not of the platform passes for one.
-/

namespace Tracepoint

open Text

/-! ## Imports of a unit -/

namespace Source

namespace Import

/-- What has to be known for an import: the owner of the member for a static import of one member,
    and the path for any other. A static import of one member that has no owner is taken as it is
    written. -/
inductive Needs (i : Import) : String → Prop
  | owner {owner member : String} : i.isStatic = true → i.wildcard = false →
      i.path = owner ++ "." ++ member → '.' ∉ member.toList → Needs i owner
  | path : (i.isStatic = true → i.wildcard = false → '.' ∉ i.path.toList) → Needs i i.path

theorem needs_target (i : Import) : i.Needs i.target := by
  unfold target
  split_ifs with hkind
  · rw [Bool.and_eq_true, Bool.not_eq_true'] at hkind
    split
    · rename_i owner member hsplit
      obtain ⟨hpath, hmember⟩ := splitLast?_eq_some_iff.1 hsplit
      have hname : i.path = String.ofList owner ++ "." ++ String.ofList member := by
        rw [← String.toList_inj, hpath]
        simp
      exact .owner hkind.1 hkind.2 hname (by simpa using hmember)
    · rename_i hsplit
      exact .path fun _ _ => splitLast?_eq_none_iff.1 hsplit
  · refine .path fun hstatic hone => absurd ?_ hkind
    rw [hstatic, hone]
    rfl

theorem Needs.eq_target {i : Import} {name : String} (h : i.Needs name) : name = i.target := by
  cases h with
  | @owner _ member hstatic hone hpath hmember =>
    have hsplit : splitLast? '.' i.path.toList = some (name.toList, member.toList) :=
      splitLast?_eq_some_iff.2 ⟨by simp [hpath], hmember⟩
    rw [target, hstatic, hone, hsplit]
    simp
  | path hdot =>
    rw [target]
    split_ifs with hkind
    · rw [Bool.and_eq_true, Bool.not_eq_true'] at hkind
      rw [splitLast?_eq_none_iff.2 (hdot hkind.1 hkind.2)]
    · rfl

theorem line_of_parse? {text : List Char} {line : Nat} {i : Import}
    (h : parse? text line = some i) : i.line = line := by
  unfold parse? at h
  obtain ⟨body, -, h⟩ := Option.bind_eq_some_iff.1 h
  split at h
  dsimp only at h
  split at h <;> cases h <;> rfl

end Import

namespace CompilationUnit

open Java

theorem lineAt_mono {s : List Char} {m n : Nat} (hm : isBoundary s m = true)
    (hn : isBoundary s n = true) (h : m ≤ n) : lineAt s m ≤ lineAt s n := by
  obtain ⟨a, b, hs, rfl⟩ := isBoundary_iff.1 hm
  obtain ⟨c, d, hs', rfl⟩ := isBoundary_iff.1 hn
  obtain ⟨e, rfl, -⟩ := exists_append_of_byteSize_le (hs.symm.trans hs') h
  have hslice : ∀ x y, s = x ++ y → slice s 0 (byteSize x) = x := by
    rintro x y rfl
    simpa using slice_append [] x y
  rw [lineAt, lineAt, hslice a b hs, hslice (a ++ e) d hs', List.count_append]
  omega

/-- The imports of a unit are listed in the order in which they stand in the source. -/
theorem pairwise_line_imports {path relativePath : Path} {language : Language}
    {source : List Char} {u : CompilationUnit} (hl : language.outlines = true)
    (hu : ofSource path relativePath language source = .ok u) :
    u.imports.Pairwise fun i j => i.line ≤ j.line := by
  have hfits := ofSource_fits hl hu
  rw [(outline_of_ofSource hl hu).2.1, findImports, List.pairwise_filterMap, List.pairwise_filter,
    List.pairwise_map]
  refine (Node.pairwise_start_places hfits.ordered).imp_of_mem fun hp hq hstart => ?_
  intro hpKind hqKind i hi j hj
  have hcode : ∀ {n : Node}, (n.kind == .importDeclaration) = true → n.isCode = true := by
    intro n hn
    rw [Node.isCode, beq_iff_eq.1 hn]
    rfl
  rw [Import.line_of_parse? hi, Import.line_of_parse? hj]
  exact lineAt_mono (hfits.ranges.places _ hp).here.isIn.1 (hfits.ranges.places _ hq).here.isIn.1
    (hstart (hcode hpKind) (hcode hqKind))

end CompilationUnit

end Source

namespace Model

open Source

/-! ## What imports name -/

/-- A name lies below a package: it is the name of the package, a dot and something more. -/
def LiesBelow (package name : String) : Prop := ∃ rest, name = package ++ "." ++ rest

/-- The packages that are of the platform with all that lies below them, but not themselves. -/
def platformRoots : List String := ["java", "javax", "jdk", "sun", "com.sun"]

/-- The packages of the platform that can be imported as they are. -/
def platformPackages : List String := ["org.w3c.dom", "org.xml.sax"]

/-- An import resolves: the platform, the model or the classpath has what it names. -/
inductive Resolved (m : Model) (classpath : ClasspathIndex) (i : Import) : Prop
  /-- The path lies below a package of the platform. -/
  | belowRoot {package : String} : package ∈ platformRoots → LiesBelow package i.path → Resolved ..
  /-- The path is a package of the platform or lies below one. -/
  | platform {package : String} : package ∈ platformPackages →
      i.path = package ∨ LiesBelow package i.path → Resolved ..
  /-- What has to be known is a type of the model or of the classpath. -/
  | type {name : String} : i.Needs name →
      (∃ x ∈ m.units, name ∈ x.1.declaredTypes) ∨ name ∈ classpath.classes → Resolved ..
  /-- All of a package of the model or of the classpath is imported. -/
  | package {name : String} : i.Needs name → i.wildcard = true → i.isStatic = false →
      (∃ x ∈ m.units, x.1.package = some name) ∨ name ∈ classpath.packages → Resolved ..

/-- A path starts like a package of the platform, of which the last name goes on. -/
def Continues (package name : String) : Prop :=
  ∃ c rest, c ≠ '.' ∧ name.toList = package.toList ++ c :: rest

/-- An import passes: it resolves, or its path starts like a package of the platform that can be
    imported as it is. -/
def Passes (m : Model) (classpath : ClasspathIndex) (i : Import) : Prop :=
  Resolved m classpath i ∨ ∃ package ∈ platformPackages, Continues package i.path

theorem startsWith_iff {p s : List Char} : startsWith p s = true ↔ ∃ rest, s = p ++ rest := by
  rw [startsWith, Option.isSome_iff_exists]
  simp only [dropStart?_eq_some_iff]

theorem startsWith_dot_iff (package name : String) :
    startsWith (package ++ ".").toList name.toList = true ↔ LiesBelow package name := by
  rw [startsWith_iff]
  constructor
  · rintro ⟨rest, h⟩
    exact ⟨String.ofList rest, by rw [← String.toList_inj, h]; simp⟩
  · rintro ⟨rest, rfl⟩
    exact ⟨rest.toList, by simp⟩

/-- What comes after the start of a name: nothing, a dot or something else. -/
theorem startsWith_package_iff (package name : String) :
    startsWith package.toList name.toList = true ↔
      (name = package ∨ LiesBelow package name) ∨ Continues package name := by
  rw [startsWith_iff]
  constructor
  · rintro ⟨rest, h⟩
    cases rest with
    | nil => exact .inl (.inl (by rw [← String.toList_inj, h, List.append_nil]))
    | cons c rest =>
      by_cases hc : c = '.'
      · refine .inl (.inr ⟨String.ofList rest, ?_⟩)
        rw [← String.toList_inj, h, hc]
        simp
      · exact .inr ⟨c, rest, hc, h⟩
  · rintro ((rfl | ⟨rest, rfl⟩) | ⟨c, rest, -, h⟩)
    · exact ⟨[], by simp⟩
    · exact ⟨'.' :: rest.toList, by simp⟩
    · exact ⟨c :: rest, h⟩

theorem platform_iff (path : String) :
    Language.java.platformPackages.any (fun p => startsWith p.toList path.toList) = true ↔
      (∃ package ∈ platformRoots, LiesBelow package path) ∨
        ∃ package ∈ platformPackages,
          (path = package ∨ LiesBelow package path) ∨ Continues package path := by
  have hlist : Language.java.platformPackages =
      platformRoots.map (· ++ ".") ++ platformPackages := by decide
  rw [hlist, List.any_append, Bool.or_eq_true, List.any_map, List.any_eq_true, List.any_eq_true]
  simp only [Function.comp_apply, startsWith_dot_iff]
  simp only [startsWith_package_iff]

/-- The imports that pass are those that resolve, and those of packages that only start like one of
    the platform. -/
theorem resolves_iff {m : Model} {classpath : ClasspathIndex} {u : CompilationUnit} {i : Import}
    (hu : u.language = .java) : resolves m classpath u i = true ↔ Passes m classpath i := by
  have hneeds := Import.needs_target i
  rw [resolves, hu, Bool.or_eq_true, Bool.or_eq_true, Bool.or_eq_true, platform_iff]
  simp only [Bool.and_eq_true, Bool.or_eq_true, Bool.not_eq_true', List.contains_iff_mem,
    declaredTypes, declaredPackages, ClasspathIndex.hasClass, ClasspathIndex.hasPackage,
    List.mem_flatMap, List.mem_filterMap]
  constructor
  · rintro ((((⟨p, hp, h⟩ | ⟨p, hp, h | h⟩) | h) | h) | ⟨⟨hwildcard, hstatic⟩, h⟩)
    · exact .inl (.belowRoot hp h)
    · exact .inl (.platform hp h)
    · exact .inr ⟨p, hp, h⟩
    · exact .inl (.type hneeds (.inl h))
    · exact .inl (.type hneeds (.inr h))
    · exact .inl (.package hneeds hwildcard hstatic h)
  · rintro ((⟨hp, h⟩ | ⟨hp, h⟩ | ⟨hn, h⟩ | ⟨hn, hwildcard, hstatic, h⟩) | ⟨p, hp, h⟩)
    · exact .inl (.inl (.inl (.inl ⟨_, hp, h⟩)))
    · exact .inl (.inl (.inl (.inr ⟨_, hp, .inl h⟩)))
    · rw [hn.eq_target] at h
      exact .inl (h.elim (fun h => .inl (.inr h)) .inr)
    · rw [hn.eq_target] at h
      exact .inr ⟨⟨hwildcard, hstatic⟩, h⟩
    · exact .inl (.inl (.inl (.inr ⟨p, hp, .inr h⟩)))

/-! ## Checking a model -/

/-- An import of a unit is the first one in a model without a property: all imports of the units in
    front have it, and so have all that come earlier in the unit. -/
def IsFirstWithout (P : CompilationUnit → Import → Prop) (m : Model) (u : CompilationUnit)
    (i : Import) : Prop :=
  ∃ before edits after earlier later, m.units = before ++ (u, edits) :: after ∧
    u.imports = earlier ++ i :: later ∧ (∀ x ∈ before, ∀ j ∈ x.1.imports, P x.1 j) ∧
      (∀ j ∈ earlier, P u j) ∧ ¬ P u i

theorem isFirstWithout_congr {P Q : CompilationUnit → Import → Prop} {m : Model}
    (h : ∀ x ∈ m.units, ∀ i, P x.1 i ↔ Q x.1 i) (u : CompilationUnit) (i : Import) :
    IsFirstWithout P m u i ↔ IsFirstWithout Q m u i := by
  unfold IsFirstWithout
  refine exists_congr fun before => exists_congr fun edits => exists_congr fun after =>
    exists_congr fun earlier => exists_congr fun later => and_congr_right fun hunits => ?_
  rw [hunits] at h
  have hu := h (u, edits) (by simp)
  refine and_congr_right fun _ => and_congr ?_ (and_congr ?_ (not_congr (hu i)))
  · exact forall₂_congr fun x hx => forall₂_congr fun j _ => h x (by simp [hx]) j
  · exact forall₂_congr fun j _ => hu j

theorem head?_unresolved {m : Model} {classpath : ClasspathIndex} {u : CompilationUnit}
    {i : Import} :
    (unresolved m classpath).head? = some (u, i) ↔
      IsFirstWithout (fun u i => resolves m classpath u i = true) m u i := by
  rw [unresolved, List.head?_flatMap, List.findSome?_eq_some_iff]
  simp only [List.head?_map, List.head?_filter, Option.map_eq_some_iff, Option.map_eq_none_iff,
    List.find?_eq_some_iff_append, List.find?_eq_none, Bool.not_eq_true', Bool.not_eq_false']
  constructor
  · rintro ⟨before, ⟨v, edits⟩, after, hunits, ⟨j, ⟨hj, earlier, later, himports, hearlier⟩, heq⟩,
      hbefore⟩
    cases heq
    exact ⟨before, edits, after, earlier, later, hunits, himports, by simpa using hbefore,
      hearlier, by simp [hj]⟩
  · rintro ⟨before, edits, after, earlier, later, hunits, himports, hbefore, hearlier, hi⟩
    exact ⟨before, (u, edits), after, hunits,
      ⟨i, ⟨by simpa using hi, earlier, later, himports, hearlier⟩, rfl⟩, by simpa using hbefore⟩

theorem checkImports_eq_error {m : Model} {classpath : ClasspathIndex} {error : Error} :
    checkImports m classpath = .error error ↔
      ∃ u i, IsFirstWithout (fun u i => resolves m classpath u i = true) m u i ∧
        error = .unresolvedImport u.path i.path := by
  simp only [← head?_unresolved]
  unfold checkImports
  cases unresolved m classpath with
  | nil => simp
  | cons x more => simp [Prod.ext_iff, eq_comm]

/-- The units of a model are read from source texts. -/
def IsRead (m : Model) : Prop :=
  ∀ x ∈ m.units, ∃ path relativePath source,
    CompilationUnit.ofSource path relativePath .java source = .ok x.1

theorem isRead_ofUnits {us : List CompilationUnit} {autoImports : Bool}
    (h : ∀ u ∈ us, ∃ path relativePath source,
      CompilationUnit.ofSource path relativePath .java source = .ok u) :
    (ofUnits us autoImports).IsRead := by
  intro x hx
  obtain ⟨u, hu, rfl⟩ := List.mem_map.1 hx
  exact h u hu

/-- A model passes exactly if all its imports do. Of a model that does not, the first import is
    reported that does not pass, in the order of units and then of the source. -/
theorem checkImports_exact {m : Model} (hm : m.IsRead) (classpath : ClasspathIndex) :
    (checkImports m classpath = .ok () ↔
      ∀ x ∈ m.units, ∀ i ∈ x.1.imports, Passes m classpath i) ∧
    (∀ error, checkImports m classpath = .error error ↔
      ∃ u i, IsFirstWithout (fun _ i => Passes m classpath i) m u i ∧
        error = .unresolvedImport u.path i.path) ∧
    ∀ x ∈ m.units, x.1.imports.Pairwise fun i j => i.line ≤ j.line := by
  have hjava : ∀ x ∈ m.units, ∀ i, resolves m classpath x.1 i = true ↔ Passes m classpath i := by
    intro x hx i
    obtain ⟨path, relativePath, source, hu⟩ := hm x hx
    exact resolves_iff (CompilationUnit.ofSource_language hu)
  refine ⟨?_, fun error => ?_, fun x hx => ?_⟩
  · rw [checkImports_eq_ok]
    exact forall₂_congr fun x hx => forall₂_congr fun i _ => hjava x hx i
  · rw [checkImports_eq_error]
    exact exists₂_congr fun u i => and_congr_left' (isFirstWithout_congr hjava u i)
  · obtain ⟨path, relativePath, source, hu⟩ := hm x hx
    exact CompilationUnit.pairwise_line_imports rfl hu

/-- Imports of the platform, of the model and of the classpath, and two that nothing resolves. -/
theorem checkImports_exact_of_two_units :
    let read (path source : String) : Except Error CompilationUnit :=
      CompilationUnit.ofSource ⟨path⟩ ⟨path⟩ .java source.toList
    let first := "package p;import java.util.*;import static q.B.m;class A\x7b\x7d"
    let second := "package q;import p.*;import r.*;import org.w3c.dom.*;\n" ++
      "import r.D;import s.E;class B\x7b\x7d"
    let classpath : ClasspathIndex := ⟨["r.C"], ["r"]⟩
    ∃ a b, read "A.java" first = .ok a ∧ read "B.java" second = .ok b ∧
      ∃ u i, IsFirstWithout (fun _ i => Passes (ofUnits [a, b] true) classpath i)
          (ofUnits [a, b] true) u i ∧
        Error.unresolvedImport u.path i.path = .unresolvedImport ⟨"B.java"⟩ "r.D" := by
  intro read first second classpath
  obtain ⟨a, ha, hboth⟩ := exists_ok_of_any (x := read "A.java" first)
    (f := fun a => (read "B.java" second).toOption.any fun b =>
      decide (checkImports (ofUnits [a, b] true) classpath =
        .error (.unresolvedImport ⟨"B.java"⟩ "r.D"))) (by decide +kernel)
  obtain ⟨b, hb, hcheck⟩ := exists_ok_of_any hboth
  have hread : (ofUnits [a, b] true).IsRead := by
    refine isRead_ofUnits fun u hu => ?_
    rcases List.mem_pair.1 hu with rfl | rfl
    · exact ⟨_, _, _, ha⟩
    · exact ⟨_, _, _, hb⟩
  obtain ⟨u, i, hfirst, herror⟩ :=
    ((checkImports_exact hread classpath).2.1 _).1 (of_decide_eq_true hcheck)
  exact ⟨a, b, ha, hb, u, i, hfirst, herror.symm⟩

/-- A package whose name only starts like one of the platform passes for it. -/
theorem checkImports_passes_domino :
    ∃ u, CompilationUnit.ofSource ⟨"A.java"⟩ ⟨"A.java"⟩ .java
        "import org.w3c.domino.X;class A\x7b\x7d".toList = .ok u ∧
      checkImports (ofUnits [u] true) {} = .ok () ∧
        ∃ i ∈ u.imports, ¬ Resolved (ofUnits [u] true) {} i := by
  let domino : Import := ⟨"org.w3c.domino.X", false, false, 1⟩
  obtain ⟨u, hu, hcheck⟩ := exists_ok_of_any
    (x := CompilationUnit.ofSource ⟨"A.java"⟩ ⟨"A.java"⟩ .java
      "import org.w3c.domino.X;class A\x7b\x7d".toList)
    (f := fun u => decide (checkImports (ofUnits [u] true) {} = .ok () ∧ u.imports = [domino] ∧
      u.declaredTypes = ["A"])) (by decide +kernel)
  obtain ⟨hpasses, himports, htypes⟩ := of_decide_eq_true hcheck
  refine ⟨u, hu, hpasses, domino, by rw [himports]; exact List.mem_cons_self, fun h => ?_⟩
  cases h with
  | @belowRoot package hpackage hbelow =>
    have hno : ∀ p ∈ platformRoots, startsWith (p ++ ".").toList domino.path.toList = false := by
      decide
    rw [← startsWith_dot_iff, hno package hpackage] at hbelow
    cases hbelow
  | @platform package hpackage hwithin =>
    have hno : ∀ p ∈ platformPackages, domino.path ≠ p ∧
        startsWith (p ++ ".").toList domino.path.toList = false := by decide
    rw [← startsWith_dot_iff, (hno package hpackage).2] at hwithin
    exact hwithin.elim (hno package hpackage).1 Bool.noConfusion
  | type hneeds hknown =>
    obtain rfl := hneeds.eq_target
    simp [ofUnits, htypes, domino, Import.target] at hknown
  | package hneeds hwildcard => cases hwildcard

end Model

end Tracepoint
