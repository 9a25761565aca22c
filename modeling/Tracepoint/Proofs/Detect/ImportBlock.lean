import Tracepoint.Proofs.Detect.Insertions
import Tracepoint.Proofs.Source.Imports
import Tracepoint.Proofs.Source.Lines
import Tracepoint.Proofs.Text.Enclosed

/-!
# The imports that are inserted

With automatic imports each type that is referred to is recorded once. A unit is printed with the
imports of all recorded names that are neither of the package `java.lang` nor of the unit's own, and
that no import makes known. The lines that are inserted read as imports of just these names, so that
once they are in the unit nothing is missing any more.

Results:

* `needsImport_iff`: which names have to be imported.
* `filledLines_importEdit`: the lines that are inserted.
* `Import.parse?_importLine`: what such a line reads as.
* `missingImports_exact`: what is inserted for a sequence of references, and what is once it is
  there.
-/

namespace Tracepoint

open Text

namespace Source

/-! ## Dotted names -/

/-- What can stand in no identifier stands in no dotted name, the dot apart. -/
theorem IsDottedName.not_mem {name : String} (h : IsDottedName name) {c : Char}
    (hc : isIdentifierPart c = false) (hdot : c ≠ '.') : c ∉ name.toList := by
  intro hmem
  obtain ⟨part, hpart, hin⟩ := (exists_mem_splitAll_iff hdot).2 hmem
  exact not_mem_of_isIdentifier (h part hpart) hc hin

theorem IsDottedName.solid {name : String} (h : IsDottedName name) :
    ∀ c ∈ name.toList, isBlank c = false := by
  intro c hc
  by_contra hblank
  refine h.not_mem (isIdentifierPart_of_isBlank (by simpa using hblank)) ?_ hc
  rintro rfl
  exact hblank rfl

theorem packageOf?_eq_some_iff {name package : String} :
    packageOf? name = some package ↔
      ∃ simple, name = package ++ "." ++ simple ∧ '.' ∉ simple.toList := by
  unfold packageOf?
  rw [Option.map_eq_some_iff]
  constructor
  · rintro ⟨⟨a, b⟩, hsplit, rfl⟩
    obtain ⟨hname, hdot⟩ := splitLast?_eq_some_iff.1 hsplit
    refine ⟨String.ofList b, ?_, by simpa using hdot⟩
    rw [← String.toList_inj, hname]
    simp
  · rintro ⟨simple, rfl, hdot⟩
    exact ⟨(package.toList, simple.toList), splitLast?_eq_some_iff.2 ⟨by simp, hdot⟩, by simp⟩

/-! ## Names that have to be imported -/

/-- An import that is not static makes a name known: it imports just this name, or all of its
    package. -/
def Import.Knows (i : Import) (name package : String) : Prop :=
  i.isStatic = false ∧ (i.wildcard = false ∧ i.path = name ∨ i.wildcard = true ∧ i.path = package)

theorem Import.knows_iff {i : Import} {name package : String} :
    i.Knows name package ↔ i.covers name package = true := by
  simp [Knows, covers]

namespace CompilationUnit

/-- A name has to be imported: it has a package, this is neither `java.lang` nor the unit's own, and
    no import makes the name known. -/
def Wants (u : CompilationUnit) (name : String) : Prop :=
  ∃ package simple, name = package ++ "." ++ simple ∧ '.' ∉ simple.toList ∧
    package ≠ "java.lang" ∧ u.package ≠ some package ∧ ∀ i ∈ u.imports, ¬ i.Knows name package

theorem needsImport_iff {u : CompilationUnit} {name : String} :
    u.needsImport name = true ↔ u.Wants name := by
  have hneeds : u.needsImport name = true ↔
      ∃ package, packageOf? name = some package ∧ package ≠ "java.lang" ∧
        u.package ≠ some package ∧ ∀ i ∈ u.imports, ¬ i.Knows name package := by
    unfold needsImport
    cases packageOf? name with
    | none => simp
    | some package => simp [Import.knows_iff, and_assoc]
  simp only [hneeds, packageOf?_eq_some_iff, Wants]
  constructor
  · rintro ⟨package, ⟨simple, hname, hdot⟩, hrest⟩
    exact ⟨package, simple, hname, hdot, hrest⟩
  · rintro ⟨package, simple, hname, hdot, hrest⟩
    exact ⟨package, ⟨simple, hname, hdot⟩, hrest⟩

/-- A unit with further imports. -/
def withImports (u : CompilationUnit) (more : List Import) : CompilationUnit :=
  { u with imports := u.imports ++ more }

/-- With more imports no more names have to be imported. -/
theorem Wants.of_withImports {u : CompilationUnit} {name : String} {more : List Import}
    (h : (u.withImports more).Wants name) : u.Wants name := by
  obtain ⟨package, simple, hname, hdot, hjava, hown, himports⟩ := h
  exact ⟨package, simple, hname, hdot, hjava, hown,
    fun i hi => himports i (List.mem_append_left _ hi)⟩

/-- A name that is imported does not have to be imported. -/
theorem not_wants_of_mem {u : CompilationUnit} {name : String} {line : Nat}
    (h : ⟨name, false, false, line⟩ ∈ u.imports) : ¬ u.Wants name := by
  rintro ⟨package, simple, -, -, -, -, himports⟩
  exact himports _ h ⟨rfl, .inl ⟨rfl, rfl⟩⟩

/-! ## The lines of the block -/

/-- The line that imports a name. -/
def importLine (name : String) : List Char := ("import " ++ name ++ ";").toList

/-- The lines of a text that are not empty. -/
def filledLines (text : String) : List (List Char) := (splitAll '\n' text.toList).filter (· ≠ [])

theorem newline_not_mem_importLine {name : String} (h : IsDottedName name) :
    '\n' ∉ importLine name := by
  have hname : '\n' ∉ name.toList := h.not_mem (by decide) (by decide)
  simp only [importLine, String.toList_append, List.mem_append, hname, or_false]
  decide

theorem splitAll_importBlock {names : List String} (hne : names ≠ [])
    (h : ∀ name ∈ names, IsDottedName name) :
    splitAll '\n' (importBlock names).toList = names.map importLine := by
  -- with a line break at its end the block is its lines with a line break each
  have hjoined : (importBlock names).toList ++ ['\n'] =
      (names.map importLine).flatMap (· ++ ['\n']) := by
    obtain ⟨name, more, rfl⟩ := List.exists_cons_of_ne_nil hne
    have happend := congrArg String.toList
      (intercalate_append_sep "\n" s!"import {name};" (more.map fun name => s!"import {name};"))
    rw [← List.map_cons (f := fun name => s!"import {name};"), String.toList_append,
      String.toList_join, List.map_map, List.flatMap_map] at happend
    rw [importBlock, List.flatMap_map]
    refine happend.trans (List.flatMap_congr fun name _ => ?_)
    rw [importLine, Function.comp_apply, String.toList_append]
    rfl
  have hlines : ∀ line ∈ names.map importLine, '\n' ∉ line :=
    List.forall_mem_map.2 fun name hname => newline_not_mem_importLine (h name hname)
  have hsplit := congrArg (splitAll '\n') hjoined
  rw [splitAll_append, splitAll_flatMap, flatMap_splitAll_of_not_mem hlines] at hsplit
  exact List.append_cancel_right hsplit

/-- The lines that are inserted: an import for each name, and empty ones. -/
theorem filledLines_importEdit (u : CompilationUnit) {names : List String} (hne : names ≠ [])
    (h : ∀ name ∈ names, IsDottedName name) :
    filledLines (u.importEdit names).text = names.map importLine := by
  have hfilled : (names.map importLine).filter (· ≠ []) = names.map importLine := by
    rw [List.filter_eq_self]
    intro line hline
    obtain ⟨name, -, rfl⟩ := List.mem_map.1 hline
    simp [importLine]
  have hblock := splitAll_importBlock hne h
  unfold filledLines importEdit
  simp only
  split_ifs
  · have htext : (importBlock names ++ "\n\n").toList =
        (importBlock names).toList ++ '\n' :: ([] ++ '\n' :: []) := by simp
    rw [htext, splitAll_append, splitAll_append, hblock, List.filter_append, hfilled]
    simp [splitAll]
  · have htext : ("\n\n" ++ importBlock names).toList =
        [] ++ '\n' :: ([] ++ '\n' :: (importBlock names).toList) := by simp
    rw [htext, splitAll_append, splitAll_append, hblock, List.filter_append, List.filter_append,
      hfilled]
    simp [splitAll]
  · have htext : ("\n" ++ importBlock names).toList = [] ++ '\n' :: (importBlock names).toList := by
      simp
    rw [htext, splitAll_append, hblock, List.filter_append, hfilled]
    simp [splitAll]

/-! ## Reading the lines -/

end CompilationUnit

/-- A line that imports a name reads as the import of that name. -/
theorem Import.parse?_importLine {name : String} (h : IsDottedName name) (line : Nat) :
    Import.parse? (CompilationUnit.importLine name) line = some ⟨name, false, false, line⟩ := by
  have hsolid := h.solid
  have htrim : trim (' ' :: name.toList) = name.toList := by
    have hblank : ∀ c ∈ [' '], isBlank c = true := by
      intro c hc
      rw [List.mem_singleton.1 hc]
      rfl
    have hstart : trimStart (' ' :: name.toList) = trimStart name.toList :=
      trimStart_append_of_blank hblank name.toList
    rw [trim, hstart, trimStart_of_solid hsolid, trimEnd_of_solid hsolid]
  have hstatic : splitStatic name.toList = (false, name.toList) := by
    refine splitStatic_of_not_blank fun c rest heq => hsolid c ?_
    rw [heq]
    simp
  have hbody : ';' ∉ ' ' :: name.toList := by
    rw [List.mem_cons, not_or]
    exact ⟨by decide, h.not_mem (by decide) (by decide)⟩
  have hline : CompilationUnit.importLine name =
      "import".toList ++ ' ' :: name.toList ++ [';'] := by
    simp [CompilationUnit.importLine]
  rw [hline, Import.parse?_eq hbody, htrim, hstatic, squeeze_of_solid hsolid,
    Import.ofPath_of_not_mem (h.not_mem (by decide) (by decide)), String.ofList_toList]

end Source

namespace Detect

open Source Source.CompilationUnit

/-! ## The block that is inserted -/

theorem importsFor_eq_nil {u : CompilationUnit} {names : List String}
    (h : ∀ name ∈ names, ¬ u.needsImport name = true) : importsFor u names = [] := by
  have hnone : names.eraseDups.filter u.needsImport = [] :=
    List.filter_eq_nil_iff.2 fun name hname => h name (List.mem_eraseDups.1 hname)
  rw [importsFor, hnone]

/-- If any name has to be imported, one text is inserted, and it has a line for each of them. -/
theorem exists_block (u : CompilationUnit) (names : List String)
    (h : ∀ name ∈ names.eraseDups.filter u.needsImport, IsDottedName name) :
    ∃ block, importsFor u names =
        (if names.eraseDups.filter u.needsImport = [] then [] else [⟨u.importAnchor, block⟩]) ∧
      filledLines block = (names.eraseDups.filter u.needsImport).map importLine := by
  unfold importsFor
  cases hlisted : names.eraseDups.filter u.needsImport with
  | nil => exact ⟨"", rfl, by simp [filledLines, splitAll]⟩
  | cons name more =>
    rw [hlisted] at h
    exact ⟨_, rfl, filledLines_importEdit u (List.cons_ne_nil name more) h⟩

/-! ## References -/

/-- Edits to which references to some types are added one after the other. -/
def referAll (edits : UnitEdits) (names : List String) : UnitEdits :=
  names.foldl (fun edits name => (edits.reference name).2) edits

theorem referAll_recorded (texts : List Edit) (names : List String) :
    ∀ before, referAll (recorded true texts before) names =
      recorded true texts (before ++ names) := by
  induction names with
  | nil => intro before; simp [referAll]
  | cons name names ih =>
    intro before
    have hrest := ih (before ++ [name])
    rw [List.append_assoc, List.singleton_append] at hrest
    rw [← hrest, referAll, List.foldl_cons, reference_recorded]
    rfl

/-- References to some types on a unit: what is inserted has one line for each of the names that
    have to be imported, in the order in which they were first referred to. Once the unit has the
    imports that are read from these lines, none of the names has to be imported, and nothing is
    inserted for them. -/
theorem missingImports_exact {path relativePath : Path} {language : Language} {source : List Char}
    {u : CompilationUnit} (hl : language.outlines = true)
    (hu : ofSource path relativePath language source = .ok u) {names : List String}
    (hnames : ∀ name ∈ names, IsDottedName name) (texts : List Edit) :
    let edits := referAll { edits := texts, autoImports := true } names
    ∃ (listed : List String) (block : String),
      List.Sublist listed names.eraseDups ∧ (∀ name, name ∈ listed ↔ name ∈ names ∧ u.Wants name) ∧
      filledLines block = listed.map importLine ∧
      (let inserted := if listed = [] then [] else [⟨u.importAnchor, block⟩]
       u.render edits = applyEdits source (inserted ++ texts) ∧
        ((∀ e ∈ texts, isBoundary source e.offset = true) →
          ∃ text, u.render edits = some text ∧ Spliced source (inserted ++ texts) text)) ∧
      ∀ number : List Char → Nat,
        let u' := u.withImports ((filledLines block).filterMap fun l => Import.parse? l (number l))
        (∀ name ∈ names, ¬ u'.Wants name) ∧ u'.render edits = applyEdits source texts := by
  have hfits := ofSource_fits hl hu
  have hsource := ofSource_source hu
  intro edits
  have hedits : edits = recorded true texts names := by
    have hrefer := referAll_recorded texts names []
    rw [List.nil_append] at hrefer
    rw [← hrefer]
    simp [edits, recorded]
  let listed := names.eraseDups.filter u.needsImport
  have hmem : ∀ name, name ∈ listed ↔ name ∈ names ∧ u.Wants name := fun name => by
    rw [List.mem_filter, List.mem_eraseDups, needsImport_iff]
  have hlisted : ∀ name ∈ listed, IsDottedName name := fun name h => hnames name ((hmem name).1 h).1
  obtain ⟨block, himports, hblock⟩ := exists_block u names hlisted
  have hrender : ∀ u' : CompilationUnit, u'.render edits =
      applyEdits u'.parsed.source (importsFor u' names ++ texts) := fun u' => by
    rw [render, hedits, allEdits_recorded u' true texts names (by simp)]
  refine ⟨listed, block, List.filter_sublist, hmem, hblock, ?_, fun number => ?_⟩
  · rw [hrender, hsource, himports]
    refine ⟨rfl, fun htexts => applyEdits_spliced fun e he => ?_⟩
    rcases List.mem_append.1 he with he | he
    · rw [← himports] at he
      rw [← hsource]
      exact isBoundary_importsFor hfits names e he
    · exact htexts e he
  · intro u'
    have hnone : ∀ name ∈ names, ¬ u'.Wants name := by
      intro name hname hwants
      -- what is still missing was missing before, and so it was listed
      have hin : name ∈ listed := (hmem name).2 ⟨hname, hwants.of_withImports⟩
      have himport : ⟨name, false, false, number (importLine name)⟩ ∈ u'.imports := by
        refine List.mem_append_right _ (List.mem_filterMap.2 ⟨importLine name, ?_, ?_⟩)
        · rw [hblock]
          exact List.mem_map_of_mem hin
        · exact Import.parse?_importLine (hnames name hname) _
      exact not_wants_of_mem himport hwants
    refine ⟨hnone, ?_⟩
    have hmissing : importsFor u' names = [] := importsFor_eq_nil fun name hname hneeds =>
      hnone name hname (needsImport_iff.1 hneeds)
    rw [hrender, hmissing, List.nil_append]
    exact congrArg (applyEdits · texts) hsource

/-- References to ten types of which three have to be imported, among them one that is only
    imported as a member. -/
theorem missingImports_exact_of_ten :
    let source :=
      "package a.b;import c.D;import e.*;import static f.H;class A\x7b\x7d".toList
    let names := ["java.lang.X", "a.b.Y", "f.H", "c.D", "e.F", "g.H", "f.H", "g.I", "g.H", "A"]
    ∃ u, ofSource ⟨"A.java"⟩ ⟨"A.java"⟩ .java source = .ok u ∧
      names.filter u.needsImport = ["f.H", "g.H", "f.H", "g.I", "g.H"] ∧
      ∃ listed block, List.Sublist listed names.eraseDups ∧
        (∀ name, name ∈ listed ↔ name ∈ names ∧ u.Wants name) ∧
        filledLines block = listed.map importLine := by
  intro source names
  obtain ⟨u, hu, hcheck⟩ := exists_ok_of_any (x := ofSource ⟨"A.java"⟩ ⟨"A.java"⟩ .java source)
    (f := fun u => decide (names.filter u.needsImport = ["f.H", "g.H", "f.H", "g.I", "g.H"]))
    (by decide +kernel)
  have hnames : ∀ name ∈ names, IsDottedName name := by decide +kernel
  obtain ⟨listed, block, hsublist, hmem, hblock, -⟩ :=
    missingImports_exact rfl hu hnames []
  exact ⟨u, hu, of_decide_eq_true hcheck, listed, block, hsublist, hmem, hblock⟩

end Detect

end Tracepoint
