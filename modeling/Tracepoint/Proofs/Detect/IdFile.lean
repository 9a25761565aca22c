import Std.Data.String.ToNat
import Tracepoint.Proofs.Detect.Events
import Tracepoint.Proofs.Instrument.Redone
import Tracepoint.Proofs.Source.Owners
import Tracepoint.Proofs.Text.Blanks
import Tracepoint.Proofs.Text.Enclosed
import Tracepoint.Proofs.Text.Split

/-!
# Reading an id file back

An id file has a line for each entry: the identifier, a space and the key. Nothing is escaped,
so the entries can be read off the file exactly if no key has a line break in it. Of a key only
the package can have one, because it is taken from the source as it is written there. The names
of types are identifiers, and the types of parameters are written without blanks.

Results:

* `IdMap.readEntries_render_iff`: when the entries of a map can be read off its text.
* `blank_mem_elementKey_iff`: the blanks of a key are those of the package.
* `idFile_readable_iff`: when the id file of a detector that has processed some units can be
  read back.
* `idFile_confused_by_package`: a package on two lines.
-/

namespace Tracepoint

open Text

/-- What is neither in texts nor in the separator is not in the texts joined. -/
theorem Text.not_mem_intercalate {c : Char} {sep : String} {ss : List String}
    (hsep : c ∉ sep.toList) (h : ∀ s ∈ ss, c ∉ s.toList) :
    c ∉ (String.intercalate sep ss).toList := by
  cases ss with
  | nil => simp
  | cons s ss =>
    have hjoined : c ∉ (String.intercalate sep (s :: ss) ++ sep).toList := by
      rw [intercalate_append_sep, String.toList_join, List.flatMap_map, List.mem_flatMap]
      rintro ⟨x, hx, hmem⟩
      rw [String.toList_append, List.mem_append] at hmem
      exact hmem.elim (h x hx) hsep
    rw [String.toList_append, List.mem_append, not_or] at hjoined
    exact hjoined.1

namespace IdMap

/-! ## Lines and entries -/

/-- The entry in a line: the first space ends the identifier, and the rest is the key. -/
def entryOf? (line : List Char) : Option (Nat × String) := do
  let (id, key) ← splitFirst? ' ' line
  return (← (String.ofList id).toNat?, String.ofList key)

/-- What the lines of a text hold. Each line has a line break at its end. -/
def readEntries (text : String) : List (Option (Nat × String)) :=
  (splitAll '\n' text.toList).dropLast.map entryOf?

/-- The line of an entry without the line break. -/
def entryLine (e : Nat × String) : List Char := (toString e.1).toList ++ ' ' :: e.2.toList

/-- What is no digit is not in a number. -/
theorem not_mem_toString {c : Char} (hc : c.isDigit = false) (n : Nat) :
    c ∉ (toString n).toList := by
  rw [Nat.toString_eq_ofList_toDigits, String.toList_ofList]
  intro hmem
  rw [Nat.isDigit_of_mem_toDigits (by decide) (by decide) hmem] at hc
  cases hc

theorem entryOf?_entryLine (e : Nat × String) : entryOf? (entryLine e) = some e := by
  rw [entryOf?, entryLine, splitFirst?_append (not_mem_toString (by decide) _)]
  simp only [Option.bind_eq_bind, Option.bind_some, String.ofList_toList]
  rw [show toString e.1 = e.1.repr from rfl, Nat.toNat?_repr]
  rfl

theorem newline_mem_entryLine {e : Nat × String} : '\n' ∈ entryLine e ↔ '\n' ∈ e.2.toList := by
  have hid := not_mem_toString (c := '\n') (by decide) e.1
  rw [entryLine, List.mem_append, List.mem_cons]
  simp only [hid, false_or, show '\n' ≠ ' ' by decide]

theorem toList_render (m : IdMap) :
    m.render.toList = (m.entries.map entryLine).flatMap (· ++ ['\n']) := by
  rw [render, String.toList_join, List.flatMap_map, List.flatMap_map]
  apply List.flatMap_congr
  intro e _
  rw [String.toList_append, String.toList_append, String.toList_append, entryLine]
  simp only [List.append_assoc]
  rfl

theorem map_snd_numbered (start : Nat) (keys : List String) :
    (numbered start keys).map (·.2) = keys := by
  induction keys generalizing start with
  | nil => rfl
  | cons key keys ih => simp [numbered, ih]

theorem forall_mem_entries {m : IdMap} {P : String → Prop} :
    (∀ e ∈ m.entries, P e.2) ↔ ∀ key ∈ m.order, P key := by
  conv_rhs => rw [← map_snd_numbered 1 m.order, List.forall_mem_map]
  rfl

/-- The entries of a map can be read off its text exactly if no key has a line break. -/
theorem readEntries_render_iff (m : IdMap) :
    readEntries m.render = m.entries.map some ↔ ∀ key ∈ m.order, '\n' ∉ key.toList := by
  have hread : readEntries m.render =
      ((m.entries.map entryLine).flatMap (splitAll '\n')).map entryOf? := by
    rw [readEntries, toList_render, splitAll_flatMap, List.dropLast_concat]
  rw [hread, ← forall_mem_entries (P := fun key => '\n' ∉ key.toList)]
  constructor
  · -- a line break in a key makes more lines than there are entries
    intro h e he
    have hlength := congrArg List.length h
    rw [List.length_map, List.length_map] at hlength
    have hlines : ∀ line ∈ m.entries.map entryLine, '\n' ∉ line :=
      not_mem_of_length_flatMap (by rw [hlength, List.length_map])
    exact newline_mem_entryLine.not.1 (hlines _ (List.mem_map_of_mem he))
  · intro h
    have hlines : ∀ line ∈ m.entries.map entryLine, '\n' ∉ line :=
      List.forall_mem_map.2 fun e he => newline_mem_entryLine.not.2 (h e he)
    rw [flatMap_splitAll_of_not_mem hlines, List.map_map]
    exact List.map_congr_left fun e _ => entryOf?_entryLine e

/-- A file that a map was written to has the text of the map. -/
theorem readText_of_write {m : IdMap} {p : Path} {w w' : World} (hw : w.disk.Sound w.cwd)
    (h : m.write p w = (.ok (), w')) : w'.disk.readText w'.cwd p = .ok m.render := by
  have hcwd : w'.cwd = w.cwd := ((keeps_write m (Q := fun _ _ => True) trivial).of_eq h hw).1
  have htext : String.fromUTF8? m.render.toUTF8 = some m.render := dif_pos m.render.isValidUTF8
  rw [Disk.readText, hcwd, Action.read_of_put hw h]
  simp only [bind, Except.bind, htext]
  rfl

end IdMap

namespace Source

open Java

/-! ## Blanks in keys -/

/-- A unit that some source text gives. -/
def CompilationUnit.Accepted (u : CompilationUnit) : Prop :=
  ∃ path relativePath language source,
    CompilationUnit.ofSource path relativePath language source = .ok u

namespace ParsedText

/-- The type of a parameter is written without blanks. -/
theorem blank_not_mem_parameterType? {t : ParsedText} {parameter : Node} {type : String} {c : Char}
    (hc : isBlank c = true) (h : t.parameterType? parameter = some type) : c ∉ type.toList := by
  have hsqueeze : ∀ s : List Char, c ∉ squeeze s := by
    intro s hmem
    have hsolid := (List.mem_filter.1 hmem).2
    simp [hc] at hsolid
  unfold parameterType? at h
  split at h
  · cases h
    rw [String.toList_ofList]
    exact hsqueeze _
  · cases h
    rw [String.toList_ofList]
    exact hsqueeze _
  · cases h

section

variable {t : ParsedText} (hfits : t.root.All (Node.FitsIn t.source)) {c : Char}
  (hc : isBlank c = true)
include hfits hc

theorem blank_not_mem_signature {p : Place} (hp : p.In t.root) :
    c ∉ (t.signature p.node).toList := by
  have hname : c ∉ ((t.declaredName? p.node).getD "").toList := by
    cases hname : t.declaredName? p.node with
    | none => simp
    | some name =>
      exact not_mem_of_isIdentifier (isIdentifier_declaredName?
        (hfits.places p (Node.mem_places_iff.2 hp)) hname) (isIdentifierPart_of_isBlank hc)
  have htypes : c ∉ (String.intercalate ","
      (((p.node.child? .parameters).map t.parameterTypes).getD [])).toList := by
    refine not_mem_intercalate ?_ fun s hs => ?_
    · rw [show ",".toList = [','] from rfl, List.mem_singleton]
      rintro rfl
      cases hc
    · cases hparameters : p.node.child? .parameters with
      | none =>
        rw [hparameters] at hs
        cases hs
      | some parameters =>
        rw [hparameters] at hs
        obtain ⟨parameter, -, htype⟩ := List.mem_filterMap.1 hs
        exact blank_not_mem_parameterType? hc htype
  have hpunctuation : ∀ d ∈ ['(', ')'], c ≠ d := by
    rintro d hd rfl
    simp only [List.mem_cons, List.not_mem_nil, or_false] at hd
    rcases hd with rfl | rfl <;> cases hc
  simp only [signature, String.toList_append, List.mem_append, hname, htypes, false_or, or_false]
  simpa using hpunctuation

theorem blank_not_mem_enclosingTypes {p : Place} (hp : p.In t.root) :
    ∀ name ∈ t.enclosingTypes p, c ∉ name.toList := by
  intro name hname
  rw [enclosingTypes_eq] at hname
  obtain ⟨s, hs, hname⟩ := List.mem_flatMap.1 hname
  obtain ⟨hs, hscope⟩ := List.mem_filter.1 hs
  obtain ⟨first, around, hlabel, hfirst, haround⟩ := exists_label hfits (hp.outward hs) hscope
  rw [hlabel] at hname
  rcases List.mem_cons.1 hname with rfl | hname
  · exact not_mem_of_isIdentifier hfirst (isIdentifierPart_of_isBlank hc)
  · obtain ⟨q, hq, -, rfl⟩ := haround name (by simpa using hname)
    exact blank_not_mem_signature hfits hc hq

end

end ParsedText

end Source

namespace Detect

open Java Source

/-- The blanks of a key are those of the package. -/
theorem blank_mem_elementKey_iff {u : CompilationUnit} (hu : u.Fits) {c : Char}
    (hc : isBlank c = true) {p : Place} (hp : p.In u.parsed.root) :
    c ∈ (elementKey u p).toList ↔ ∃ package ∈ u.package, c ∈ package.toList := by
  have hsignature := ParsedText.blank_not_mem_signature hu.nodes hc hp
  have howners := ParsedText.blank_not_mem_enclosingTypes hu.nodes hc hp
  have hdot : c ≠ '.' := by
    rintro rfl
    cases hc
  simp only [elementKey, String.toList_append, String.toList_join, List.mem_append, hsignature,
    or_false, List.flatMap_map, List.mem_flatMap, Option.mem_toList, List.mem_reverse]
  constructor
  · rintro ⟨name, hname | hname, hmem⟩
    · exact ⟨name, hname, by simpa [hdot] using hmem⟩
    · exact absurd (by simpa [hdot] using hmem) (howners name hname)
  · rintro ⟨package, hpackage, hmem⟩
    exact ⟨package, .inl hpackage, .inl hmem⟩

/-! ## Id files -/

/-- One unit that a detector processes, with the edits that were recorded before. -/
structure Visit where
  detector : MethodDetector
  unit : CompilationUnit
  edits : UnitEdits

namespace Visit

/-- The elements that are reported on a visit. -/
def elements (v : Visit) : List Element :=
  if v.unit.language.outlines then Detect.elements v.unit v.detector.constructors else []

/-- The identifiers after a visit. -/
def ids (before : IdMap) (v : Visit) : IdMap :=
  (v.detector.process v.unit (some before) v.edits).2.ids

/-- The identifiers after some visits, if there were none before. -/
def idsAfter (visits : List Visit) : IdMap := visits.foldl ids ⟨{}, []⟩

/-- Every element that is reported gets an identifier. -/
theorem ids_eq {v : Visit} (h : v.unit.Accepted) (before : IdMap) :
    v.ids before = before.addKeys (v.elements.map (·.key)) := by
  obtain ⟨path, relativePath, language, source, hu⟩ := h
  unfold ids elements
  cases hl : v.unit.language.outlines with
  | true =>
    have hfits := CompilationUnit.ofSource_fits (CompilationUnit.ofSource_language hu ▸ hl) hu
    rw [if_pos rfl]
    exact (MethodDetector.process_complete hl v.detector before v.edits
      fun e he => isBoundary_offset hfits.ranges he).2.2.1
  | false => simp [MethodDetector.process, MethodDetector.obstacle?, hl]

theorem idsAfter_eq {visits : List Visit} (h : ∀ v ∈ visits, v.unit.Accepted) :
    idsAfter visits = IdMap.addKeys ⟨{}, []⟩ (visits.flatMap fun v => v.elements.map (·.key)) := by
  unfold idsAfter
  generalize (⟨{}, []⟩ : IdMap) = before
  induction visits generalizing before with
  | nil => rfl
  | cons v visits ih =>
    rw [List.forall_mem_cons] at h
    rw [List.foldl_cons, ids_eq h.1, ih h.2, List.flatMap_cons, IdMap.addKeys_append]

/-- The keys of the elements that were reported, each once and in order. -/
theorem order_idsAfter {visits : List Visit} (h : ∀ v ∈ visits, v.unit.Accepted) :
    (idsAfter visits).order = (visits.flatMap fun v => v.elements.map (·.key)).eraseDups := by
  rw [idsAfter_eq h, IdMap.order_addKeys IdMap.wellFormed_empty]
  simp

theorem mem_order_idsAfter {visits : List Visit} (h : ∀ v ∈ visits, v.unit.Accepted)
    {key : String} :
    key ∈ (idsAfter visits).order ↔ ∃ v ∈ visits, ∃ e ∈ v.elements, e.key = key := by
  rw [order_idsAfter h, List.mem_eraseDups]
  simp

/-- The blanks in the keys of a visit are those of the package. -/
theorem blank_mem_key_iff {v : Visit} (h : v.unit.Accepted) {c : Char} (hc : isBlank c = true)
    {e : Element} (he : e ∈ v.elements) :
    c ∈ e.key.toList ↔ ∃ package ∈ v.unit.package, c ∈ package.toList := by
  obtain ⟨path, relativePath, language, source, hu⟩ := h
  unfold elements at he
  split_ifs at he with hl
  · have hfits := CompilationUnit.ofSource_fits (CompilationUnit.ofSource_language hu ▸ hl) hu
    rw [elements_eq hfits] at he
    obtain ⟨p, hp, rfl⟩ := List.mem_map.1 he
    exact blank_mem_elementKey_iff hfits hc (Node.mem_places_iff.1 (List.mem_filter.1 hp).1)
  · cases he

end Visit

/-- A detector has processed some units, and its id file is written. The entries can be read off
    the file exactly if no unit of which elements were reported has a package with a line break. -/
theorem idFile_readable_iff {visits : List Visit} (h : ∀ v ∈ visits, v.unit.Accepted) {p : Path}
    {w w' : World} (hw : w.disk.Sound w.cwd)
    (hwrite : (Visit.idsAfter visits).write p w = (.ok (), w')) :
    ∃ text, w'.disk.readText w'.cwd p = .ok text ∧
      (IdMap.readEntries text = (Visit.idsAfter visits).entries.map some ↔
        ∀ v ∈ visits, v.elements ≠ [] → ∀ package ∈ v.unit.package, '\n' ∉ package.toList) := by
  refine ⟨_, IdMap.readText_of_write hw hwrite, ?_⟩
  rw [IdMap.readEntries_render_iff]
  constructor
  · intro hkeys v hv hne package hpackage hmem
    obtain ⟨e, he⟩ := List.exists_mem_of_ne_nil _ hne
    refine hkeys e.key ((Visit.mem_order_idsAfter h).2 ⟨v, hv, e, he, rfl⟩) ?_
    exact (Visit.blank_mem_key_iff (h v hv) (by decide) he).2 ⟨package, hpackage, hmem⟩
  · intro hpackages key hkey hmem
    obtain ⟨v, hv, e, he, rfl⟩ := (Visit.mem_order_idsAfter h).1 hkey
    obtain ⟨package, hpackage, hmem⟩ := (Visit.blank_mem_key_iff (h v hv) (by decide) he).1 hmem
    exact hpackages v hv (List.ne_nil_of_mem he) package hpackage hmem

/-- A package with spaces, parameters on several lines and a local type, found with constructors
    and then without. -/
theorem idFile_readable_of_lines :
    let source := ("package a . b;class A\x7bA(int\n[] x)\x7b\x7d" ++
      "void m(A . B\nc,\nint x)\x7bclass L\x7bvoid n()\x7b\x7d\x7d\x7d\x7d").toList
    let w : World := {}
    let p : Path := ⟨"out/id.map"⟩
    ∃ u, CompilationUnit.ofSource ⟨"A.java"⟩ ⟨"A.java"⟩ .java source = .ok u ∧
      let ids := Visit.idsAfter [⟨{ constructors := true }, u, {}⟩, ⟨{}, u, {}⟩]
      ids.entries = [(1, "a . b.A.A(int[])"), (2, "a . b.A.m(A.B,int)"),
        (3, "a . b.A.m(A.B,int).L.n()")] ∧
      (ids.write p w).1.isOk = true ∧
      ∃ text, (ids.write p w).2.disk.readText [] p = .ok text ∧
        IdMap.readEntries text = ids.entries.map some := by
  intro source w p
  let visits (u : CompilationUnit) : List Visit := [⟨{ constructors := true }, u, {}⟩, ⟨{}, u, {}⟩]
  let written (u : CompilationUnit) := (Visit.idsAfter (visits u)).write p w
  obtain ⟨u, hu, hcheck⟩ := exists_ok_of_any
    (x := CompilationUnit.ofSource ⟨"A.java"⟩ ⟨"A.java"⟩ .java source)
    (f := fun u => decide (((visits u).flatMap fun v => v.elements.map (·.key)).eraseDups =
        ["a . b.A.A(int[])", "a . b.A.m(A.B,int)", "a . b.A.m(A.B,int).L.n()"] ∧
      u.package = some "a . b" ∧ (written u).2.cwd = [] ∧ (written u).1.isOk = true))
    (by decide +kernel)
  obtain ⟨hkeys, hpackage, hcwd, hok⟩ := of_decide_eq_true hcheck
  have hunit : ∀ v ∈ visits u, v.unit = u := by simp [visits]
  have haccepted : ∀ v ∈ visits u, v.unit.Accepted := fun v hv =>
    hunit v hv ▸ ⟨_, _, _, _, hu⟩
  obtain ⟨⟨⟩, hwritten⟩ : ∃ r, (written u).1 = .ok r := by
    cases hr : (written u).1 with
    | error e => rw [hr] at hok; cases hok
    | ok r => exact ⟨r, rfl⟩
  obtain ⟨text, htext, hread⟩ := idFile_readable_iff haccepted (w := w) (by decide)
    (show written u = (.ok (), (written u).2) from Prod.ext hwritten rfl)
  rw [hcwd] at htext
  refine ⟨u, hu, ?_, hok, text, htext, hread.2 fun v hv _ package hp => ?_⟩
  · show IdMap.numbered 1 (Visit.idsAfter (visits u)).order = _
    rw [Visit.order_idsAfter haccepted, hkeys]
    rfl
  · rw [hunit v hv, hpackage] at hp
    cases hp
    decide

/-- A package on two lines. Its entry takes two lines as well, of which the first reads as another
    key and the second as none. -/
theorem idFile_confused_by_package :
    ∃ u, CompilationUnit.ofSource ⟨"A.java"⟩ ⟨"A.java"⟩ .java
        "package a.\nb;class A\x7bvoid m()\x7b\x7d\x7d".toList = .ok u ∧
      let ids := Visit.idsAfter [⟨{}, u, {}⟩]
      ids.entries = [(1, "a.\nb.A.m()")] ∧ ids.render = "1 a.\nb.A.m()\n" ∧
        IdMap.readEntries ids.render = [some (1, "a."), none] := by
  obtain ⟨u, hu, hcheck⟩ := exists_ok_of_any
    (x := CompilationUnit.ofSource ⟨"A.java"⟩ ⟨"A.java"⟩ .java
      "package a.\nb;class A\x7bvoid m()\x7b\x7d\x7d".toList)
    (f := fun u => decide ((Visit.elements ⟨{}, u, {}⟩).map (·.key) = ["a.\nb.A.m()"]))
    (by decide +kernel)
  have hkeys := of_decide_eq_true hcheck
  have hentries : (Visit.idsAfter [⟨{}, u, {}⟩]).entries = [(1, "a.\nb.A.m()")] := by
    rw [IdMap.entries, Visit.order_idsAfter (by simpa using ⟨_, _, _, _, hu⟩), List.flatMap_singleton,
      hkeys]
    rfl
  have hrender : (Visit.idsAfter [⟨{}, u, {}⟩]).render = "1 a.\nb.A.m()\n" := by
    rw [IdMap.render, hentries]
    decide +kernel
  refine ⟨u, hu, hentries, hrender, ?_⟩
  rw [hrender]
  show [IdMap.entryOf? (IdMap.entryLine (1, "a.")), none] = _
  rw [IdMap.entryOf?_entryLine]

end Detect

end Tracepoint
