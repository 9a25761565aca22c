import Mathlib.Data.List.Induction
import Mathlib.Data.List.Nodup
import Tracepoint.Proofs.Effects
import Tracepoint.Proofs.Model.Build
import Tracepoint.Proofs.Text.Split

/-!
# The classes and packages of a classpath

The index of a classpath is filled with the names of the entries of its archives and of the files
in its directories. A name that ends in `.class` or `.java` gives a class, and the package that the
class is in, if it is in one. What is indexed are the classes and packages that some name gives, so
that names may come in any order and more than once.

Results:

* `stem?_eq_some_iff`, `classOf_eq`, `exists_holds_iff`: what a name gives.
* `hasClass_addEntry`, `hasPackage_addEntry`: what one name adds; `hasClass_addEntries`,
  `hasPackage_addEntries`: what a list of names adds.
* `agrees_addEntries`: the same names make indices that answer alike.
* `build_apply`: the index of a classpath is that of the names that are found on its entries.
* `addEntries_exact`: what an index knows, and what it does not depend on.
-/

namespace Tracepoint

open Text

namespace ClasspathIndex

/-! ## What a name gives -/

/-- A text with a dot in the place of each `sep`. -/
def dotted (sep : Char) (s : List Char) : List Char := s.map fun c => if c = sep then '.' else c

/-- A stem is divided at its last slash or dot, and not at all if it has none. -/
inductive Divides : List Char → List Char → List Char → Prop
  | whole {stem : List Char} : '/' ∉ stem → '.' ∉ stem → Divides stem [] stem
  | parted {before rest : List Char} {sep : Char} : sep = '/' ∨ sep = '.' → '/' ∉ rest →
      '.' ∉ rest → Divides (before ++ sep :: rest) before rest

/-- The name of an entry is that of a class or of its source, and stands for the rest of its stem
    in a package. What describes archives, modules and packages does not count. -/
inductive Holds (name : String) : List Char → List Char → Prop
  | mk {stem before rest : List Char} :
      name.toList = stem ++ ".class".toList ∨ name.toList = stem ++ ".java".toList →
      ¬ "META-INF/".toList <+: stem → ¬ "module-info".toList <:+ stem →
      ¬ "package-info".toList <:+ stem → Divides stem before rest →
        Holds name (dotted '/' before) rest

/-- The package, if there is one, and the rest of a stem with dots in front of nested classes. -/
def className (package rest : List Char) : List Char :=
  (if package = [] then [] else package ++ ['.']) ++ dotted '$' rest

/-- The name of an entry gives a class. -/
def GivesClass (name c : String) : Prop :=
  ∃ package rest, Holds name package rest ∧ c.toList = className package rest

/-- The name of an entry gives a class in a package. -/
def GivesPackage (name p : String) : Prop :=
  ∃ package rest, Holds name package rest ∧ package ≠ [] ∧ p.toList = package

/-- No name ends both in `.class` and in `.java`. -/
theorem append_class_ne (a b : List Char) : a ++ ".class".toList ≠ b ++ ".java".toList := by
  intro h
  have hlast := congrArg List.getLast? h
  simp at hlast

theorem stem?_eq_some_iff {name stem : List Char} :
    stem? name = some stem ↔
      (name = stem ++ ".class".toList ∨ name = stem ++ ".java".toList) ∧
      ¬ "META-INF/".toList <+: stem ∧ ¬ "module-info".toList <:+ stem ∧
      ¬ "package-info".toList <:+ stem := by
  have hcut : ∀ s, (dropEnd? ".class".toList name).orElse
      (fun _ => dropEnd? ".java".toList name) = some s ↔
        name = s ++ ".class".toList ∨ name = s ++ ".java".toList := by
    intro s
    cases hclass : dropEnd? ".class".toList name with
    | some t =>
      rw [dropEnd?_eq_some_iff] at hclass
      subst hclass
      rw [Option.orElse_some, Option.some_inj, List.append_left_inj]
      exact ⟨.inl, fun h => h.resolve_right (append_class_ne _ _)⟩
    | none =>
      have hnot : name ≠ s ++ ".class".toList := by
        intro h
        rw [dropEnd?_eq_some_iff.2 h] at hclass
        cases hclass
      rw [Option.orElse_none, dropEnd?_eq_some_iff]
      exact ⟨.inr, fun h => h.resolve_left hnot⟩
  rw [stem?, Option.bind_eq_bind, Option.bind_eq_some_iff]
  simp only [hcut, Option.ite_none_left_eq_some, Bool.or_eq_true, startsWith_iff_prefix,
    endsWith_iff_suffix, not_or, Option.some_inj]
  constructor
  · rintro ⟨s, hname, ⟨⟨hmeta, hmodule⟩, hpackage⟩, rfl⟩
    exact ⟨hname, hmeta, hmodule, hpackage⟩
  · rintro ⟨hname, hmeta, hmodule, hpackage⟩
    exact ⟨stem, hname, ⟨⟨hmeta, hmodule⟩, hpackage⟩, rfl⟩

theorem dotted_of_not_mem {sep : Char} {s : List Char} (h : sep ∉ s) : dotted sep s = s := by
  have hkeep : ∀ c ∈ s, (if c = sep then '.' else c) = c := by
    intro c hc
    rw [if_neg (ne_of_mem_of_not_mem hc h)]
  exact (List.map_congr_left hkeep).trans (List.map_id' s)

/-- The last dot of a stem with dots for slashes is where the stem is divided. -/
theorem classOf_eq {stem before rest : List Char} (h : Divides stem before rest) :
    classOf stem = (dotted '/' before, className (dotted '/' before) rest) := by
  have hsplit : (splitLast? '.' (dotted '/' stem)).getD ([], dotted '/' stem) =
      (dotted '/' before, rest) := by
    cases h with
    | whole hslash hdot =>
      rw [dotted_of_not_mem hslash, splitLast?_eq_none_iff.2 hdot]
      rfl
    | @parted before rest sep hsep hslash hdot =>
      have hdotted : dotted '/' (before ++ sep :: rest) = dotted '/' before ++ '.' :: rest := by
        rw [dotted, List.map_append, List.map_cons, ← dotted, ← dotted, dotted_of_not_mem hslash]
        rcases hsep with rfl | rfl <;> rfl
      rw [splitLast?_eq_some_iff.2 ⟨hdotted, hdot⟩]
      rfl
  unfold classOf
  dsimp only
  rw [← dotted, hsplit]
  cases hpackage : dotted '/' before with
  | nil => rfl
  | cons c package => simp [className, dotted]

theorem exists_divides (stem : List Char) : ∃ before rest, Divides stem before rest := by
  induction stem using List.reverseRecOn with
  | nil => exact ⟨[], [], .whole List.not_mem_nil List.not_mem_nil⟩
  | append_singleton s c ih =>
    by_cases hc : c = '/' ∨ c = '.'
    · exact ⟨s, [], .parted hc List.not_mem_nil List.not_mem_nil⟩
    rw [not_or] at hc
    have hconcat : ∀ {d : Char} {t : List Char}, c ≠ d → d ∉ t → d ∉ t ++ [c] := by
      intro d t hne ht
      simp [ht, Ne.symm hne]
    obtain ⟨before, rest, h⟩ := ih
    cases h with
    | whole hslash hdot => exact ⟨[], s ++ [c], .whole (hconcat hc.1 hslash) (hconcat hc.2 hdot)⟩
    | parted hsep hslash hdot =>
      refine ⟨before, rest ++ [c], ?_⟩
      rw [List.append_assoc, List.cons_append]
      exact .parted hsep (hconcat hc.1 hslash) (hconcat hc.2 hdot)

/-- A name stands for what is read off its stem. -/
theorem exists_holds_iff {name : String} {P : List Char → List Char → Prop} :
    (∃ package rest, Holds name package rest ∧ P package (className package rest)) ↔
      ∃ stem, stem? name.toList = some stem ∧ P (classOf stem).1 (classOf stem).2 := by
  constructor
  · rintro ⟨_, rest, ⟨hname, hmeta, hmodule, hpackage, hdivides⟩, hP⟩
    refine ⟨_, stem?_eq_some_iff.2 ⟨hname, hmeta, hmodule, hpackage⟩, ?_⟩
    rwa [classOf_eq hdivides]
  · rintro ⟨stem, hstem, hP⟩
    obtain ⟨hname, hmeta, hmodule, hpackage⟩ := stem?_eq_some_iff.1 hstem
    obtain ⟨before, rest, hdivides⟩ := exists_divides stem
    rw [classOf_eq hdivides] at hP
    exact ⟨_, rest, ⟨hname, hmeta, hmodule, hpackage, hdivides⟩, hP⟩

theorem givesClass_iff {name c : String} :
    GivesClass name c ↔ ∃ stem, stem? name.toList = some stem ∧ c.toList = (classOf stem).2 :=
  exists_holds_iff (P := fun _ qualified => c.toList = qualified)

theorem givesPackage_iff {name p : String} :
    GivesPackage name p ↔
      ∃ stem, stem? name.toList = some stem ∧ (classOf stem).1 ≠ [] ∧
        p.toList = (classOf stem).1 :=
  exists_holds_iff (P := fun package _ => package ≠ [] ∧ p.toList = package)

/-! ## Adding names -/

theorem mem_insertNew {x y : String} {xs : List String} :
    y ∈ insertNew x xs ↔ y ∈ xs ∨ y = x := by
  unfold insertNew
  split_ifs with h
  · have hx : x ∈ xs := List.contains_iff_mem.1 h
    exact ⟨.inl, fun hy => hy.elim id fun heq => heq ▸ hx⟩
  · rw [List.mem_append, List.mem_singleton]

theorem nodup_insertNew {x : String} {xs : List String} (h : xs.Nodup) :
    (insertNew x xs).Nodup := by
  unfold insertNew
  split_ifs with hx
  · exact h
  · rw [List.contains_iff_mem] at hx
    refine List.nodup_append.2 ⟨h, List.pairwise_singleton _ x, fun a ha b hb => ?_⟩
    rw [List.mem_singleton.1 hb]
    exact ne_of_mem_of_not_mem ha hx

theorem hasClass_addEntry (i : ClasspathIndex) (name c : String) :
    (i.addEntry name).hasClass c = true ↔ i.hasClass c = true ∨ GivesClass name c := by
  rw [givesClass_iff]
  unfold addEntry hasClass
  cases stem? name.toList with
  | none => simp
  | some stem =>
    simp only [List.contains_iff_mem, mem_insertNew, ← String.toList_inj, String.toList_ofList,
      Option.some_inj, exists_eq_left']

theorem hasPackage_addEntry (i : ClasspathIndex) (name p : String) :
    (i.addEntry name).hasPackage p = true ↔ i.hasPackage p = true ∨ GivesPackage name p := by
  rw [givesPackage_iff]
  unfold addEntry hasPackage
  cases stem? name.toList with
  | none => simp
  | some stem =>
    simp only [Option.some_inj, exists_eq_left', List.contains_iff_mem]
    cases hpackage : (classOf stem).1 with
    | nil => simp
    | cons c package =>
      rw [List.isEmpty_cons, if_neg Bool.false_ne_true, mem_insertNew, ← String.toList_inj,
        String.toList_ofList]
      simp

theorem nodup_classes_addEntry {i : ClasspathIndex} (h : i.classes.Nodup) (name : String) :
    (i.addEntry name).classes.Nodup := by
  unfold addEntry
  cases stem? name.toList with
  | none => exact h
  | some stem => exact nodup_insertNew h

theorem hasClass_addEntries (i : ClasspathIndex) (names : List String) (c : String) :
    (i.addEntries names).hasClass c = true ↔
      i.hasClass c = true ∨ ∃ name ∈ names, GivesClass name c := by
  induction names generalizing i with
  | nil => simp [addEntries]
  | cons name names ih =>
    rw [addEntries, List.foldl_cons, ← addEntries, ih, hasClass_addEntry, or_assoc,
      List.exists_mem_cons_iff]

theorem hasPackage_addEntries (i : ClasspathIndex) (names : List String) (p : String) :
    (i.addEntries names).hasPackage p = true ↔
      i.hasPackage p = true ∨ ∃ name ∈ names, GivesPackage name p := by
  induction names generalizing i with
  | nil => simp [addEntries]
  | cons name names ih =>
    rw [addEntries, List.foldl_cons, ← addEntries, ih, hasPackage_addEntry, or_assoc,
      List.exists_mem_cons_iff]

theorem nodup_classes_addEntries {i : ClasspathIndex} (h : i.classes.Nodup)
    (names : List String) : (i.addEntries names).classes.Nodup := by
  induction names generalizing i with
  | nil => exact h
  | cons name names ih => exact ih (nodup_classes_addEntry h name)

/-! ## Indices that agree -/

/-- Two indices answer alike, and the same imports resolve with them. -/
structure Agrees (i j : ClasspathIndex) : Prop where
  size : i.size = j.size
  hasClass : ∀ c, i.hasClass c = j.hasClass c
  hasPackage : ∀ p, i.hasPackage p = j.hasPackage p
  unresolved : ∀ m, Model.unresolved m i = Model.unresolved m j

/-- Of a class, it only counts whether it is there. -/
theorem size_eq_of_hasClass {i j : ClasspathIndex} (hi : i.classes.Nodup) (hj : j.classes.Nodup)
    (h : ∀ c, i.hasClass c = j.hasClass c) : i.size = j.size := by
  refine ((List.perm_ext_iff_of_nodup hi hj).2 fun c => ?_).length_eq
  rw [← List.contains_iff_mem, ← List.contains_iff_mem]
  exact Bool.eq_iff_iff.1 (h c)

theorem agrees_addEntries {names names' : List String}
    (h : ∀ name, name ∈ names ↔ name ∈ names') :
    Agrees (addEntries {} names) (addEntries {} names') := by
  have hclass : ∀ c, (addEntries {} names).hasClass c = (addEntries {} names').hasClass c := by
    intro c
    rw [Bool.eq_iff_iff, hasClass_addEntries, hasClass_addEntries]
    simp only [h]
  have hpackage : ∀ p,
      (addEntries {} names).hasPackage p = (addEntries {} names').hasPackage p := by
    intro p
    rw [Bool.eq_iff_iff, hasPackage_addEntries, hasPackage_addEntries]
    simp only [h]
  refine ⟨size_eq_of_hasClass ?_ ?_ hclass, hclass, hpackage, fun m => ?_⟩
  · exact nodup_classes_addEntries List.nodup_nil names
  · exact nodup_classes_addEntries List.nodup_nil names'
  · simp only [Model.unresolved, Model.resolves, hclass, hpackage]

end ClasspathIndex

/-! ## What is found on a classpath -/

/-- The name of a file that is met below a directory, as an archive has it. -/
def Disk.Reached.name? : Disk.Reached → Option String
  | .file names => some (String.intercalate "/" names)
  | .broken _ _ => none

namespace World

variable (w : World)

/-- The names of the files below a directory. -/
def namesBelow (p : Path) : List String :=
  match w.disk.resolve w.cwd p true with
  | .error _ => []
  | .ok loc => (w.disk.filesBelow (w.disk.entries.length + 1) [] [] p loc).filterMap (·.name?)

/-- The names of the entries of an archive, none if it cannot be read. -/
def namesIn (p : Path) : List String :=
  match w.disk.read w.cwd p with
  | .error _ => []
  | .ok content => (Archive.names? content).getD []

/-- The names that are found on an entry of a classpath. -/
def namesOn (p : Path) : List String :=
  if w.disk.isDirectory w.cwd p then w.namesBelow p
  else if w.disk.isFile w.cwd p then w.namesIn p
  else []

end World

/-- Steps over a list that do nothing but log, and give the same whatever is logged. -/
theorem Effect.foldlM_logged {α β : Type} {f : β → α → Action β} {g : β → α → β} {w : World}
    (h : ∀ b x lines, ∃ more, f b x (w.logged lines) = (.ok (g b x), w.logged more))
    (xs : List α) :
    ∀ b lines, ∃ more, xs.foldlM f b (w.logged lines) = (.ok (xs.foldl g b), w.logged more) := by
  induction xs with
  | nil => exact fun b lines => ⟨lines, rfl⟩
  | cons x xs ih =>
    intro b lines
    obtain ⟨more, hx⟩ := h b x lines
    rw [List.foldlM_cons, bind_of_ok hx]
    exact ih (g b x) more

namespace ClasspathIndex

open Effect

theorem addDirectory_apply (i : ClasspathIndex) (p : Path) (w : World) (lines : List LogLine) :
    ∃ more, i.addDirectory p (w.logged lines) =
      (.ok (i.addEntries (w.namesBelow p)), w.logged more) := by
  have hget : (get : Action World) (w.logged lines) = (.ok (w.logged lines), w.logged lines) := rfl
  unfold addDirectory World.namesBelow
  rw [bind_of_ok hget]
  dsimp only [World.disk_logged, World.cwd_logged]
  cases w.disk.resolve w.cwd p true with
  | error e => exact ⟨lines, rfl⟩
  | ok loc =>
    dsimp only
    rw [addEntries, List.foldl_filterMap]
    refine foldlM_logged (fun i r lines => ?_) _ i lines
    cases r with
    | file names => exact ⟨lines, rfl⟩
    | broken path text =>
      dsimp only
      rw [bind_of_ok (Action.warn_apply _ _), World.logged_logged]
      exact ⟨_, rfl⟩

/-- The names in an archive are added, or it cannot be read. -/
theorem addArchive_apply (i : ClasspathIndex) (p : Path) (w : World) :
    i.addArchive p w = (.ok (i.addEntries (w.namesIn p)), w) ∨
      (∃ e, i.addArchive p w = (.error e, w)) ∧ w.namesIn p = [] := by
  have hread := Action.read_apply p w
  unfold addArchive World.namesIn
  cases h : w.disk.read w.cwd p with
  | error e =>
    rw [h] at hread
    exact .inr ⟨⟨_, bind_of_error hread _⟩, rfl⟩
  | ok content =>
    rw [h] at hread
    rw [bind_of_ok hread]
    dsimp only
    cases Archive.names? content with
    | some names => exact .inl rfl
    | none => exact .inr ⟨⟨_, rfl⟩, rfl⟩

/-- An entry of a classpath adds the names that are found on it, and what else comes of it is
    logged. -/
theorem addPath_apply (i : ClasspathIndex) (p : Path) (w : World) (lines : List LogLine) :
    ∃ more, i.addPath p (w.logged lines) = (.ok (i.addEntries (w.namesOn p)), w.logged more) := by
  have hisDirectory : Action.isDirectory p (w.logged lines) =
      (.ok (w.disk.isDirectory w.cwd p), w.logged lines) := rfl
  have hisFile : Action.isFile p (w.logged lines) =
      (.ok (w.disk.isFile w.cwd p), w.logged lines) := rfl
  unfold addPath World.namesOn
  rw [bind_of_ok hisDirectory]
  by_cases hdirectory : w.disk.isDirectory w.cwd p = true
  · rw [if_pos hdirectory, if_pos hdirectory]
    exact addDirectory_apply i p w lines
  rw [if_neg hdirectory, if_neg hdirectory, bind_of_ok hisFile]
  by_cases hfile : w.disk.isFile w.cwd p = true
  · rw [if_pos hfile, if_pos hfile]
    have hattempt := Action.attempt_apply (i.addArchive p) (w.logged lines)
    rcases addArchive_apply i p (w.logged lines) with hadded | ⟨⟨e, hfailed⟩, hnone⟩
    · rw [hadded] at hattempt
      rw [bind_of_ok hattempt]
      exact ⟨lines, rfl⟩
    · rw [hfailed] at hattempt
      rw [bind_of_ok hattempt, show w.namesIn p = [] from hnone]
      dsimp only
      rw [bind_of_ok (Action.warn_apply _ _), World.logged_logged]
      exact ⟨_, rfl⟩
  · rw [if_neg hfile, if_neg hfile, bind_of_ok (Action.warn_apply _ _), World.logged_logged]
    exact ⟨_, rfl⟩

/-- The index of a classpath is that of the names that are found on its entries. -/
theorem build_apply (c : Classpath) (w : World) :
    ∃ lines, build c w =
      (.ok (addEntries {} (c.entries.flatMap w.namesOn)), w.logged lines) := by
  obtain ⟨more, hfold⟩ :=
    foldlM_logged (fun i p lines => addPath_apply i p w lines) c.entries {} []
  have hnames : c.entries.foldl (fun i p => i.addEntries (w.namesOn p)) {} =
      addEntries {} (c.entries.flatMap w.namesOn) := List.foldl_flatMap.symm
  rw [World.logged_nil, hnames] at hfold
  unfold build
  rw [bind_of_ok hfold, bind_of_ok (Action.debug_apply _ _), World.logged_logged]
  exact ⟨_, rfl⟩

/-- An index knows exactly the classes and packages that some name gives. In which order names were
    added, and how often, makes no difference, and neither does it for a classpath in which order
    its entries stand and on how many of them a name is found. -/
theorem addEntries_exact (names : List String) :
    (∀ c, (addEntries {} names).hasClass c = true ↔ ∃ name ∈ names, GivesClass name c) ∧
      (∀ p, (addEntries {} names).hasPackage p = true ↔ ∃ name ∈ names, GivesPackage name p) ∧
      (∀ names', (∀ name, name ∈ names ↔ name ∈ names') →
        Agrees (addEntries {} names) (addEntries {} names')) ∧
      ∀ (w : World) (c : Classpath),
        (∀ name, name ∈ names ↔ ∃ p ∈ c.entries, name ∈ w.namesOn p) →
          ∃ i lines, build c w = (.ok i, w.logged lines) ∧ Agrees (addEntries {} names) i := by
  refine ⟨fun c => ?_, fun p => ?_, fun names' h => agrees_addEntries h, fun w c h => ?_⟩
  · rw [hasClass_addEntries]
    exact or_iff_right Bool.false_ne_true
  · rw [hasPackage_addEntries]
    exact or_iff_right Bool.false_ne_true
  · obtain ⟨lines, hbuild⟩ := build_apply c w
    refine ⟨_, lines, hbuild, agrees_addEntries fun name => ?_⟩
    rw [h, List.mem_flatMap]

/-- Names that are added in two orders, and found on two directories of which one holds what the
    other does. -/
theorem addEntries_exact_of_overlap :
    let file := Entry.file ByteArray.empty
    let w : World := { disk := ⟨[(["a"], .directory), (["a", "Util.class"], file),
      (["b"], .directory), (["b", "org"], .directory), (["b", "org", "Top$In.java"], file),
      (["b", "Util.class"], file)]⟩ }
    let names := ["Util.class", "org/Top$In.java"]
    let names' := ["org/Top$In.java", "Util.class", "org/Top$In.java"]
    (addEntries {} names).classes = ["Util", "org.Top.In"] ∧
      (addEntries {} names').classes = ["org.Top.In", "Util"] ∧
      Agrees (addEntries {} names) (addEntries {} names') ∧
      ∃ i lines, build ⟨[⟨"/b"⟩, ⟨"/a"⟩]⟩ w = (.ok i, w.logged lines) ∧
        Agrees (addEntries {} names) i ∧ i.hasPackage "org" = true := by
  intro file w names names'
  have ha : w.namesOn ⟨"/a"⟩ = ["Util.class"] := by decide +kernel
  have hb : w.namesOn ⟨"/b"⟩ = ["Util.class", "org/Top$In.java"] := by decide +kernel
  have hfound : ∀ name, name ∈ names ↔
      ∃ p ∈ (⟨[⟨"/b"⟩, ⟨"/a"⟩]⟩ : Classpath).entries, name ∈ w.namesOn p := by
    intro name
    simp [ha, hb, names]
    exact .inl
  have hsame : ∀ name, name ∈ names ↔ name ∈ names' := by
    intro name
    simp [names, names', or_comm]
    exact .inr
  obtain ⟨-, -, hagrees, hclasspath⟩ := addEntries_exact names
  obtain ⟨i, lines, hbuild, hi⟩ := hclasspath w ⟨[⟨"/b"⟩, ⟨"/a"⟩]⟩ hfound
  refine ⟨by decide, by decide, hagrees names' hsame, i, lines, hbuild, hi, ?_⟩
  rw [← hi.hasPackage]
  decide

end ClasspathIndex

end Tracepoint
