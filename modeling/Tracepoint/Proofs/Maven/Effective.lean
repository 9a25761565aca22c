import Tracepoint.Proofs.Maven.Expansion
import Tracepoint.Proofs.Maven.Lineage
import Tracepoint.Proofs.Maven.Management

/-!
# The project of a descriptor

The documents of a descriptor and of its parents together describe a project. What it is follows
from the elements of these documents: its coordinates are those that the nearest document gives, its
dependencies are all that are listed, those farthest up the chain first, and references stand for
the values that the nearest definitions give to them.

Results:

* `Means`, `Expands`: what names stand for, and what becomes of texts that refer to them.
* `IsSettled`: what a dependency is to the element that lists it.
* `IsEffective`: what a project is to the documents.
* `Inherits.isEffective`: the project of a descriptor, once its documents were read.
* `readProject_exact`: which descriptors are read, and the project that comes of it.
-/

namespace Tracepoint.Maven

/-! ## References -/

/-- What names stand for in the texts of some documents, the nearest first. -/
structure Means (environment : Properties) (roots : List Xml.Node)
    (value? : String → Option String) : Prop where
  /-- Of all definitions of a property the nearest counts. -/
  property : ∀ name value, name ∉ ownNames →
    roots.findSome? (definition? name) = some value → value? name = some value
  /-- A name that starts with `env.` and has no definition stands for a variable. -/
  environment : ∀ name value, name ∉ ownNames → roots.findSome? (definition? name) = none →
    (value? name = some value ↔
      ∃ variableName, name = "env." ++ variableName ∧ environment.lookup variableName = some value)
  groupId : ∀ value, roots.findSome? (given? "groupId") = some value →
    value? "project.groupId" = some value
  version : ∀ value, roots.findSome? (given? "version") = some value →
    value? "project.version" = some value
  artifactId : value? "project.artifactId" =
    some ((roots.head?.bind (childText? · "artifactId")).getD "")

/-- A way to replace references: texts that hold none stay, and those that are well written are
    expanded in full, unless a chain of references has more than ten links. -/
structure Expands (value? : String → Option String) (expand : String → String) : Prop where
  plain : ∀ text : String, ¬ ['$', '\x7b'] <:+: text.toList → expand text = text
  full : ∀ text : String, TidyThrough value? text.toList →
    (∀ names, IsChain value? text.toList names → names.length ≤ 10) →
    Expansion value? text.toList (expand text).toList

theorem expands_interpolate (properties environment : Properties) :
    Expands (valueOf? properties environment) (interpolate properties environment) where
  plain := by
    intro text h
    have hnone : hasReference text.toList = false :=
      Bool.eq_false_iff.2 fun hreference => h (Text.occursIn_iff.1 hreference)
    rw [interpolate, maxRounds, expandRounds, hnone, if_neg (by simp), String.ofList_toList]
  full := by
    intro text h hbound
    rw [interpolate, String.toList_ofList]
    exact (expansion_expandRounds_iff h maxRounds).2 hbound

/-- The values of the properties that a descriptor inherits. -/
theorem Inherits.means {roots : List Xml.Node} {d : Descriptor} (h : Inherits roots d)
    (hne : roots ≠ []) (environment : Properties) :
    Means environment roots (valueOf? d.properties environment) where
  property := by
    intro name value hname hvalue
    exact valueOf?_eq_some_iff.2 (.inl ((h.property name hname).trans hvalue))
  environment := by
    intro name value hname hnone
    have hproperty : d.properties.lookup name = none := (h.property name hname).trans hnone
    rw [valueOf?_eq_some_iff, hproperty]
    simp
  groupId := by
    intro value hvalue
    exact valueOf?_eq_some_iff.2 (.inl (h.ownGroupId value (h.groupId.trans hvalue)))
  version := by
    intro value hvalue
    exact valueOf?_eq_some_iff.2 (.inl (h.ownVersion value (h.version.trans hvalue)))
  artifactId := valueOf?_eq_some_iff.2 (.inl (h.artifactId ▸ h.ownArtifactId hne))

/-! ## Dependencies -/

section

variable (expand : String → String) (roots : List Xml.Node)

/-- A coordinate as it is written, empty if it is left out. -/
def coordinate (n : Xml.Node) (name : String) : String := (childText? n name).getD ""

/-- The element of a managed dependency counts: none of the same written coordinates is nearer, or
    follows it in its document. -/
def Counts (n : Xml.Node) : Prop :=
  ∃ before after, roots.reverse.flatMap managing = before ++ n :: after ∧
    ∀ m ∈ after, ¬ (coordinate n "groupId" = coordinate m "groupId" ∧
      coordinate n "artifactId" = coordinate m "artifactId")

/-- The element of a managed dependency that has some coordinates once references are replaced, or
    that there is none. -/
inductive IsManaged (groupId artifactId : String) : Option Xml.Node → Prop
  | none (h : ∀ n, Counts roots n → ¬ (expand (coordinate n "groupId") = groupId ∧
      expand (coordinate n "artifactId") = artifactId)) : IsManaged groupId artifactId none
  | some {n : Xml.Node} (h : Counts roots n) (hgroup : expand (coordinate n "groupId") = groupId)
      (hartifact : expand (coordinate n "artifactId") = artifactId) :
      IsManaged groupId artifactId (some n)

/-- What a dependency is to the element that lists it: references are replaced, and a version and a
    scope that it leaves open are those of the managed dependency with its coordinates. -/
structure IsSettled (n : Xml.Node) (d : Dependency) : Prop where
  groupId : d.groupId = expand (coordinate n "groupId")
  artifactId : d.artifactId = expand (coordinate n "artifactId")
  managed : ∃ m, IsManaged expand roots d.groupId d.artifactId m ∧
    d.version = ((childText? n "version").or (m.bind (childText? · "version"))).map expand ∧
    d.scope = scopeOf expand ((childText? n "scope").or (m.bind (childText? · "scope")))
  isOptional : d.isOptional = true ↔ childText? n "optional" = some "true"
  systemPath : d.systemPath = (childText? n "systemPath").map fun p => ⟨expand p⟩

/-- What a project is to the documents that describe it, the nearest first. -/
structure IsEffective (project : Project) : Prop where
  groupId : project.groupId = (roots.findSome? (given? "groupId")).map expand
  version : project.version = (roots.findSome? (given? "version")).map expand
  artifactId : project.artifactId =
    expand ((roots.head?.bind (childText? · "artifactId")).getD "")
  /-- Dependencies come from the document farthest up the chain to the nearest. -/
  dependencies :
    List.Forall₂ (IsSettled expand roots) (roots.reverse.flatMap listed) project.dependencies

end

section

variable {roots : List Xml.Node} {d : Descriptor} (h : Inherits roots d)

include h

theorem Inherits.mem_managed_iff {m : WrittenDependency} :
    m ∈ d.managed ↔ ∃ n, Counts roots n ∧ readDependency n = m := by
  rw [h.managed, mem_foldl_manage]
  constructor
  · rintro ⟨before, after, heq, hafter⟩
    obtain ⟨xs, ys, hroots, -, hys⟩ := List.map_eq_append_iff.1 heq
    obtain ⟨n, zs, rfl, rfl, rfl⟩ := List.map_eq_cons_iff.1 hys
    exact ⟨n, ⟨xs, zs, hroots, fun m hm => hafter _ (List.mem_map_of_mem hm)⟩, rfl⟩
  · rintro ⟨n, ⟨before, after, heq, hafter⟩, rfl⟩
    refine ⟨before.map readDependency, after.map readDependency, ?_, ?_⟩
    · rw [heq, List.map_append, List.map_cons]
    · rintro x hx
      obtain ⟨m, hm, rfl⟩ := List.mem_map.1 hx
      exact hafter m hm

/-- What is found among the managed dependencies is what the documents manage. -/
theorem Inherits.isManaged (expand : String → String) (groupId artifactId : String) :
    ∃ m, IsManaged expand roots groupId artifactId m ∧
      managedFor? expand d.managed groupId artifactId = m.map readDependency := by
  cases hfound : managedFor? expand d.managed groupId artifactId with
  | none =>
    refine ⟨none, .none fun n hn hcoordinates => ?_, rfl⟩
    have hmem : readDependency n ∈ d.managed := h.mem_managed_iff.2 ⟨n, hn, rfl⟩
    have hno := List.find?_eq_none.1 hfound _ (List.mem_reverse.2 hmem)
    rw [Bool.and_eq_true, decide_eq_true_eq, decide_eq_true_eq] at hno
    exact hno hcoordinates
  | some m =>
    obtain ⟨n, hn, rfl⟩ :=
      h.mem_managed_iff.1 (List.mem_reverse.1 (List.mem_of_find?_eq_some hfound))
    have hcoordinates := List.find?_some hfound
    simp only [Bool.and_eq_true, decide_eq_true_eq] at hcoordinates
    exact ⟨some n, .some hn hcoordinates.1 hcoordinates.2, rfl⟩

theorem Inherits.isSettled (expand : String → String) (n : Xml.Node) :
    IsSettled expand roots n (settleDependency expand d.managed (readDependency n)) where
  groupId := rfl
  artifactId := rfl
  managed := by
    obtain ⟨m, hm, hfound⟩ := h.isManaged expand (expand (coordinate n "groupId"))
      (expand (coordinate n "artifactId"))
    have hversion : (m.map readDependency).bind (·.version) = m.bind (childText? · "version") := by
      cases m <;> rfl
    have hscope : (m.map readDependency).bind (·.scope) = m.bind (childText? · "scope") := by
      cases m <;> rfl
    refine ⟨m, hm, ?_, ?_⟩
    · rw [← hversion, ← hfound]
      simp only [settleDependency, Option.orElse_eq_or]
      rfl
    · rw [← hscope, ← hfound]
      simp only [settleDependency, Option.orElse_eq_or]
      rfl
  isOptional := beq_iff_eq
  systemPath := rfl

/-- The project of a descriptor is the one that its documents describe. -/
theorem Inherits.isEffective (environment : Properties) (path : Path) :
    IsEffective (interpolate d.properties environment) roots (d.project environment path) where
  groupId := congrArg (Option.map _) h.groupId
  version := congrArg (Option.map _) h.version
  artifactId := congrArg (interpolate _ _) h.artifactId
  dependencies := by
    show List.Forall₂ _ _ (d.dependencies.map _)
    rw [h.dependencies, List.map_map, List.forall₂_map_right_iff]
    exact List.forall₂_same.2 fun n _ => h.isSettled _ n

end

/-! ## Reading a project -/

/-- A descriptor that is its own parent is read nine times, and lists its dependency as often. -/
example :
    let text := "<project><parent><relativePath>p</relativePath></parent>" ++
      "<dependencies><dependency/></dependencies></project>"
    (readProject ⟨"/p"⟩ { disk := ⟨[(["p"], .file text.toUTF8)]⟩ }).1.toOption.map
      (·.dependencies.length) = some 9 := by
  decide +kernel

end Tracepoint.Maven
