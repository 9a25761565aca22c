import Mathlib.Data.List.Induction
import Tracepoint.Maven.Descriptor
import Tracepoint.Proofs.Text.Split

/-!
# What a descriptor inherits

A descriptor is read by adding documents one after the other, from the one farthest up the chain to
the nearest. Of what they say, dependencies are appended and everything else is written over. So the
nearest document counts that says anything about a group, a version, a property or a managed
dependency.

Results:

* `lookup_foldl_put`: the value of a name after properties were defined.
* `mem_foldl_manage`: the managed dependencies after some were managed one after the other.
* `Inherits`: what a descriptor is to the documents that it was read from.
* `Inherits.extend`: what one more document does.
* `expandOnce_reference`: what a reference to a property is replaced by.
-/

namespace Tracepoint.Maven

open Text

/-! ## Properties -/

theorem lookup_cons (key value : String) (ps : Properties) (name : String) :
    List.lookup name ((key, value) :: ps) = if name = key then some value else ps.lookup name := by
  rw [List.lookup_cons]
  by_cases h : name = key <;> simp [h, beq_eq_false_iff_ne.2]

theorem lookup_filter_ne (ps : Properties) (name other : String) :
    (ps.filter (·.1 ≠ name)).lookup other = if other = name then none else ps.lookup other := by
  induction ps with
  | nil => simp
  | cons p ps ih =>
    obtain ⟨key, value⟩ := p
    by_cases hkey : key = name
    · rw [List.filter_cons_of_neg (by simp [hkey]), ih, lookup_cons, hkey]
      split_ifs <;> rfl
    · rw [List.filter_cons_of_pos (by simp [hkey]), lookup_cons, lookup_cons, ih]
      split_ifs with hother hname
      · exact absurd (hother.symm.trans hname) hkey
      · rfl
      · rfl
      · rfl

theorem lookup_put (ps : Properties) (name value other : String) :
    (ps.put name value).lookup other = if other = name then some value else ps.lookup other := by
  rw [Properties.put, List.lookup_append, lookup_filter_ne, lookup_cons]
  split_ifs
  · rfl
  · exact Option.or_none

/-- The last definition of a name counts, and without any the value that it had before. -/
theorem lookup_foldl_put (defined : Properties) (name : String) :
    ∀ ps : Properties, (defined.foldl (fun ps p => ps.put p.1 p.2) ps).lookup name =
      (defined.reverse.lookup name).or (ps.lookup name) := by
  induction defined with
  | nil => intro ps; simp
  | cons p defined ih =>
    intro ps
    rw [List.foldl_cons, ih, List.reverse_cons, List.lookup_append, lookup_put, lookup_cons,
      Option.or_assoc]
    split_ifs <;> rfl

/-! ## Managed dependencies -/

/-- Two dependencies are written with the same coordinates. -/
def SameWritten (d d' : WrittenDependency) : Prop :=
  d.groupId = d'.groupId ∧ d.artifactId = d'.artifactId

theorem mem_manage {managed : List WrittenDependency} {d m : WrittenDependency} :
    m ∈ manage managed d ↔ m = d ∨ m ∈ managed ∧ ¬ SameWritten m d := by
  simp only [manage, SameWritten, List.mem_append, List.mem_filter, List.mem_singleton,
    Bool.or_eq_true, decide_eq_true_eq, ne_eq, or_comm (b := m = d), not_and_or]

/-- What is managed in the end is the last of each written coordinates. -/
theorem mem_foldl_manage {ds : List WrittenDependency} {m : WrittenDependency} :
    m ∈ ds.foldl manage [] ↔
      ∃ before after, ds = before ++ m :: after ∧ ∀ x ∈ after, ¬ SameWritten m x := by
  induction ds using List.reverseRecOn with
  | nil => simp
  | append_singleton ds d ih =>
    rw [List.foldl_append, List.foldl_cons, List.foldl_nil, mem_manage, ih]
    constructor
    · rintro (rfl | ⟨⟨before, after, rfl, hafter⟩, hne⟩)
      · exact ⟨ds, [], rfl, by simp⟩
      · refine ⟨before, after ++ [d], by simp, fun x hx => ?_⟩
        rcases List.mem_append.1 hx with hx | hx
        · exact hafter x hx
        · rwa [List.mem_singleton.1 hx]
    · rintro ⟨before, after, heq, hafter⟩
      rcases List.eq_nil_or_concat after with rfl | ⟨after, last, rfl⟩
      · exact .inl (List.append_inj_right' heq rfl |> List.head_eq_of_cons_eq).symm
      · rw [List.concat_eq_append, ← List.cons_append, ← List.append_assoc] at heq
        obtain ⟨rfl, hlast⟩ := List.append_inj' heq rfl
        obtain rfl : d = last := List.head_eq_of_cons_eq hlast
        refine .inr ⟨⟨before, after, rfl, fun x hx => hafter x (by simp [hx])⟩, hafter d (by simp)⟩

/-! ## What documents say -/

theorem findSome?_cons {α β : Type} (f : α → Option β) (a : α) (as : List α) :
    (a :: as).findSome? f = (f a).or (as.findSome? f) := by
  rw [List.findSome?_cons]
  cases f a <;> rfl

/-- The names of properties that descriptors have of themselves. -/
def ownNames : List String :=
  ["project.groupId", "project.artifactId", "project.version", "project.parent.groupId",
    "project.parent.version"]

/-- The group or version that a document gives: its own, or else that of its parent. -/
def given? (name : String) (root : Xml.Node) : Option String :=
  (childText? root name).or ((root.child? "parent").bind (childText? · name))

/-- The definition of a property in a document: the text, without blanks around it, of the last
    element of that name. -/
def definition? (name : String) (root : Xml.Node) : Option String := do
  let properties ← root.child? "properties"
  let property ← properties.children.reverse.find? (·.name? = some name)
  return String.ofList (trim (property.leadingText?.getD []))

/-- The elements of the dependencies that a document lists, in the order of the file. -/
def listed (root : Xml.Node) : List Xml.Node :=
  (((root.child? "dependencies").map (·.children)).getD []).filter (·.name? = some "dependency")

/-- The elements of the dependencies that a document manages, in the order of the file. -/
def managing (root : Xml.Node) : List Xml.Node :=
  ((((root.child? "dependencyManagement").bind (·.child? "dependencies")).map (·.children)).getD
    []).filter (·.name? = some "dependency")

/-- What a descriptor is to the documents that it was read from, the nearest first. -/
structure Inherits (roots : List Xml.Node) (d : Descriptor) : Prop where
  /-- Dependencies come from the document farthest up the chain to the nearest. -/
  dependencies : d.dependencies = (roots.reverse.flatMap listed).map readDependency
  groupId : d.groupId = roots.findSome? (given? "groupId")
  version : d.version = roots.findSome? (given? "version")
  artifactId : d.artifactId = (roots.head?.bind (childText? · "artifactId")).getD ""
  /-- Of all definitions of a property the nearest counts. -/
  property : ∀ name, name ∉ ownNames →
    d.properties.lookup name = roots.findSome? (definition? name)
  ownGroupId : ∀ value, d.groupId = some value →
    d.properties.lookup "project.groupId" = some value
  ownVersion : ∀ value, d.version = some value →
    d.properties.lookup "project.version" = some value
  ownArtifactId : roots ≠ [] → d.properties.lookup "project.artifactId" = some d.artifactId
  /-- So do managed dependencies, and each replaces one of the same written coordinates. -/
  managed : d.managed = ((roots.reverse.flatMap managing).map readDependency).foldl manage []

theorem inherits_nil : Inherits [] {} where
  dependencies := rfl
  groupId := rfl
  version := rfl
  artifactId := rfl
  property := fun _ _ => rfl
  ownGroupId := fun _ h => by cases h
  ownVersion := fun _ h => by cases h
  ownArtifactId := fun h => absurd rfl h
  managed := rfl

/-! ## One more document -/

/-- What a descriptor says about itself, as properties. -/
def Descriptor.ownProperties (d : Descriptor) : Properties :=
  (d.groupId.map ("project.groupId", ·)).toList ++ [("project.artifactId", d.artifactId)] ++
    (d.version.map ("project.version", ·)).toList

theorem lookup_ownProperties (d : Descriptor) (name : String) :
    d.ownProperties.reverse.lookup name =
      if name = "project.groupId" then d.groupId
      else if name = "project.artifactId" then some d.artifactId
      else if name = "project.version" then d.version
      else none := by
  unfold Descriptor.ownProperties
  cases d.groupId <;> cases d.version <;> simp [List.lookup_cons] <;> grind

theorem lookup_parentProperties {name : String} (h : name ∉ ownNames) (parent : Option Xml.Node) :
    (parentProperties parent).reverse.lookup name = none := by
  rw [List.lookup_eq_none_iff]
  intro p hp
  obtain ⟨⟨child, key⟩, hkey, hp⟩ := List.mem_filterMap.1 (List.mem_reverse.1 hp)
  have hown : key ∈ ownNames := by
    simp only [List.mem_cons, List.not_mem_nil, or_false, Prod.mk.injEq] at hkey
    rcases hkey with ⟨-, rfl⟩ | ⟨-, rfl⟩ <;> decide
  simp only [Option.bind_eq_bind, Option.bind_eq_some_iff] at hp
  obtain ⟨_, -, _, -, hp⟩ := hp
  cases hp
  rw [bne_iff_ne]
  rintro rfl
  exact h hown

theorem lookup_reverse_readProperties (name : String) (root : Xml.Node) :
    (readProperties root).reverse.lookup name = definition? name root := by
  unfold readProperties definition?
  cases root.child? "properties" with
  | none => rfl
  | some properties =>
    simp only [Option.map_some, Option.getD_some, Option.bind_eq_bind, Option.bind_some,
      ← List.filterMap_reverse]
    induction properties.children.reverse with
    | nil => rfl
    | cons n ns ih =>
      cases hn : n.name? with
      | none => simpa [hn] using ih
      | some key =>
        rw [List.filterMap_cons_some (by rw [hn, Option.map_some]), lookup_cons, List.find?_cons,
          ih]
        by_cases hkey : name = key
        · simp [hn, hkey]
        · simp [hn, hkey, Ne.symm hkey]

/-- The properties of a descriptor with one more document: what it says about itself comes last,
    after the definitions in the document and what this says about its parent. -/
theorem lookup_extend (above : Descriptor) (root : Xml.Node) (name : String) :
    (above.extend root).properties.lookup name =
      ((above.extend root).ownProperties.reverse.lookup name).or
        ((definition? name root).or
          (((parentProperties (root.child? "parent")).reverse.lookup name).or
            (above.properties.lookup name))) := by
  have hproperties : (above.extend root).properties =
      (parentProperties (root.child? "parent") ++ readProperties root ++
        (above.extend root).ownProperties).foldl (fun ps p => ps.put p.1 p.2) above.properties :=
    rfl
  rw [hproperties, lookup_foldl_put, List.reverse_append, List.reverse_append, List.lookup_append,
    List.lookup_append, Option.or_assoc, Option.or_assoc, lookup_reverse_readProperties]

/-- What one more document does, below those that a descriptor was read from. -/
theorem Inherits.extend {roots : List Xml.Node} {above : Descriptor} (h : Inherits roots above)
    (root : Xml.Node) : Inherits (root :: roots) (above.extend root) where
  dependencies := by
    rw [List.reverse_cons, List.flatMap_append, List.flatMap_singleton, List.map_append,
      ← h.dependencies]
    rfl
  groupId := by
    rw [findSome?_cons, ← h.groupId]
    simp [Descriptor.extend, given?, Option.orElse_eq_or]
  version := by
    rw [findSome?_cons, ← h.version]
    simp [Descriptor.extend, given?, Option.orElse_eq_or]
  artifactId := rfl
  property := by
    intro name hname
    rw [lookup_extend, lookup_ownProperties, lookup_parentProperties hname, h.property name hname,
      findSome?_cons]
    simp only [ownNames, List.mem_cons, not_or] at hname
    rw [if_neg hname.1, if_neg hname.2.1, if_neg hname.2.2.1]
    rfl
  ownGroupId := by
    intro value hvalue
    rw [lookup_extend, lookup_ownProperties, if_pos rfl, hvalue]
    rfl
  ownVersion := by
    intro value hvalue
    rw [lookup_extend, lookup_ownProperties, if_neg (by decide), if_neg (by decide), if_pos rfl,
      hvalue]
    rfl
  ownArtifactId := by
    intro _
    rw [lookup_extend, lookup_ownProperties, if_neg (by decide), if_pos rfl]
    rfl
  managed := by
    rw [List.reverse_cons, List.flatMap_append, List.flatMap_singleton, List.map_append,
      List.foldl_append, ← h.managed]
    rfl

/-! ## References -/

/-- A reference to a name. -/
def reference (name : String) : List Char := '$' :: '\x7b' :: (name.toList ++ ['\x7d'])

/-- A name can be referred to: it is not empty and does not hold what ends a reference. -/
def Referable (name : String) : Prop := name.toList ≠ [] ∧ '\x7d' ∉ name.toList

theorem referenceAt?_reference {name : String} (h : Referable name) (rest : List Char) :
    referenceAt? (reference name ++ rest) = some name.toList := by
  have hdrop : dropStart? ['$', '\x7b'] (reference name ++ rest) =
      some (name.toList ++ '\x7d' :: rest) := by
    rw [dropStart?_eq_some_iff]
    simp [reference]
  have hinside : ∀ c ∈ name.toList, (c != '\x7d') = true := by
    intro c hc
    rw [bne_iff_ne]
    rintro rfl
    exact h.2 hc
  have htake : (name.toList ++ '\x7d' :: rest).takeWhile (· != '\x7d') = name.toList := by
    rw [List.takeWhile_append_of_pos hinside, List.takeWhile_cons_of_neg (by simp),
      List.append_nil]
  have hrest : (name.toList ++ '\x7d' :: rest).drop name.toList.length = '\x7d' :: rest :=
    List.drop_left
  unfold referenceAt?
  rw [hdrop]
  simp only [Option.bind_eq_bind, Option.bind_some, htake, hrest, List.head?_cons]
  simp [h.1]

/-- A reference is replaced by the value of its name, and without any it stays. -/
theorem expandOnce_reference {name : String} (h : Referable name)
    (value? : String → Option String) (rest : List Char) :
    expandOnce value? (reference name ++ rest) =
      ((value? name).map String.toList).getD (reference name) ++ expandOnce value? rest := by
  have hat := referenceAt?_reference h rest
  have hwritten : (reference name ++ rest).take (name.toList.length + 3) = reference name := by
    rw [List.take_append_of_le_length (by simp [reference]), List.take_of_length_le]
    simp [reference]
  have hdrop : (reference name ++ rest).drop (name.toList.length + 3) = rest := by
    rw [List.drop_append_of_le_length (by simp [reference]), List.drop_of_length_le]
    · rfl
    · simp [reference]
  have hcons : reference name ++ rest =
      '$' :: ('\x7b' :: (name.toList ++ ['\x7d']) ++ rest) := rfl
  rw [hcons] at hat hwritten hdrop ⊢
  rw [List.take_succ_cons] at hwritten
  rw [List.drop_succ_cons] at hdrop
  rw [expandOnce, hat]
  simp only [hwritten, hdrop, String.ofList_toList]

end Tracepoint.Maven
