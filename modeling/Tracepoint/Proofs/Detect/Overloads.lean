import Tracepoint.Proofs.Detect.Keys
import Tracepoint.Proofs.Source.TypeTexts

/-!
# Signatures of overloads

Methods of one name in one type body are told apart by the types of their parameters. The type of
a parameter has the part that is written in front of its name, the dimensions that can be written
after it, and dots if it takes any number of arguments. A signature has the first and the last of
these, so that overloads get different signatures unless their types differ only in dimensions
after the names of parameters.

The types can be read off a signature as the commas of each stand in its brackets, unless there
are others in an annotation or a comment. A comment in front of the type of a parameter with dots
would be read as that type.

Results:

* `intercalate_comma_inj`: types joined with commas can be read off again.
* `parameterTypes_eq`: the types in a signature are the declared ones without the dimensions after
  names.
* `overloads_identified`: when overloads have the same signature, and that others have different
  keys and identifiers.
* `overloads_confused_by_dimensions`: two overloads with one key.
-/

namespace Tracepoint

namespace Source

open Java Text

/-! ## Declared types -/

/-- The type of a parameter as it is declared. -/
structure DeclaredType where
  /-- What is written in front of the name, without blanks. -/
  element : String
  /-- The dimensions after the name. -/
  dimensions : String := ""
  /-- Whether any number of arguments can be given. -/
  variadic : Bool := false
deriving DecidableEq, Repr

namespace DeclaredType

/-- The type with its dimensions in one place. Array types are the same wherever these stand. -/
def written (d : DeclaredType) : String :=
  d.element ++ d.dimensions ++ if d.variadic then "..." else ""

/-- The type without the dimensions after the name. -/
def withoutDimensions (d : DeclaredType) : DeclaredType := { d with dimensions := "" }

end DeclaredType

namespace ParsedText

variable (t : ParsedText)

/-- The tokens of a part of the text after the first, joined. After a type or in a declarator the
    first is a name and the others are dimensions. -/
def afterName (start stop : Nat) : String :=
  String.join (((lexAt 0 (slice t.source start stop)).tokens.drop 1).map (·.text))

/-- The declared type of a parameter; none for a receiver. -/
def declaredType? (parameter : Node) : Option DeclaredType :=
  match parameter.kind with
  | .parameter =>
    let type := parameter.child? .type
    let written := (type.map (·.text t.source)).getD []
    let stop := (type.map (·.span.stop)).getD parameter.span.start
    some ⟨String.ofList (squeeze written), t.afterName stop parameter.span.stop, false⟩
  | .spreadParameter =>
    let written := ((declaredSpreadType? parameter).map (·.text t.source)).getD []
    let declarator := parameter.children.find? (·.kind == .declarator)
    let dimensions := (declarator.map fun d => t.afterName d.span.start d.span.stop).getD ""
    some ⟨String.ofList (squeeze written), dimensions, true⟩
  | _ => none

/-- The declared types of the parameters of a method or constructor, in order. -/
def declaredTypes (declaration : Node) : List DeclaredType :=
  (parametersOf declaration).filterMap t.declaredType?

/-- What annotations and comments in the types of the parameters have to be like for the types to
    be read off a signature. -/
structure Legible (declaration : Node) : Prop where
  /-- What is read as the type of a parameter is no comment. -/
  comments : ∀ p ∈ parametersOf declaration, ∀ c ∈ typeNode? p, c.kind ≠ .comment
  /-- Where an annotation or a comment stands in a type, the commas of the type still stand in
      brackets that it closes. -/
  enclosed : ∀ s ∈ t.typesInSignature declaration, '@' ∈ s.toList ∨ '/' ∈ s.toList →
    Enclosed 0 ',' opensList closesList s.toList

instance (declaration : Node) : Decidable (t.Legible declaration) :=
  decidable_of_iff
    ((∀ p ∈ parametersOf declaration, ∀ c ∈ typeNode? p, c.kind ≠ .comment) ∧
    ∀ s ∈ t.typesInSignature declaration, '@' ∈ s.toList ∨ '/' ∈ s.toList →
      Enclosed 0 ',' opensList closesList s.toList)
    ⟨fun ⟨h, h'⟩ => ⟨h, h'⟩, fun ⟨h, h'⟩ => ⟨h, h'⟩⟩

variable {t}

/-- The type in a signature is the declared one without the dimensions after the name. -/
theorem parameterType?_eq {parameter : Node}
    (h : ∀ c ∈ typeNode? parameter, c.kind ≠ .comment) :
    t.parameterType? parameter =
      (t.declaredType? parameter).map (·.withoutDimensions.written) := by
  unfold parameterType?
  split
  · rename_i hk
    simp only [declaredType?, hk, Option.map_some, DeclaredType.withoutDimensions,
      DeclaredType.written]
    simp
  · rename_i hk
    simp only [typeNode?, hk] at h
    have htype : spreadType? parameter = declaredSpreadType? parameter :=
      spreadType?_eq (by cases hs : spreadType? parameter <;> simp_all)
    simp only [declaredType?, hk, Option.map_some, DeclaredType.withoutDimensions,
      DeclaredType.written, ← htype]
    simp [spreadType?, squeeze_append]
    rfl
  · unfold declaredType?
    split
    · contradiction
    · contradiction
    · rfl

/-- The types in a signature are the declared ones without the dimensions after names. -/
theorem typesInSignature_eq {declaration : Node} (h : t.Legible declaration) :
    t.typesInSignature declaration =
      (t.declaredTypes declaration).map (·.withoutDimensions.written) := by
  rw [typesInSignature_eq_filterMap, declaredTypes, List.map_filterMap]
  exact List.filterMap_congr fun p hp => parameterType?_eq (h.comments p hp)

/-- Types that can be read off a signature are not empty and have their commas in brackets. -/
theorem Legible.enclosed_types {declaration : Node} (h : t.Legible declaration)
    (hdeclaration : Beside t t declaration declaration) :
    ∀ s ∈ t.typesInSignature declaration,
      s ≠ "" ∧ Enclosed 0 ',' opensList closesList s.toList := by
  intro s hs
  by_cases hspecial : '@' ∈ s.toList ∨ '/' ∈ s.toList
  · refine ⟨?_, h.enclosed s hs hspecial⟩
    rintro rfl
    simp at hspecial
  · obtain ⟨hat, hslash⟩ := not_or.1 hspecial
    exact (hdeclaration.enclosed_typesInSignature h.comments s hs hat hslash).symm

/-- Methods of one name have the same signature exactly if the types in it are the same. -/
theorem signature_eq_iff {declaration declaration' : Node}
    (h : ∀ s ∈ t.typesInSignature declaration,
      s ≠ "" ∧ Enclosed 0 ',' opensList closesList s.toList)
    (h' : ∀ s ∈ t.typesInSignature declaration',
      s ≠ "" ∧ Enclosed 0 ',' opensList closesList s.toList)
    (hname : t.declaredName? declaration = t.declaredName? declaration') :
    t.signature declaration = t.signature declaration' ↔
      t.typesInSignature declaration = t.typesInSignature declaration' := by
  have hcomma : ",".toList = [','] := rfl
  unfold signature
  rw [hname]
  constructor
  · intro heq
    refine intercalate_inj hcomma h h' ?_
    simpa [typesInSignature] using heq
  · intro heq
    unfold typesInSignature at heq
    simp only [heq]

end ParsedText

end Source

namespace Detect

open Java Source Text ParsedText

/-! ## Overloads -/

/-- Two methods or constructors of a unit are told apart. -/
structure ToldApart (u : CompilationUnit) (p q : Place) : Prop where
  signatures : u.parsed.signature p.node ≠ u.parsed.signature q.node
  keys : elementKey u p ≠ elementKey u q
  ids : ∀ m : IdMap, m.WellFormed → ∀ id, m.get? (elementKey u p) = some id →
    m.get? (elementKey u q) ≠ some id

/-- In one type body, methods are told apart exactly if their signatures differ. -/
theorem toldApart_iff {u : CompilationUnit} {p q : Place} (hp : p ∈ u.callables)
    (hq : q ∈ u.callables) (hscope : typeScope? p = typeScope? q) :
    ToldApart u p q ↔ u.parsed.signature p.node ≠ u.parsed.signature q.node := by
  refine ⟨ToldApart.signatures, fun hsignature => ?_⟩
  have howner := owner?_eq_of_typeScope? (Node.mem_places_iff.1 (List.mem_filter.1 hp).1)
    (Node.mem_places_iff.1 (List.mem_filter.1 hq).1) hscope
  have htypes : u.parsed.enclosingTypes p = u.parsed.enclosingTypes q := by
    cases hs : owner? p with
    | none => rw [enclosingTypes_of_none _ hs, enclosingTypes_of_none _ (howner ▸ hs)]
    | some s => rw [enclosingTypes_of_some _ hs, enclosingTypes_of_some _ (howner ▸ hs)]
  have hkeys : elementKey u p ≠ elementKey u q := by
    unfold elementKey
    rw [htypes]
    simpa using hsignature
  refine ⟨hsignature, hkeys, fun m hm id hid hid' => hkeys ?_⟩
  exact IdMap.eq_of_mem_entries ((hm.get?_eq_some_iff _ _).1 hid')
    ((hm.get?_eq_some_iff _ _).1 hid)

/-- Two methods of one name in one type body are told apart exactly if their declared types differ
    in more than dimensions after names. So overloads that write all dimensions in front of names
    are told apart. -/
theorem overloads_identified {path relativePath : Path} {language : Language}
    {source : List Char} {u : CompilationUnit} (hl : language.outlines = true)
    (hu : CompilationUnit.ofSource path relativePath language source = .ok u) {p q : Place}
    (hp : p ∈ u.callables) (hq : q ∈ u.callables) (hscope : typeScope? p = typeScope? q)
    (hname : u.parsed.declaredName? p.node = u.parsed.declaredName? q.node)
    (hlegible : u.parsed.Legible p.node) (hlegible' : u.parsed.Legible q.node) :
    (ToldApart u p q ↔
      (u.parsed.declaredTypes p.node).map (·.withoutDimensions.written) ≠
        (u.parsed.declaredTypes q.node).map (·.withoutDimensions.written)) ∧
    ((∀ d ∈ u.parsed.declaredTypes p.node ++ u.parsed.declaredTypes q.node,
        d.dimensions = "") →
      (u.parsed.declaredTypes p.node).map (·.written) ≠
        (u.parsed.declaredTypes q.node).map (·.written) → ToldApart u p q) := by
  have hbeside : ∀ {p : Place}, p ∈ u.callables → Beside u.parsed u.parsed p.node p.node := by
    intro p hp
    obtain ⟨hplace, hcallable⟩ := List.mem_filter.1 hp
    exact (CompilationUnit.alike_of_readings hl hu hu rfl).beside_self hplace
      (Node.isCode_of (f := Kind.isCallable) rfl hcallable)
  have hiff : ToldApart u p q ↔
      (u.parsed.declaredTypes p.node).map (·.withoutDimensions.written) ≠
        (u.parsed.declaredTypes q.node).map (·.withoutDimensions.written) := by
    rw [toldApart_iff hp hq hscope, ne_eq,
      signature_eq_iff (hlegible.enclosed_types (hbeside hp))
        (hlegible'.enclosed_types (hbeside hq)) hname,
      typesInSignature_eq hlegible, typesInSignature_eq hlegible']
  refine ⟨hiff, fun hdimensions hwritten => hiff.2 ?_⟩
  have hbare : ∀ ds : List DeclaredType, (∀ d ∈ ds, d.dimensions = "") →
      ds.map (·.withoutDimensions.written) = ds.map (·.written) := by
    intro ds hds
    refine List.map_congr_left fun d hd => ?_
    simp only [DeclaredType.withoutDimensions, DeclaredType.written, hds d hd]
    rfl
  rwa [hbare _ fun d hd => hdimensions d (List.mem_append_left _ hd),
    hbare _ fun d hd => hdimensions d (List.mem_append_right _ hd)]

/-- Two overloads with type arguments, dimensions and dots. -/
theorem overloads_identified_by_commas :
    let source := ("class A\x7bvoid m(Map<K, V>[] a, int b)\x7b\x7d" ++
      "void m(Map<K, V[]> a, int... b)\x7b\x7d\x7d").toList
    ∃ u, CompilationUnit.ofSource ⟨"A.java"⟩ ⟨"A.java"⟩ .java source = .ok u ∧
      ∃ p ∈ u.callables, ∃ q ∈ u.callables, typeScope? p = typeScope? q ∧
        u.parsed.signature p.node = "m(Map<K,V>[],int)" ∧
        u.parsed.signature q.node = "m(Map<K,V[]>,int...)" ∧ ToldApart u p q := by
  intro source
  obtain ⟨u, hu, hcheck⟩ := exists_ok_of_any
    (x := CompilationUnit.ofSource ⟨"A.java"⟩ ⟨"A.java"⟩ .java source)
    (f := fun u => decide (∃ p ∈ u.callables, ∃ q ∈ u.callables, typeScope? p = typeScope? q ∧
      u.parsed.declaredName? p.node = u.parsed.declaredName? q.node ∧
      u.parsed.signature p.node = "m(Map<K,V>[],int)" ∧
      u.parsed.signature q.node = "m(Map<K,V[]>,int...)" ∧
      u.parsed.Legible p.node ∧ u.parsed.Legible q.node ∧
      (∀ d ∈ u.parsed.declaredTypes p.node ++ u.parsed.declaredTypes q.node,
        d.dimensions = "") ∧
      (u.parsed.declaredTypes p.node).map (·.written) ≠
        (u.parsed.declaredTypes q.node).map (·.written))) (by decide +kernel)
  obtain ⟨p, hp, q, hq, hscope, hname, hsignature, hsignature', hlegible, hlegible', hdimensions,
    hwritten⟩ := of_decide_eq_true hcheck
  exact ⟨u, hu, p, hp, q, hq, hscope, hsignature, hsignature',
    (overloads_identified rfl hu hp hq hscope hname hlegible hlegible').2 hdimensions hwritten⟩

/-- Two overloads, of which one writes the dimensions of its parameter after the name. They share a
    key. -/
theorem overloads_confused_by_dimensions :
    let source := "class A\x7bvoid m(int a[])\x7b\x7dvoid m(int a)\x7b\x7d\x7d".toList
    ∃ u, CompilationUnit.ofSource ⟨"A.java"⟩ ⟨"A.java"⟩ .java source = .ok u ∧
      ∃ p ∈ u.callables, ∃ q ∈ u.callables, typeScope? p = typeScope? q ∧
        u.parsed.declaredName? p.node = u.parsed.declaredName? q.node ∧
        (u.parsed.declaredTypes p.node).map (·.written) = ["int[]"] ∧
        (u.parsed.declaredTypes q.node).map (·.written) = ["int"] ∧
        u.parsed.signature p.node = u.parsed.signature q.node ∧
        elementKey u p = elementKey u q := by
  intro source
  obtain ⟨u, hu, hcheck⟩ := exists_ok_of_any
    (x := CompilationUnit.ofSource ⟨"A.java"⟩ ⟨"A.java"⟩ .java source)
    (f := fun u => decide (∃ p ∈ u.callables, ∃ q ∈ u.callables, typeScope? p = typeScope? q ∧
      u.parsed.declaredName? p.node = u.parsed.declaredName? q.node ∧
      (u.parsed.declaredTypes p.node).map (·.written) = ["int[]"] ∧
      (u.parsed.declaredTypes q.node).map (·.written) = ["int"] ∧
      u.parsed.signature p.node = u.parsed.signature q.node ∧
      elementKey u p = elementKey u q)) (by decide +kernel)
  exact ⟨u, hu, of_decide_eq_true hcheck⟩

end Detect

end Tracepoint
