import Mathlib.Data.List.Infix
import Tracepoint.Detect.Method
import Tracepoint.Proofs.Ids
import Tracepoint.Proofs.Source.Owners
import Tracepoint.Proofs.Source.Positions
import Tracepoint.Proofs.Text.Enclosed

/-!
# Keys tell the owners

The key of a method joins its package, the labels of the type bodies around it and its
signature with dots. The labels can be read off the key again if the parentheses of the
signatures close, because then every dot of a signature stands inside of them. So two
methods of different type bodies have different keys wherever the paths of the bodies
differ.

Paths of bodies can be equal: a local type is named after the method around it and not
after its block.

Results:

* `eq_of_elementKey`: the names and the signature can be read off a key.
* `owners_identified`: the paths, the keys and the identifiers of methods tell the type
  bodies that they stand in, unless names are used twice.
* `owners_confused_by_blocks`: two blocks of one method with local types of one name.
-/

namespace Tracepoint

namespace Text

/-! ## Texts joined with dots -/

/-- Every closing parenthesis of a text closes an open one, and all get closed. -/
def Balanced (s : List Char) : Prop :=
  s.count '(' = s.count ')' ∧ ∀ a ∈ s.inits, a.count ')' ≤ a.count '('

instance (s : List Char) : Decidable (Balanced s) :=
  inferInstanceAs (Decidable (_ ∧ ∀ a ∈ s.inits, a.count ')' ≤ a.count '('))

/-- A text whose dots all stand in parentheses. -/
abbrev Sealed (s : List Char) : Prop := Enclosed 0 '.' (· == '(') (· == ')') s

/-- A name has neither dots nor parentheses. -/
theorem sealed_of_not_mem {s : List Char} (hdot : '.' ∉ s) (hopen : '(' ∉ s) (hclose : ')' ∉ s) :
    Sealed s :=
  enclosed_of_not_mem hdot (fun c hc => by simpa using ne_of_mem_of_not_mem hc hopen)
    fun c hc => by simpa using ne_of_mem_of_not_mem hc hclose

theorem sealed_of_isIdentifier {s : List Char} (h : isIdentifier s = true) : Sealed s :=
  sealed_of_not_mem (not_mem_of_isIdentifier h (by decide)) (not_mem_of_isIdentifier h (by decide))
    (not_mem_of_isIdentifier h (by decide))

/-- A name with balanced text in parentheses is sealed. -/
theorem sealed_of_balanced {name s : List Char} (hdot : '.' ∉ name) (hopen : '(' ∉ name)
    (hclose : ')' ∉ name) (h : Balanced s) : Sealed (name ++ '(' :: (s ++ [')'])) := by
  have hinside : Enclosed 1 '.' (· == '(') (· == ')') s :=
    ⟨h.1, fun a b heq => Nat.lt_succ_of_le (h.2 a ((List.mem_inits _ _).2 ⟨_, heq.symm⟩))⟩
  exact (sealed_of_not_mem hdot hopen hclose).append (hinside.wrap (by decide) (by decide))

end Text

namespace Detect

open Java Source Text

/-! ## Keys -/

/-- The types of the parameters of a method or constructor, as they stand in its signature. -/
def writtenParameters (t : ParsedText) (declaration : Node) : String :=
  String.intercalate "," (((declaration.child? .parameters).map t.parameterTypes).getD [])

theorem signature_eq (t : ParsedText) (n : Node) :
    t.signature n = (t.declaredName? n).getD "" ++ "(" ++ writtenParameters t n ++ ")" := rfl

/-- The parentheses in the parameter types of all methods and constructors close. -/
def BalancedParameters (u : CompilationUnit) : Prop :=
  ∀ p ∈ u.callables, Balanced (writtenParameters u.parsed p.node).toList

instance (u : CompilationUnit) : Decidable (BalancedParameters u) :=
  inferInstanceAs
    (Decidable (∀ p ∈ u.callables, Balanced (writtenParameters u.parsed p.node).toList))

section

variable {u : CompilationUnit} (hu : u.Fits) (hparameters : BalancedParameters u)
include hu hparameters

theorem sealed_signature {p : Place} (hp : p ∈ u.callables) :
    Sealed (u.parsed.signature p.node).toList := by
  have hnode := hu.nodes.places p (List.mem_filter.1 hp).1
  have hname : ∀ {c : Char}, isIdentifierPart c = false →
      c ∉ ((u.parsed.declaredName? p.node).getD "").toList := by
    intro c hc
    cases hname : u.parsed.declaredName? p.node with
    | none => simp
    | some name =>
      exact not_mem_of_isIdentifier (ParsedText.isIdentifier_declaredName? hnode hname) hc
  have hsealed := sealed_of_balanced (hname (by decide)) (hname (by decide)) (hname (by decide))
    (hparameters p hp)
  simpa [signature_eq] using hsealed

theorem sealed_enclosingTypes {p : Place} (hp : p.In u.parsed.root) :
    ∀ name ∈ u.parsed.enclosingTypes p, Sealed name.toList := by
  intro name hname
  rw [ParsedText.enclosingTypes_eq] at hname
  obtain ⟨s, hs, hname⟩ := List.mem_flatMap.1 hname
  obtain ⟨hs, hscope⟩ := List.mem_filter.1 hs
  have hin := hp.outward hs
  obtain ⟨first, around, hlabel, hfirst, haround⟩ := ParsedText.exists_label hu.nodes hin hscope
  rw [hlabel] at hname
  rcases List.mem_cons.1 hname with rfl | hname
  · exact sealed_of_isIdentifier hfirst
  · obtain ⟨q, hq, hcallable, rfl⟩ := haround name (by simpa using hname)
    exact sealed_signature hu hparameters
      (List.mem_filter.2 ⟨Node.mem_places_iff.2 hq, hcallable⟩)

/-- Methods with the same key have the same types around them and the same signature. -/
theorem eq_of_elementKey {p q : Place} (hp : p ∈ u.callables) (hq : q ∈ u.callables)
    (h : elementKey u p = elementKey u q) :
    u.parsed.enclosingTypes p = u.parsed.enclosingTypes q ∧
      u.parsed.signature p.node = u.parsed.signature q.node := by
  have hjoined : String.join ((u.parsed.enclosingTypes p).reverse.map (· ++ ".")) ++
        u.parsed.signature p.node =
      String.join ((u.parsed.enclosingTypes q).reverse.map (· ++ ".")) ++
        u.parsed.signature q.node := by
    apply String.toList_injective
    have hlist := congrArg String.toList h
    simpa [elementKey, String.toList_join] using hlist
  have hsealed : ∀ {r : Place}, r ∈ u.callables →
      ∀ name ∈ (u.parsed.enclosingTypes r).reverse, Sealed name.toList := fun hr name hname =>
    sealed_enclosingTypes hu hparameters (Node.mem_places_iff.1 (List.mem_filter.1 hr).1) name
      (List.mem_reverse.1 hname)
  obtain ⟨howners, hsignature⟩ := joined_inj rfl (hsealed hp) (hsealed hq)
    (sealed_signature hu hparameters hp) (sealed_signature hu hparameters hq) hjoined
  exact ⟨List.reverse_injective howners, hsignature⟩

end

/-! ## Owners -/

/-- Methods and constructors of different type bodies are told apart. -/
structure OwnersIdentified (u : CompilationUnit) : Prop where
  paths : ∀ p ∈ u.callables, ∀ q ∈ u.callables, typeScope? p ≠ typeScope? q →
    u.parsed.enclosingTypes p ≠ u.parsed.enclosingTypes q
  keys : ∀ p ∈ u.callables, ∀ q ∈ u.callables, typeScope? p ≠ typeScope? q →
    elementKey u p ≠ elementKey u q
  ids : ∀ m : IdMap, m.WellFormed → ∀ p ∈ u.callables, ∀ q ∈ u.callables,
    typeScope? p ≠ typeScope? q → ∀ id, m.get? (elementKey u p) = some id →
      m.get? (elementKey u q) ≠ some id

/-- The paths of the type bodies of a unit differ exactly if no named body has the label of
    another one next to it. Then methods and constructors of different bodies have different
    paths and, if the parentheses in their parameter types close, different keys and
    identifiers. -/
theorem owners_identified {path relativePath : Path} {language : Language} {source : List Char}
    {u : CompilationUnit} (hl : language.outlines = true)
    (hu : CompilationUnit.ofSource path relativePath language source = .ok u) :
    ((∀ s ∈ u.parsed.bodies, ∀ s' ∈ u.parsed.bodies,
        u.parsed.bodyPath s = u.parsed.bodyPath s' → s.position = s'.position) ↔
      u.parsed.NamesDiffer) ∧
    (u.parsed.NamesDiffer → BalancedParameters u → OwnersIdentified u) := by
  have hfits := CompilationUnit.ofSource_fits hl hu
  refine ⟨ParsedText.bodyPath_injective_iff hfits.nodes hfits.ordered, fun hnames hparameters => ?_⟩
  have hplace : ∀ {p : Place}, p ∈ u.callables → p.In u.parsed.root := fun hp =>
    Node.mem_places_iff.1 (List.mem_filter.1 hp).1
  have hpaths : ∀ p ∈ u.callables, ∀ q ∈ u.callables, typeScope? p ≠ typeScope? q →
      u.parsed.enclosingTypes p ≠ u.parsed.enclosingTypes q := by
    intro p hp q hq hscope h
    exact hscope (ParsedText.typeScope?_eq_of_enclosingTypes hfits.nodes hfits.ordered hnames
      (hplace hp) (hplace hq) h)
  have hkeys : ∀ p ∈ u.callables, ∀ q ∈ u.callables, typeScope? p ≠ typeScope? q →
      elementKey u p ≠ elementKey u q := by
    intro p hp q hq hscope h
    exact hpaths p hp q hq hscope (eq_of_elementKey hfits hparameters hp hq h).1
  refine ⟨hpaths, hkeys, fun m hm p hp q hq hscope id hid hid' => ?_⟩
  exact hkeys q hq p hp hscope.symm (IdMap.eq_of_mem_entries
    ((hm.get?_eq_some_iff _ _).1 hid) ((hm.get?_eq_some_iff _ _).1 hid'))

/-- A type of each sort with a method of its own: an enum, one of its constants, a local, an
    anonymous and a member type. -/
theorem owners_identified_in_enum :
    let source := ("enum E\x7bX\x7bvoid m()\x7b\x7d\x7d;" ++
      "void m()\x7bnew A()\x7bvoid m()\x7b\x7d\x7d;class L\x7bvoid m()\x7b\x7d\x7d\x7d" ++
      "class M\x7bvoid m()\x7b\x7d\x7d\x7d").toList
    ∃ u, CompilationUnit.ofSource ⟨"E.java"⟩ ⟨"E.java"⟩ .java source = .ok u ∧
      (u.callables.map typeScope?).dedup.length = 5 ∧ OwnersIdentified u := by
  intro source
  obtain ⟨u, hu, hcheck⟩ := exists_ok_of_any
    (x := CompilationUnit.ofSource ⟨"E.java"⟩ ⟨"E.java"⟩ .java source)
    (f := fun u => decide ((u.callables.map typeScope?).dedup.length = 5 ∧ u.parsed.NamesDiffer ∧
      BalancedParameters u)) (by decide +kernel)
  obtain ⟨hfive, hnames, hparameters⟩ := of_decide_eq_true hcheck
  exact ⟨u, hu, hfive, (owners_identified rfl hu).2 hnames hparameters⟩

/-- Local types of one name in two blocks of a method. Both are named after the method, so their
    methods share a key. -/
theorem owners_confused_by_blocks :
    let source := ("class A\x7bvoid f()\x7b\x7bclass L\x7bvoid m()\x7b\x7d\x7d\x7d" ++
      "\x7bclass L\x7bvoid m()\x7b\x7d\x7d\x7d\x7d\x7d").toList
    ∃ u, CompilationUnit.ofSource ⟨"A.java"⟩ ⟨"A.java"⟩ .java source = .ok u ∧
      ¬ OwnersIdentified u := by
  intro source
  obtain ⟨u, hu, hcheck⟩ := exists_ok_of_any
    (x := CompilationUnit.ofSource ⟨"A.java"⟩ ⟨"A.java"⟩ .java source)
    (f := fun u => decide (∃ p ∈ u.callables, ∃ q ∈ u.callables, typeScope? p ≠ typeScope? q ∧
      elementKey u p = elementKey u q)) (by decide +kernel)
  obtain ⟨p, hp, q, hq, hscope, hkey⟩ := of_decide_eq_true hcheck
  exact ⟨u, hu, fun h => h.keys p hp q hq hscope hkey⟩

end Detect

end Tracepoint
