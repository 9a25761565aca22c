import Tracepoint.Proofs.Detect.Keys

/-!
# Keys and the names of types

The key of a method starts with the names of the types around it, and a type is declared under a
name of its own. Where a method stands directly in a type declaration the two agree, unless that
is a local type in a method or constructor: the key names that method before the type, and the
declared name of the type leaves it out.

Results:

* `qualifiedTypeName?_eq`: the name that a type is declared under.
* `elementKey_eq`: the owner in a key.
* `key_names_type_iff`: when the owner in the key is the declared name.
* `key_misses_declared_types`: a local type whose methods have an owner that is not declared.
-/

namespace Tracepoint.Detect

open Java Source Text CompilationUnit

/-- A local type with a method or constructor around it that is nearer than the next type body. -/
def isMethodLocal (t : ParsedText) (s : Place) : Bool :=
  isLocalType s && (t.callableAround? s.outward).isSome

/-- A qualified name with a dot is the package and the names, each with a dot. -/
theorem qualify_append_dot (package : Option String) {names : List String} (h : names ≠ []) :
    qualify package (String.intercalate "." names) ++ "." =
      String.join ((package.toList ++ names).map (· ++ ".")) := by
  obtain ⟨name, names, rfl⟩ := List.exists_cons_of_ne_nil h
  cases package with
  | none => exact intercalate_append_sep "." name names
  | some p =>
    rw [Option.toList_some, List.singleton_append, List.map_cons, String.join_cons,
      ← intercalate_append_sep]
    simp only [qualify, String.append_assoc]

/-- A type is declared under the names of the types around it and its own. -/
theorem qualifiedTypeName?_eq {t : ParsedText} (hfits : t.root.All (Node.FitsIn t.source))
    {s : Place} (hs : s.In t.root) (hk : s.node.kind.isTypeDeclaration = true)
    (package : Option String) :
    ∃ name, t.declaredName? s.node = some name ∧ isIdentifier name.toList = true ∧
      qualifiedTypeName? t package s =
        some (qualify package (String.intercalate "." (name :: t.enclosingTypes s).reverse)) := by
  have hnode := hfits.places s (Node.mem_places_iff.2 hs)
  obtain ⟨name, hname⟩ := ParsedText.exists_declaredName? hnode hk
  exact ⟨name, hname, ParsedText.isIdentifier_declaredName? hnode hname,
    by rw [qualifiedTypeName?, hname]; rfl⟩

/-- The names around a method of a type are those that the type is declared under, and the
    signature of the method around a local type comes between them. -/
theorem enclosingTypes_of_declaration {t : ParsedText} {p s : Place} {name : String}
    (howner : owner? p = some s) (hk : s.node.kind.isTypeDeclaration = true)
    (hname : t.declaredName? s.node = some name) :
    t.enclosingTypes p =
      name :: ((if isLocalType s then (t.callableAround? s.outward).toList else []) ++
        t.enclosingTypes s) := by
  rw [ParsedText.enclosingTypes_of_some t howner, ParsedText.bodyPath, ParsedText.label, if_pos hk,
    hname]
  rfl

/-- A key is a declared name, a dot and a signature where the names around the method are those of
    the declared name. -/
theorem elementKey_eq_iff (u : CompilationUnit) (p : Place) {names : List String}
    (h : names ≠ []) :
    elementKey u p = qualify u.package (String.intercalate "." names.reverse) ++ "." ++
        u.parsed.signature p.node ↔
      String.join ((u.parsed.enclosingTypes p).reverse.map (· ++ ".")) =
        String.join (names.reverse.map (· ++ ".")) := by
  rw [qualify_append_dot _ (by simpa using h), elementKey]
  simp

/-- What is declared are the names of the type declarations. -/
theorem mem_declaredTypes {path relativePath : Path} {language : Language} {source : List Char}
    {u : CompilationUnit} (hl : language.outlines = true)
    (hu : ofSource path relativePath language source = .ok u) {q : String} :
    q ∈ u.declaredTypes ↔ ∃ s : Place, s.In u.parsed.root ∧
      s.node.kind.isTypeDeclaration = true ∧
      qualifiedTypeName? u.parsed u.package s = some q := by
  rw [(outline_of_ofSource hl hu).2.2, findTypes, List.mem_filterMap]
  simp only [List.mem_filter, Node.mem_places_iff, and_assoc]

/-- A signature between the names around a method makes them longer than those without it. -/
theorem join_ne_of_between (name g : String) (names : List String) :
    String.join ((name :: g :: names).reverse.map (· ++ ".")) ≠
      String.join ((name :: names).reverse.map (· ++ ".")) := by
  intro h
  have hlength := congrArg (List.length ∘ String.toList) h
  simp [String.toList_join] at hlength
  omega

/-- A method or constructor directly in a type declaration has a key that consists of the declared
    name of the type and its signature, unless the type is a local type in a method or
    constructor. For such a type the owner in the key is no declared name at all, if the
    parentheses in parameter types close. -/
theorem key_names_type_iff {path relativePath : Path} {language : Language} {source : List Char}
    {u : CompilationUnit} (hl : language.outlines = true)
    (hu : ofSource path relativePath language source = .ok u) {p s : Place}
    (hp : p ∈ u.callables) (howner : owner? p = some s)
    (hk : s.node.kind.isTypeDeclaration = true) :
    ∃ q, qualifiedTypeName? u.parsed u.package s = some q ∧ q ∈ u.declaredTypes ∧
      (elementKey u p = q ++ "." ++ u.parsed.signature p.node ↔
        isMethodLocal u.parsed s = false) ∧
      (BalancedParameters u →
        ((∃ d ∈ u.declaredTypes, elementKey u p = d ++ "." ++ u.parsed.signature p.node) ↔
          isMethodLocal u.parsed s = false)) := by
  have hfits := ofSource_fits hl hu
  have hin := ParsedText.owner_in (Node.mem_places_iff.1 (List.mem_filter.1 hp).1) howner
  obtain ⟨name, hname, hidentifier, hq⟩ := qualifiedTypeName?_eq hfits.nodes hin.1 hk u.package
  have henclosing := enclosingTypes_of_declaration howner hk hname
  have hdeclared := (mem_declaredTypes hl hu).2 ⟨s, hin.1, hk, hq⟩
  have hagrees : elementKey u p = qualify u.package
      (String.intercalate "." (name :: u.parsed.enclosingTypes s).reverse) ++ "." ++
        u.parsed.signature p.node ↔ isMethodLocal u.parsed s = false := by
    rw [elementKey_eq_iff u p (List.cons_ne_nil _ _), henclosing, isMethodLocal]
    cases isLocalType s with
    | false => simp
    | true =>
      cases u.parsed.callableAround? s.outward with
      | none => simp
      | some g => exact iff_of_false (join_ne_of_between name g _) (by simp)
  refine ⟨_, hq, hdeclared, hagrees, fun hbalanced => ⟨?_, fun h => ⟨_, hdeclared, hagrees.2 h⟩⟩⟩
  rintro ⟨d, hd, hkey⟩
  obtain ⟨s', hs', hk', hd⟩ := (mem_declaredTypes hl hu).1 hd
  obtain ⟨name', -, hidentifier', hd'⟩ := qualifiedTypeName?_eq hfits.nodes hs' hk' u.package
  obtain rfl := Option.some.inj (hd.symm.trans hd')
  rw [elementKey_eq_iff u p (List.cons_ne_nil _ _)] at hkey
  have hsealed : ∀ {r : Place}, r.In u.parsed.root →
      ∀ o ∈ (u.parsed.enclosingTypes r).reverse, Sealed o.toList := fun hr o ho =>
    sealed_enclosingTypes hfits hbalanced hr o (List.mem_reverse.1 ho)
  have hnames : (u.parsed.enclosingTypes p).reverse =
      (name' :: u.parsed.enclosingTypes s').reverse := by
    have hempty : Sealed "".toList := enclosed_nil
    refine (joined_inj rfl (hsealed (Node.mem_places_iff.1 (List.mem_filter.1 hp).1)) ?_ hempty hempty
      (congrArg (· ++ "") hkey)).1
    intro o ho
    rcases List.mem_cons.1 (List.mem_reverse.1 ho) with rfl | ho
    · exact sealed_of_isIdentifier hidentifier'
    · exact hsealed hs' o (List.mem_reverse.2 ho)
  rw [List.reverse_inj, henclosing, List.cons.injEq] at hnames
  rw [isMethodLocal]
  cases hlocal : isLocalType s with
  | false => rfl
  | true =>
    cases hg : u.parsed.callableAround? s.outward with
    | none => rfl
    | some g =>
      -- the names around a type start with a name, and a signature is none
      obtain ⟨q, -, -, rfl⟩ := ParsedText.callableAround?_eq_some hg
      rw [hlocal, hg, if_pos rfl] at hnames
      have hfirst := ParsedText.startsWithName_enclosingTypes hfits.nodes hs'
        (u.parsed.signature q.node) (by rw [← hnames.2]; rfl)
      exact absurd (ParsedText.paren_mem_signature q.node)
        (not_mem_of_isIdentifier hfirst (by decide))

/-- A member type of a local type: its own methods are named like it, those of the local type are
    not. -/
theorem key_names_type_of_member :
    let source := ("class A\x7bvoid m()\x7bclass L\x7bvoid n()\x7b\x7d" ++
      "class M\x7bvoid k()\x7b\x7d\x7d\x7d\x7d\x7d").toList
    ∃ u, ofSource ⟨"A.java"⟩ ⟨"A.java"⟩ .java source = .ok u ∧
      ∃ p ∈ u.callables, ∃ s, owner? p = some s ∧ s.node.kind.isTypeDeclaration = true ∧
        elementKey u p = "A.m().L.M.k()" ∧
        ∃ d ∈ u.declaredTypes, elementKey u p = d ++ "." ++ u.parsed.signature p.node := by
  intro source
  obtain ⟨u, hu, hcheck⟩ := exists_ok_of_any
    (x := ofSource ⟨"A.java"⟩ ⟨"A.java"⟩ .java source)
    (f := fun u => u.callables.any fun p => decide (elementKey u p = "A.m().L.M.k()") &&
      (owner? p).any fun s => s.node.kind.isTypeDeclaration && !isMethodLocal u.parsed s)
    (by decide +kernel)
  obtain ⟨p, hp, hcheck⟩ := List.any_eq_true.1 hcheck
  rw [Bool.and_eq_true, decide_eq_true_eq, Option.any_eq_true] at hcheck
  obtain ⟨hkey, s, howner, hs⟩ := hcheck
  rw [Bool.and_eq_true, Bool.not_eq_true'] at hs
  obtain ⟨q, -, hdeclared, hagrees, -⟩ := key_names_type_iff rfl hu hp howner hs.1
  exact ⟨u, hu, p, hp, s, howner, hs.1, hkey, q, hdeclared, hagrees.2 hs.2⟩

/-- A local type in a method. It is declared without the method, which its own method has in its
    key. -/
theorem key_misses_declared_types :
    let source := "class A\x7bvoid m()\x7bclass L\x7bvoid n()\x7b\x7d\x7d\x7d\x7d".toList
    ∃ u, ofSource ⟨"A.java"⟩ ⟨"A.java"⟩ .java source = .ok u ∧
      u.declaredTypes = ["A", "A.L"] ∧
      ∃ p ∈ u.callables, ∃ s, owner? p = some s ∧ s.node.kind.isTypeDeclaration = true ∧
        elementKey u p = "A.m().L.n()" ∧
        ∀ d ∈ u.declaredTypes, elementKey u p ≠ d ++ "." ++ u.parsed.signature p.node := by
  intro source
  obtain ⟨u, hu, hcheck⟩ := exists_ok_of_any
    (x := ofSource ⟨"A.java"⟩ ⟨"A.java"⟩ .java source)
    (f := fun u => decide (u.declaredTypes = ["A", "A.L"]) && u.callables.any fun p =>
      decide (elementKey u p = "A.m().L.n()" ∧ ∀ d ∈ u.declaredTypes,
        elementKey u p ≠ d ++ "." ++ u.parsed.signature p.node) &&
      (owner? p).any fun s => s.node.kind.isTypeDeclaration) (by decide +kernel)
  rw [Bool.and_eq_true, decide_eq_true_eq] at hcheck
  obtain ⟨p, hp, hp'⟩ := List.any_eq_true.1 hcheck.2
  rw [Bool.and_eq_true, decide_eq_true_eq, Option.any_eq_true] at hp'
  obtain ⟨⟨hkey, hmisses⟩, s, howner, hs⟩ := hp'
  exact ⟨u, hu, hcheck.1, p, hp, s, howner, hs, hkey, hmisses⟩

end Tracepoint.Detect
