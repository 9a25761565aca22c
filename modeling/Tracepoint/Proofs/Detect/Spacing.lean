import Tracepoint.Proofs.Detect.Insertions
import Tracepoint.Proofs.Detect.TypeNames
import Tracepoint.Proofs.Source.Imports
import Tracepoint.Proofs.Source.Shapes

/-!
# Names and layout

White space and comments between the tokens of a text make little difference to the names in it.
The name of the package is taken as it is written, imports and the types of parameters are taken
without white space, and comments are kept in all of them. So texts with the same tokens have the
same names, unless white space or a comment stands in the name of the package, or a comment in the
declaration of an import or in the type of a parameter.

Results:

* `names_of_sameTokens`: the names that texts with the same tokens have in common.
* `package_keeps_spaces`: a package whose name, and so every key, keeps a space.
-/

namespace Tracepoint.Source

open Java Text

/-! ## Imports and packages side by side -/

namespace Import

/-- What an import says, wherever it stands. -/
def content (i : Import) : String × Bool × Bool × String :=
  (i.path, i.isStatic, i.wildcard, i.target)

/-- The line makes no difference to what an import says. -/
theorem content_ofParts (line line' : Nat) (parts : List (Lexeme × String)) :
    (ofParts line parts).content = (ofParts line' parts).content := by
  have hpath : ∀ (isStatic : Bool) (path : List Char),
      (ofPath line isStatic path).content = (ofPath line' isStatic path).content := by
    intro isStatic path
    unfold ofPath
    cases dropEnd? ['.', '*'] path <;> rfl
  cases parts with
  | nil => exact hpath _ _
  | cons r more =>
    simp only [ofParts]
    split_ifs <;> exact hpath _ _

end Import

namespace ParsedText

variable {t t' : ParsedText}

/-- No comment stands in an import declaration. -/
def PlainImports (t : ParsedText) : Prop :=
  ∀ p ∈ t.root.places, p.node.kind = .importDeclaration → CommentFree t.source p.node.span

instance (t : ParsedText) : Decidable t.PlainImports :=
  inferInstanceAs (Decidable (∀ p ∈ t.root.places, p.node.kind = .importDeclaration →
    CommentFree t.source p.node.span))

/-- The places that are looked for, side by side. -/
theorem Alike.filter_places (ht : Alike t t') {f g : Place → Bool}
    (hfg : ∀ p p', Facing t t' p p' → f p = g p') (hf : ∀ p, f p = true → p.node.isCode = true)
    (hg : ∀ p, g p = true → p.node.isCode = true) :
    List.Forall₂ (Facing t t') (t.root.places.filter f) (t'.root.places.filter g) := by
  have hrestrict : ∀ (k : Place → Bool), (∀ p, k p = true → p.node.isCode = true) →
      ∀ ps : List Place, (ps.filter (·.node.isCode)).filter k = ps.filter k := by
    intro k hk ps
    rw [List.filter_filter]
    refine List.filter_congr fun p _ => ?_
    cases hp : k p with
    | false => rfl
    | true => rw [hk p hp]; rfl
  rw [← hrestrict f hf, ← hrestrict g hg]
  exact forall₂_filter hfg ht.places

/-- The places of a kind, side by side. -/
theorem Alike.places_kind (ht : Alike t t') {k : Kind} (hk : k ≠ .comment) :
    List.Forall₂ (Facing t t') (t.root.places.filter (·.node.kind == k))
      (t'.root.places.filter (·.node.kind == k)) := by
  have hcode : ∀ p : Place, (p.node.kind == k) = true → p.node.isCode = true := fun p hp =>
    Node.isCode_of (f := (· == k)) (beq_eq_false_iff_ne.2 hk.symm) hp
  exact ht.filter_places (fun p p' hp => by rw [hp.kind_eq]) hcode hcode

/-- Import declarations side by side say the same, unless comments stand in them. -/
theorem Facing.parse?_content {p p' : Place} (h : Facing t t' p p')
    (hk : p.node.kind = .importDeclaration) (hp : CommentFree t.source p.node.span)
    (hp' : CommentFree t'.source p'.node.span) (line line' : Nat) :
    (Import.parse? (p.node.text t.source) line).map Import.content =
      (Import.parse? (p'.node.text t'.source) line').map Import.content := by
  have halike := h.alike.node
  unfold Node.text
  generalize p.node = n at *
  generalize p'.node = n' at *
  cases halike with
  | @mk k r s s' cs cs' ts ts' hs hs' heq hr hwants hwants' _ =>
    have hkind : k = .importDeclaration := hk
    subst hkind
    simp only [Node.span] at hp hp' ⊢
    rw [Import.parse?_of_over hs hwants hp, Import.parse?_of_over hs' hwants' hp', ← heq,
      Option.map_some, Option.map_some, Import.content_ofParts line line']

end ParsedText

namespace CompilationUnit

variable {t t' : ParsedText}

/-- Texts side by side have imports that say the same, unless comments stand in them. -/
theorem content_findImports (ht : ParsedText.Alike t t') (hplain : t.PlainImports)
    (hplain' : t'.PlainImports) :
    (findImports t).map Import.content = (findImports t').map Import.content := by
  unfold findImports
  rw [List.map_filterMap, List.map_filterMap, List.filter_map, List.filter_map, List.filterMap_map,
    List.filterMap_map]
  refine filterMap_eq_of_forall₂ (fun p hp p' hp' hpp' => ?_)
    (ht.places_kind (k := .importDeclaration) (by simp))
  have hmem := List.mem_filter.1 hp
  have hmem' := List.mem_filter.1 hp'
  have hk := beq_iff_eq.1 hmem.2
  exact hpp'.parse?_content hk (hplain p hmem.1 hk) (hplain' p' hmem'.1 (beq_iff_eq.1 hmem'.2)) _ _

/-- The name in a package declaration. -/
def packageNode? (declaration : Node) : Option Node :=
  (declaration.children.filter fun c => c.kind == .name || c.kind == .qualifiedName).getLast?

theorem findPackage_eq (t : ParsedText) :
    findPackage t =
      (((t.root.places.filter (·.node.kind == .packageDeclaration)).filterMap
        (packageNode? ·.node)).getLast?).map t.nodeText := by
  unfold findPackage
  simp only [← List.getLast?_map, List.map_filterMap, List.filter_map, List.filterMap_map]
  rfl

/-- The names in package declarations side by side. -/
theorem rel_packageNode? {T T' : List Token} {n n' : Node}
    (h : n.Alike Node.IsComment T T' n') :
    Option.Rel (fun c c' : Node => c.Alike Node.IsComment T T' c' ∧ c.kind.isSolid = true)
      (packageNode? n) (packageNode? n') := by
  have hnames := h.children.filter (f := fun c => c.kind == .name || c.kind == .qualifiedName)
    (fun m m' hm => by rw [hm.kind_eq]) fun m hm => by simp [hm.all.here]
  unfold packageNode?
  refine rel_getLast?_of_forall₂ (List.forall₂_iff_zip.2 ⟨hnames.length_eq, fun {c c'} hcc' => ?_⟩)
  have hk := (List.mem_filter.1 (List.of_mem_zip hcc').1).2
  refine ⟨List.forall₂_zip hnames hcc', ?_⟩
  rcases Bool.or_eq_true_iff.1 hk with hk | hk <;> rw [beq_iff_eq.1 hk]

/-- Texts side by side have the same package, unless white space or a comment stands in its
    name. -/
theorem findPackage_eq_of_alike (ht : ParsedText.Alike t t')
    (hplain : ∀ name ∈ findPackage t, Compact name.toList)
    (hplain' : ∀ name ∈ findPackage t', Compact name.toList) :
    findPackage t = findPackage t' := by
  rw [findPackage_eq] at hplain hplain' ⊢
  rw [findPackage_eq]
  have hnames := rel_getLast?_of_forall₂ (List.rel_filterMap
    (fun p p' (hp : ParsedText.Facing t t' p p') => rel_packageNode? hp.alike.node)
    (ht.places_kind (k := .packageDeclaration) (by simp)))
  generalize List.getLast? _ = o at hnames hplain ⊢
  generalize List.getLast? _ = o' at hnames hplain' ⊢
  cases hnames with
  | none => rfl
  | some hcc' =>
    have htext := hcc'.1.text_eq (.inl hcc'.2) (by simpa [ParsedText.nodeText] using hplain _ rfl)
      (by simpa [ParsedText.nodeText] using hplain' _ rfl)
    rw [Option.map_some, Option.map_some, ParsedText.nodeText, ParsedText.nodeText,
      htext]

/-- Texts side by side declare the same types below the same package. -/
theorem findTypes_eq (ht : ParsedText.Alike t t') (hplain : t.PlainTypes)
    (hplain' : t'.PlainTypes) (package : Option String) :
    findTypes t package = findTypes t' package := by
  have hcode : ∀ p : Place, p.node.kind.isTypeDeclaration = true → p.node.isCode = true :=
    fun p hp => Node.isCode_of (f := Kind.isTypeDeclaration) rfl hp
  unfold findTypes
  refine filterMap_eq_of_forall₂ (fun p _ p' _ hpp' => ?_)
    (ht.filter_places (fun p p' hp => by rw [hp.kind_eq]) hcode hcode)
  unfold qualifiedTypeName?
  rw [(hpp'.beside ht).declaredName?_eq, hpp'.enclosingTypes_eq ht hplain hplain']

end CompilationUnit

end Tracepoint.Source

namespace Tracepoint.Detect

open Java Source Text CompilationUnit ParsedText

/-! ## Keys side by side -/

/-- Two texts have the same tokens: these have the same classes and texts, where a token is as long
    as it can be. As `>` is scanned by itself, this asks that parts of longer tokens such as `>>`
    follow each other without a gap in both texts or in neither. -/
def SameTokens (source source' : List Char) : Prop :=
  readings (lex source).tokens = readings (lex source').tokens

instance (source source' : List Char) : Decidable (SameTokens source source') :=
  inferInstanceAs (Decidable (readings _ = readings _))

/-- Neither white space nor a comment stands in the name of the package of a unit. -/
def PlainPackage (u : CompilationUnit) : Prop := ∀ name ∈ u.package, Compact name.toList

instance (u : CompilationUnit) : Decidable (PlainPackage u) :=
  inferInstanceAs (Decidable (∀ name ∈ u.package, Compact name.toList))

/-- The keys that a detector assigns in a unit, in order. -/
def keys (u : CompilationUnit) (constructors : Bool) : List String :=
  (elements u constructors).map (·.key)

theorem isEntered_eq {t t' : ParsedText} (ht : Alike t t') (constructors : Bool) {p p' : Place}
    (h : Facing t t' p p') : isEntered constructors p = isEntered constructors p' := by
  unfold isEntered
  rw [h.kind_eq]
  obtain ⟨hb, hb'⟩ | ⟨b, b', hb, hb', -⟩ := (h.beside ht).child?_cases (r := .body) (by simp)
  · rw [hb, hb']
  · rw [hb, hb', Option.isSome_some, Option.isSome_some]

theorem isCallable_of_isEntered {constructors : Bool} {p : Place}
    (h : isEntered constructors p = true) : p.node.kind.isCallable = true := by
  unfold isEntered at h
  simp only [Bool.or_eq_true, Bool.and_eq_true, beq_iff_eq] at h
  rcases h with ⟨hk, -⟩ | ⟨-, hk⟩ <;> rw [hk] <;> rfl

/-- Units side by side with the same package have the same keys. -/
theorem keys_eq {u u' : CompilationUnit} (hu : u.Fits) (hu' : u'.Fits)
    (ht : Alike u.parsed u'.parsed) (hplain : u.parsed.PlainTypes) (hplain' : u'.parsed.PlainTypes)
    (hpackage : u.package = u'.package) (constructors : Bool) :
    keys u constructors = keys u' constructors := by
  have hcode : ∀ p : Place, isEntered constructors p = true → p.node.isCode = true := fun p hp =>
    Node.isCode_of (f := Kind.isCallable) rfl (isCallable_of_isEntered hp)
  have hkeys : ∀ {u : CompilationUnit}, u.Fits →
      keys u constructors = (entered u constructors).filterMap fun p => some (elementKey u p) := by
    intro u hu
    rw [keys, elements_eq hu, List.map_map, List.filterMap_eq_map']
    rfl
  rw [hkeys hu, hkeys hu']
  refine filterMap_eq_of_forall₂ (fun p hp p' hp' hpp' => ?_)
    (ht.filter_places (fun p p' hp => isEntered_eq ht constructors hp) hcode hcode)
  have hcallable := isCallable_of_isEntered (List.mem_filter.1 hp).2
  rw [elementKey, elementKey, hpackage, hpp'.enclosingTypes_eq ht hplain hplain',
    hpp'.signature_eq ht hplain hplain' hcallable]

/-! ## Texts with the same tokens -/

/-- Units of texts with the same tokens have the same package if its name is written without white
    space and comments, imports that say the same if there are no comments in them, and then, if
    no comments stand in the types of parameters, the same declared types and the same keys in
    the same order. -/
theorem names_of_sameTokens {path path' relativePath relativePath' : Path} {language : Language}
    {source source' : List Char} {u u' : CompilationUnit} (hl : language.outlines = true)
    (hu : ofSource path relativePath language source = .ok u)
    (hu' : ofSource path' relativePath' language source' = .ok u')
    (htokens : SameTokens source source') :
    (PlainPackage u → PlainPackage u' → u.package = u'.package) ∧
    (u.parsed.PlainImports → u'.parsed.PlainImports →
      u.imports.map Import.content = u'.imports.map Import.content) ∧
    (PlainPackage u → PlainPackage u' → u.parsed.PlainTypes → u'.parsed.PlainTypes →
      u.declaredTypes = u'.declaredTypes ∧
      ∀ constructors, keys u constructors = keys u' constructors) := by
  have hfits := ofSource_fits hl hu
  have hfits' := ofSource_fits hl hu'
  obtain ⟨hpackage, himports, htypes⟩ := outline_of_ofSource hl hu
  obtain ⟨hpackage', himports', htypes'⟩ := outline_of_ofSource hl hu'
  have ht := alike_of_readings hl hu hu' htokens
  have hsame : PlainPackage u → PlainPackage u' → u.package = u'.package := by
    intro hplain hplain'
    unfold PlainPackage at hplain hplain'
    rw [hpackage] at hplain ⊢
    rw [hpackage'] at hplain' ⊢
    exact findPackage_eq_of_alike ht hplain hplain'
  refine ⟨hsame, fun hplain hplain' => ?_,
    fun hplain hplain' hp hp' => ⟨?_, fun constructors => ?_⟩⟩
  · rw [himports, himports']
    exact content_findImports ht hplain hplain'
  · rw [htypes, htypes', hsame hplain hplain']
    exact findTypes_eq ht hp hp' _
  · exact keys_eq hfits hfits' ht hp hp' (hsame hplain hplain') constructors

/-- A text in one line and the same tokens in many, with comments between them. -/
theorem names_of_lines :
    let source := ("package a.b;import static c.D.e;" ++
      "class A\x7bvoid m(K<V>[] x,int...y)\x7b\x7d\x7d").toList
    let source' := ("package a.b ;//\nimport static\n c . D .e;\n" ++
      "class/**/A \x7b\n void m(K < V > [ ] x, int ... y)\x7b \x7d\n\x7d").toList
    ∃ u u', ofSource ⟨"A.java"⟩ ⟨"A.java"⟩ .java source = .ok u ∧
      ofSource ⟨"A.java"⟩ ⟨"A.java"⟩ .java source' = .ok u' ∧
      u'.package = some "a.b" ∧
      u'.imports.map Import.content = [("c.D.e", true, false, "c.D")] ∧
      u'.declaredTypes = ["a.b.A"] ∧
      keys u' true = ["a.b.A.m(K<V>[],int...)"] := by
  intro source source'
  obtain ⟨u, hu, hcheck⟩ := exists_ok_of_any
    (x := ofSource ⟨"A.java"⟩ ⟨"A.java"⟩ .java source)
    (f := fun u => decide (PlainPackage u ∧ u.parsed.PlainImports ∧ u.parsed.PlainTypes ∧
      u.package = some "a.b" ∧
      u.imports.map Import.content = [("c.D.e", true, false, "c.D")] ∧
      u.declaredTypes = ["a.b.A"] ∧
      keys u true = ["a.b.A.m(K<V>[],int...)"]))
    (by decide +kernel)
  obtain ⟨u', hu', hcheck'⟩ := exists_ok_of_any
    (x := ofSource ⟨"A.java"⟩ ⟨"A.java"⟩ .java source')
    (f := fun u => decide (PlainPackage u ∧ u.parsed.PlainImports ∧ u.parsed.PlainTypes))
    (by decide +kernel)
  obtain ⟨hp, hi, ht, hpackage, himports, htypes, hkeys⟩ := of_decide_eq_true hcheck
  obtain ⟨hp', hi', ht'⟩ := of_decide_eq_true hcheck'
  obtain ⟨hsame, hcontent, hnames⟩ :=
    names_of_sameTokens rfl hu hu' (by decide +kernel : SameTokens source source')
  exact ⟨u, u', hu, hu', hsame hp hp' ▸ hpackage, hcontent hi hi' ▸ himports,
    (hnames hp hp' ht ht').1 ▸ htypes, (hnames hp hp' ht ht').2 true ▸ hkeys⟩

/-- Two texts with the same tokens, of which one has spaces in the name of its package. They have
    other declared types and other keys. -/
theorem package_keeps_spaces :
    let source := "package a.b;class A\x7bvoid m()\x7b\x7d\x7d".toList
    let source' := "package a . b;class A\x7bvoid m()\x7b\x7d\x7d".toList
    SameTokens source source' ∧
    ∃ u u', ofSource ⟨"A.java"⟩ ⟨"A.java"⟩ .java source = .ok u ∧
      ofSource ⟨"A.java"⟩ ⟨"A.java"⟩ .java source' = .ok u' ∧
      u.package = some "a.b" ∧ u'.package = some "a . b" ∧
      u.declaredTypes = ["a.b.A"] ∧ u'.declaredTypes = ["a . b.A"] ∧
      keys u true = ["a.b.A.m()"] ∧ keys u' true = ["a . b.A.m()"] := by
  intro source source'
  obtain ⟨u, hu, hcheck⟩ := exists_ok_of_any
    (x := ofSource ⟨"A.java"⟩ ⟨"A.java"⟩ .java source)
    (f := fun u => decide (u.package = some "a.b" ∧ u.declaredTypes = ["a.b.A"] ∧
      keys u true = ["a.b.A.m()"])) (by decide +kernel)
  obtain ⟨u', hu', hcheck'⟩ := exists_ok_of_any
    (x := ofSource ⟨"A.java"⟩ ⟨"A.java"⟩ .java source')
    (f := fun u => decide (u.package = some "a . b" ∧ u.declaredTypes = ["a . b.A"] ∧
      keys u true = ["a . b.A.m()"])) (by decide +kernel)
  obtain ⟨hpackage, htypes, hkeys⟩ := of_decide_eq_true hcheck
  obtain ⟨hpackage', htypes', hkeys'⟩ := of_decide_eq_true hcheck'
  exact ⟨by decide +kernel, u, u', hu, hu', hpackage, hpackage', htypes, htypes', hkeys, hkeys'⟩

end Tracepoint.Detect
