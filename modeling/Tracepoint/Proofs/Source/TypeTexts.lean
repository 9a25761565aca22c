import Tracepoint.Proofs.Source.Shapes

/-!
# Types in signatures

The type of a parameter closes the brackets that it opens, and has commas only between type
arguments. So the types in a signature can be read off it where no annotations and no comments
stand in them, as the text of these can have any commas and brackets.

Results:

* `enclosed_of_isType`: the text of a type without annotations and comments.
* `ParsedText.Beside.enclosed_typesInSignature`: the types in a signature.
-/

namespace Tracepoint

open Java Text

namespace Java

variable {T : List Token}

/-- Of nodes side by side with themselves, those that are no comments are so one by one. -/
theorem Node.AlikeAll.self {ns : List Node} (h : Node.AlikeAll Node.IsComment T T ns ns) :
    ∀ n ∈ ns, n.isCode = true → n.Alike Node.IsComment T T n := by
  intro n hn hc
  exact List.forall₂_same.1 h.code n (List.mem_filter.2 ⟨hn, hc⟩)

theorem exists_solid_of_isIdentifier {w : List Char} (h : isIdentifier w = true) :
    ∃ c ∈ w, isBlank c = false := by
  cases w with
  | nil => cases h
  | cons c w =>
    refine ⟨c, List.mem_cons_self, ?_⟩
    by_contra hblank
    exact not_mem_of_isIdentifier h (isIdentifierPart_of_isBlank (by simpa using hblank))
      List.mem_cons_self

/-- The text of a type without annotations and comments closes the brackets around its commas. -/
theorem enclosed_of_isType {source : List Char} {s : Span} {ts : List Token}
    (h : s.Over (lex source).tokens ts) (hts : IsType ts)
    (hat : '@' ∉ squeeze (slice source s.start s.stop))
    (hslash : '/' ∉ squeeze (slice source s.start s.stop)) :
    Enclosed 0 ',' opensList closesList (squeeze (slice source s.start s.stop)) ∧
      squeeze (slice source s.start s.stop) ≠ [] := by
  have hwords : ProperWords ts := fun t ht =>
    ((lex_standsIn source).1 t (h.within.mem ht)).word
  obtain ⟨ps, hps⟩ := h.exists_stretch hts.first.ne_nil
  have hslice := hps.slice_eq
  have hfree : ∀ p ∈ ps, p.1 ≠ .comment := by
    intro p hp hcomment
    have hmem := List.mem_of_mem_head? (head?_of_comment (hps.mem_pieces p hp) hcomment)
    rw [hslice] at hslash
    exact hslash (List.mem_filter.2 ⟨List.mem_flatMap.2 ⟨p, hp, hmem⟩, by decide⟩)
  have hsqueeze : squeeze (slice source s.start s.stop) =
      squeeze (ts.flatMap (·.text.toList)) := by
    rw [hslice, squeeze_textOf hps.mem_pieces hfree, hps.lexemes_eq, List.flatMap_map]
    unfold squeeze
    rw [List.filter_flatMap]
    rfl
  rw [hsqueeze] at hat ⊢
  have hnone : ¬ ∃ t ∈ ts, t.text = "@" := by
    rintro ⟨t, ht, htext⟩
    refine hat (List.mem_filter.2 ⟨List.mem_flatMap.2 ⟨t, ht, ?_⟩, by decide⟩)
    rw [htext]
    decide
  have hbracket : ∀ c, opensList c = true ∨ closesList c = true → (!isBlank c) = true := by
    intro c hc
    simp only [opensList, closesList, Bool.or_eq_true, beq_iff_eq] at hc
    rcases hc with (rfl | rfl) | (rfl | rfl) <;> decide
  refine ⟨((hts.nested hwords).resolve_left hnone).filter (fun c hc => hbracket c (.inl hc))
    fun c hc => hbracket c (.inr hc), ?_⟩
  obtain ⟨t, ht, hfirst⟩ := hts.first
  have hmem := List.mem_of_mem_head? ht
  obtain ⟨c, hc, hsolid⟩ : ∃ c ∈ t.text.toList, isBlank c = false := by
    rcases hfirst with hword | hprimitive
    · exact exists_solid_of_isIdentifier (hwords t hmem hword)
    · have hnames : (Grammar.primitiveTypes.all fun s => s.toList.any (!isBlank ·)) = true := by
        decide
      simpa using List.all_eq_true.1 hnames _ hprimitive
  exact List.ne_nil_of_mem
    (List.mem_filter.2 ⟨List.mem_flatMap.2 ⟨t, hmem, hc⟩, by rw [hsolid]; rfl⟩)

end Java

namespace Source.ParsedText

variable {t : ParsedText} {n : Node}

/-- The node of a place is side by side with itself, if it is no comment. -/
theorem Alike.beside_self (ht : Alike t t) {p : Place} (hp : p ∈ t.root.places)
    (hcode : p.node.isCode = true) : Beside t t p.node p.node :=
  (List.forall₂_same.1 ht.places p (List.mem_filter.2 ⟨hp, hcode⟩)).beside ht

/-- A child of a node that is side by side with itself is so too, if it is no comment. -/
theorem Beside.child (h : Beside t t n n) {c : Node} (hc : c ∈ n.children)
    (hcode : c.isCode = true) : Beside t t c c :=
  ⟨h.alike.children.self c hc hcode, h.fits.children c hc, h.fits.children c hc⟩

/-- The type of a parameter is a type. -/
theorem Beside.exists_typeOf (h : Beside t t n n) (hk : n.kind = .parameter) :
    ∃ c, typeNode? n = some c ∧ c.kind = .type := by
  have hcomments := h.alike.children.isComment
  have halike := h.alike
  rw [typeNode?, hk]
  cases halike with
  | @mk k r s _ cs _ ts _ _ _ _ _ hwants _ _ =>
    have hkind : k = .parameter := hk
    subst hkind
    obtain ⟨o, ho, htype⟩ := hwants
    rw [Nodes.find?_outline, Option.mem_def, Option.map_eq_some_iff] at ho
    obtain ⟨c, hc, rfl⟩ := ho
    refine ⟨c, ?_, htype⟩
    rw [← hc]
    refine List.find?_congr fun m hm => ?_
    -- no comment plays a role
    by_cases hcode : m.kind = .comment
    · have hrole := (hcomments m hm (by simp [Node.isCode, hcode])).role
      simp [hcode, hrole]
    · simp [hcode]

/-- What is taken for the type of a parameter, unless it is a comment. -/
theorem Beside.exists_typeNode? (h : Beside t t n n) {s : String}
    (hcomment : ∀ c ∈ typeNode? n, c.kind ≠ .comment) (hs : t.parameterType? n = some s) :
    ∃ c ∈ n.children, typeNode? n = some c ∧ c.kind = .type := by
  unfold parameterType? at hs
  split at hs
  · rename_i hk
    obtain ⟨c, hc, htype⟩ := h.exists_typeOf hk
    refine ⟨c, ?_, hc, htype⟩
    rw [typeNode?, hk] at hc
    exact List.mem_of_find?_eq_some hc
  · rename_i hk
    obtain ⟨c, hc, htype⟩ := exists_declaredSpreadType? h.alike hk
    have hspread : typeNode? n = spreadType? n := by rw [typeNode?, hk]
    rw [hspread] at hcomment ⊢
    rw [← spreadType?_eq (by cases hs : spreadType? n <;> simp_all)] at hc
    exact ⟨c, List.mem_of_find?_eq_some hc, hc, htype⟩
  · cases hs

/-- The type of a parameter in a signature closes the brackets around its commas, if no annotation
    and no comment stands in it. -/
theorem Beside.enclosed_parameterType? (h : Beside t t n n) {s : String}
    (hcomment : ∀ c ∈ typeNode? n, c.kind ≠ .comment) (hs : t.parameterType? n = some s)
    (hat : '@' ∉ s.toList) (hslash : '/' ∉ s.toList) :
    Enclosed 0 ',' opensList closesList s.toList ∧ s ≠ "" := by
  obtain ⟨c, hmem, hc, htype⟩ := h.exists_typeNode? hcomment hs
  have halike := (h.child hmem (by simp [Node.isCode, htype])).alike
  -- dots after a type are no brackets and no commas
  have hdotted : ∀ dots : List Char, (∀ d ∈ dots, d = '.') →
      s.toList = squeeze (c.text t.source) ++ dots →
      Enclosed 0 ',' opensList closesList s.toList ∧ s ≠ "" := by
    intro dots hdots htext
    rw [htext] at hat hslash ⊢
    cases halike with
    | @mk k r s' _ cs _ ts _ hs _ _ _ hwants _ _ =>
      have hkind : k = .type := htype
      subst hkind
      obtain ⟨henclosed, hne⟩ := enclosed_of_isType hs hwants
        (fun h => hat (List.mem_append_left _ h)) fun h => hslash (List.mem_append_left _ h)
      have hrest : Enclosed 0 ',' opensList closesList dots :=
        enclosed_of_not_mem (fun h => by cases hdots _ h) (fun d hd => by rw [hdots d hd]; decide)
          fun d hd => by rw [hdots d hd]; decide
      refine ⟨henclosed.append hrest, ?_⟩
      rintro rfl
      exact List.append_ne_nil_of_left_ne_nil hne _ htext.symm
  unfold parameterType? at hs
  unfold typeNode? at hc
  split at hs
  · rename_i hk
    simp only [hk] at hc
    rw [hc] at hs
    cases hs
    exact hdotted [] (by simp) (by simp)
  · rename_i hk
    simp only [hk, spreadType?] at hc
    rw [hc] at hs
    cases hs
    refine hdotted "...".toList (by simp) ?_
    rw [String.toList_ofList, squeeze_append]
    rfl
  · cases hs

/-- The types in a signature without annotations and comments can be read off it. -/
theorem Beside.enclosed_typesInSignature (h : Beside t t n n)
    (hcomments : ∀ p ∈ parametersOf n, ∀ c ∈ typeNode? p, c.kind ≠ .comment) :
    ∀ s ∈ t.typesInSignature n, '@' ∉ s.toList → '/' ∉ s.toList →
      Enclosed 0 ',' opensList closesList s.toList ∧ s ≠ "" := by
  intro s hs
  rw [typesInSignature_eq_filterMap, List.mem_filterMap] at hs
  obtain ⟨p, hp, hs⟩ := hs
  have hcomment := hcomments p hp
  unfold parametersOf at hp
  obtain ⟨hc, -⟩ | ⟨c, c', hc, hc', hbeside, -⟩ := h.child?_cases (r := .parameters) (by simp)
  · rw [hc] at hp
    cases hp
  · cases hc.symm.trans hc'
    rw [hc] at hp
    have hcode : p.isCode = true := by
      refine decide_eq_true fun hk => ?_
      rw [parameterType?, hk] at hs
      cases hs
    exact (hbeside.child hp hcode).enclosed_parameterType? hcomment hs

end Source.ParsedText

end Tracepoint
