import Mathlib.Data.List.Find
import Tracepoint.Proofs.Java.Ranks
import Tracepoint.Proofs.Java.Stretch
import Tracepoint.Proofs.Source.Owners
import Tracepoint.Proofs.Source.Parameters
import Tracepoint.Proofs.Source.Positions

/-!
# Names in trees of one shape

In texts whose tokens read alike, methods and types get the same names. A name of one word is the
same anyway, and an anonymous class has the same number, as that counts places in document order.
The type of a parameter is cut from the text without its blanks, so that it is the same unless a
comment stands in it.

Results:

* `Node.Alike.squeeze_text`, `Node.Alike.text_eq`: the texts of nodes side by side.
* `ParsedText.Alike.signature_eq`: the signatures of methods side by side.
* `ParsedText.Alike.enclosingTypes_eq`: the names of the types around places side by side.
-/

namespace Tracepoint

/-! ## Lists side by side -/

section

variable {α β γ : Type} {R : α → β → Prop} {xs : List α} {ys : List β}

theorem filterMap_eq_of_forall₂ {f : α → Option γ} {g : β → Option γ}
    (hf : ∀ x ∈ xs, ∀ y ∈ ys, R x y → f x = g y) (h : List.Forall₂ R xs ys) :
    xs.filterMap f = ys.filterMap g := by
  induction h with
  | nil => rfl
  | cons hxy _ ih =>
    have hrest := ih fun x hx y hy =>
      hf x (List.mem_cons_of_mem _ hx) y (List.mem_cons_of_mem _ hy)
    rw [List.filterMap_cons, List.filterMap_cons, hrest,
      hf _ List.mem_cons_self _ List.mem_cons_self hxy]

theorem flatMap_eq_of_forall₂ {f : α → List γ} {g : β → List γ}
    (hf : ∀ x ∈ xs, ∀ y ∈ ys, R x y → f x = g y) (h : List.Forall₂ R xs ys) :
    xs.flatMap f = ys.flatMap g := by
  induction h with
  | nil => rfl
  | cons hxy _ ih =>
    have hrest := ih fun x hx y hy =>
      hf x (List.mem_cons_of_mem _ hx) y (List.mem_cons_of_mem _ hy)
    rw [List.flatMap_cons, List.flatMap_cons, hrest,
      hf _ List.mem_cons_self _ List.mem_cons_self hxy]

theorem forall₂_filter {f : α → Bool} {g : β → Bool} (hf : ∀ x y, R x y → f x = g y)
    (h : List.Forall₂ R xs ys) : List.Forall₂ R (xs.filter f) (ys.filter g) := by
  induction h with
  | nil => exact .nil
  | @cons x y _ _ hxy _ ih =>
    rw [List.filter_cons, List.filter_cons, hf x y hxy]
    split_ifs
    · exact .cons hxy ih
    · exact ih

theorem forall₂_takeWhile {f : α → Bool} {g : β → Bool} (hf : ∀ x y, R x y → f x = g y)
    (h : List.Forall₂ R xs ys) : List.Forall₂ R (xs.takeWhile f) (ys.takeWhile g) := by
  induction h with
  | nil => exact .nil
  | @cons x y _ _ hxy _ ih =>
    rw [List.takeWhile_cons, List.takeWhile_cons, hf x y hxy]
    split_ifs
    · exact .cons hxy ih
    · exact .nil

theorem rel_find?_of_forall₂ {f : α → Bool} {g : β → Bool} (hf : ∀ x y, R x y → f x = g y)
    (h : List.Forall₂ R xs ys) : Option.Rel R (xs.find? f) (ys.find? g) := by
  induction h with
  | nil => exact .none
  | @cons x y _ _ hxy _ ih =>
    rw [List.find?_cons, List.find?_cons, hf x y hxy]
    cases g y with
    | true => exact .some hxy
    | false => exact ih

theorem rel_getLast?_of_forall₂ (h : List.Forall₂ R xs ys) :
    Option.Rel R xs.getLast? ys.getLast? := by
  rw [List.getLast?_eq_head?_reverse, List.getLast?_eq_head?_reverse]
  have hreverse := List.forall₂_reverse_iff.2 h
  generalize xs.reverse = xs' at hreverse ⊢
  generalize ys.reverse = ys' at hreverse ⊢
  cases hreverse with
  | nil => exact .none
  | cons hxy _ => exact .some hxy

/-- What a filter drops can be dropped before. -/
theorem filter_takeWhile_filter {f g k : α → Bool} (hg : ∀ x, g x = true → k x = true)
    (hf : ∀ x ∈ xs, f x = false → k x = true) :
    (xs.takeWhile f).filter g = ((xs.filter k).takeWhile f).filter g := by
  induction xs with
  | nil => rfl
  | cons x xs ih =>
    have ih := ih fun y hy => hf y (List.mem_cons_of_mem _ hy)
    rw [List.filter_cons]
    cases hk : k x with
    | true =>
      rw [if_pos rfl, List.takeWhile_cons, List.takeWhile_cons]
      split_ifs
      · rw [List.filter_cons, List.filter_cons, ih]
      · rfl
    | false =>
      have hfx : f x = true := by
        by_contra hno
        rw [hf x List.mem_cons_self (by simpa using hno)] at hk
        cases hk
      have hgx : g x = false := by
        by_contra hno
        rw [hg x (by simpa using hno)] at hk
        cases hk
      rw [List.takeWhile_cons_of_pos hfx, List.filter_cons_of_neg (by simp [hgx]), ih]
      simp

end

namespace Java

open Text

variable {T T' : List Token}

/-! ## Nodes side by side -/

theorem Node.Alike.role_eq {n n' : Node} (h : n.Alike Node.IsComment T T' n') :
    n.role = n'.role := by
  cases h
  rfl

theorem Node.Alike.children {n n' : Node} (h : n.Alike Node.IsComment T T' n') :
    Node.AlikeAll Node.IsComment T T' n.children n'.children := by
  cases h
  assumption

/-- The first node of some kind and role that is no comment. -/
theorem Nodes.find?_outline (f : Kind × Role → Bool) (xs : Nodes) :
    (Nodes.outline xs).find? f =
      (xs.find? fun c => c.kind ≠ .comment && f (c.kind, c.role)).map fun c =>
        (c.kind, c.role) := by
  rw [Nodes.outline, List.find?_map, List.find?_filter]
  simp only [Function.comp_def, Bool.decide_and, Bool.decide_eq_true]

/-- What is no code next to nodes side by side are comments. -/
theorem Node.AlikeAll.isComment {ns ns' : List Node}
    (h : Node.AlikeAll Node.IsComment T T' ns ns') :
    ∀ n ∈ ns, n.isCode = false → n.IsComment := by
  induction h using Node.AlikeAll.induction with
  | nil => simp
  | @cons n n' ns ns' hn _ ih =>
    intro m hm hcode
    rcases List.mem_cons.1 hm with rfl | hm
    · rw [hn.isCode] at hcode
      cases hcode
    · exact ih m hm hcode
  | @left n ns ns' hn _ ih =>
    intro m hm hcode
    rcases List.mem_cons.1 hm with rfl | hm
    · exact hn
    · exact ih m hm hcode
  | right _ _ ih => exact ih

/-- The nodes that are no comments, side by side. -/
theorem Node.AlikeAll.code {ns ns' : List Node} (h : Node.AlikeAll Node.IsComment T T' ns ns') :
    List.Forall₂ (Node.Alike Node.IsComment T T') (ns.filter (·.isCode)) (ns'.filter (·.isCode)) := by
  have hskip : ∀ {n : Node} (ns : List Node), n.IsComment →
      (n :: ns).filter (·.isCode) = ns.filter (·.isCode) := fun ns hn =>
    List.filter_cons_of_neg (by simp [Node.isCode, hn.all.here])
  induction h using Node.AlikeAll.induction with
  | nil => exact .nil
  | cons hn _ ih =>
    rw [List.filter_cons_of_pos hn.isCode, List.filter_cons_of_pos hn.symm.isCode]
    exact .cons hn ih
  | left hn _ ih => rwa [hskip _ hn]
  | right hn _ ih => rwa [hskip _ hn]

section

variable {ns ns' : List Node} (h : Node.AlikeAll Node.IsComment T T' ns ns')
include h

/-- The first nodes side by side that are looked for, which are no comments. -/
theorem Node.AlikeAll.find? {f : Node → Bool}
    (hf : ∀ n n', n.Alike Node.IsComment T T' n' → f n = f n')
    (hcomment : ∀ n, n.IsComment → f n = false) :
    Option.Rel (Node.Alike Node.IsComment T T') (ns.find? f) (ns'.find? f) := by
  have hcode : ∀ {ns : List Node}, (∀ n ∈ ns, n.isCode = false → n.IsComment) →
      ns.find? f = (ns.filter (·.isCode)).find? f := by
    intro ns hns
    rw [List.find?_filter]
    refine List.find?_congr fun n hn => ?_
    cases hc : n.isCode with
    | true => simp
    | false => simp [hcomment n (hns n hn hc)]
  rw [hcode h.isComment, hcode h.symm.isComment]
  exact rel_find?_of_forall₂ hf h.code

/-- The nodes that are looked for, side by side. -/
theorem Node.AlikeAll.filter {f : Node → Bool}
    (hf : ∀ n n', n.Alike Node.IsComment T T' n' → f n = f n')
    (hcomment : ∀ n, n.IsComment → f n = false) :
    List.Forall₂ (Node.Alike Node.IsComment T T') (ns.filter f) (ns'.filter f) := by
  have hcode : ∀ {ns : List Node}, (∀ n ∈ ns, n.isCode = false → n.IsComment) →
      ns.filter f = (ns.filter (·.isCode)).filter f := by
    intro ns hns
    rw [List.filter_filter]
    refine List.filter_congr fun n hn => ?_
    cases hc : n.isCode with
    | true => simp
    | false => simp [hcomment n (hns n hn hc)]
  rw [hcode h.isComment, hcode h.symm.isComment]
  exact forall₂_filter hf h.code

/-- What is made of nodes side by side and not of comments. -/
theorem Node.AlikeAll.filterMap_eq {α : Type} {f g : Node → Option α}
    (hf : ∀ n ∈ ns, ∀ n' ∈ ns', n.Alike Node.IsComment T T' n' → f n = g n')
    (hcomment : ∀ n, n.IsComment → f n = none ∧ g n = none) :
    ns.filterMap f = ns'.filterMap g := by
  have hcode : ∀ {ns : List Node} {f : Node → Option α}, (∀ n, n.IsComment → f n = none) →
      (∀ n ∈ ns, n.isCode = false → n.IsComment) →
      ns.filterMap f = (ns.filter (·.isCode)).filterMap f := by
    intro ns f hnone hns
    rw [List.filterMap_filter]
    refine List.filterMap_congr fun n hn => ?_
    cases hc : n.isCode with
    | true => rfl
    | false => exact hnone n (hns n hn hc)
  rw [hcode (fun n hn => (hcomment n hn).1) h.isComment,
    hcode (fun n hn => (hcomment n hn).2) h.symm.isComment]
  exact filterMap_eq_of_forall₂ (fun n hn n' hn' => hf n (List.mem_filter.1 hn).1 n'
    (List.mem_filter.1 hn').1) h.code

end

/-! ## Texts side by side -/

/-- No white space and no comment stands in a text. -/
def Compact (s : List Char) : Prop := ∀ c ∈ s, isGap c = false ∧ c ≠ '/'

instance (s : List Char) : Decidable (Compact s) :=
  List.decidableBAll (fun c => isGap c = false ∧ c ≠ '/') s

theorem compact_of_isIdentifier {s : List Char} (h : isIdentifier s = true) : Compact s := by
  intro c hc
  constructor
  · by_contra hgap
    have hblank := isBlank_of_isGap (by simpa using hgap : isGap c = true)
    exact not_mem_of_isIdentifier h (isIdentifierPart_of_isBlank hblank) hc
  · rintro rfl
    exact not_mem_of_isIdentifier h (by decide) hc

section

variable {source source' : List Char} {n n' : Node}

theorem Node.Alike.exists_stretch
    (h : n.Alike Node.IsComment (lex source).tokens (lex source').tokens n')
    (hsolid : n.kind.isSolid = true ∨ n.role.isSolid = true) :
    ∃ ts ts' ps ps', Stretch source ts n.span ps ∧ Stretch source' ts' n'.span ps' ∧
      ts.map Token.reading = ts'.map Token.reading := by
  cases h with
  | @mk k r s s' cs cs' ts ts' hs hs' heq hr hk hk' _ =>
    have hne : ts ≠ [] := hsolid.elim hk.ne_nil hr
    have hne' : ts' ≠ [] := fun hnil => hne (by simpa [hnil] using heq)
    obtain ⟨ps, hps⟩ := hs.exists_stretch hne
    obtain ⟨ps', hps'⟩ := hs'.exists_stretch hne'
    exact ⟨ts, ts', ps, ps', hps, hps', heq⟩

/-- Names and types without comments differ in blanks only. -/
theorem Node.Alike.squeeze_text
    (h : n.Alike Node.IsComment (lex source).tokens (lex source').tokens n')
    (hsolid : n.kind.isSolid = true ∨ n.role.isSolid = true) (hfree : CommentFree source n.span)
    (hfree' : CommentFree source' n'.span) :
    squeeze (n.text source) = squeeze (n'.text source') := by
  obtain ⟨ts, ts', ps, ps', hps, hps', heq⟩ := h.exists_stretch hsolid
  rw [Node.text, Node.text, hps.squeeze_eq hfree, hps'.squeeze_eq hfree', heq]

/-- Names in which no white space and no comment stands are the same. -/
theorem Node.Alike.text_eq
    (h : n.Alike Node.IsComment (lex source).tokens (lex source').tokens n')
    (hsolid : n.kind.isSolid = true ∨ n.role.isSolid = true) (hcompact : Compact (n.text source))
    (hcompact' : Compact (n'.text source')) : n.text source = n'.text source' := by
  obtain ⟨ts, ts', ps, ps', hps, hps', heq⟩ := h.exists_stretch hsolid
  rw [Node.text, Node.text, hps.eq_of_compact hcompact, hps'.eq_of_compact hcompact', heq]

end

end Java

namespace Source

open Java Text

namespace ParsedText

/-! ## Signatures -/

/-- What a signature takes for the type of a parameter. -/
def typeNode? (parameter : Node) : Option Node :=
  match parameter.kind with
  | .parameter => parameter.child? .type
  | .spreadParameter => spreadType? parameter
  | _ => none

/-- No comment stands in what a signature takes for the types of parameters. -/
def PlainParameters (t : ParsedText) (declaration : Node) : Prop :=
  ∀ p ∈ parametersOf declaration, ∀ c ∈ typeNode? p,
    c.kind ≠ .comment ∧ CommentFree t.source c.span

instance (t : ParsedText) (declaration : Node) : Decidable (t.PlainParameters declaration) :=
  inferInstanceAs (Decidable (∀ p ∈ parametersOf declaration, ∀ c ∈ typeNode? p,
    c.kind ≠ .comment ∧ CommentFree t.source c.span))

/-- Texts that fit their trees, with tokens that read alike and trees in order of one shape. -/
structure Alike (t t' : ParsedText) : Prop where
  root : t.root.Alike Node.IsComment (lex t.source).tokens (lex t'.source).tokens t'.root
  fits : t.root.All (Node.FitsIn t.source)
  fits' : t'.root.All (Node.FitsIn t'.source)
  ordered : t.root.All Node.Ordered
  ordered' : t'.root.All Node.Ordered

/-- Nodes side by side that fit their texts. -/
structure Beside (t t' : ParsedText) (n n' : Node) : Prop where
  alike : n.Alike Node.IsComment (lex t.source).tokens (lex t'.source).tokens n'
  fits : n.All (Node.FitsIn t.source)
  fits' : n'.All (Node.FitsIn t'.source)

variable {t t' : ParsedText} {n n' : Node}

/-- The first children that are looked for are side by side, or there are none. -/
theorem Beside.find?_cases (h : Beside t t' n n') {f : Node → Bool}
    (hf : ∀ m m', m.kind = m'.kind → m.role = m'.role → f m = f m')
    (hcomment : ∀ m, m.IsComment → f m = false) :
    (n.children.find? f = none ∧ n'.children.find? f = none) ∨
      ∃ c c', n.children.find? f = some c ∧ n'.children.find? f = some c' ∧ Beside t t' c c' := by
  have hrel := h.alike.children.find? (fun m m' hm => hf m m' hm.kind_eq hm.role_eq) hcomment
  generalize hc : n.children.find? f = o at hrel
  generalize hc' : n'.children.find? f = o' at hrel
  cases hrel with
  | none => exact .inl ⟨rfl, rfl⟩
  | some hcc' =>
    exact .inr ⟨_, _, rfl, rfl, hcc', h.fits.children _ (List.mem_of_find?_eq_some hc),
      h.fits'.children _ (List.mem_of_find?_eq_some hc')⟩

/-- Children that play a role are side by side, or there are none. -/
theorem Beside.child?_cases (h : Beside t t' n n') {r : Role} (hr : r ≠ .none) :
    (n.child? r = none ∧ n'.child? r = none) ∨
      ∃ c c', n.child? r = some c ∧ n'.child? r = some c' ∧ Beside t t' c c' ∧ c.role = r ∧
        c'.role = r := by
  obtain hnone | ⟨c, c', hc, hc', hbeside⟩ := h.find?_cases (f := fun m => m.role = r)
    (fun m m' _ hrole => by rw [hrole]) fun m hm => by
      rw [hm.role]
      exact decide_eq_false hr.symm
  · exact .inl hnone
  · exact .inr ⟨c, c', hc, hc', hbeside, by simpa using List.find?_some hc,
      by simpa using List.find?_some hc'⟩

/-- Declarations side by side introduce the same name. -/
theorem Beside.declaredName?_eq (h : Beside t t' n n') :
    t.declaredName? n = t'.declaredName? n' := by
  unfold declaredName?
  obtain ⟨hc, hc'⟩ | ⟨c, c', hc, hc', hbeside, hrole, hrole'⟩ :=
    h.child?_cases (r := .name) (by simp)
  · rw [hc, hc']
    rfl
  · have hsolid : c.kind.isSolid = true ∨ c.role.isSolid = true := .inr (by rw [hrole])
    have htext := hbeside.alike.text_eq hsolid
      (compact_of_isIdentifier (hbeside.fits.here.word hrole))
      (compact_of_isIdentifier (hbeside.fits'.here.word hrole'))
    rw [hc, hc', Option.map_some, Option.map_some, nodeText, nodeText, htext]

/-- The type of a parameter with dots is a type. -/
theorem exists_declaredSpreadType? {T T' : List Token} (h : n.Alike Node.IsComment T T' n')
    (hk : n.kind = .spreadParameter) :
    ∃ c, declaredSpreadType? n = some c ∧ c.kind = .type := by
  cases h with
  | @mk k r s s' cs cs' ts ts' _ _ _ _ hwants _ _ =>
    have hkind : k = .spreadParameter := hk
    subst hkind
    obtain ⟨o, ho, htype⟩ := hwants
    rw [Nodes.find?_outline, Option.mem_def, Option.map_eq_some_iff] at ho
    obtain ⟨c, hc, rfl⟩ := ho
    refine ⟨c, ?_, htype⟩
    rw [← hc, declaredSpreadType?]
    congr 1
    funext m
    rw [Bool.and_comm (decide (m.kind ≠ .comment))]

/-- What is taken for the types of parameters side by side is side by side. -/
theorem Beside.typeNode?_cases (h : Beside t t' n n') (hn : ∀ c ∈ typeNode? n, c.kind ≠ .comment)
    (hn' : ∀ c ∈ typeNode? n', c.kind ≠ .comment) :
    (typeNode? n = none ∧ typeNode? n' = none) ∨
      ∃ c c', typeNode? n = some c ∧ typeNode? n' = some c' ∧ Beside t t' c c' ∧
        (c.kind.isSolid = true ∨ c.role.isSolid = true) := by
  have hkind := h.alike.kind_eq
  unfold typeNode? at hn hn' ⊢
  rw [← hkind] at hn' ⊢
  split
  · obtain hnone | ⟨c, c', hc, hc', hbeside, hrole, -⟩ := h.child?_cases (r := .type) (by simp)
    · exact .inl hnone
    · exact .inr ⟨c, c', hc, hc', hbeside, .inr (by rw [hrole])⟩
  · rename_i hk
    simp only [hk] at hn hn'
    have heq : spreadType? n = declaredSpreadType? n :=
      spreadType?_eq (by cases hs : spreadType? n <;> simp_all)
    have heq' : spreadType? n' = declaredSpreadType? n' :=
      spreadType?_eq (by cases hs : spreadType? n' <;> simp_all)
    rw [heq, heq']
    obtain hnone | ⟨c, c', hc, hc', hbeside⟩ := h.find?_cases (f := fun c =>
        c.kind ≠ .modifiers && c.kind ≠ .declarator && c.kind ≠ .comment)
      (fun m m' hkind _ => by rw [hkind]) fun m hm => by simp [hm.all.here]
    · exact .inl hnone
    · have hsolid : c.kind.isSolid = true := by
        obtain ⟨m, hm, htype⟩ := exists_declaredSpreadType? h.alike hk
        have hcm : c = m := Option.some_inj.1 (hc.symm.trans hm)
        rw [hcm, htype]
      exact .inr ⟨c, c', hc, hc', hbeside, .inl hsolid⟩
  · exact .inl ⟨rfl, rfl⟩

/-- Parameters side by side have the same type in a signature. -/
theorem Beside.parameterType?_eq (h : Beside t t' n n')
    (hn : ∀ c ∈ typeNode? n, c.kind ≠ .comment ∧ CommentFree t.source c.span)
    (hn' : ∀ c ∈ typeNode? n', c.kind ≠ .comment ∧ CommentFree t'.source c.span) :
    t.parameterType? n = t'.parameterType? n' := by
  have hwritten : squeeze (((typeNode? n).map (·.text t.source)).getD []) =
      squeeze (((typeNode? n').map (·.text t'.source)).getD []) := by
    obtain ⟨hc, hc'⟩ | ⟨c, c', hc, hc', hbeside, hsolid⟩ :=
      h.typeNode?_cases (fun c hc => (hn c hc).1) fun c hc => (hn' c hc).1
    · rw [hc, hc']
      rfl
    · rw [hc, hc']
      exact hbeside.alike.squeeze_text hsolid (hn c hc).2 (hn' c' hc').2
  have hkind := h.alike.kind_eq
  unfold parameterType?
  unfold typeNode? at hwritten
  rw [← hkind] at hwritten ⊢
  split
  · rename_i hk
    simp only [hk] at hwritten
    simp only [hwritten]
  · rename_i hk
    simp only [hk, spreadType?] at hwritten
    simp only [squeeze_append, hwritten]
  · rfl

/-- Methods side by side have the same signature, unless comments stand in the types of their
    parameters. -/
theorem Beside.signature_eq (h : Beside t t' n n') (hn : t.PlainParameters n)
    (hn' : t'.PlainParameters n') : t.signature n = t'.signature n' := by
  have htypes : t.typesInSignature n = t'.typesInSignature n' := by
    rw [typesInSignature_eq_filterMap, typesInSignature_eq_filterMap]
    unfold PlainParameters at hn hn'
    unfold parametersOf at hn hn' ⊢
    obtain ⟨hc, hc'⟩ | ⟨c, c', hc, hc', hbeside, -, -⟩ :=
      h.child?_cases (r := .parameters) (by simp)
    · rw [hc, hc']
      rfl
    · rw [hc] at hn ⊢
      rw [hc'] at hn' ⊢
      refine hbeside.alike.children.filterMap_eq (fun p hp p' hp' hpp' => ?_) fun m hm => ?_
      · exact Beside.parameterType?_eq
          ⟨hpp', hbeside.fits.children p hp, hbeside.fits'.children p' hp'⟩ (hn p hp) (hn' p' hp')
      · unfold parameterType?
        rw [hm.all.here]
        exact ⟨rfl, rfl⟩
  unfold typesInSignature at htypes
  unfold signature
  simp only [h.declaredName?_eq, htypes]

/-! ## Scopes and numbers -/

/-- Places side by side in two trees. -/
structure Facing (t t' : ParsedText) (p p' : Place) : Prop where
  alike : p.Alike (lex t.source).tokens (lex t'.source).tokens p'
  isIn : p.In t.root
  isIn' : p'.In t'.root

theorem Facing.beside (ht : Alike t t') {p p' : Place} (h : Facing t t' p p') :
    Beside t t' p.node p'.node :=
  ⟨h.alike.node, ht.fits.places p (Node.mem_places_iff.2 h.isIn),
    ht.fits'.places p' (Node.mem_places_iff.2 h.isIn')⟩

/-- The places of two texts that are no comments, side by side. -/
theorem Alike.places (ht : Alike t t') :
    List.Forall₂ (Facing t t') (t.root.places.filter (·.node.isCode))
      (t'.root.places.filter (·.node.isCode)) := by
  have hplaces := ht.root.places
  rw [List.forall₂_iff_zip] at hplaces ⊢
  refine ⟨hplaces.1, fun {p p'} hpp' => ⟨hplaces.2 hpp', ?_, ?_⟩⟩
  · exact Node.mem_places_iff.1 (List.mem_filter.1 (List.of_mem_zip hpp').1).1
  · exact Node.mem_places_iff.1 (List.mem_filter.1 (List.of_mem_zip hpp').2).1

/-- What is around places side by side is side by side. -/
theorem Facing.outward {p p' : Place} (h : Facing t t' p p') :
    List.Forall₂ (Facing t t') p.outward p'.outward := by
  have houtward := h.alike.outward
  rw [List.forall₂_iff_zip] at houtward ⊢
  refine ⟨houtward.1, fun {q q'} hqq' => ⟨houtward.2 hqq', ?_, ?_⟩⟩
  · exact h.isIn.outward (List.of_mem_zip hqq').1
  · exact h.isIn'.outward (List.of_mem_zip hqq').2

theorem Facing.kind_eq {p p' : Place} (h : Facing t t' p p') : p.node.kind = p'.node.kind :=
  h.alike.node.kind_eq

theorem Facing.parent_eq {p p' : Place} (h : Facing t t' p p') :
    p.parent?.map (·.kind) = p'.parent?.map (·.kind) := by
  have hancestors := h.alike.ancestors
  unfold Place.parent?
  generalize p.ancestors = above at hancestors ⊢
  generalize p'.ancestors = above' at hancestors ⊢
  cases hancestors with
  | nil => rfl
  | cons hn _ => simp [hn.kind_eq]

/-- Places side by side are in the same scopes as places that are side by side with them. -/
theorem Facing.isTypeScope_eq {p p' : Place} (h : Facing t t' p p') :
    isTypeScope p = isTypeScope p' := by
  unfold isTypeScope Place.isChildOf
  rw [h.kind_eq, h.parent_eq]

theorem Facing.position_iff {p p' q q' : Place} (hp : Facing t t' p p') (hq : Facing t t' q q') :
    p.position = q.position ↔ p'.position = q'.position :=
  hp.alike.position_iff hq.alike hp.isIn hq.isIn hp.isIn' hq.isIn'

theorem Facing.typeScope?_iff {p p' q q' : Place} (hp : Facing t t' p p')
    (hq : Facing t t' q q') : typeScope? p = typeScope? q ↔ typeScope? p' = typeScope? q' := by
  have hrel := rel_find?_of_forall₂ (fun x y h => h.isTypeScope_eq) hp.outward
  have hrel' := rel_find?_of_forall₂ (fun x y h => h.isTypeScope_eq) hq.outward
  unfold typeScope?
  generalize p.outward.find? isTypeScope = s at hrel ⊢
  generalize p'.outward.find? isTypeScope = s' at hrel ⊢
  generalize q.outward.find? isTypeScope = r at hrel' ⊢
  generalize q'.outward.find? isTypeScope = r' at hrel' ⊢
  cases hrel with
  | none =>
    cases hrel' with
    | none => exact iff_of_true rfl rfl
    | some _ => exact iff_of_false (by simp) (by simp)
  | some hs =>
    cases hrel' with
    | none => exact iff_of_false (by simp) (by simp)
    | some hs' => simpa using hs.position_iff hs'

theorem isAnonymousCreation_eq {n n' : Node} (h : Beside t t' n n') :
    isAnonymousCreation n = isAnonymousCreation n' := by
  unfold isAnonymousCreation
  rw [h.alike.kind_eq]
  congr 1
  have hany : ∀ ns : List Node, ns.any (·.kind == .classBody) =
      (ns.find? (·.kind == .classBody)).isSome := by
    intro ns
    rw [Bool.eq_iff_iff, List.any_eq_true, List.find?_isSome]
  rw [hany, hany]
  obtain ⟨hc, hc'⟩ | ⟨c, c', hc, hc', -⟩ := h.find?_cases (f := (·.kind == .classBody))
    (fun m m' hkind _ => by rw [hkind]) fun m hm => by simp [hm.all.here]
  · rw [hc, hc']
  · rw [hc, hc']
    rfl

/-- Anonymous classes side by side have the same number. -/
theorem Facing.anonymousOrdinal_eq (ht : Alike t t') {p p' : Place} (h : Facing t t' p p')
    (ha : isAnonymousCreation p.node = true) :
    anonymousOrdinal t.root p = anonymousOrdinal t'.root p' := by
  have hrestrict : ∀ {root : Node} {q : Place}, q.In root → q.node.isCode = true →
      (root.places.takeWhile (·.position ≠ q.position)).filter (isCounted q) =
        ((root.places.filter (·.node.isCode)).takeWhile (·.position ≠ q.position)).filter
          (isCounted q) := by
    intro root q hq hcode
    refine filter_takeWhile_filter (fun r hr => isCode_of_isCounted hr) fun r hr hposition => ?_
    cases (Node.mem_places_iff.1 hr).ext hq (by simpa using hposition)
    exact hcode
  have ha' : isAnonymousCreation p'.node = true := by
    rwa [← isAnonymousCreation_eq (h.beside ht)]
  rw [Source.anonymousOrdinal_eq ht.ordered h.isIn ha,
    Source.anonymousOrdinal_eq ht.ordered' h.isIn' ha', hrestrict h.isIn h.alike.node.isCode,
    hrestrict h.isIn' h.alike.node.symm.isCode]
  refine congrArg (· + 1) (List.Forall₂.length_eq (forall₂_filter (fun q q' hqq' => ?_)
    (forall₂_takeWhile (fun q q' hqq' => ?_) ht.places)))
  · rw [isCounted, isCounted, isAnonymousCreation_eq (hqq'.beside ht), Bool.eq_iff_iff]
    simp only [Bool.and_eq_true, decide_eq_true_eq, hqq'.typeScope?_iff h]
  · rw [Bool.eq_iff_iff]
    simp only [decide_eq_true_eq, ne_eq, hqq'.position_iff h]

/-! ## Names around places -/

theorem Facing.isLocalType_eq {p p' : Place} (h : Facing t t' p p') :
    isLocalType p = isLocalType p' := by
  have hparent := h.parent_eq
  unfold isLocalType
  generalize p.parent? = n at hparent ⊢
  generalize p'.parent? = n' at hparent ⊢
  cases n <;> cases n' <;> simp_all

/-- No comment stands in the types of the parameters of any method. -/
def PlainTypes (t : ParsedText) : Prop :=
  ∀ p ∈ t.root.places, p.node.kind.isCallable = true → t.PlainParameters p.node

instance (t : ParsedText) : Decidable t.PlainTypes :=
  inferInstanceAs (Decidable (∀ p ∈ t.root.places, p.node.kind.isCallable = true →
    t.PlainParameters p.node))

theorem Facing.signature_eq (ht : Alike t t') (hplain : t.PlainTypes) (hplain' : t'.PlainTypes)
    {p p' : Place} (h : Facing t t' p p') (hk : p.node.kind.isCallable = true) :
    t.signature p.node = t'.signature p'.node :=
  (h.beside ht).signature_eq (hplain p (Node.mem_places_iff.2 h.isIn) hk)
    (hplain' p' (Node.mem_places_iff.2 h.isIn') (h.kind_eq ▸ hk))

/-- The method or constructor around places side by side has the same signature. -/
theorem Facing.callableAround?_eq (ht : Alike t t') (hplain : t.PlainTypes)
    (hplain' : t'.PlainTypes) {p p' : Place} (h : Facing t t' p p') :
    t.callableAround? p.outward = t'.callableAround? p'.outward := by
  have hrel := rel_find?_of_forall₂ (f := fun q => isTypeScope q || q.node.kind.isCallable)
    (g := fun q => isTypeScope q || q.node.kind.isCallable)
    (fun q q' hq => by rw [hq.isTypeScope_eq, hq.kind_eq]) h.outward
  unfold callableAround?
  generalize p.outward.find? _ = r at hrel ⊢
  generalize p'.outward.find? _ = r' at hrel ⊢
  cases hrel with
  | none => rfl
  | some hq =>
    simp only [← hq.kind_eq]
    split_ifs with hk
    · rw [hq.signature_eq ht hplain hplain' hk]
    · rfl

/-- Type bodies side by side have the same label. -/
theorem Facing.label_eq (ht : Alike t t') (hplain : t.PlainTypes) (hplain' : t'.PlainTypes)
    {s s' : Place} (h : Facing t t' s s') (hscope : isTypeScope s = true) :
    t.label s = t'.label s' := by
  rw [label, label, ← h.kind_eq]
  by_cases hk : s.node.kind.isTypeDeclaration = true
  · rw [if_pos hk, if_pos hk, (h.beside ht).declaredName?_eq, h.isLocalType_eq,
      h.callableAround?_eq ht hplain hplain']
  · rw [if_neg hk, if_neg hk]
    obtain ⟨owner, outer, houter, hbody, -⟩ := exists_owner_of_body hscope (by simpa using hk)
    have houtward := h.outward
    rw [houter] at houtward ⊢
    generalize s'.outward = outward' at houtward ⊢
    cases houtward with
    | cons howner _ =>
      simp only [← howner.kind_eq, (howner.beside ht).declaredName?_eq]
      split_ifs with hcreation
      · rw [howner.anonymousOrdinal_eq ht
          (isAnonymousCreation_of_body h.isIn houter hbody (beq_iff_eq.1 hcreation))]
      · rfl

/-- The types around places side by side have the same names. -/
theorem Facing.enclosingTypes_eq (ht : Alike t t') (hplain : t.PlainTypes)
    (hplain' : t'.PlainTypes) {p p' : Place} (h : Facing t t' p p') :
    t.enclosingTypes p = t'.enclosingTypes p' := by
  rw [ParsedText.enclosingTypes_eq, ParsedText.enclosingTypes_eq]
  refine flatMap_eq_of_forall₂ (fun s hs s' _ hss' => ?_)
    (forall₂_filter (fun _ _ hq => hq.isTypeScope_eq) h.outward)
  exact hss'.label_eq ht hplain hplain' (List.mem_filter.1 hs).2

end ParsedText

/-- Units of texts whose tokens read alike have trees of one shape that fit the texts. -/
theorem CompilationUnit.alike_of_readings {path path' relativePath relativePath' : Path}
    {language : Language} {source source' : List Char} {u u' : CompilationUnit}
    (hl : language.outlines = true) (hu : ofSource path relativePath language source = .ok u)
    (hu' : ofSource path' relativePath' language source' = .ok u')
    (h : readings (lex source).tokens = readings (lex source').tokens) :
    ParsedText.Alike u.parsed u'.parsed := by
  have hparsed : ∀ {path relativePath : Path} {source : List Char} {u : CompilationUnit},
      ofSource path relativePath language source = .ok u →
      ∃ root, parse source = .ok root ∧ u.parsed = ⟨source, root⟩ := by
    intro path relativePath source u hu
    unfold ofSource at hu
    split at hu
    · rename_i root hroot
      cases hu
      rw [ofParsed, if_pos hl]
      exact ⟨root, hroot, rfl⟩
    · cases hu
  obtain ⟨root, hroot, heq⟩ := hparsed hu
  obtain ⟨root', hroot', heq'⟩ := hparsed hu'
  have hfits := ofSource_fits hl hu
  have hfits' := ofSource_fits hl hu'
  refine ⟨?_, hfits.nodes, hfits'.nodes, hfits.ordered, hfits'.ordered⟩
  rw [heq, heq']
  exact parse_alike h hroot hroot'

end Source

end Tracepoint
