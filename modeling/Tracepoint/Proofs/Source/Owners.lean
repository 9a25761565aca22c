import Tracepoint.Proofs.Source.Ordinals
import Tracepoint.Proofs.Text.Split

/-!
# The types around a place

The names around a place are made of one label for each type body around it, innermost
first. A label is a name and, for a local type in a method or constructor, the signature of
that. So the labels can be told apart in the list of names, and two bodies have the same
path only if their labels are the same and their owners have the same path.

Anonymous classes are numbered, so that their labels differ in each body. For other bodies
that is a condition on names: `ParsedText.NamesDiffer`.

Results:

* `ParsedText.enclosingTypes_eq`: the names around a place, label by label.
* `ParsedText.anonymous_label_inj`: anonymous classes have labels of their own.
* `ParsedText.bodyPath_injective_iff`: when the paths of all type bodies differ.
-/

namespace Tracepoint

namespace Source

open Java Text

/-! ## Labels -/

/-- The body of an anonymous class. -/
def isAnonymousBody (s : Place) : Bool := s.node.kind == .classBody && s.isChildOf .creation

namespace ParsedText

variable (t : ParsedText)

/-- The signature of the innermost method or constructor of a list of places, if there is no
    type before it. -/
def callableAround? (outer : List Place) : Option String :=
  match outer.find? fun q => isTypeScope q || q.node.kind.isCallable with
  | some q => if q.node.kind.isCallable then some (t.signature q.node) else none
  | none => none

/-- What a type body adds to the names around everything in it. -/
def label (s : Place) : List String :=
  if s.node.kind.isTypeDeclaration then
    (t.declaredName? s.node).toList ++
      if isLocalType s then (t.callableAround? s.outward).toList else []
  else
    match s.outward with
    | owner :: _ =>
      if owner.node.kind == .creation then [s!"anonymous${anonymousOrdinal t.root owner}"]
      else [(t.declaredName? owner.node).getD "anonymous"]
    | [] => []

theorem isCallable_eq_false {p : Place} (h : isTypeScope p = true) :
    p.node.kind.isCallable = false := by
  cases hk : p.node.kind <;> simp_all [isTypeScope, Kind.isTypeDeclaration, Kind.isCallable]

theorem callableAround?_cons (p : Place) (outer : List Place) :
    t.callableAround? (p :: outer) =
      if isTypeScope p then none
      else if p.node.kind.isCallable then some (t.signature p.node)
      else t.callableAround? outer := by
  unfold callableAround?
  rw [List.find?_cons]
  cases hs : isTypeScope p with
  | true => simp [isCallable_eq_false hs]
  | false => cases hc : p.node.kind.isCallable <;> simp [hc]

/-- A class body counts if an object creation or an enum constant is around it. -/
theorem isTypeScope_classBody {n : Node} (hk : n.kind = .classBody) (owner : Node)
    (above : List Node) (position : List Nat) :
    isTypeScope ⟨n, owner :: above, position⟩ =
      (owner.kind == .creation || owner.kind == .enumConstant) := by
  simp [isTypeScope, hk, Kind.isTypeDeclaration, Place.isChildOf, Place.parent?]

/-- A type body that is no type declaration is the class body of an object creation or of an enum
    constant. -/
theorem exists_owner_of_body {p : Place} (h : isTypeScope p = true)
    (hk : p.node.kind.isTypeDeclaration = false) :
    ∃ owner outer, p.outward = owner :: outer ∧ p.node.kind = .classBody ∧
      (owner.node.kind == .creation || owner.node.kind == .enumConstant) = true := by
  obtain ⟨n, above, position⟩ := p
  have hbody : n.kind = .classBody := by simp_all [isTypeScope]
  cases above with
  | nil => simp [isTypeScope, hbody, Kind.isTypeDeclaration, Place.isChildOf, Place.parent?] at h
  | cons owner above =>
    rw [isTypeScope_classBody hbody] at h
    exact ⟨_, _, rfl, hbody, h⟩

/-- A type declaration adds its name, and a local one waits for the method around it. -/
theorem enclosingNames_declaration {p : Place} (h : p.node.kind.isTypeDeclaration = true)
    (isLocal : Bool) (outer : List Place) :
    t.enclosingNames isLocal (p :: outer) =
      (t.declaredName? p.node).toList ++ t.enclosingNames (isLocalType p) outer := by
  rw [enclosingNames.eq_def]
  simp [h]

/-- The body of an anonymous class or of an enum constant adds its label. -/
theorem enclosingNames_body {p : Place} (h : isTypeScope p = true)
    (hk : p.node.kind.isTypeDeclaration = false) (isLocal : Bool) :
    t.enclosingNames isLocal (p :: p.outward) =
      t.label p ++ t.enclosingNames false p.outward := by
  obtain ⟨owner, outer, houter, hbody, howner⟩ := exists_owner_of_body h hk
  rw [enclosingNames.eq_def, label]
  simp only [hbody, houter]
  cases hc : owner.node.kind == .creation with
  | true => simp [Kind.isTypeDeclaration, Kind.isCallable]
  | false =>
    rw [hc, Bool.false_or] at howner
    simp [howner, Kind.isTypeDeclaration, Kind.isCallable]

/-- Other places add nothing, except the method that a local type waits for. -/
theorem enclosingNames_inside {p : Place} (h : isTypeScope p = false) (isLocal : Bool) :
    t.enclosingNames isLocal (p :: p.outward) =
      if isLocal && p.node.kind.isCallable then
        t.signature p.node :: t.enclosingNames false p.outward
      else t.enclosingNames isLocal p.outward := by
  obtain ⟨n, above, position⟩ := p
  have hk : n.kind.isTypeDeclaration = false := by
    rw [isTypeScope, Bool.or_eq_false_iff] at h
    exact h.1
  rw [enclosingNames.eq_def]
  simp only [hk, Bool.false_eq_true, if_false]
  split_ifs with hc hb
  · rfl
  · cases above with
    | nil => rfl
    | cons owner above =>
      rw [isTypeScope_classBody (beq_iff_eq.1 hb), Bool.or_eq_false_iff] at h
      simp [Place.outward, Place.ofAncestors, h.1, h.2]
  · rfl

/-- The names around a place are the labels of the type bodies around it. A local type that still
    waits for the method around it gets that first. -/
theorem enclosingNames_ofAncestors (ancestors : List Node) (position : List Nat) (isLocal : Bool) :
    let outer := Place.ofAncestors ancestors position
    t.enclosingNames isLocal outer =
      (if isLocal then (t.callableAround? outer).toList else []) ++
        (outer.filter isTypeScope).flatMap t.label := by
  induction ancestors generalizing position isLocal with
  | nil => cases isLocal <;> rfl
  | cons n above ih =>
    intro outer
    let p : Place := ⟨n, above, position⟩
    change t.enclosingNames isLocal (p :: p.outward) =
      (if isLocal then (t.callableAround? (p :: p.outward)).toList else []) ++
        ((p :: p.outward).filter isTypeScope).flatMap t.label
    have ih : ∀ isLocal, t.enclosingNames isLocal p.outward =
        (if isLocal then (t.callableAround? p.outward).toList else []) ++
          (p.outward.filter isTypeScope).flatMap t.label := ih position.tail
    rw [callableAround?_cons, List.filter_cons]
    cases hs : isTypeScope p with
    | true =>
      have hnone : (if isLocal then (none : Option String).toList else []) = [] := by
        cases isLocal <;> rfl
      simp only [if_true, hnone, List.nil_append, List.flatMap_cons]
      cases hk : p.node.kind.isTypeDeclaration with
      | true =>
        rw [enclosingNames_declaration t hk, ih, label, if_pos hk, List.append_assoc]
      | false =>
        rw [enclosingNames_body t hs hk, ih]
        rfl
    | false =>
      rw [enclosingNames_inside t hs, ih, ih]
      cases isLocal <;> cases p.node.kind.isCallable <;> simp

end ParsedText

/-! ## Owners -/

/-- The type body that a place stands directly in. -/
def owner? (p : Place) : Option Place := p.outward.find? isTypeScope

theorem typeScope?_eq (p : Place) : typeScope? p = (owner? p).map (·.position) := rfl

/-- The owner of a place is around it, and its own owners are those further out. -/
theorem owner?_eq_some {p s : Place} (h : owner? p = some s) :
    isTypeScope s = true ∧ s ∈ p.outward ∧ s.outward.length < p.outward.length ∧
      p.outward.filter isTypeScope = s :: s.outward.filter isTypeScope := by
  obtain ⟨hs, inner, outer, heq, hinner⟩ := List.find?_eq_some_iff_append.1 h
  rw [Place.outward_eq_of_append heq, heq]
  have hnone : inner.filter isTypeScope = [] := by
    rw [List.filter_eq_nil_iff]
    intro q hq
    simpa using hinner q hq
  exact ⟨hs, by simp, by simp; omega, by simp [hnone, hs]⟩

namespace ParsedText

variable (t : ParsedText)

/-- The names around everything that stands directly in a type body. -/
def bodyPath (s : Place) : List String := t.label s ++ t.enclosingTypes s

theorem enclosingTypes_eq (p : Place) :
    t.enclosingTypes p = (p.outward.filter isTypeScope).flatMap t.label :=
  t.enclosingNames_ofAncestors p.ancestors p.position.tail false

theorem enclosingTypes_of_none {p : Place} (h : owner? p = none) : t.enclosingTypes p = [] := by
  rw [enclosingTypes_eq, List.filter_eq_nil_iff.2 (List.find?_eq_none.1 h)]
  rfl

theorem enclosingTypes_of_some {p s : Place} (h : owner? p = some s) :
    t.enclosingTypes p = t.bodyPath s := by
  rw [enclosingTypes_eq, (owner?_eq_some h).2.2.2, List.flatMap_cons, ← enclosingTypes_eq]
  rfl

end ParsedText

/-! ## Names -/

theorem toList_anonymous (k : Nat) :
    (s!"anonymous${k}").toList = "anonymous$".toList ++ Nat.toDigits 10 k := by
  rw [String.toList_append, Nat.toString_eq_ofList_toDigits, String.toList_ofList]
  rfl

/-- The name of an anonymous class reads like an identifier. -/
theorem isIdentifier_anonymous (k : Nat) : isIdentifier (s!"anonymous${k}").toList = true := by
  have hdigits : (Nat.toDigits 10 k).all isIdentifierPart = true := by
    rw [List.all_eq_true]
    intro c hc
    have hdigit := Nat.isDigit_of_mem_toDigits (by decide) (by decide) hc
    have hlt : c.toNat < 0x80 := by
      simp only [Char.isDigit, Bool.and_eq_true, decide_eq_true_eq] at hdigit
      have hle : c.toNat ≤ 57 := UInt32.le_iff_toNat_le.1 hdigit.2
      omega
    simp [isIdentifierPart, hlt, Char.isAlphanum, hdigit]
  have hword : ("nonymous$".toList).all isIdentifierPart = true := by decide
  rw [toList_anonymous]
  change (isIdentifierStart 'a' &&
    ("nonymous$".toList ++ Nat.toDigits 10 k).all isIdentifierPart) = true
  rw [List.all_append, hword, hdigits]
  decide

/-- The names of anonymous classes tell their numbers. -/
theorem anonymous_inj {j k : Nat} (h : s!"anonymous${j}" = s!"anonymous${k}") : j = k := by
  have hdigits : Nat.toDigits 10 j = Nat.toDigits 10 k := by
    have hlist := congrArg String.toList h
    rw [toList_anonymous, toList_anonymous] at hlist
    exact List.append_cancel_left hlist
  rw [← Nat.ofDigitChars_toDigits (b := 10) (n := j) (by decide) (by decide), hdigits,
    Nat.ofDigitChars_toDigits (by decide) (by decide)]

namespace ParsedText

variable {t : ParsedText}

/-- The name that a declaration introduces is an identifier. -/
theorem isIdentifier_declaredName? {n : Node} (h : n.All (Node.FitsIn t.source)) {name : String}
    (hname : t.declaredName? n = some name) : isIdentifier name.toList = true := by
  obtain ⟨c, hc, rfl⟩ := Option.map_eq_some_iff.1 hname
  unfold Node.child? at hc
  have hrole : c.role = .name := by simpa using List.find?_some hc
  rw [nodeText, String.toList_ofList]
  exact (h.children c (List.mem_of_find?_eq_some hc)).here.word hrole

/-- A type declaration has a name. -/
theorem exists_declaredName? {n : Node} (h : n.All (Node.FitsIn t.source))
    (hk : n.kind.isTypeDeclaration = true) : ∃ name, t.declaredName? n = some name := by
  obtain ⟨c, hc, hrole⟩ := h.here.name hk
  rw [← Option.isSome_iff_exists, declaredName?, Option.isSome_map, Node.child?,
    List.find?_isSome]
  exact ⟨c, hc, by simpa using hrole⟩

/-- There is a parenthesis in a signature. -/
theorem paren_mem_signature (n : Node) : '(' ∈ (t.signature n).toList := by
  simp [signature]

theorem callableAround?_eq_some {outer : List Place} {g : String}
    (h : t.callableAround? outer = some g) :
    ∃ q ∈ outer, q.node.kind.isCallable = true ∧ g = t.signature q.node := by
  unfold callableAround? at h
  split at h
  · rename_i q hq
    split_ifs at h with hc
    cases h
    exact ⟨q, List.mem_of_find?_eq_some hq, hc, rfl⟩
  · cases h

/-- A label is an identifier, perhaps followed by a signature. -/
theorem exists_label (hfits : t.root.All (Node.FitsIn t.source)) {s : Place} (hs : s.In t.root)
    (hscope : isTypeScope s = true) :
    ∃ (name : String) (around : Option String), t.label s = name :: around.toList ∧
      isIdentifier name.toList = true ∧
      ∀ g ∈ around, ∃ q : Place, q.In t.root ∧ q.node.kind.isCallable = true ∧
        g = t.signature q.node := by
  have hnode := hfits.places s (Node.mem_places_iff.2 hs)
  unfold label
  split_ifs with hk hlocal
  · obtain ⟨name, hname⟩ := exists_declaredName? hnode hk
    refine ⟨name, t.callableAround? s.outward, by simp [hname],
      isIdentifier_declaredName? hnode hname, fun g hg => ?_⟩
    obtain ⟨q, hq, hcallable, rfl⟩ := callableAround?_eq_some hg
    exact ⟨q, hs.outward hq, hcallable, rfl⟩
  · obtain ⟨name, hname⟩ := exists_declaredName? hnode hk
    exact ⟨name, none, by simp [hname], isIdentifier_declaredName? hnode hname, by simp⟩
  · obtain ⟨owner, outer, houter, -, -⟩ := exists_owner_of_body hscope (by simpa using hk)
    have howner := hfits.places owner
      (Node.mem_places_iff.2 (hs.outward (by rw [houter]; exact List.mem_cons_self)))
    rw [houter]
    simp only
    split_ifs with hc
    · exact ⟨_, none, rfl, isIdentifier_anonymous _, by simp⟩
    · refine ⟨_, none, rfl, ?_, by simp⟩
      cases hname : t.declaredName? owner.node with
      | none => decide
      | some name => exact isIdentifier_declaredName? howner hname

/-! ## Paths tell labels -/

/-- A path that starts like the path of a type body: with an identifier. -/
def StartsWithName (path : List String) : Prop :=
  ∀ name ∈ path.head?, isIdentifier name.toList = true

/-- The labels and what follows them can be told from the whole, because a signature is no
    identifier. -/
theorem label_append_inj (hfits : t.root.All (Node.FitsIn t.source)) {s s' : Place}
    (hs : s.In t.root) (hs' : s'.In t.root) (hscope : isTypeScope s = true)
    (hscope' : isTypeScope s' = true) {path path' : List String} (hpath : StartsWithName path)
    (hpath' : StartsWithName path') (h : t.label s ++ path = t.label s' ++ path') :
    t.label s = t.label s' ∧ path = path' := by
  have hsignature : ∀ q : Place, isIdentifier (t.signature q.node).toList ≠ true := fun q hq =>
    not_mem_of_isIdentifier hq (by decide) (paren_mem_signature q.node)
  obtain ⟨name, around, hlabel, -, haround⟩ := exists_label hfits hs hscope
  obtain ⟨name', around', hlabel', -, haround'⟩ := exists_label hfits hs' hscope'
  rw [hlabel, hlabel'] at h ⊢
  rw [List.cons_append, List.cons_append, List.cons.injEq] at h
  obtain ⟨rfl, h⟩ := h
  cases around with
  | none =>
    cases around' with
    | none => exact ⟨rfl, h⟩
    | some g =>
      obtain ⟨q, -, -, rfl⟩ := haround' g rfl
      subst h
      exact absurd (hpath _ rfl) (hsignature q)
  | some g =>
    cases around' with
    | none =>
      obtain ⟨q, -, -, rfl⟩ := haround g rfl
      subst h
      exact absurd (hpath' _ rfl) (hsignature q)
    | some g' =>
      simp only [Option.toList_some, List.singleton_append, List.cons.injEq] at h
      exact ⟨by rw [h.1], h.2⟩

theorem bodyPath_eq_cons (hfits : t.root.All (Node.FitsIn t.source)) {s : Place}
    (hs : s.In t.root) (hscope : isTypeScope s = true) :
    ∃ name path, t.bodyPath s = name :: path ∧ isIdentifier name.toList = true := by
  obtain ⟨name, around, hlabel, hname, -⟩ := exists_label hfits hs hscope
  exact ⟨name, around.toList ++ t.enclosingTypes s, by rw [bodyPath, hlabel]; rfl, hname⟩

theorem owner_in {p s : Place} (hp : p.In t.root) (h : owner? p = some s) :
    s.In t.root ∧ isTypeScope s = true :=
  ⟨hp.outward (owner?_eq_some h).2.1, (owner?_eq_some h).1⟩

theorem startsWithName_enclosingTypes (hfits : t.root.All (Node.FitsIn t.source)) {p : Place}
    (hp : p.In t.root) : StartsWithName (t.enclosingTypes p) := by
  intro name hname
  cases howner : owner? p with
  | none => rw [enclosingTypes_of_none t howner] at hname; cases hname
  | some s =>
    obtain ⟨hs, hscope⟩ := owner_in hp howner
    obtain ⟨first, path, hpath, hfirst⟩ := bodyPath_eq_cons hfits hs hscope
    rw [enclosingTypes_of_some t howner, hpath] at hname
    cases hname
    exact hfirst

/-- Places with the same names around them have the same owner, if paths tell owners. -/
theorem owner?_eq_of_enclosingTypes (hfits : t.root.All (Node.FitsIn t.source)) {p q : Place}
    (hp : p.In t.root) (hq : q.In t.root)
    (howners : ∀ s s', owner? p = some s → owner? q = some s' →
      t.bodyPath s = t.bodyPath s' → s = s')
    (h : t.enclosingTypes p = t.enclosingTypes q) : owner? p = owner? q := by
  have hcons : ∀ {r s : Place}, r.In t.root → owner? r = some s → t.enclosingTypes r ≠ [] := by
    intro r s hr howner hnil
    obtain ⟨hs, hscope⟩ := owner_in hr howner
    obtain ⟨name, path, hpath, -⟩ := bodyPath_eq_cons hfits hs hscope
    rw [enclosingTypes_of_some t howner, hpath] at hnil
    cases hnil
  cases hs : owner? p with
  | none =>
    cases hs' : owner? q with
    | none => rfl
    | some s' => exact absurd (h ▸ enclosingTypes_of_none t hs) (hcons hq hs')
  | some s =>
    cases hs' : owner? q with
    | none => exact absurd (h.trans (enclosingTypes_of_none t hs')) (hcons hp hs)
    | some s' =>
      rw [enclosingTypes_of_some t hs, enclosingTypes_of_some t hs'] at h
      rw [howners s s' hs hs' h]

/-- If the labels of the bodies in each body differ, so do the paths of all bodies. The induction
    goes outwards: equal paths have equal labels, and the owners have equal paths again. -/
theorem bodyPath_injective (hfits : t.root.All (Node.FitsIn t.source))
    (hlabels : ∀ s s' : Place, s.In t.root → s'.In t.root → isTypeScope s = true →
      isTypeScope s' = true → owner? s = owner? s' → t.label s = t.label s' → s = s')
    {s s' : Place} (hs : s.In t.root) (hs' : s'.In t.root) (hscope : isTypeScope s = true)
    (hscope' : isTypeScope s' = true) (h : t.bodyPath s = t.bodyPath s') : s = s' := by
  induction hn : s.outward.length using Nat.strongRecOn generalizing s s' with
  | _ n ih =>
    obtain ⟨hlabel, hpath⟩ := label_append_inj hfits hs hs' hscope hscope'
      (startsWithName_enclosingTypes hfits hs) (startsWithName_enclosingTypes hfits hs') h
    refine hlabels s s' hs hs' hscope hscope' ?_ hlabel
    refine owner?_eq_of_enclosingTypes hfits hs hs' (fun r r' howner howner' hr => ?_) hpath
    have hlt := (owner?_eq_some howner).2.2.1
    obtain ⟨hin, hrscope⟩ := owner_in hs howner
    obtain ⟨hin', hrscope'⟩ := owner_in hs' howner'
    exact ih r.outward.length (hn ▸ hlt) hin hin' hrscope hrscope' hr rfl

end ParsedText

/-! ## Anonymous classes -/

/-- What is counted before a place of a list tells the place from others that are counted. -/
theorem position_eq_of_count (counted : Place → Bool) {c c' : Place} {places : List Place}
    (hcounted : ∀ q ∈ places, q.position = c.position ∨ q.position = c'.position →
      counted q = true)
    (hc : c ∈ places) (hc' : c' ∈ places)
    (h : ((places.takeWhile (·.position ≠ c.position)).filter counted).length =
      ((places.takeWhile (·.position ≠ c'.position)).filter counted).length) :
    c.position = c'.position := by
  induction places with
  | nil => cases hc
  | cons q places ih =>
    have hq := hcounted q List.mem_cons_self
    by_cases hqc : q.position = c.position
    · by_cases hqc' : q.position = c'.position
      · exact hqc.symm.trans hqc'
      · have hne : c.position ≠ c'.position := fun heq => hqc' (hqc.trans heq)
        simp [hqc, hne, hq (.inl hqc)] at h
    · by_cases hqc' : q.position = c'.position
      · have hne : c'.position ≠ c.position := fun heq => hqc (hqc'.trans heq)
        simp [hqc', hne, hq (.inr hqc')] at h
      · have hmem : ∀ d ∈ q :: places, d.position ≠ q.position → d ∈ places := by
          intro d hd hne
          rcases List.mem_cons.1 hd with rfl | hd
          · exact absurd rfl hne
          · exact hd
        refine ih (fun r hr => hcounted r (List.mem_cons_of_mem _ hr))
          (hmem c hc (Ne.symm hqc)) (hmem c' hc' (Ne.symm hqc')) ?_
        simp only [List.takeWhile_cons, hqc, hqc', ne_eq, not_false_eq_true, decide_true, if_true,
          List.filter_cons] at h
        split_ifs at h
        · simpa using h
        · exact h

/-- Anonymous classes of one type body have different numbers. -/
theorem anonymousOrdinal_inj {root : Node} (hordered : root.All Node.Ordered) {c c' : Place}
    (hc : c.In root) (hc' : c'.In root) (ha : isAnonymousCreation c.node = true)
    (ha' : isAnonymousCreation c'.node = true) (howner : owner? c = owner? c')
    (h : anonymousOrdinal root c = anonymousOrdinal root c') : c = c' := by
  have hscope : typeScope? c = typeScope? c' := by rw [typeScope?_eq, howner, ← typeScope?_eq]
  have hcounted : isCounted c = isCounted c' := by
    funext q
    rw [isCounted, hscope, isCounted]
  rw [anonymousOrdinal_eq hordered hc ha, anonymousOrdinal_eq hordered hc' ha', hcounted,
    Nat.add_right_cancel_iff] at h
  refine hc.ext hc' (position_eq_of_count (isCounted c') ?_ (Node.mem_places_iff.2 hc)
    (Node.mem_places_iff.2 hc') h)
  intro q hq hposition
  have hq := Node.mem_places_iff.1 hq
  rcases hposition with hposition | hposition
  · cases hq.ext hc hposition
    simp [isCounted, ha, hscope]
  · cases hq.ext hc' hposition
    simp [isCounted, ha']

/-- The body of an anonymous class is a child of an object creation. -/
theorem exists_creation {s : Place} (h : isAnonymousBody s = true) :
    ∃ creation outer, s.outward = creation :: outer ∧ creation.node.kind = .creation ∧
      s.node.kind = .classBody := by
  obtain ⟨n, above, position⟩ := s
  rw [isAnonymousBody, Bool.and_eq_true, beq_iff_eq] at h
  cases above with
  | nil => cases h.2
  | cons owner above =>
    exact ⟨_, _, rfl, by simpa [Place.isChildOf, Place.parent?] using h.2, h.1⟩

/-- An object creation with a class body is that of an anonymous class. -/
theorem isAnonymousCreation_of_body {root : Node} {s creation : Place} {outer : List Place}
    (hs : s.In root) (houter : s.outward = creation :: outer) (hbody : s.node.kind = .classBody)
    (hkind : creation.node.kind = .creation) : isAnonymousCreation creation.node = true := by
  obtain ⟨i, hi, -⟩ := hs.parent houter
  rw [isAnonymousCreation, hkind]
  simpa using ⟨s.node, List.mem_of_getElem? hi, hbody⟩

/-- At most one child counts where the count is at most one. -/
theorem index_eq_of_countP {p : Node → Bool} {ns : List Node} {i j : Nat} {n m : Node}
    (h : ns.countP p ≤ 1) (hn : ns[i]? = some n) (hm : ns[j]? = some m) (hpn : p n = true)
    (hpm : p m = true) : i = j := by
  induction ns generalizing i j with
  | nil => simp at hn
  | cons k ns ih =>
    have hpos : ∀ {l : Nat} {x : Node}, ns[l]? = some x → p x = true → 0 < ns.countP p :=
      fun hx hpx => List.countP_pos_iff.2 ⟨_, List.mem_of_getElem? hx, hpx⟩
    rw [List.countP_cons] at h
    cases i with
    | zero =>
      cases j with
      | zero => rfl
      | succ j =>
        cases hn
        have := hpos hm hpm
        rw [if_pos hpn] at h
        omega
    | succ i =>
      cases j with
      | zero =>
        cases hm
        have := hpos hn hpn
        rw [if_pos hpm] at h
        omega
      | succ j => rw [ih (by omega) hn hm]

theorem owner?_of_creation {s creation : Place} {outer : List Place}
    (houter : s.outward = creation :: outer) (hkind : creation.node.kind = .creation) :
    owner? s = owner? creation := by
  have hscope : isTypeScope creation = false := by simp [isTypeScope, hkind, Kind.isTypeDeclaration]
  have hcreation : creation.outward = outer :=
    Place.outward_eq_of_append (show s.outward = [] ++ creation :: outer from houter)
  rw [owner?, owner?, houter, hcreation, List.find?_cons, hscope]

namespace ParsedText

variable {t : ParsedText}

theorem label_of_creation {s creation : Place} {outer : List Place}
    (hbody : s.node.kind = .classBody)
    (houter : s.outward = creation :: outer) (hkind : creation.node.kind = .creation) :
    t.label s = [s!"anonymous${anonymousOrdinal t.root creation}"] := by
  rw [label, houter]
  simp [hbody, hkind, Kind.isTypeDeclaration]

/-- Anonymous classes in one type body have different labels. -/
theorem anonymous_label_inj (hfits : t.root.All (Node.FitsIn t.source))
    (hordered : t.root.All Node.Ordered) {s s' : Place} (hs : s.In t.root) (hs' : s'.In t.root)
    (ha : isAnonymousBody s = true) (ha' : isAnonymousBody s' = true)
    (howner : owner? s = owner? s') (h : t.label s = t.label s') : s = s' := by
  obtain ⟨c, outer, houter, hkind, hbody⟩ := exists_creation ha
  obtain ⟨c', outer', houter', hkind', hbody'⟩ := exists_creation ha'
  obtain ⟨i, hi, hposition⟩ := hs.parent houter
  obtain ⟨i', hi', hposition'⟩ := hs'.parent houter'
  have hc : c.In t.root := hs.outward (by rw [houter]; exact List.mem_cons_self)
  have hc' : c'.In t.root := hs'.outward (by rw [houter']; exact List.mem_cons_self)
  rw [label_of_creation hbody houter hkind, label_of_creation hbody' houter' hkind',
    List.cons.injEq] at h
  have heq : c = c' := anonymousOrdinal_inj hordered hc hc'
    (isAnonymousCreation_of_body hs houter hbody hkind)
    (isAnonymousCreation_of_body hs' houter' hbody' hkind')
    (by rwa [← owner?_of_creation houter hkind, ← owner?_of_creation houter' hkind'])
    (anonymous_inj h.1)
  subst heq
  -- the two bodies are children of one creation, which has only one
  have hone := (hfits.places c (Node.mem_places_iff.2 hc)).here.oneBody
  have hindex := index_eq_of_countP hone hi hi' (by simp [Node.isClassBody, hbody])
    (by simp [Node.isClassBody, hbody'])
  exact hs.ext hs' (by rw [hposition, hposition', hindex])

/-! ## Type bodies are told apart -/

variable (t)

/-- The type bodies of a text in document order: its type declarations, anonymous classes and
    enum constants with a body. -/
def bodies : List Place := t.root.places.filter isTypeScope

/-- No named body has the label of another body in the same body or in the file. -/
def NamesDiffer : Prop :=
  ∀ s ∈ t.bodies, ∀ s' ∈ t.bodies, isAnonymousBody s = false → typeScope? s = typeScope? s' →
    t.label s = t.label s' → s.position = s'.position

instance : Decidable t.NamesDiffer :=
  inferInstanceAs (Decidable (∀ s ∈ t.bodies, ∀ s' ∈ t.bodies, isAnonymousBody s = false →
    typeScope? s = typeScope? s' → t.label s = t.label s' → s.position = s'.position))

variable {t}

theorem mem_bodies {s : Place} : s ∈ t.bodies ↔ s.In t.root ∧ isTypeScope s = true := by
  rw [bodies, List.mem_filter, Node.mem_places_iff]

theorem owner?_eq_of_typeScope? {p q : Place} (hp : p.In t.root) (hq : q.In t.root)
    (h : typeScope? p = typeScope? q) : owner? p = owner? q := by
  rw [typeScope?_eq, typeScope?_eq] at h
  cases howner : owner? p with
  | none =>
    rw [howner, Option.map_none, eq_comm, Option.map_eq_none_iff] at h
    exact h.symm
  | some s =>
    rw [howner, Option.map_some, eq_comm, Option.map_eq_some_iff] at h
    obtain ⟨s', howner', hposition⟩ := h
    rw [howner', (owner_in hp howner).1.ext (owner_in hq howner').1 hposition.symm]

/-- The paths of different type bodies differ exactly if no named body has the label of another
    one next to it. -/
theorem bodyPath_injective_iff (hfits : t.root.All (Node.FitsIn t.source))
    (hordered : t.root.All Node.Ordered) :
    (∀ s ∈ t.bodies, ∀ s' ∈ t.bodies, t.bodyPath s = t.bodyPath s' → s.position = s'.position) ↔
      t.NamesDiffer := by
  constructor
  · intro h s hs s' hs' _ hscope hlabel
    have howner := owner?_eq_of_typeScope? (mem_bodies.1 hs).1 (mem_bodies.1 hs').1 hscope
    refine h s hs s' hs' ?_
    rw [bodyPath, bodyPath, hlabel]
    cases hs : owner? s with
    | none => rw [enclosingTypes_of_none t hs, enclosingTypes_of_none t (howner ▸ hs)]
    | some r => rw [enclosingTypes_of_some t hs, enclosingTypes_of_some t (howner ▸ hs)]
  · intro h s hs s' hs' hpath
    rw [mem_bodies] at hs hs'
    rw [bodyPath_injective hfits ?_ hs.1 hs'.1 hs.2 hs'.2 hpath]
    intro r r' hr hr' hrscope hrscope' howner hlabel
    have hscope : typeScope? r = typeScope? r' := by rw [typeScope?_eq, howner, ← typeScope?_eq]
    have hmem := mem_bodies.2 ⟨hr, hrscope⟩
    have hmem' := mem_bodies.2 ⟨hr', hrscope'⟩
    cases ha : isAnonymousBody r with
    | false => exact hr.ext hr' (h r hmem r' hmem' ha hscope hlabel)
    | true =>
      cases ha' : isAnonymousBody r' with
      | false => exact hr.ext hr' (h r' hmem' r hmem ha' hscope.symm hlabel.symm).symm
      | true => exact anonymous_label_inj hfits hordered hr hr' ha ha' howner hlabel

/-- The names around two places tell whether they stand in the same body. -/
theorem typeScope?_eq_of_enclosingTypes (hfits : t.root.All (Node.FitsIn t.source))
    (hordered : t.root.All Node.Ordered) (hnames : t.NamesDiffer) {p q : Place} (hp : p.In t.root)
    (hq : q.In t.root) (h : t.enclosingTypes p = t.enclosingTypes q) :
    typeScope? p = typeScope? q := by
  have hpaths := (bodyPath_injective_iff hfits hordered).2 hnames
  rw [typeScope?_eq, typeScope?_eq, owner?_eq_of_enclosingTypes hfits hp hq ?_ h]
  intro s s' hs hs' hpath
  have hin := owner_in hp hs
  have hin' := owner_in hq hs'
  exact hin.1.ext hin'.1 (hpaths s (mem_bodies.2 hin) s' (mem_bodies.2 hin') hpath)

end ParsedText

end Source

end Tracepoint
