import Mathlib.Data.List.Infix
import Mathlib.Logic.Function.Iterate
import Tracepoint.Proofs.Maven.Inheritance

/-!
# Expanding references to the end

The values of properties can refer to further properties, so a text is expanded in full by expanding
the value of every name that it refers to, and the values of the names in these, and so on. The
references of a text are replaced in rounds instead, all at once in each of them. One round takes the
first link off every chain of references, and so as many rounds are needed as the longest chain has
links.

Results:

* `expandRounds_eq_iterate`: stopping early does not change what comes of the rounds.
* `Expansion`: a text and what its full expansion is; `Expansion.unique`: there is one at most.
* `mentions_expandOnce`: the references after a round.
* `isChain_iterate`: the chains of references after some rounds.
* `expansion_expandRounds_iff`: the rounds expand a text in full if no chain has more links.
* `interpolate_exact`: what becomes of a text whose references are well written.
-/

namespace Tracepoint.Maven

open Text

variable {value? : String → Option String} {s t : List Char} {name : String}

/-! ## Texts with references -/

/-- The characters that are only written in references. -/
def marks : List Char := ['$', '\x7b', '\x7d']

/-- A name as references hold it: not empty, and without the characters of references. -/
structure IsName (name : String) : Prop where
  ne_nil : name.toList ≠ []
  unmarked : ∀ c ∈ marks, c ∉ name.toList

theorem IsName.referable (h : IsName name) : Referable name :=
  ⟨h.ne_nil, h.unmarked _ (by decide)⟩

/-- A text in which `$`, `\x7b` and `\x7d` are only written in complete references. -/
inductive Tidy : List Char → Prop
  | nil : Tidy []
  | plain {c : Char} {s : List Char} (hc : c ∉ marks) (hs : Tidy s) : Tidy (c :: s)
  | reference {name : String} {s : List Char} (hname : IsName name) (hs : Tidy s) :
      Tidy (reference name ++ s)

/-- The full expansion of a text: the value of each reference expanded in full, and references to
    unknown names as they are. -/
inductive Expansion (value? : String → Option String) : List Char → List Char → Prop
  | nil : Expansion value? [] []
  | plain {c : Char} {s t : List Char} (hc : c ∉ marks) (hs : Expansion value? s t) :
      Expansion value? (c :: s) (c :: t)
  | unknown {name : String} {s t : List Char} (hname : IsName name) (h : value? name = none)
      (hs : Expansion value? s t) : Expansion value? (reference name ++ s) (reference name ++ t)
  | known {name value : String} {s t e : List Char} (hname : IsName name)
      (h : value? name = some value) (he : Expansion value? value.toList e)
      (hs : Expansion value? s t) : Expansion value? (reference name ++ s) (e ++ t)

/-- A text refers to a name. -/
def Mentions (s : List Char) (name : String) : Prop := IsName name ∧ reference name <:+: s

/-- A chain of references: a text refers to the first name, and the value of each to the next. -/
def IsChain (value? : String → Option String) : List Char → List String → Prop
  | _, [] => True
  | s, name :: names =>
    Mentions s name ∧ ∃ value, value? name = some value ∧ IsChain value? value.toList names

theorem ne_of_not_mem_marks {c : Char} (h : c ∉ marks) : c ≠ '$' := by
  rintro rfl
  exact h (by decide)

theorem reference_append_inj {name name' : String} (h : IsName name) (h' : IsName name')
    (heq : reference name ++ s = reference name' ++ t) : name = name' ∧ s = t := by
  have hat := referenceAt?_reference h.referable s
  rw [heq, referenceAt?_reference h'.referable t] at hat
  obtain rfl : name' = name := String.toList_inj.1 (Option.some.inj hat)
  exact ⟨rfl, List.append_cancel_left heq⟩

namespace Tidy

theorem append (hs : Tidy s) (ht : Tidy t) : Tidy (s ++ t) := by
  induction hs with
  | nil => exact ht
  | plain hc _ ih => exact .plain hc ih
  | reference hname _ ih =>
    rw [List.append_assoc]
    exact .reference hname ih

end Tidy

/-! ## What a text refers to -/

theorem not_mentions_nil : ¬ Mentions [] name := by
  rintro ⟨-, h⟩
  simpa [reference] using List.infix_nil.1 h

/-- No reference starts in a stretch without `$`. -/
theorem mentions_append_of_not_mem {p : List Char} (h : '$' ∉ p) :
    Mentions (p ++ s) name ↔ Mentions s name := by
  induction p with
  | nil => rfl
  | cons c p ih =>
    rw [List.mem_cons, not_or] at h
    rw [← ih h.2, Mentions, Mentions, List.cons_append, List.infix_cons_iff]
    refine and_congr_right fun _ => or_iff_right fun hprefix => h.1 ?_
    exact (List.cons_prefix_cons.1 hprefix).1

theorem mentions_plain {c : Char} (hc : c ∉ marks) : Mentions (c :: s) name ↔ Mentions s name :=
  mentions_append_of_not_mem (p := [c]) (by simpa using (ne_of_not_mem_marks hc).symm)

theorem mentions_reference {other : String} (h : IsName other) :
    Mentions (reference other ++ s) name ↔ name = other ∨ Mentions s name := by
  have hrest : '$' ∉ '\x7b' :: (other.toList ++ ['\x7d']) := by
    simpa using h.unmarked '$' (by decide)
  have htail : Mentions ('\x7b' :: (other.toList ++ ['\x7d']) ++ s) name ↔ Mentions s name :=
    mentions_append_of_not_mem hrest
  constructor
  · rintro ⟨hname, hinfix⟩
    rcases List.infix_cons_iff.1 hinfix with ⟨rest, hprefix⟩ | hinfix
    · exact .inl (reference_append_inj hname h hprefix).1
    · exact .inr (htail.1 ⟨hname, hinfix⟩)
  · rintro (rfl | hs)
    · exact ⟨h, (List.prefix_append _ _).isInfix⟩
    · exact ⟨hs.1, hs.2.trans (List.suffix_append _ _).isInfix⟩

theorem Tidy.mentions_append (hs : Tidy s) :
    Mentions (s ++ t) name ↔ Mentions s name ∨ Mentions t name := by
  induction hs with
  | nil => simp [not_mentions_nil]
  | plain hc _ ih => rw [List.cons_append, mentions_plain hc, mentions_plain hc, ih]
  | reference hname _ ih =>
    rw [List.append_assoc, mentions_reference hname, mentions_reference hname, ih, or_assoc]

/-- Every name that a text refers to has a property. -/
def Everywhere (P : String → Prop) (s : List Char) : Prop := ∀ name, Mentions s name → P name

theorem everywhere_nil (P : String → Prop) : Everywhere P [] :=
  fun _ hm => absurd hm not_mentions_nil

theorem everywhere_plain {P : String → Prop} {c : Char} (hc : c ∉ marks) :
    Everywhere P (c :: s) ↔ Everywhere P s :=
  forall_congr' fun _ => by rw [mentions_plain hc]

theorem everywhere_reference {P : String → Prop} (h : IsName name) :
    Everywhere P (reference name ++ s) ↔ P name ∧ Everywhere P s := by
  simp only [Everywhere, mentions_reference h, or_imp, forall_and, forall_eq]

theorem Tidy.everywhere_append {P : String → Prop} (hs : Tidy s) :
    Everywhere P (s ++ t) ↔ Everywhere P s ∧ Everywhere P t := by
  simp only [Everywhere, hs.mentions_append, or_imp, forall_and]

/-- The values of the names that a text refers to are tidy. -/
abbrev TidyValues (value? : String → Option String) : List Char → Prop :=
  Everywhere fun name => ∀ value, value? name = some value → Tidy value.toList

/-- The names that a text refers to have no values. -/
abbrev IsFinal (value? : String → Option String) : List Char → Prop :=
  Everywhere fun name => value? name = none

/-! ## One round -/

theorem referenceAt?_of_ne {c : Char} (h : c ≠ '$') (s : List Char) :
    referenceAt? (c :: s) = none := by
  simp [referenceAt?, dropStart?, Ne.symm h]

theorem expandOnce_plain {c : Char} (h : c ≠ '$') (s : List Char) :
    expandOnce value? (c :: s) = c :: expandOnce value? s := by
  rw [expandOnce, referenceAt?_of_ne h]

theorem Tidy.expandOnce (hs : Tidy s) (hvalues : TidyValues value? s) :
    Tidy (expandOnce value? s) := by
  induction hs with
  | nil => simpa [Maven.expandOnce] using Tidy.nil
  | plain hc _ ih =>
    rw [expandOnce_plain (ne_of_not_mem_marks hc)]
    exact .plain hc (ih ((everywhere_plain hc).1 hvalues))
  | @reference name s hname _ ih =>
    obtain ⟨hvalue, hrest⟩ := (everywhere_reference hname).1 hvalues
    rw [expandOnce_reference hname.referable]
    cases h : value? name with
    | none => exact .reference hname (ih hrest)
    | some value => exact (hvalue value h).append (ih hrest)

/-- After a round a text refers to the unknown names that it referred to before, and to those that
    the values of the known ones refer to. -/
theorem mentions_expandOnce (hs : Tidy s) (hvalues : TidyValues value? s) :
    Mentions (expandOnce value? s) name ↔ (Mentions s name ∧ value? name = none) ∨
      ∃ other value, Mentions s other ∧ value? other = some value ∧
        Mentions value.toList name := by
  induction hs with
  | nil => simp [Maven.expandOnce, not_mentions_nil]
  | plain hc _ ih =>
    rw [expandOnce_plain (ne_of_not_mem_marks hc)]
    simp only [mentions_plain hc]
    exact ih ((everywhere_plain hc).1 hvalues)
  | @reference other s hother _ ih =>
    obtain ⟨hvalue, hrest⟩ := (everywhere_reference hother).1 hvalues
    rw [expandOnce_reference hother.referable]
    simp only [mentions_reference hother]
    cases h : value? other with
    | none =>
      rw [Option.map_none, Option.getD_none, mentions_reference hother, ih hrest]
      grind
    | some value =>
      rw [Option.map_some, Option.getD_some, (hvalue value h).mentions_append, ih hrest]
      grind

/-! ## Chains of references -/

theorem IsChain.of_append {names : List String} (more : List String) :
    ∀ {s : List Char}, IsChain value? s (names ++ more) → IsChain value? s names := by
  induction names with
  | nil => exact fun _ => trivial
  | cons name names ih =>
    rintro s ⟨hm, value, hvalue, hrest⟩
    exact ⟨hm, value, hvalue, ih hrest⟩

/-- A text is tidy, and so are the values along all chains of references from it. -/
structure TidyThrough (value? : String → Option String) (s : List Char) : Prop where
  text : Tidy s
  values : ∀ names, IsChain value? s names → ∀ name ∈ names, ∀ value, value? name = some value →
    Tidy value.toList

namespace TidyThrough

theorem tidyValues (h : TidyThrough value? s) : TidyValues value? s := fun name hm value hvalue =>
  h.values [name] ⟨hm, value, hvalue, trivial⟩ name (List.mem_singleton_self name) value hvalue

/-- After a round each chain is one link shorter at its start. -/
theorem isChain_expandOnce (h : TidyThrough value? s) {names : List String} :
    IsChain value? (expandOnce value? s) (name :: names) ↔
      ∃ other, IsChain value? s (other :: name :: names) := by
  constructor
  · rintro ⟨hm, value, hvalue, hrest⟩
    rcases (mentions_expandOnce h.text h.tidyValues).1 hm with ⟨-, hnone⟩ | ⟨other, v, ho, hv, hm⟩
    · rw [hvalue] at hnone
      cases hnone
    · exact ⟨other, ho, v, hv, hm, value, hvalue, hrest⟩
  · rintro ⟨other, ho, v, hv, hm, hrest⟩
    exact ⟨(mentions_expandOnce h.text h.tidyValues).2 (.inr ⟨other, v, ho, hv, hm⟩), hrest⟩

theorem expandOnce (h : TidyThrough value? s) : TidyThrough value? (expandOnce value? s) where
  text := h.text.expandOnce h.tidyValues
  values := by
    intro names hchain name hname value hvalue
    cases names with
    | nil => cases hname
    | cons first names =>
      obtain ⟨other, hother⟩ := h.isChain_expandOnce.1 hchain
      exact h.values _ hother name (List.mem_cons_of_mem _ hname) value hvalue

end TidyThrough

/-! ## All rounds -/

theorem expandOnce_of_not_hasReference (h : hasReference s = false) :
    expandOnce value? s = s := by
  induction s with
  | nil => simp [expandOnce]
  | cons c s ih =>
    rw [hasReference, occursIn, Bool.or_eq_false_iff] at h
    have hnone : referenceAt? (c :: s) = none := by
      have hdrop : dropStart? ['$', '\x7b'] (c :: s) = none := by
        simpa [startsWith] using h.1
      rw [referenceAt?, hdrop]
      rfl
    rw [expandOnce, hnone, ih h.2]

/-- Rounds that end when nothing changes any more do what all of them do. -/
theorem expandRounds_eq_iterate (value? : String → Option String) (rounds : Nat) :
    ∀ s, expandRounds value? rounds s = (expandOnce value?)^[rounds] s := by
  induction rounds with
  | zero => exact fun s => rfl
  | succ rounds ih =>
    intro s
    have hfixed : expandOnce value? s = s → (expandOnce value?)^[rounds + 1] s = s :=
      fun h => Function.iterate_fixed h _
    rw [expandRounds]
    dsimp only
    split_ifs with href hsame
    · exact (hfixed hsame).symm
    · rw [ih, Function.iterate_succ_apply]
    · exact (hfixed (expandOnce_of_not_hasReference (by simpa using href))).symm

theorem TidyThrough.iterate (h : TidyThrough value? s) (rounds : Nat) :
    TidyThrough value? ((Maven.expandOnce value?)^[rounds] s) := by
  induction rounds with
  | zero => exact h
  | succ rounds ih =>
    rw [Function.iterate_succ_apply']
    exact ih.expandOnce

/-- The chains after some rounds are the ends of the chains before, as many links in. -/
theorem isChain_iterate (rounds : Nat) (names : List String) :
    ∀ {s : List Char}, TidyThrough value? s →
      (IsChain value? ((expandOnce value?)^[rounds] s) (name :: names) ↔
        ∃ first, first.length = rounds ∧ IsChain value? s (first ++ name :: names)) := by
  induction rounds with
  | zero => simp
  | succ rounds ih =>
    intro s h
    rw [Function.iterate_succ_apply, ih h.expandOnce]
    constructor
    · rintro ⟨first, hlength, hchain⟩
      obtain ⟨second, rest, hfirst⟩ : ∃ second rest, first ++ name :: names = second :: rest :=
        List.exists_cons_of_ne_nil (by simp)
      rw [hfirst] at hchain
      obtain ⟨other, hother⟩ := h.isChain_expandOnce.1 hchain
      rw [← hfirst] at hother
      exact ⟨other :: first, by simp [hlength], hother⟩
    · rintro ⟨first, hlength, hchain⟩
      obtain ⟨other, rest, rfl⟩ := List.exists_cons_of_length_eq_add_one hlength
      obtain ⟨second, rest', hrest⟩ : ∃ second rest', rest ++ name :: names = second :: rest' :=
        List.exists_cons_of_ne_nil (by simp)
      refine ⟨rest, by simpa using hlength, ?_⟩
      rw [List.cons_append, hrest] at hchain
      rw [hrest]
      exact h.isChain_expandOnce.2 ⟨other, hchain⟩

/-- After some rounds only unknown names are referred to, exactly if no chain had more links. -/
theorem isFinal_iterate_iff (h : TidyThrough value? s) (rounds : Nat) :
    IsFinal value? ((expandOnce value?)^[rounds] s) ↔
      ∀ names, IsChain value? s names → names.length ≤ rounds := by
  constructor
  · intro hfinal names hchain
    by_contra hlong
    -- the link that follows the first ones is still there after the rounds
    obtain ⟨name, rest, hrest⟩ : ∃ name rest, names.drop rounds = name :: rest :=
      List.exists_cons_of_ne_nil (by simpa using hlong)
    have hnames : names = (names.take rounds ++ [name]) ++ rest := by
      rw [List.append_assoc, List.singleton_append, ← hrest, List.take_append_drop]
    rw [hnames] at hchain
    obtain ⟨hm, value, hvalue, -⟩ := (isChain_iterate rounds [] h).2
      ⟨names.take rounds, by rw [List.length_take]; omega, hchain.of_append⟩
    rw [hfinal name hm] at hvalue
    cases hvalue
  · intro hbound name hm
    by_contra hknown
    obtain ⟨value, hvalue⟩ := Option.ne_none_iff_exists'.1 hknown
    obtain ⟨first, hlength, hchain⟩ :=
      (isChain_iterate rounds [] h).1 ⟨hm, value, hvalue, trivial⟩
    have hshort := hbound _ hchain
    rw [List.length_append, hlength, List.length_singleton] at hshort
    omega

/-! ## The full expansion -/

/-- What a reference to a name stands for in a full expansion. -/
def StandsFor (value? : String → Option String) (name : String) (e : List Char) : Prop :=
  (value? name = none ∧ e = reference name) ∨
    ∃ value, value? name = some value ∧ Expansion value? value.toList e

theorem expansion_plain {c : Char} (hc : c ∉ marks) :
    Expansion value? (c :: s) t ↔ ∃ t', t = c :: t' ∧ Expansion value? s t' := by
  have hne : ∀ name s', reference name ++ s' ≠ c :: s := by
    intro name s' heq
    exact ne_of_not_mem_marks hc (List.cons.inj heq).1.symm
  constructor
  · intro h
    generalize hr : c :: s = r at h
    cases h with
    | nil => cases hr
    | plain _ hs => cases hr; exact ⟨_, rfl, hs⟩
    | unknown => exact absurd hr.symm (hne _ _)
    | known => exact absurd hr.symm (hne _ _)
  · rintro ⟨t', rfl, hs⟩
    exact .plain hc hs

theorem expansion_reference (hname : IsName name) :
    Expansion value? (reference name ++ s) t ↔
      ∃ e t', t = e ++ t' ∧ StandsFor value? name e ∧ Expansion value? s t' := by
  constructor
  · intro h
    generalize hr : reference name ++ s = r at h
    cases h with
    | nil => simp [reference] at hr
    | plain hc _ => exact absurd (List.cons.inj hr).1.symm (ne_of_not_mem_marks hc)
    | unknown hother hnone hs =>
      obtain ⟨rfl, rfl⟩ := reference_append_inj hname hother hr
      exact ⟨_, _, rfl, .inl ⟨hnone, rfl⟩, hs⟩
    | known hother hvalue he hs =>
      obtain ⟨rfl, rfl⟩ := reference_append_inj hname hother hr
      exact ⟨_, _, rfl, .inr ⟨_, hvalue, he⟩, hs⟩
  · rintro ⟨e, t', rfl, ⟨hnone, rfl⟩ | ⟨value, hvalue, he⟩, hs⟩
    · exact .unknown hname hnone hs
    · exact .known hname hvalue he hs

theorem expansion_append (hs : Tidy s) {r : List Char} :
    Expansion value? (s ++ r) t ↔
      ∃ e t', t = e ++ t' ∧ Expansion value? s e ∧ Expansion value? r t' := by
  induction hs generalizing t with
  | nil =>
    constructor
    · exact fun h => ⟨[], t, rfl, .nil, h⟩
    · rintro ⟨e, t', rfl, he, h⟩
      cases he
      exact h
  | plain hc _ ih =>
    rw [List.cons_append, expansion_plain hc]
    constructor
    · rintro ⟨t', rfl, h⟩
      obtain ⟨e, t', rfl, he, h⟩ := ih.1 h
      exact ⟨_ :: e, t', rfl, .plain hc he, h⟩
    · rintro ⟨e, t', rfl, he, h⟩
      obtain ⟨e', rfl, he'⟩ := (expansion_plain hc).1 he
      exact ⟨e' ++ t', rfl, ih.2 ⟨e', t', rfl, he', h⟩⟩
  | reference hname _ ih =>
    rw [List.append_assoc, expansion_reference hname]
    constructor
    · rintro ⟨e, t', rfl, hfor, h⟩
      obtain ⟨e', t', rfl, he, h⟩ := ih.1 h
      exact ⟨e ++ e', t', by rw [List.append_assoc], (expansion_reference hname).2
        ⟨e, e', rfl, hfor, he⟩, h⟩
    · rintro ⟨e, t', rfl, he, h⟩
      obtain ⟨e, e', rfl, hfor, he⟩ := (expansion_reference hname).1 he
      exact ⟨e, e' ++ t', by rw [List.append_assoc], hfor, ih.2 ⟨e', t', rfl, he, h⟩⟩

theorem Expansion.unique (h : Expansion value? s t) :
    ∀ {t'}, Expansion value? s t' → t = t' := by
  induction h with
  | nil => intro t' h'; cases h'; rfl
  | plain hc _ ih =>
    intro t' h'
    obtain ⟨t', rfl, hs⟩ := (expansion_plain hc).1 h'
    rw [ih hs]
  | unknown hname hnone _ ih =>
    intro t' h'
    obtain ⟨e, t', rfl, hfor, hs⟩ := (expansion_reference hname).1 h'
    rcases hfor with ⟨-, rfl⟩ | ⟨value, hvalue, -⟩
    · rw [ih hs]
    · rw [hnone] at hvalue
      cases hvalue
  | known hname hvalue _ _ ihe ih =>
    intro t' h'
    obtain ⟨e, t', rfl, hfor, hs⟩ := (expansion_reference hname).1 h'
    rcases hfor with ⟨hnone, -⟩ | ⟨value, hvalue', he⟩
    · rw [hnone] at hvalue
      cases hvalue
    · obtain rfl := Option.some.inj (hvalue.symm.trans hvalue')
      rw [ihe he, ih hs]

/-- A full expansion is tidy and final. -/
theorem Expansion.tidy (h : Expansion value? s t) : Tidy t ∧ IsFinal value? t := by
  induction h with
  | nil => exact ⟨.nil, everywhere_nil _⟩
  | plain hc _ ih => exact ⟨.plain hc ih.1, (everywhere_plain hc).2 ih.2⟩
  | unknown hname hnone _ ih =>
    exact ⟨.reference hname ih.1, (everywhere_reference hname).2 ⟨hnone, ih.2⟩⟩
  | known _ _ _ _ ihe ih =>
    exact ⟨ihe.1.append ih.1, ihe.1.everywhere_append.2 ⟨ihe.2, ih.2⟩⟩

/-- A tidy text that is final is its own full expansion. -/
theorem Tidy.expansion_self (hs : Tidy s) (h : IsFinal value? s) : Expansion value? s s := by
  induction hs with
  | nil => exact .nil
  | plain hc _ ih => exact .plain hc (ih ((everywhere_plain hc).1 h))
  | reference hname _ ih =>
    obtain ⟨hnone, hrest⟩ := (everywhere_reference hname).1 h
    exact .unknown hname hnone (ih hrest)

theorem Tidy.expandOnce_self (hs : Tidy s) (h : IsFinal value? s) :
    Maven.expandOnce value? s = s := by
  induction hs with
  | nil => simp [Maven.expandOnce]
  | plain hc _ ih =>
    rw [expandOnce_plain (ne_of_not_mem_marks hc), ih ((everywhere_plain hc).1 h)]
  | reference hname _ ih =>
    obtain ⟨hnone, hrest⟩ := (everywhere_reference hname).1 h
    rw [expandOnce_reference hname.referable, hnone, ih hrest]
    rfl

/-- A round does not change what the full expansion is. -/
theorem Tidy.expansion_of_expandOnce (hs : Tidy s) (hvalues : TidyValues value? s)
    (h : Expansion value? (Maven.expandOnce value? s) t) : Expansion value? s t := by
  induction hs generalizing t with
  | nil => simpa [Maven.expandOnce] using h
  | plain hc _ ih =>
    rw [expandOnce_plain (ne_of_not_mem_marks hc)] at h
    obtain ⟨t', rfl, h'⟩ := (expansion_plain hc).1 h
    exact .plain hc (ih ((everywhere_plain hc).1 hvalues) h')
  | @reference name s hname _ ih =>
    obtain ⟨hvalue, hrest⟩ := (everywhere_reference hname).1 hvalues
    rw [expandOnce_reference hname.referable] at h
    rw [expansion_reference hname]
    cases hsome : value? name with
    | none =>
      rw [hsome, Option.map_none, Option.getD_none] at h
      obtain ⟨e, t, rfl, hfor, h⟩ := (expansion_reference hname).1 h
      exact ⟨e, t, rfl, hfor, ih hrest h⟩
    | some value =>
      rw [hsome, Option.map_some, Option.getD_some] at h
      obtain ⟨e, t, rfl, he, h⟩ := (expansion_append (hvalue value hsome)).1 h
      exact ⟨e, t, rfl, .inr ⟨value, hsome, he⟩, ih hrest h⟩

theorem TidyThrough.expansion_of_iterate (rounds : Nat) :
    ∀ {s : List Char}, TidyThrough value? s →
      Expansion value? ((Maven.expandOnce value?)^[rounds] s) t → Expansion value? s t := by
  induction rounds with
  | zero => exact fun _ h => h
  | succ rounds ih =>
    intro s hs h
    rw [Function.iterate_succ_apply] at h
    exact hs.text.expansion_of_expandOnce hs.tidyValues (ih hs.expandOnce h)

/-- The rounds give the full expansion of a text exactly if no chain of references from it has more
    links. -/
theorem expansion_expandRounds_iff (h : TidyThrough value? s) (rounds : Nat) :
    Expansion value? s (expandRounds value? rounds s) ↔
      ∀ names, IsChain value? s names → names.length ≤ rounds := by
  rw [expandRounds_eq_iterate, ← isFinal_iterate_iff h]
  constructor
  · exact fun hexpansion => hexpansion.tidy.2
  · exact fun hfinal => h.expansion_of_iterate rounds
      ((h.iterate rounds).text.expansion_self hfinal)

/-- A full expansion is not expanded any further. -/
theorem Expansion.expandRounds_self (h : Expansion value? s t) (rounds : Nat) :
    expandRounds value? rounds t = t := by
  rw [expandRounds_eq_iterate]
  exact Function.iterate_fixed (h.tidy.1.expandOnce_self h.tidy.2) rounds

/-! ## Properties and the environment -/

/-- A name is looked up among the properties, and if it is none of them and starts with `env.`, in
    the environment. -/
theorem valueOf?_eq_some_iff {properties environment : Properties} {value : String} :
    valueOf? properties environment name = some value ↔
      properties.lookup name = some value ∨ properties.lookup name = none ∧
        ∃ variableName, name = "env." ++ variableName ∧
          environment.lookup variableName = some value := by
  unfold valueOf?
  cases h : properties.lookup name with
  | some other => simp
  | none =>
    simp only [Option.bind_eq_bind, Option.bind_eq_some_iff, dropStart?_eq_some_iff]
    constructor
    · rintro ⟨rest, hrest, hvalue⟩
      refine .inr ⟨trivial, String.ofList rest, String.toList_inj.1 ?_, hvalue⟩
      simp [hrest]
    · rintro (hsome | ⟨-, variableName, rfl, hvalue⟩)
      · cases hsome
      · exact ⟨variableName.toList, String.toList_append, by rwa [String.ofList_toList]⟩

/-- What becomes of a text in which `$`, `\x7b` and `\x7d` are only written in complete references,
    and likewise in all values that it leads to: it is expanded in full, exactly if no chain of
    references has more than ten links. Then there is nothing left to expand. -/
theorem interpolate_exact (properties environment : Properties) (text : String)
    (h : TidyThrough (valueOf? properties environment) text.toList) :
    (∀ name value, valueOf? properties environment name = some value ↔
      properties.lookup name = some value ∨ properties.lookup name = none ∧
        ∃ variableName, name = "env." ++ variableName ∧
          environment.lookup variableName = some value) ∧
    ((∀ names, IsChain (valueOf? properties environment) text.toList names → names.length ≤ 10) ↔
      ∀ t, Expansion (valueOf? properties environment) text.toList t ↔
        t = (interpolate properties environment text).toList) ∧
    ((∀ names, IsChain (valueOf? properties environment) text.toList names → names.length ≤ 10) →
      interpolate properties environment (interpolate properties environment text) =
        interpolate properties environment text) := by
  have hrounds := expansion_expandRounds_iff h maxRounds
  refine ⟨fun name value => valueOf?_eq_some_iff, ?_, fun hbound => ?_⟩
  · rw [interpolate, String.toList_ofList]
    constructor
    · exact fun hbound t => ⟨fun ht => ht.unique (hrounds.2 hbound), fun ht =>
        ht ▸ hrounds.2 hbound⟩
    · exact fun hexpansion => hrounds.1 ((hexpansion _).2 rfl)
  · rw [interpolate, interpolate, String.toList_ofList,
      (hrounds.2 hbound).expandRounds_self maxRounds]

/-- A text leads through tidy values, and by so many links at most to names without one. -/
def Settles (value? : String → Option String) : Nat → List Char → Prop
  | 0, s => Tidy s ∧ IsFinal value? s
  | depth + 1, s => Tidy s ∧
      Everywhere (fun name => ∀ value, value? name = some value →
        Settles value? depth value.toList) s

/-- The chains of references from a text are bounded by following the values. -/
theorem Settles.tidyThrough (depth : Nat) : ∀ {s : List Char}, Settles value? depth s →
    TidyThrough value? s ∧ ∀ names, IsChain value? s names → names.length ≤ depth := by
  induction depth with
  | zero =>
    rintro s ⟨htidy, hfinal⟩
    have hnil : ∀ names, IsChain value? s names → names = [] := by
      rintro (_ | ⟨name, names⟩) hchain
      · rfl
      · obtain ⟨hm, value, hvalue, -⟩ := hchain
        rw [hfinal name hm] at hvalue
        cases hvalue
    refine ⟨⟨htidy, fun names hchain name hname => ?_⟩, fun names hchain => ?_⟩
    · rw [hnil names hchain] at hname
      cases hname
    · rw [hnil names hchain]
      exact Nat.le_refl 0
  | succ depth ih =>
    rintro s ⟨htidy, hvalues⟩
    refine ⟨⟨htidy, ?_⟩, ?_⟩
    · rintro (_ | ⟨first, names⟩) hchain name hname value hvalue
      · cases hname
      · obtain ⟨hm, v, hv, hrest⟩ := hchain
        obtain ⟨hthrough, -⟩ := ih (hvalues first hm v hv)
        rcases List.mem_cons.1 hname with rfl | hname
        · obtain rfl := Option.some.inj (hv.symm.trans hvalue)
          exact hthrough.text
        · exact hthrough.values names hrest name hname value hvalue
    · rintro (_ | ⟨first, names⟩) hchain
      · exact Nat.zero_le _
      · obtain ⟨hm, v, hv, hrest⟩ := hchain
        exact Nat.succ_le_succ ((ih (hvalues first hm v hv)).2 names hrest)

theorem settles_of_unmarked (depth : Nat) (h : ∀ c ∈ s, c ∉ marks) : Settles value? depth s := by
  have hs : Tidy s ∧ ∀ P, Everywhere P s := by
    induction s with
    | nil => exact ⟨.nil, everywhere_nil⟩
    | cons c s ih =>
      have hc := h c List.mem_cons_self
      obtain ⟨htidy, hevery⟩ := ih fun c hc => h c (List.mem_cons_of_mem _ hc)
      exact ⟨.plain hc htidy, fun P => (everywhere_plain hc).2 (hevery P)⟩
  cases depth with
  | zero => exact ⟨hs.1, hs.2 _⟩
  | succ depth => exact ⟨hs.1, hs.2 _⟩

/-- A property that refers to another one, a variable of the environment and an unknown name. -/
theorem interpolate_exact_of_nested :
    let properties := [("a", "$\x7bb\x7d-x"), ("b", "1")]
    let value? := valueOf? properties [("H", "h")]
    let text := "v$\x7ba\x7d$\x7benv.H\x7d$\x7bu\x7d"
    TidyThrough value? text.toList ∧
      (∀ names, IsChain value? text.toList names → names.length ≤ 10) ∧
      Expansion value? text.toList "v1-xh$\x7bu\x7d".toList ∧
      interpolate properties [("H", "h")] (interpolate properties [("H", "h")] text) =
        interpolate properties [("H", "h")] text := by
  intro properties value? text
  have ha : IsName "a" := ⟨by simp, by simp [marks]⟩
  have hb : IsName "b" := ⟨by simp, by simp [marks]⟩
  have hH : IsName "env.H" := ⟨by simp, by simp [marks]⟩
  have hu : IsName "u" := ⟨by simp, by simp [marks]⟩
  have hvalue : Settles value? 1 (reference "b" ++ ['-', 'x']) := by
    refine ⟨.reference hb (.plain (by decide) (.plain (by decide) .nil)), ?_⟩
    rw [everywhere_reference hb, everywhere_plain (by decide), everywhere_plain (by decide)]
    refine ⟨fun value hsome => ?_, everywhere_nil _⟩
    cases hsome
    exact settles_of_unmarked 0 (by simp [marks])
  have htext : Settles value? 2 text.toList := by
    have hwritten : text.toList =
        'v' :: (reference "a" ++ (reference "env.H" ++ (reference "u" ++ []))) := by decide
    rw [hwritten]
    refine ⟨.plain (by decide) (.reference ha (.reference hH (.reference hu .nil))), ?_⟩
    rw [everywhere_plain (by decide), everywhere_reference ha, everywhere_reference hH,
      everywhere_reference hu]
    refine ⟨fun value hsome => ?_, fun value hsome => ?_, fun value hsome => ?_, everywhere_nil _⟩
    · cases hsome
      exact hvalue
    · cases hsome
      exact settles_of_unmarked 1 (by simp [marks])
    · cases hsome
  obtain ⟨hthrough, hchains⟩ := htext.tidyThrough
  have hbound : ∀ names, IsChain value? text.toList names → names.length ≤ 10 :=
    fun names hchain => (hchains names hchain).trans (by decide)
  obtain ⟨-, hexpands, hagain⟩ := interpolate_exact properties [("H", "h")] text hthrough
  exact ⟨hthrough, hbound, (hexpands.1 hbound _).2 (by decide +kernel), hagain hbound⟩

end Tracepoint.Maven
