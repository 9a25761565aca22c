import Mathlib.Data.List.Basic

/-!
# Separators in brackets

Texts that are joined with a separator can be read off again if every separator inside of one of
them stands in brackets that the text closes itself. The dots of a signature stand in its
parentheses, and the commas of a parameter type in the brackets of its type arguments.

Results:

* `Enclosed.append_sep_inj`: the first separator outside of brackets ends a text.
* `joined_inj`, `intercalate_inj`: texts with a separator after each or between them can be read
  off again.
-/

namespace Tracepoint.Text

/-- The brackets that lists in a type open: those of type arguments and of annotations. -/
def opensList (c : Char) : Bool := c == '<' || c == '('

/-- The brackets that close such lists. -/
def closesList (c : Char) : Bool := c == '>' || c == ')'

/-- A text that closes what it opens and whose separators stand in brackets, where so many are open
    around it. -/
structure Enclosed (depth : Nat) (sep : Char) (opens closes : Char → Bool) (s : List Char) :
    Prop where
  even : s.countP opens = s.countP closes
  inside : ∀ a b, s = a ++ sep :: b → a.countP closes < a.countP opens + depth

instance (depth : Nat) (sep : Char) (opens closes : Char → Bool) (s : List Char) :
    Decidable (Enclosed depth sep opens closes s) :=
  decidable_of_iff (s.countP opens = s.countP closes ∧ ∀ i < s.length, s[i]? = some sep →
      (s.take i).countP closes < (s.take i).countP opens + depth) <| by
    constructor
    · rintro ⟨heven, hinside⟩
      refine ⟨heven, ?_⟩
      rintro a b rfl
      simpa using hinside a.length (by simp) (by simp)
    · rintro ⟨heven, hinside⟩
      refine ⟨heven, fun i hi hsep => hinside _ (s.drop (i + 1)) ?_⟩
      obtain ⟨hi, hsep⟩ := List.getElem?_eq_some_iff.1 hsep
      rw [← hsep, List.getElem_cons_drop, List.take_append_drop]

section

variable {depth : Nat} {sep : Char} {opens closes : Char → Bool}

theorem enclosed_nil : Enclosed depth sep opens closes [] := ⟨rfl, by simp⟩

/-- A text without separators and brackets. -/
theorem enclosed_of_not_mem {s : List Char} (hsep : sep ∉ s) (hopens : ∀ c ∈ s, opens c = false)
    (hcloses : ∀ c ∈ s, closes c = false) : Enclosed depth sep opens closes s := by
  constructor
  · rw [List.countP_eq_zero.2 fun c hc => by simp [hopens c hc],
      List.countP_eq_zero.2 fun c hc => by simp [hcloses c hc]]
  · rintro a b rfl
    simp at hsep

theorem enclosed_sep (hopens : opens sep = false) (hcloses : closes sep = false) :
    Enclosed (depth + 1) sep opens closes [sep] := by
  refine ⟨by simp [hopens, hcloses], fun a b h => ?_⟩
  cases a with
  | nil => simp
  | cons c a => simp at h

theorem Enclosed.succ {s : List Char} (h : Enclosed depth sep opens closes s) :
    Enclosed (depth + 1) sep opens closes s :=
  ⟨h.even, fun a b heq => by have := h.inside a b heq; omega⟩

theorem Enclosed.append {s s' : List Char} (h : Enclosed depth sep opens closes s)
    (h' : Enclosed depth sep opens closes s') : Enclosed depth sep opens closes (s ++ s') := by
  refine ⟨by rw [List.countP_append, List.countP_append, h.even, h'.even], fun a b heq => ?_⟩
  rcases List.append_eq_append_iff.1 heq with ⟨w, rfl, hw⟩ | ⟨w, rfl, hw⟩
  · -- the separator is in the second text
    have hlt := h'.inside w b hw
    rw [List.countP_append, List.countP_append, h.even]
    omega
  · cases w with
    | nil =>
      have hlt := h'.inside [] b (by simpa using hw.symm)
      have heven := h.even
      rw [List.append_nil] at heven
      simp only [List.countP_nil] at hlt
      omega
    | cons c w =>
      injection hw with hc _
      subst hc
      exact h.inside a w rfl

/-- Leaving out what is no bracket, and maybe separators, keeps the others in brackets. -/
theorem Enclosed.filter {s : List Char} {f : Char → Bool} (h : Enclosed depth sep opens closes s)
    (hopens : ∀ c, opens c = true → f c = true) (hcloses : ∀ c, closes c = true → f c = true) :
    Enclosed depth sep opens closes (s.filter f) := by
  have hcount : ∀ (s : List Char) {p : Char → Bool}, (∀ c, p c = true → f c = true) →
      (s.filter f).countP p = s.countP p := by
    intro s p hp
    rw [List.countP_filter]
    refine List.countP_congr fun c _ => ?_
    simpa using hp c
  refine ⟨by rw [hcount s hopens, hcount s hcloses, h.even], fun a b heq => ?_⟩
  obtain ⟨x, y, rfl, rfl, hy⟩ := List.filter_eq_append_iff.1 heq
  obtain ⟨lead, rest, rfl, hlead, -, -⟩ := List.filter_eq_cons_iff.1 hy
  have hinside := h.inside (x ++ lead) rest (by simp)
  have hnone : ∀ {p : Char → Bool}, (∀ c, p c = true → f c = true) → lead.countP p = 0 :=
    fun hp => List.countP_eq_zero.2 fun c hc hpc => hlead c hc (hp c hpc)
  rw [List.countP_append, List.countP_append, hnone hopens, hnone hcloses] at hinside
  rwa [hcount x hopens, hcount x hcloses]

/-- Brackets around a text are one more around its separators. -/
theorem Enclosed.wrap {s : List Char} (h : Enclosed (depth + 1) sep opens closes s) {c d : Char}
    (hc : opens c = true ∧ closes c = false ∧ c ≠ sep)
    (hd : opens d = false ∧ closes d = true ∧ d ≠ sep) :
    Enclosed depth sep opens closes (c :: (s ++ [d])) := by
  refine ⟨by simp [hc, hd, h.even], fun a b heq => ?_⟩
  cases a with
  | nil =>
    injection heq with heq _
    exact absurd heq hc.2.2
  | cons e a =>
    injection heq with he heq
    subst he
    have hlt : a.countP closes < a.countP opens + (depth + 1) := by
      rcases List.append_eq_append_iff.1 heq with ⟨w, rfl, hw⟩ | ⟨w, rfl, hw⟩
      · cases w with
        | nil =>
          injection hw with hw _
          exact absurd hw hd.2.2
        | cons e w => simp at hw
      · cases w with
        | nil =>
          injection hw with hw _
          exact absurd hw.symm hd.2.2
        | cons e w =>
          injection hw with he _
          subst he
          exact h.inside a w rfl
    simp only [List.countP_cons, hc, if_true, Bool.false_eq_true, if_false]
    omega

end

section

variable {sep : Char} {opens closes : Char → Bool}

/-- No enclosed text goes on after another one and a separator. -/
theorem Enclosed.ne_append_sep {s s' : List Char} (h : Enclosed 0 sep opens closes s)
    (h' : Enclosed 0 sep opens closes s') (x : List Char) : s ≠ s' ++ sep :: x := by
  intro heq
  have hlt := h.inside s' x heq
  rw [h'.even] at hlt
  exact Nat.lt_irrefl _ hlt

/-- The first separator after an enclosed text ends it. -/
theorem Enclosed.append_sep_inj {s s' x x' : List Char} (h : Enclosed 0 sep opens closes s)
    (h' : Enclosed 0 sep opens closes s') (heq : s ++ sep :: x = s' ++ sep :: x') :
    s = s' ∧ x = x' := by
  rcases List.append_eq_append_iff.1 heq with ⟨w, hs, hw⟩ | ⟨w, hs, hw⟩
  · cases w with
    | nil => simpa [hs] using hw
    | cons c w =>
      injection hw with hc _
      subst hc
      exact absurd hs (h'.ne_append_sep h w)
  · cases w with
    | nil => simpa [hs, eq_comm] using hw
    | cons c w =>
      injection hw with hc _
      subst hc
      exact absurd hs (h.ne_append_sep h' w)

/-- Enclosed texts with a separator after each can be read off again. -/
theorem flatMap_sep_inj {ss ss' : List (List Char)} {x x' : List Char}
    (hss : ∀ s ∈ ss, Enclosed 0 sep opens closes s)
    (hss' : ∀ s ∈ ss', Enclosed 0 sep opens closes s)
    (hx : Enclosed 0 sep opens closes x) (hx' : Enclosed 0 sep opens closes x')
    (h : ss.flatMap (· ++ [sep]) ++ x = ss'.flatMap (· ++ [sep]) ++ x') : ss = ss' ∧ x = x' := by
  have hcons : ∀ (s : List Char) (ss : List (List Char)) (x : List Char),
      (s :: ss).flatMap (· ++ [sep]) ++ x = s ++ sep :: (ss.flatMap (· ++ [sep]) ++ x) := by
    intro s ss x
    simp
  induction ss generalizing ss' with
  | nil =>
    cases ss' with
    | nil => exact ⟨rfl, h⟩
    | cons s' ss' =>
      rw [hcons] at h
      exact absurd h (hx.ne_append_sep (hss' s' List.mem_cons_self) _)
  | cons s ss ih =>
    rw [hcons] at h
    cases ss' with
    | nil => exact absurd h.symm (hx'.ne_append_sep (hss s List.mem_cons_self) _)
    | cons s' ss' =>
      rw [hcons] at h
      obtain ⟨rfl, hrest⟩ :=
        (hss s List.mem_cons_self).append_sep_inj (hss' s' List.mem_cons_self) h
      obtain ⟨rfl, hx⟩ := ih (fun t ht => hss t (List.mem_cons_of_mem _ ht))
        (fun t ht => hss' t (List.mem_cons_of_mem _ ht)) hrest
      exact ⟨rfl, hx⟩

end

/-! ## Strings -/

/-- A separator after each of some texts is one between them and one after the last. -/
theorem intercalate_append_sep (sep s : String) (ss : List String) :
    String.intercalate sep (s :: ss) ++ sep = String.join ((s :: ss).map (· ++ sep)) := by
  induction ss generalizing s with
  | nil => simp [String.join_cons]
  | cons next ss ih =>
    rw [String.intercalate_cons_cons, List.map_cons, String.join_cons, ← ih]
    simp only [String.append_assoc]

section

variable {sep : String} {c : Char} (hsep : sep.toList = [c]) {opens closes : Char → Bool}
include hsep

/-- What was joined with separators can be read off again. -/
theorem joined_inj {ss ss' : List String} {x x' : String}
    (hss : ∀ s ∈ ss, Enclosed 0 c opens closes s.toList)
    (hss' : ∀ s ∈ ss', Enclosed 0 c opens closes s.toList) (hx : Enclosed 0 c opens closes x.toList)
    (hx' : Enclosed 0 c opens closes x'.toList)
    (h : String.join (ss.map (· ++ sep)) ++ x = String.join (ss'.map (· ++ sep)) ++ x') :
    ss = ss' ∧ x = x' := by
  have hlist := congrArg String.toList h
  simp only [String.toList_append, String.toList_join, List.flatMap_map, hsep] at hlist
  have htexts : ∀ {ss : List String}, (∀ s ∈ ss, Enclosed 0 c opens closes s.toList) →
      ∀ s ∈ ss.map String.toList, Enclosed 0 c opens closes s := by
    intro ss hss s hs
    obtain ⟨o, ho, rfl⟩ := List.mem_map.1 hs
    exact hss o ho
  obtain ⟨hss, hx⟩ := flatMap_sep_inj (htexts hss) (htexts hss') hx hx'
    (by simpa only [List.flatMap_map] using hlist)
  exact ⟨List.map_injective_iff.2 (fun _ _ => String.toList_injective) hss,
    String.toList_injective hx⟩

/-- What was joined with separators between can be read off again, if there are no empty texts. -/
theorem intercalate_inj {ss ss' : List String}
    (hss : ∀ s ∈ ss, s ≠ "" ∧ Enclosed 0 c opens closes s.toList)
    (hss' : ∀ s ∈ ss', s ≠ "" ∧ Enclosed 0 c opens closes s.toList)
    (h : String.intercalate sep ss = String.intercalate sep ss') : ss = ss' := by
  have hnonempty : ∀ {s : String} {ss : List String}, s ≠ "" →
      String.intercalate sep (s :: ss) ≠ "" := by
    intro s ss hs
    cases ss with
    | nil => simpa using hs
    | cons next ss => simp [String.intercalate_cons_cons, hs]
  cases ss with
  | nil =>
    cases ss' with
    | nil => rfl
    | cons s' ss' => exact absurd h.symm (hnonempty (hss' s' List.mem_cons_self).1)
  | cons s ss =>
    cases ss' with
    | nil => exact absurd h (hnonempty (hss s List.mem_cons_self).1)
    | cons s' ss' =>
      have hjoined := congrArg (· ++ sep ++ "") h
      simp only [intercalate_append_sep] at hjoined
      exact (joined_inj hsep (fun s hs => (hss s hs).2) (fun s hs => (hss' s hs).2) enclosed_nil
        enclosed_nil hjoined).1

end

end Tracepoint.Text
