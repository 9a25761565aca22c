import Tracepoint.Proofs.Source.Splice

/-!
# Edits one at a time

Edits apply in one pass over the source. The result is the same as that of inserting them one
after the other into a text that changes, from the last in their order to the first: what is
inserted later goes in front of what is there already, so that the offsets of the source stay
valid. Offsets past the end of the source count as its end.

Results:

* `applyFrom_eq_foldr`: the pass over what is left of a source, edit by edit.
* `applyEdits_clamped`, `applyEdits_eq_none`: edits can be applied unless an offset lies inside a
  character.
* `eq_of_pairwise_of_filter`: ordered edits are told by what they insert at each offset.
* `applyEdits_stepwise`: all of this together for any source and any edits.
-/

namespace Tracepoint.Source

open Text

/-- A text inserted at an offset of another; none if the offset is no position of it. -/
def insertAt (offset : Nat) (inserted text : List Char) : Option (List Char) :=
  (cut? text offset).map fun p => p.1 ++ inserted ++ p.2

/-- The text of an edit inserted into a text that comes from a source of `size` bytes. -/
def Edit.insertInto (size : Nat) (e : Edit) (text : List Char) : Option (List Char) :=
  insertAt (min e.offset size) e.text.toList text

/-- A source with edits inserted one at a time, from the last in their order to the first. -/
def insertEach (source : List Char) (edits : List Edit) : Option (List Char) :=
  (inOrder edits).foldr (fun e text => text.bind (e.insertInto (byteSize source))) (some source)

/-- An edit whose offset is the end of a source of `size` bytes if it lies past that. -/
def Edit.clamp (size : Nat) (e : Edit) : Edit := { e with offset := min e.offset size }

@[simp] theorem Edit.text_clamp (size : Nat) (e : Edit) : (e.clamp size).text = e.text := rfl

@[simp] theorem Edit.offset_clamp (size : Nat) (e : Edit) :
    (e.clamp size).offset = min e.offset size := rfl

theorem insertAt_append {a b : List Char} {n : Nat} (h : byteSize a = n) (inserted : List Char) :
    insertAt n inserted (a ++ b) = some (a ++ inserted ++ b) := by
  rw [insertAt, cut?_eq_some_iff.2 ⟨rfl, h⟩]
  rfl

/-! ## An edit that cannot be applied -/

section

variable {source pre rest : List Char} {e : Edit}

/-- An edit inside a character cannot be applied. -/
theorem applyFrom_cons_eq_none (hsource : source = pre ++ rest) (hle : byteSize pre ≤ e.offset)
    (h : isBoundary source (min e.offset (byteSize source)) = false) (es : List Edit) :
    applyFrom (byteSize source) (byteSize pre) rest (e :: es) = none := by
  have hpre : byteSize pre ≤ byteSize source := by
    rw [hsource, byteSize_append]
    omega
  have hoffset : max (byteSize pre) (min e.offset (byteSize source)) =
      min e.offset (byteSize source) := by omega
  rw [applyFrom, hoffset]
  cases hcut : cut? rest (min e.offset (byteSize source) - byteSize pre) with
  | none => rfl
  | some p =>
    obtain ⟨hrest, hsize⟩ := cut?_eq_some_iff.1 hcut
    have hposition : isBoundary source (min e.offset (byteSize source)) = true :=
      isBoundary_iff.2 ⟨pre ++ p.1, p.2, by rw [hsource, hrest, List.append_assoc],
        by rw [byteSize_append, hsize]; omega⟩
    rw [h] at hposition
    cases hposition

/-- What an edit leaves alone in front of it has no other positions than the source. -/
theorem isBoundary_of_applyFrom {text : List Char} {n : Nat} (hsource : source = pre ++ rest)
    {es : List Edit} (hes : ∀ x ∈ es, byteSize pre ≤ x.offset ∧ n ≤ x.offset)
    (hn : n ≤ byteSize source)
    (h : applyFrom (byteSize source) (byteSize pre) rest es = some text)
    (hboundary : isBoundary (pre ++ text) n = true) : isBoundary source n = true := by
  cases es with
  | nil =>
    cases h
    rwa [hsource]
  | cons e es =>
    obtain ⟨hle, hne⟩ := hes e List.mem_cons_self
    cases he : isBoundary source (min e.offset (byteSize source)) with
    | false =>
      rw [applyFrom_cons_eq_none hsource hle he] at h
      cases h
    | true =>
      obtain ⟨m, b, rfl, hm⟩ := exists_cut hsource hle he
      rw [applyFrom_cons_of_cut hm] at h
      obtain ⟨tail, -, rfl⟩ := Option.map_eq_some_iff.1 h
      -- the text starts like the source up to the edit, which comes no earlier than `n`
      obtain ⟨a, c, hac, ha⟩ := isBoundary_iff.1 hboundary
      have hstart : a ++ c = (pre ++ m) ++ (e.text.toList ++ tail) := by
        rw [← hac]
        simp
      obtain ⟨k, hk, -⟩ := exists_append_of_byteSize_le hstart (by omega)
      exact isBoundary_iff.2 ⟨a, k ++ b, by rw [hsource, ← List.append_assoc, hk]; simp, ha⟩

end

/-! ## The whole pass -/

/-- Inserting ordered edits one at a time, the last one first, keeps a start of the source in front
    of all of them and gives what the pass makes of the rest. -/
theorem applyFrom_eq_foldr {source : List Char} (es : List Edit) :
    ∀ (pre rest : List Char), source = pre ++ rest →
      es.Pairwise (fun a b => a.offset ≤ b.offset) → (∀ e ∈ es, byteSize pre ≤ e.offset) →
      es.foldr (fun e text => text.bind (e.insertInto (byteSize source))) (some source) =
        (applyFrom (byteSize source) (byteSize pre) rest es).map (pre ++ ·) := by
  induction es with
  | nil =>
    intro pre rest hsource _ _
    simp [applyFrom, hsource]
  | cons e es ih =>
    intro pre rest hsource hsorted hes
    rw [List.pairwise_cons] at hsorted
    have hle := hes e List.mem_cons_self
    rw [List.foldr_cons]
    cases he : isBoundary source (min e.offset (byteSize source)) with
    | true =>
      obtain ⟨m, b, rfl, hm⟩ := exists_cut hsource hle he
      rw [ih (pre ++ m) b (by simp [hsource]) hsorted.2 fun x hx => by
        have := hsorted.1 x hx
        omega, applyFrom_cons_of_cut hm]
      cases applyFrom (byteSize source) (byteSize (pre ++ m)) b es with
      | none => rfl
      | some tail =>
        rw [Option.map_some, Option.bind_some, Edit.insertInto, insertAt_append hm]
        simp
    | false =>
      rw [applyFrom_cons_eq_none hsource hle he, ih pre rest hsource hsorted.2 fun x hx =>
        hes x (List.mem_cons_of_mem _ hx)]
      cases happly : applyFrom (byteSize source) (byteSize pre) rest es with
      | none => rfl
      | some tail =>
        rw [Option.map_some, Option.bind_some, Option.map_none, Edit.insertInto, insertAt,
          Option.map_eq_none_iff]
        by_contra hcut
        have hposition : isBoundary source (min e.offset (byteSize source)) = true :=
          isBoundary_of_applyFrom hsource (fun x hx => by
            have := hsorted.1 x hx
            exact ⟨by omega, by omega⟩) (Nat.min_le_right _ _) happly
            (by rwa [isBoundary, Option.isSome_iff_ne_none])
        rw [he] at hposition
        cases hposition

/-- Applying edits comes to inserting them one at a time, the last one first. -/
theorem applyEdits_eq_insertEach (source : List Char) (edits : List Edit) :
    applyEdits source edits = insertEach source edits := by
  have h := applyFrom_eq_foldr (inOrder edits) [] source (List.nil_append source).symm
    (pairwise_inOrder edits) fun _ _ => Nat.zero_le _
  rw [insertEach, h, applyEdits]
  simp

/-! ## Offsets that are no positions -/

/-- An offset inside a character of a source. -/
theorem isBoundary_min_eq_false_iff {source : List Char} {n : Nat} :
    isBoundary source (min n (byteSize source)) = false ↔
      n < byteSize source ∧ isBoundary source n = false := by
  rcases Nat.lt_or_ge n (byteSize source) with hlt | hge
  · rw [Nat.min_eq_left (Nat.le_of_lt hlt)]
    simp [hlt]
  · rw [Nat.min_eq_right hge, isBoundary_byteSize]
    simp [Nat.not_lt.2 hge]

/-- Where an offset lies makes no difference past the end. -/
theorem applyFrom_clamp (size position : Nat) (rest : List Char) (es : List Edit) :
    applyFrom size position rest (es.map (Edit.clamp size)) = applyFrom size position rest es := by
  induction es generalizing position rest with
  | nil => rfl
  | cons e es ih =>
    simp only [List.map_cons, applyFrom, Edit.offset_clamp, Edit.text_clamp, ih, Nat.min_assoc,
      Nat.min_self]

theorem pairwise_clamp (size : Nat) (edits : List Edit) :
    ((inOrder edits).map (Edit.clamp size)).Pairwise fun a b => a.offset ≤ b.offset := by
  rw [List.pairwise_map]
  refine (pairwise_inOrder edits).imp fun {a b} hab => ?_
  simp only [Edit.offset_clamp]
  omega

/-- Where no offset lies inside a character, edits can be applied. The segments of the result hold
    the edits in their order, each at its offset or at the end. -/
theorem applyEdits_clamped {source : List Char} {edits : List Edit}
    (h : ∀ e ∈ edits, isBoundary source (min e.offset (byteSize source)) = true) :
    ∃ text segments, applyEdits source edits = some text ∧
      segments.filterMap Segment.edit? = (inOrder edits).map (Edit.clamp (byteSize source)) ∧
      IsSplice source ((inOrder edits).map (Edit.clamp (byteSize source))) text segments := by
  obtain ⟨text, segments, happly, htext, horiginal, hedits, -, hoffsets⟩ :=
    applyFrom_segments source ((inOrder edits).map (Edit.clamp (byteSize source))) [] source rfl
      (pairwise_clamp _ edits) fun e he => by
        obtain ⟨x, hx, rfl⟩ := List.mem_map.1 he
        exact ⟨Nat.zero_le _, h x (mem_inOrder.1 hx)⟩
  rw [applyFrom_clamp] at happly
  refine ⟨text, segments, happly, hedits, htext, horiginal, fun offset => by rw [hedits], ?_⟩
  intro before e after hs
  simpa using hoffsets before e after hs

/-- Edits of which one lies inside a character cannot be applied. -/
theorem applyEdits_eq_none {source : List Char} {edits : List Edit} {e : Edit} (he : e ∈ edits)
    (h : isBoundary source (min e.offset (byteSize source)) = false) :
    applyEdits source edits = none := by
  -- edits after the first such one have no part in it
  suffices hpass : ∀ (es : List Edit) (pre rest : List Char), source = pre ++ rest →
      es.Pairwise (fun a b => a.offset ≤ b.offset) → (∀ x ∈ es, byteSize pre ≤ x.offset) →
      e ∈ es → applyFrom (byteSize source) (byteSize pre) rest es = none from
    hpass (inOrder edits) [] source rfl (pairwise_inOrder edits) (fun _ _ => Nat.zero_le _)
      (mem_inOrder.2 he)
  intro es
  induction es with
  | nil => intro _ _ _ _ _ hmem; cases hmem
  | cons x es ih =>
    intro pre rest hsource hsorted hes hmem
    rw [List.pairwise_cons] at hsorted
    have hle := hes x List.mem_cons_self
    cases hx : isBoundary source (min x.offset (byteSize source)) with
    | false => exact applyFrom_cons_eq_none hsource hle hx es
    | true =>
      obtain ⟨m, b, rfl, hm⟩ := exists_cut hsource hle hx
      have hlater : e ∈ es := by
        rcases List.mem_cons.1 hmem with rfl | hmem
        · rw [h] at hx
          cases hx
        · exact hmem
      rw [applyFrom_cons_of_cut hm, ih (pre ++ m) b (by simp [hsource]) hsorted.2 (fun y hy => by
        have := hsorted.1 y hy
        omega) hlater]
      rfl

/-! ## Edits in another order -/

/-- Ordered edits are told by those at each offset. -/
theorem eq_of_pairwise_of_filter {xs : List Edit} : ∀ {ys : List Edit},
    xs.Pairwise (fun a b => a.offset ≤ b.offset) → ys.Pairwise (fun a b => a.offset ≤ b.offset) →
    (∀ offset, xs.filter (·.offset = offset) = ys.filter (·.offset = offset)) → xs = ys := by
  have hmem : ∀ {xs ys : List Edit} {e : Edit},
      (∀ offset, xs.filter (·.offset = offset) = ys.filter (·.offset = offset)) → e ∈ xs →
      e ∈ ys := by
    intro xs ys e h he
    have hfilter : e ∈ xs.filter (·.offset = e.offset) := List.mem_filter.2 ⟨he, by simp⟩
    rw [h] at hfilter
    exact (List.mem_filter.1 hfilter).1
  induction xs with
  | nil =>
    intro ys _ _ h
    cases ys with
    | nil => rfl
    | cons y ys => cases hmem (fun offset => (h offset).symm) List.mem_cons_self
  | cons x xs ih =>
    intro ys hxs hys h
    cases ys with
    | nil => cases hmem h List.mem_cons_self
    | cons y ys =>
      rw [List.pairwise_cons] at hxs hys
      -- both lists start with their least offset
      have hle : ∀ {a b : Edit} {bs : List Edit}, (∀ c ∈ bs, b.offset ≤ c.offset) → a ∈ b :: bs →
          b.offset ≤ a.offset := by
        intro a b bs hbs ha
        rcases List.mem_cons.1 ha with rfl | ha
        · exact Nat.le_refl _
        · exact hbs a ha
      have hoffset : x.offset = y.offset := Nat.le_antisymm
        (hle hxs.1 (hmem (fun offset => (h offset).symm) List.mem_cons_self))
        (hle hys.1 (hmem h List.mem_cons_self))
      have hfirst := h x.offset
      rw [List.filter_cons_of_pos (by simp), List.filter_cons_of_pos (by simp [hoffset]),
        List.cons.injEq] at hfirst
      obtain ⟨rfl, -⟩ := hfirst
      rw [ih hxs.2 hys.2 fun offset => ?_]
      have hrest := h offset
      rw [List.filter_cons, List.filter_cons] at hrest
      split_ifs at hrest
      · exact (List.cons.inj hrest).2
      · exact hrest

/-- Edits apply in one order, however they were recorded, if those at one offset were recorded in
    theirs. -/
theorem inOrder_congr {edits edits' : List Edit}
    (h : ∀ offset, edits'.filter (·.offset = offset) = edits.filter (·.offset = offset)) :
    inOrder edits' = inOrder edits := by
  refine eq_of_pairwise_of_filter (pairwise_inOrder _) (pairwise_inOrder _) fun offset => ?_
  rw [filter_inOrder, filter_inOrder, h]

/-! ## All edits -/

/-- What applying edits to a source comes to. -/
structure AppliesStepwise (source : List Char) (edits : List Edit) : Prop where
  /-- It fails exactly if an offset in front of the end lies inside a character. -/
  fails_iff : applyEdits source edits = none ↔
    ∃ e ∈ edits, e.offset < byteSize source ∧ isBoundary source e.offset = false
  /-- It comes to inserting one edit at a time, from the last in their order to the first. -/
  stepwise : applyEdits source edits = insertEach source edits
  /-- Every edit is inserted once, in their order, at its offset or at the end, and without what
      was inserted the source is left. -/
  spliced : ∀ text, applyEdits source edits = some text → ∃ segments,
    segments.filterMap Segment.edit? = (inOrder edits).map (Edit.clamp (byteSize source)) ∧
      IsSplice source ((inOrder edits).map (Edit.clamp (byteSize source))) text segments
  /-- The order in which edits were recorded counts only for those at one offset. -/
  rearranged : ∀ edits', edits'.Perm edits →
    (∀ offset, edits'.filter (·.offset = offset) = edits.filter (·.offset = offset)) →
    applyEdits source edits' = applyEdits source edits

/-- Applying edits in one pass agrees with inserting them one at a time, for any source and any
    offsets. -/
theorem applyEdits_stepwise (source : List Char) (edits : List Edit) :
    AppliesStepwise source edits := by
  refine ⟨⟨fun hnone => ?_, ?_⟩, applyEdits_eq_insertEach source edits, fun text htext => ?_,
    fun edits' _ h => by rw [applyEdits, inOrder_congr h, applyEdits]⟩
  · by_contra hno
    have hpositions : ∀ e ∈ edits,
        isBoundary source (min e.offset (byteSize source)) = true := by
      intro e he
      by_contra hposition
      exact hno ⟨e, he, isBoundary_min_eq_false_iff.1 (by simpa using hposition)⟩
    obtain ⟨text, -, happly, -⟩ := applyEdits_clamped hpositions
    rw [hnone] at happly
    cases happly
  · rintro ⟨e, he, hinside⟩
    exact applyEdits_eq_none he (isBoundary_min_eq_false_iff.2 hinside)
  · have hpositions : ∀ e ∈ edits,
        isBoundary source (min e.offset (byteSize source)) = true := by
      intro e he
      by_contra hposition
      rw [applyEdits_eq_none he (by simpa using hposition)] at htext
      cases htext
    obtain ⟨text', segments, happly, hedits, hsplice⟩ := applyEdits_clamped hpositions
    rw [htext] at happly
    cases happly
    exact ⟨segments, hedits, hsplice⟩

/-- Past the end, edits keep the order of their offsets. -/
example : applyEdits ['é'] [⟨9, "c"⟩, ⟨2, "a"⟩, ⟨7, "b"⟩, ⟨0, "d"⟩] = some "déabc".toList := by
  cbv

end Tracepoint.Source
