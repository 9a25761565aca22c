import Mathlib.Tactic.Common
import Tracepoint.Source.Edit

/-!
# Edits as insertions

A text that results from edits falls into segments: stretches of the source that
were kept, and the inserted texts. The kept stretches make up the source, and what
is kept before an inserted text has exactly the size of the offset of that edit.
So nothing of the source is lost, changed or moved.

Results:

* `filter_inOrder`: ordering edits keeps those at one offset as they were.
* `applyEdits_spliced`: edits at positions of a source can be applied, and the
  result is the source with exactly these edits inserted.
-/

namespace Tracepoint.Source

open Text

/-- A stretch of an edited text. -/
inductive Segment where
  | kept (text : List Char)
  | inserted (edit : Edit)

namespace Segment

/-- What a segment contributes to the edited text. -/
def text : Segment → List Char
  | kept t => t
  | inserted e => e.text.toList

/-- What a segment contributes to the source. -/
def original : Segment → List Char
  | kept t => t
  | inserted _ => []

/-- The edit that a segment comes from. -/
def edit? : Segment → Option Edit
  | kept _ => none
  | inserted e => some e

@[simp] theorem text_kept (t : List Char) : (kept t).text = t := rfl

@[simp] theorem text_inserted (e : Edit) : (inserted e).text = e.text.toList := rfl

@[simp] theorem original_kept (t : List Char) : (kept t).original = t := rfl

@[simp] theorem original_inserted (e : Edit) : (inserted e).original = [] := rfl

@[simp] theorem edit?_kept (t : List Char) : (kept t).edit? = none := rfl

@[simp] theorem edit?_inserted (e : Edit) : (inserted e).edit? = some e := rfl

end Segment

/-- The segments of `source` with `edits` inserted, which give `text`. -/
structure IsSplice (source : List Char) (edits : List Edit) (text : List Char)
    (segments : List Segment) : Prop where
  text_eq : segments.flatMap Segment.text = text
  /-- Without what was inserted, the source is left. -/
  source_eq : segments.flatMap Segment.original = source
  /-- At each offset the edits are inserted in their order, and there are no others. -/
  edits_eq : ∀ offset, (segments.filterMap Segment.edit?).filter (·.offset = offset) =
    edits.filter (·.offset = offset)
  /-- Every edit is inserted at its offset. -/
  offset_eq : ∀ before e after, segments = before ++ Segment.inserted e :: after →
    byteSize (before.flatMap Segment.original) = e.offset

/-- `text` is `source` with exactly `edits` inserted, each at its offset and those at one
    offset in their order. -/
def Spliced (source : List Char) (edits : List Edit) (text : List Char) : Prop :=
  ∃ segments, IsSplice source edits text segments

/-- Kept stretches and insertions take turns, from a kept stretch to a kept stretch. -/
inductive Alternating : List Segment → Prop
  | last (t : List Char) : Alternating [.kept t]
  | turn (t : List Char) (e : Edit) {segments : List Segment} :
      Alternating segments → Alternating (.kept t :: .inserted e :: segments)

/-! ## The order of edits -/

/-- The order in which edits apply. -/
def Edit.le (a b : Edit) : Bool := a.offset ≤ b.offset

theorem inOrder_eq (edits : List Edit) : inOrder edits = edits.mergeSort Edit.le := rfl

theorem Edit.le_trans (a b c : Edit) (hab : a.le b = true) (hbc : b.le c = true) :
    a.le c = true := by
  simp only [Edit.le, decide_eq_true_eq] at *
  omega

theorem Edit.le_total (a b : Edit) : (a.le b || b.le a) = true := by
  simp only [Edit.le, Bool.or_eq_true, decide_eq_true_eq]
  omega

theorem pairwise_inOrder (edits : List Edit) :
    (inOrder edits).Pairwise fun a b => a.offset ≤ b.offset := by
  have h := List.pairwise_mergeSort Edit.le_trans Edit.le_total edits
  exact h.imp fun hab => by simpa [Edit.le] using hab

theorem mem_inOrder {edits : List Edit} {e : Edit} : e ∈ inOrder edits ↔ e ∈ edits := by
  rw [inOrder_eq, List.mem_mergeSort]

/-- Edits at one offset stay in the order in which they were recorded. -/
theorem filter_inOrder (edits : List Edit) (offset : Nat) :
    (inOrder edits).filter (·.offset = offset) = edits.filter (·.offset = offset) := by
  -- the edits at the offset are a sorted part of the list, and sorting keeps such parts
  have hsorted : (edits.filter (·.offset = offset)).Pairwise fun a b => a.le b = true := by
    rw [List.pairwise_filter]
    refine List.pairwise_of_forall fun a b ha hb => ?_
    simp only [decide_eq_true_eq] at ha hb
    simp [Edit.le, ha, hb]
  have hsub : List.Sublist (edits.filter (·.offset = offset)) (inOrder edits) :=
    List.sublist_mergeSort Edit.le_trans Edit.le_total hsorted List.filter_sublist
  have hfilter := hsub.filter (·.offset = offset)
  rw [List.filter_filter, show (fun e : Edit => decide (e.offset = offset) &&
    decide (e.offset = offset)) = fun e => decide (e.offset = offset) by simp] at hfilter
  have hperm : (inOrder edits).Perm edits := List.mergeSort_perm edits Edit.le
  exact (hfilter.eq_of_length (hperm.filter _).length_eq.symm).symm

/-! ## One edit of the pass -/

section

variable {source pre rest : List Char} {e : Edit}

theorem le_byteSize_of_isBoundary {n : Nat} (h : isBoundary source n = true) :
    n ≤ byteSize source := by
  obtain ⟨a, b, rfl, rfl⟩ := isBoundary_iff.1 h
  rw [byteSize_append]
  exact Nat.le_add_right _ _

/-- The end of a source is a position. -/
theorem isBoundary_byteSize (source : List Char) : isBoundary source (byteSize source) = true :=
  isBoundary_iff.2 ⟨source, [], by simp, rfl⟩

/-- Where an offset is a position of a source, it cuts what is left of it. -/
theorem exists_cut (hsource : source = pre ++ rest) (hle : byteSize pre ≤ e.offset)
    (h : isBoundary source (min e.offset (byteSize source)) = true) :
    ∃ m b, rest = m ++ b ∧ byteSize (pre ++ m) = min e.offset (byteSize source) := by
  obtain ⟨a, b, hab, ha⟩ := isBoundary_iff.1 h
  have hpre : byteSize pre ≤ byteSize source := by
    rw [hsource, byteSize_append]
    omega
  obtain ⟨m, rfl, rfl⟩ := exists_append_of_byteSize_le (hsource.symm.trans hab) (by omega)
  exact ⟨m, b, rfl, ha⟩

/-- An edit at a position keeps what is in front of it and inserts its text. -/
theorem applyFrom_cons_of_cut {m b : List Char} {size : Nat}
    (hm : byteSize (pre ++ m) = min e.offset size) (es : List Edit) :
    applyFrom size (byteSize pre) (m ++ b) (e :: es) =
      (applyFrom size (byteSize (pre ++ m)) b es).map (m ++ e.text.toList ++ ·) := by
  have hoffset : max (byteSize pre) (min e.offset size) = byteSize (pre ++ m) := by
    rw [← hm, byteSize_append]
    omega
  have hcut : cut? (m ++ b) (byteSize (pre ++ m) - byteSize pre) = some (m, b) := by
    rw [cut?_eq_some_iff, byteSize_append]
    exact ⟨rfl, by omega⟩
  rw [applyFrom, hoffset, hcut]
  simp only [Option.bind_eq_bind, Option.bind_some]
  cases applyFrom size (byteSize (pre ++ m)) b es <;> rfl

end

/-! ## Applying edits -/

/-- Every edit is inserted at its offset, where the segments go on from a start of the source of
    `position` bytes. -/
def InsertsFrom (position : Nat) (segments : List Segment) : Prop :=
  ∀ before e after, segments = before ++ Segment.inserted e :: after →
    position + byteSize (before.flatMap Segment.original) = e.offset

theorem insertsFrom_kept (position : Nat) (t : List Char) :
    InsertsFrom position [.kept t] := by
  intro before e after h
  have hmem : Segment.inserted e ∈ [Segment.kept t] := by
    rw [h]
    exact List.mem_append_right _ List.mem_cons_self
  cases List.mem_singleton.1 hmem

/-- An edit after a kept stretch, in front of segments that go on from there. -/
theorem InsertsFrom.turn {position : Nat} {t : List Char} {e : Edit} {segments : List Segment}
    (he : position + byteSize t = e.offset) (h : InsertsFrom (position + byteSize t) segments) :
    InsertsFrom position (.kept t :: .inserted e :: segments) := by
  intro before x after hs
  match before with
  | [] => cases hs
  | [_] =>
    cases hs
    simpa using he
  | _ :: _ :: before =>
    cases hs
    have hx := h before x after rfl
    simp only [List.flatMap_cons, Segment.original_kept, Segment.original_inserted,
      List.nil_append, byteSize_append]
    omega

/-- What is left of a source after a start `pre` of it, with ordered edits applied. The
    segments are found one edit after the other; all offsets count from the start of the
    whole source. -/
theorem applyFrom_segments (source : List Char) :
    ∀ (es : List Edit) (pre rest : List Char), source = pre ++ rest →
      es.Pairwise (fun a b => a.offset ≤ b.offset) →
      (∀ e ∈ es, byteSize pre ≤ e.offset ∧ isBoundary source e.offset = true) →
      ∃ text segments, applyFrom (byteSize source) (byteSize pre) rest es = some text ∧
        segments.flatMap Segment.text = text ∧
        segments.flatMap Segment.original = rest ∧
        segments.filterMap Segment.edit? = es ∧ Alternating segments ∧
        InsertsFrom (byteSize pre) segments := by
  intro es
  induction es with
  | nil =>
    intro pre rest _ _ _
    exact ⟨rest, [.kept rest], rfl, by simp, by simp, by simp, .last rest, insertsFrom_kept _ _⟩
  | cons e es ih =>
    intro pre rest hsource hsorted hes
    obtain ⟨hle, hboundary⟩ := hes e List.mem_cons_self
    have hmin : min e.offset (byteSize source) = e.offset :=
      Nat.min_eq_left (le_byteSize_of_isBoundary hboundary)
    obtain ⟨m, b, rfl, hm⟩ := exists_cut hsource hle (by rwa [hmin])
    have hoffset : byteSize (pre ++ m) = e.offset := hm.trans hmin
    rw [List.pairwise_cons] at hsorted
    obtain ⟨text, segments, happly, htext, horiginal, hedits, hturns, hinserts⟩ :=
      ih (pre ++ m) b (by rw [hsource, List.append_assoc]) hsorted.2 fun x hx =>
        ⟨Nat.le_trans (Nat.le_of_eq hoffset) (hsorted.1 x hx),
          (hes x (List.mem_cons_of_mem _ hx)).2⟩
    rw [byteSize_append] at hoffset hinserts
    refine ⟨m ++ e.text.toList ++ text, .kept m :: .inserted e :: segments, ?_, by simp [htext],
      by simp [horiginal], by simp [List.filterMap_cons, hedits], .turn m e hturns, .turn hoffset hinserts⟩
    rw [applyFrom_cons_of_cut hm, happly]
    rfl

/-- Edits at positions of a source can be applied, and the result falls into segments. -/
theorem applyEdits_segments {source : List Char} {edits : List Edit}
    (h : ∀ e ∈ edits, isBoundary source e.offset = true) :
    ∃ text segments, applyEdits source edits = some text ∧
      IsSplice source edits text segments ∧ Alternating segments := by
  obtain ⟨text, segments, happly, htext, horiginal, hedits, hturns, hinserts⟩ :=
    applyFrom_segments source (inOrder edits) [] source rfl (pairwise_inOrder edits)
      fun e he => ⟨Nat.zero_le _, h e (mem_inOrder.1 he)⟩
  refine ⟨text, segments, happly, ⟨htext, horiginal, ?_, ?_⟩, hturns⟩
  · intro offset
    rw [hedits, filter_inOrder]
  · intro before e after hs
    simpa using hinserts before e after hs

/-- Edits at positions of a source can be applied, and the result is the source with exactly
    these edits inserted. -/
theorem applyEdits_spliced {source : List Char} {edits : List Edit}
    (h : ∀ e ∈ edits, isBoundary source e.offset = true) :
    ∃ text, applyEdits source edits = some text ∧ Spliced source edits text := by
  obtain ⟨text, segments, happly, hsplice, -⟩ := applyEdits_segments h
  exact ⟨text, happly, segments, hsplice⟩

end Tracepoint.Source
