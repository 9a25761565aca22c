import Mathlib.Data.List.Basic
import Tracepoint.Proofs.Java.Separate
import Tracepoint.Proofs.Source.Splice

/-!
# Tokens of an edited text

A text that is inserted right after a separator breaks no token and no comment of the
source. The edited text is then cut into pieces as if its segments stood alone: those of
the source are there as before and in the same order, with the pieces of the inserted
texts between them.

Results:

* `pieces_segments`: segments are cut into pieces one by one.
* `TokensApart`: what this says about tokens and comments.
* `IsSplice.tokensApart`: it holds of texts that are inserted after separators, or at the
  start of a source without a byte order mark.
-/

namespace Tracepoint.Source

open Java Text

/-! ## Segments -/

/-- A text that is cut into pieces in the same way whatever follows it. It has no stray
    character, and no star that could close a comment. -/
structure StandsAlone (x : List Char) : Prop where
  pieces_append : ∀ rest, pieces (x ++ rest) = pieces x ++ pieces rest
  proper : ∀ p ∈ pieces x, p.1 ≠ .token .stray
  no_star : '*' ∉ x

/-- What stands in front of `r`, up to a separator or from the start, is cut as before when `r`
    becomes `r'`, unless this closes a comment. -/
theorem pieces_insert {body t r r' : List Char}
    (hbody : ∀ p ∈ pieces body, p.1 ≠ .token .stray) (hscans : Scans body (t ++ r))
    (hcut : t = [] ∨ ∃ d ∈ separators, Scans body (d :: r))
    (hclose : closesComment r' = true → closesComment r = true) :
    pieces (t ++ r) = pieces t ++ pieces r ∧ pieces (t ++ r') = pieces t ++ pieces r' ∧
      (closesComment (t ++ r') = true → closesComment (t ++ r) = true) := by
  -- where nothing is kept in front no separator is needed
  by_cases ht : t = []
  · subst ht
    exact ⟨by simp, by simp, by simpa using hclose⟩
  obtain ⟨d, hd, hd'⟩ := hcut.resolve_left ht
  have hlength : (d :: r).length ≤ (t ++ r).length := by
    have := List.length_pos_iff.2 ht
    rw [List.length_append, List.length_cons]
    omega
  have hlast := hscans.between hd' hlength
  obtain ⟨k, hk⟩ := hlast.exists_append
  obtain rfl : t = k ++ [d] := by
    rw [List.append_cons] at hk
    exact List.append_cancel_right hk
  simp only [List.append_assoc, List.singleton_append] at hlast hscans ⊢
  have hproper : ∀ p ∈ pieces (k ++ d :: r), p.1 ≠ .token .stray := by
    obtain ⟨ps, hps⟩ := hscans.pieces
    intro p hp
    exact hbody p (by rw [hps]; exact List.mem_append_right _ hp)
  refine ⟨pieces_append hd hlast hproper id, pieces_append hd hlast hproper hclose, ?_⟩
  rw [closesComment_append hd, closesComment_append hd, Bool.or_eq_true, Bool.or_eq_true]
  exact Or.imp_right hclose

/-- Segments are cut into pieces one by one, in the source and in the edited text. The third
    part carries the induction: an insertion closes no comment. -/
theorem pieces_segments {body : List Char} (hbody : ∀ p ∈ pieces body, p.1 ≠ .token .stray)
    {segments : List Segment} (hturns : Alternating segments)
    (hscans : Scans body (segments.flatMap Segment.original))
    (hcut : ∀ before e after, segments = before ++ .inserted e :: after →
      before.flatMap Segment.original = [] ∨
        ∃ d ∈ separators, Scans body (d :: after.flatMap Segment.original))
    (halone : ∀ e, .inserted e ∈ segments → StandsAlone e.text.toList) :
    pieces (segments.flatMap Segment.original) = segments.flatMap (fun s => pieces s.original) ∧
      pieces (segments.flatMap Segment.text) = segments.flatMap (fun s => pieces s.text) ∧
      (closesComment (segments.flatMap Segment.text) = true →
        closesComment (segments.flatMap Segment.original) = true) := by
  induction hturns with
  | last t => simp
  | @turn t e segments hturns ih =>
    have hx := halone e (by simp)
    have hhere := hcut [.kept t] e segments rfl
    simp only [List.flatMap_cons, List.flatMap_nil, Segment.original_kept,
      Segment.original_inserted, Segment.text_kept, Segment.text_inserted, List.append_nil,
      List.nil_append, pieces_nil] at hscans hhere ⊢
    have hrest : Scans body (segments.flatMap Segment.original) := by
      rcases hhere with rfl | ⟨d, hd, hd'⟩
      · exact hscans
      · exact hd'.trans (.separator hd _)
    obtain ⟨hsource, htext, hclose⟩ := ih hrest
      (fun before e' after h => by
        have := hcut (.kept t :: .inserted e :: before) e' after (by rw [h]; rfl)
        simp only [List.flatMap_cons, Segment.original_inserted, List.nil_append,
          List.append_eq_nil_iff] at this
        exact this.imp_left And.right)
      (fun e' he' => halone e' (by simp [he']))
    have hinsert : closesComment (e.text.toList ++ segments.flatMap Segment.text) = true →
        closesComment (segments.flatMap Segment.original) = true := by
      rw [closesComment_append_of_not_mem hx.no_star]
      exact hclose
    rw [← hsource, ← htext, ← hx.pieces_append]
    exact pieces_insert hbody hscans hhere hinsert

/-! ## Edits -/

/-- A place where an insertion breaks no token and no comment: scanning the source comes to a
    separator right before it, or it is the start of a source without a byte order mark. -/
def BetweenTokens (source : List Char) (offset : Nat) : Prop :=
  (offset = 0 ∧ unmarked source = source) ∨
    ∃ d ∈ separators, ∃ a b, source = a ++ d :: b ∧ byteSize (a ++ [d]) = offset ∧
      Scans (unmarked source) (d :: b)

theorem BetweenTokens.isBoundary {source : List Char} {offset : Nat}
    (h : BetweenTokens source offset) : Text.isBoundary source offset = true := by
  rcases h with ⟨rfl, -⟩ | ⟨d, -, a, b, hs, hsize, -⟩
  · exact isBoundary_zero source
  · exact isBoundary_iff.2 ⟨a ++ [d], b, by simp [hs], hsize⟩

/-- A text with some segments has the tokens and the comments of its segments, one segment after
    the other, and so has its source. -/
structure TokensApart (source text : List Char) (segments : List Segment) : Prop where
  source_tokens : lexemes source = segments.flatMap fun s => lexemes s.original
  source_comments : remarks source = segments.flatMap fun s => remarks s.original
  text_tokens : lexemes text = segments.flatMap fun s => lexemes s.text
  text_comments : remarks text = segments.flatMap fun s => remarks s.text

theorem tokensApart_of_pieces {source text : List Char} {segments : List Segment}
    (hsource : pieces (unmarked source) = segments.flatMap fun s => pieces (unmarked s.original))
    (htext : pieces (unmarked text) = segments.flatMap fun s => pieces (unmarked s.text)) :
    TokensApart source text segments := by
  constructor <;>
    simp only [lexemes_eq, remarks_eq, hsource, htext, List.filterMap_flatMap]

/-- Two starts of a text with as many bytes are the same. -/
theorem append_inj_of_byteSize {a b c d : List Char} (h : a ++ b = c ++ d)
    (hsize : byteSize a = byteSize c) : a = c ∧ b = d := by
  obtain ⟨m, rfl, rfl⟩ := exists_append_of_byteSize_le h hsize.le
  obtain ⟨m', hm, -⟩ := exists_append_of_byteSize_le h.symm hsize.ge
  have hnil : m ++ m' = [] := by
    rw [List.append_assoc] at hm
    exact List.append_cancel_left (hm.symm.trans (List.append_nil a).symm)
  rw [(List.append_eq_nil_iff.1 hnil).1]
  simp

namespace IsSplice

variable {source text : List Char} {edits : List Edit} {segments : List Segment}

/-- Only edits are inserted. -/
theorem mem_edits (h : IsSplice source edits text segments) {e : Edit}
    (he : .inserted e ∈ segments) : e ∈ edits := by
  have hmem : e ∈ (segments.filterMap Segment.edit?).filter (·.offset = e.offset) := by
    rw [List.mem_filter, List.mem_filterMap]
    exact ⟨⟨_, he, rfl⟩, by simp⟩
  rw [h.edits_eq] at hmem
  exact (List.mem_filter.1 hmem).1

/-- What is kept after an insertion between tokens, to which scanning comes. -/
theorem scans_after (h : IsSplice source edits text segments)
    (hedits : ∀ e ∈ edits, BetweenTokens source e.offset) (before : List Segment) (e : Edit)
    (after : List Segment) (hs : segments = before ++ .inserted e :: after) :
    (before.flatMap Segment.original = [] ∧ unmarked source = source) ∨
      ∃ d ∈ separators, Scans (unmarked source) (d :: after.flatMap Segment.original) := by
  have hoffset := h.offset_eq before e after hs
  have hsource : source = before.flatMap Segment.original ++ after.flatMap Segment.original := by
    rw [← h.source_eq, hs]
    simp
  rcases hedits e (h.mem_edits (by simp [hs])) with
    ⟨hzero, hmark⟩ | ⟨d, hd, a, b, hab, hsize, hscans⟩
  · refine .inl ⟨?_, hmark⟩
    exact (append_inj_of_byteSize (hsource.symm.trans (List.nil_append source).symm)
      (hoffset.trans hzero)).1
  · refine .inr ⟨d, hd, ?_⟩
    rw [List.append_cons, hsource] at hab
    rw [(append_inj_of_byteSize hab (hoffset.trans hsize.symm)).2]
    exact hscans

end IsSplice

theorem Alternating.exists_kept {segments : List Segment} (h : Alternating segments) :
    ∃ t rest, segments = .kept t :: rest := by
  cases h with
  | last t => exact ⟨t, [], rfl⟩
  | turn t e _ => exact ⟨t, _, rfl⟩

theorem Alternating.exchange {t : List Char} {rest : List Segment}
    (h : Alternating (.kept t :: rest)) (t' : List Char) : Alternating (.kept t' :: rest) := by
  cases h with
  | last => exact .last t'
  | turn _ e h => exact .turn t' e h

namespace IsSplice

variable {source text t : List Char} {edits : List Edit} {rest : List Segment}

/-- A byte order mark is part of the first stretch that is kept. -/
theorem unmarked_source (h : IsSplice source edits text (.kept t :: rest))
    (hturns : Alternating (.kept t :: rest))
    (hedits : ∀ e ∈ edits, BetweenTokens source e.offset) :
    unmarked source = unmarked t ++ rest.flatMap Segment.original := by
  have hsource : source = t ++ rest.flatMap Segment.original := by simp [← h.source_eq]
  by_cases ht : t = []
  · subst ht
    rw [List.nil_append] at hsource
    change unmarked source = rest.flatMap Segment.original
    cases hturns with
    | last => rw [hsource]; rfl
    | @turn _ e segments hturns =>
      rcases h.scans_after hedits [.kept []] e segments rfl with ⟨-, hmark⟩ | ⟨d, -, hscans⟩
      · rw [hmark, hsource]
      · -- scanning cannot come to more than there is
        have hle := hscans.length_le.trans (length_unmarked_le source)
        have hlength : source.length = (segments.flatMap Segment.original).length := by
          rw [hsource]
          rfl
        rw [List.length_cons] at hle
        omega
  · rw [hsource, unmarked_append ht]

/-- The segments after a byte order mark are cut into pieces one by one. -/
theorem pieces_unmarked (h : IsSplice source edits text (.kept t :: rest))
    (hturns : Alternating (.kept t :: rest))
    (hproper : ∀ p ∈ pieces (unmarked source), p.1 ≠ .token .stray)
    (hedits : ∀ e ∈ edits, BetweenTokens source e.offset)
    (halone : ∀ e ∈ edits, StandsAlone e.text.toList) :
    pieces (unmarked source) = pieces (unmarked t) ++ rest.flatMap (fun s => pieces s.original) ∧
      pieces (unmarked t ++ rest.flatMap Segment.text) =
        pieces (unmarked t) ++ rest.flatMap (fun s => pieces s.text) := by
  have hsource := h.unmarked_source hturns hedits
  have hscans : Scans (unmarked source)
      ((Segment.kept (unmarked t) :: rest).flatMap Segment.original) := by
    rw [hsource]
    exact .here _
  have hcut : ∀ before e after, .kept (unmarked t) :: rest = before ++ .inserted e :: after →
      before.flatMap Segment.original = [] ∨
        ∃ d ∈ separators, Scans (unmarked source) (d :: after.flatMap Segment.original) := by
    intro before e after hs
    cases before with
    | nil => cases hs
    | cons s before =>
      obtain ⟨rfl, rfl⟩ := List.cons.inj hs
      refine (h.scans_after hedits (.kept t :: before) e after rfl).imp_left fun hnil => ?_
      simp only [List.flatMap_cons, Segment.original_kept, List.append_eq_nil_iff] at hnil ⊢
      exact ⟨by rw [hnil.1.1]; rfl, hnil.1.2⟩
  obtain ⟨hpieces, hpieces', -⟩ := pieces_segments hproper (hturns.exchange _) hscans hcut
    fun e he => halone e (h.mem_edits (by simpa using he))
  rw [hsource]
  exact ⟨hpieces, hpieces'⟩

/-- Insertions between the tokens of a source break none of its tokens and comments. -/
theorem tokensApart {segments : List Segment} (h : IsSplice source edits text segments)
    (hturns : Alternating segments)
    (hproper : ∀ p ∈ pieces (unmarked source), p.1 ≠ .token .stray)
    (hedits : ∀ e ∈ edits, BetweenTokens source e.offset)
    (halone : ∀ e ∈ edits, StandsAlone e.text.toList) : TokensApart source text segments := by
  obtain ⟨t, rest, rfl⟩ := hturns.exists_kept
  obtain ⟨hsource, htext⟩ := h.pieces_unmarked hturns hproper hedits halone
  have hkept : ∀ k, .kept k ∈ rest → ∀ p ∈ pieces k, p.1 ≠ .token .stray := by
    intro k hk p hp
    refine hproper p ?_
    rw [hsource]
    exact List.mem_append_right _ (List.mem_flatMap.2 ⟨_, hk, hp⟩)
  have hinserted : ∀ e, .inserted e ∈ rest → ∀ p ∈ pieces e.text.toList, p.1 ≠ .token .stray :=
    fun e he => (halone e (h.mem_edits (List.mem_cons_of_mem _ he))).proper
  -- so a byte order mark is skipped in the first stretch and nowhere else
  have horiginal : ∀ s ∈ rest, pieces s.original = pieces (unmarked s.original) := by
    intro s hs
    cases s with
    | kept k => exact congrArg pieces (unmarked_of_proper (hkept k hs)).symm
    | inserted e => rfl
  have hinsert : ∀ s ∈ rest, pieces s.text = pieces (unmarked s.text) := by
    intro s hs
    cases s with
    | kept k => exact congrArg pieces (unmarked_of_proper (hkept k hs)).symm
    | inserted e => exact congrArg pieces (unmarked_of_proper (hinserted e hs)).symm
  have hmark : unmarked text = unmarked t ++ rest.flatMap Segment.text := by
    have hsplit : text = t ++ rest.flatMap Segment.text := by simp [← h.text_eq]
    by_cases ht : t = []
    · subst ht
      rw [hsplit]
      refine unmarked_of_proper fun p hp => ?_
      rw [show unmarked [] = [] from rfl] at htext
      rw [htext, pieces_nil, List.nil_append] at hp
      obtain ⟨s, hs, hp⟩ := List.mem_flatMap.1 hp
      cases s with
      | kept k => exact hkept k hs p hp
      | inserted e => exact hinserted e hs p hp
    · rw [hsplit, unmarked_append ht]
  apply tokensApart_of_pieces
  · rw [hsource, List.flatMap_congr horiginal]
    rfl
  · rw [hmark, htext, List.flatMap_congr hinsert]
    rfl

end IsSplice

end Tracepoint.Source
