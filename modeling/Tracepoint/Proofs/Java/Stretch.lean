import Tracepoint.Proofs.Java.Alike
import Tracepoint.Proofs.Text.Blanks

/-!
# The text of a range of tokens

A range that goes over tokens holds pieces of the text: these tokens, and white space and comments
between them. So what is written there can be told from the tokens, up to white space, unless a
comment of the text lies in the range.

Results:

* `Span.Over.exists_stretch`: the pieces that a range holds.
* `Stretch.squeeze_eq`, `Stretch.eq_of_compact`: the text of the tokens in a range, up to white
  space or where there is none.
-/

namespace Tracepoint.Java

open Text

/-! ## Parts of the pieces of a text -/

/-- Parts of a sequence of located pieces are sequences of located pieces. -/
theorem located_eq_append {position : Nat} {ps : List (Piece × List Char)}
    {xs ys : List (Span × Piece × List Char)} (h : located position ps = xs ++ ys) :
    ∃ qs rs, ps = qs ++ rs ∧ xs = located position qs ∧
      ys = located (position + byteSize (textOf qs)) rs := by
  have hps : ps = xs.map (·.2) ++ ys.map (·.2) := by
    rw [← List.map_append, ← h, map_snd_located]
  refine ⟨_, _, hps, ?_⟩
  rw [hps, located_append] at h
  have hlength : (located position (xs.map (·.2))).length = xs.length := by
    rw [← List.length_map (·.2), map_snd_located, List.length_map]
  obtain ⟨hxs, hys⟩ := List.append_inj h hlength
  exact ⟨hxs.symm, hys.symm⟩

/-- The ranges of located pieces lie where their text does. -/
theorem exists_mem_located {position : Nat} {ps : List (Piece × List Char)}
    {p : Piece × List Char} (h : p ∈ ps) :
    ∃ s : Span, (s, p) ∈ located position ps ∧ position ≤ s.start ∧
      s.stop ≤ position + byteSize (textOf ps) := by
  induction ps generalizing position with
  | nil => simp at h
  | cons q ps ih =>
    rw [located, textOf_cons, byteSize_append]
    rcases List.mem_cons.1 h with rfl | h
    · exact ⟨_, List.mem_cons_self, Nat.le_refl _, by simp⟩
    · obtain ⟨s, hs, hstart, hstop⟩ := @ih (position + byteSize q.2) h
      exact ⟨s, List.mem_cons_of_mem _ hs, by omega, by omega⟩

/-! ## Ranges over tokens -/

/-- Consecutive pieces of a text. They start and end with tokens. -/
structure Stretch (source : List Char) (ts : List Token) (s : Span)
    (ps : List (Piece × List Char)) : Prop where
  slice_eq : slice source s.start s.stop = textOf ps
  lexemes_eq : ps.filterMap lexeme? = ts.map Token.reading
  within : ∃ before after, pieces (unmarked source) = before ++ ps ++ after
  comments : ∀ p ∈ ps, p.1 = .comment →
    ∃ c ∈ (lex source).comments, s.start ≤ c.start ∧ c.stop ≤ s.stop
  first : ∃ p ∈ ps.head?, (lexeme? p).isSome
  last : ∃ p ∈ ps.getLast?, (lexeme? p).isSome

/-- Some first tokens come from located pieces, of which the first and the last are tokens. -/
theorem exists_of_filterMap_tokenOf? {t : Token} {ts us : List Token}
    {xs : List (Span × Piece × List Char)} (h : xs.filterMap tokenOf? = t :: ts ++ us) :
    ∃ lead x ys rest, xs = lead ++ (x :: ys) ++ rest ∧ lead.filterMap tokenOf? = [] ∧
      tokenOf? x = some t ∧ ys.filterMap tokenOf? = ts ∧
      ∃ y ∈ (x :: ys).getLast?, tokenOf? y = (t :: ts).getLast? := by
  induction ts generalizing t xs with
  | nil =>
    obtain ⟨lead, x, rest, rfl, hlead, hx, -⟩ := List.filterMap_eq_cons_iff.1 h
    exact ⟨lead, x, [], rest, by simp, List.filterMap_eq_nil_iff.2 hlead, hx, rfl, x, rfl, hx⟩
  | cons u ts ih =>
    obtain ⟨lead, x, rest, rfl, hlead, hx, hrest⟩ := List.filterMap_eq_cons_iff.1 h
    obtain ⟨lead', x', ys, rest', rfl, hlead', hx', hys, y, hy, hlast⟩ := ih hrest
    refine ⟨lead, x, lead' ++ x' :: ys, rest', by simp, List.filterMap_eq_nil_iff.2 hlead, hx, ?_,
      y, ?_, hlast⟩
    · rw [List.filterMap_append, hlead', List.filterMap_cons_some hx', hys, List.nil_append]
    · rw [← List.cons_append, List.getLast?_append, Option.mem_def.1 hy]
      rfl

theorem tokenOf?_eq_some {x : Span × Piece × List Char} {t : Token} (h : tokenOf? x = some t) :
    x.1 = t.span ∧ lexeme? x.2 = some t.reading := by
  obtain ⟨s, piece, text⟩ := x
  cases piece with
  | gap => cases h
  | comment => cases h
  | token lexeme =>
    cases h
    exact ⟨rfl, rfl⟩

/-- Located pieces follow each other. -/
theorem located_last {position : Nat} {ps : List (Piece × List Char)}
    {y : Span × Piece × List Char} (h : y ∈ (located position ps).getLast?) :
    y.1.stop = position + byteSize (textOf ps) := by
  induction ps generalizing position with
  | nil => cases h
  | cons p ps ih =>
    rw [located] at h
    rw [textOf_cons, byteSize_append, ← Nat.add_assoc]
    cases ps with
    | nil =>
      cases h
      simp [located]
    | cons q ps => exact ih (by simpa [located] using h)

/-- A range over tokens of a text holds pieces of it. -/
theorem Span.Over.exists_stretch {source : List Char} {ts : List Token} {s : Span}
    (h : s.Over (lex source).tokens ts) (hts : ts ≠ []) : ∃ ps, Stretch source ts s ps := by
  obtain ⟨pre, hsource, hlex⟩ := lex_eq source
  have htokens := (lexAt_eq (byteSize pre) (unmarked source)).1
  have hcomments := (lexAt_eq (byteSize pre) (unmarked source)).2
  rw [← hlex] at htokens hcomments
  obtain ⟨before, after, hwithin⟩ := h.within
  rw [htokens] at hwithin
  obtain ⟨t, more, rfl⟩ := List.exists_cons_of_ne_nil hts
  rw [List.append_assoc] at hwithin
  obtain ⟨xs, ys, hxs, -, hys⟩ := List.filterMap_eq_append_iff.1 hwithin.symm
  obtain ⟨lead, x, seg, rest, rfl, -, hx, hseg, y, hy, hlast⟩ := exists_of_filterMap_tokenOf? hys
  obtain ⟨qs, rs, hqs, hlead, hrs⟩ :=
    @located_eq_append _ _ (xs ++ lead) (x :: seg ++ rest) (by simpa using hxs)
  obtain ⟨ps, zs, rfl, hps, -⟩ := located_eq_append hrs.symm
  obtain ⟨u, hu⟩ : ∃ u, (t :: more).getLast? = some u := ⟨_, List.getLast?_cons⟩
  rw [hu] at hlast
  have hmap : ps = (x :: seg).map (·.2) := by rw [hps, map_snd_located]
  have hstart : s.start = byteSize (pre ++ textOf qs) := by
    rw [h.start t rfl, ← (tokenOf?_eq_some hx).1, byteSize_append]
    cases ps with
    | nil => cases hps
    | cons p ps =>
      rw [located, List.cons.injEq] at hps
      rw [hps.1]
  have hstop : s.stop = byteSize (pre ++ textOf qs) + byteSize (textOf ps) := by
    rw [h.stop u hu, ← (tokenOf?_eq_some hlast).1, byteSize_append]
    exact located_last (hps ▸ hy)
  have hsplit : source = pre ++ textOf qs ++ textOf ps ++ textOf zs := by
    conv_lhs => rw [hsource, ← textOf_pieces (unmarked source), hqs]
    simp
  refine ⟨ps, ?_, ?_, ⟨qs, zs, by simpa using hqs⟩, ?_, ⟨x.2, ?_, ?_⟩, ⟨y.2, ?_, ?_⟩⟩
  · rw [hstart, hstop]
    conv_lhs => rw [hsplit]
    exact slice_append _ _ _
  · rw [hmap, filterMap_lexeme?_eq, List.filterMap_cons_some hx, hseg]
  · intro p hp hcomment
    obtain ⟨c, hc, hle, hge⟩ :=
      @exists_mem_located (byteSize pre + byteSize (textOf qs)) _ _ hp
    refine ⟨c, ?_, by rw [hstart, byteSize_append]; exact hle,
      by rw [hstop, byteSize_append]; exact hge⟩
    rw [hcomments, hqs, located_append, located_append, List.filterMap_append,
      List.filterMap_append]
    refine List.mem_append_right _ (List.mem_append_left _ (List.mem_filterMap.2 ⟨_, hc, ?_⟩))
    rw [← Prod.eta p, hcomment]
    rfl
  · rw [hmap]
    rfl
  · rw [(tokenOf?_eq_some hx).2]
    rfl
  · rw [hmap, List.getLast?_map, Option.mem_def.1 hy]
    rfl
  · rw [(tokenOf?_eq_some hlast).2]
    rfl

/-! ## What pieces are like -/

/-- A piece of a text starts with some character, on which it depends. -/
theorem exists_pieceAt {cs : List Char} {p : Piece × List Char}
    {before after : List (Piece × List Char)}
    (h : pieces cs = before ++ p :: after) :
    ∃ d ds, p.1 = (pieceAt d ds).1 ∧ p.2 = d :: ds.take (pieceAt d ds).2 ∧
      textOf after = ds.drop (pieceAt d ds).2 := by
  obtain ⟨ds, -, hds⟩ := eq_pieces_of_append h
  cases ds with
  | nil => simp at hds
  | cons d ds =>
    rw [pieces_cons (Prod.eta (pieceAt d ds)).symm, List.cons.injEq] at hds
    exact ⟨d, ds, by rw [hds.1], by rw [hds.1], by rw [hds.2, textOf_pieces]⟩

/-- White space comes one character at a time. -/
theorem eq_of_gap {cs : List Char} {p : Piece × List Char} (hp : p ∈ pieces cs) (h : p.1 = .gap) :
    ∃ c, p.2 = [c] ∧ isGap c = true := by
  obtain ⟨before, after, hsplit⟩ := List.append_of_mem hp
  obtain ⟨d, ds, hpiece, htext, -⟩ := exists_pieceAt hsplit
  rw [h] at hpiece
  unfold pieceAt at hpiece htext
  by_cases hgap : isGap d = true
  · simp only [hgap, if_true, List.take_zero] at htext
    exact ⟨d, htext, hgap⟩
  · simp only [hgap, if_false, Bool.false_eq_true] at hpiece
    repeat' split at hpiece
    all_goals cases hpiece

/-- A comment starts with a slash. -/
theorem head?_of_comment {cs : List Char} {p : Piece × List Char} (hp : p ∈ pieces cs)
    (h : p.1 = .comment) : p.2.head? = some '/' := by
  obtain ⟨before, after, hsplit⟩ := List.append_of_mem hp
  obtain ⟨d, ds, hpiece, htext, -⟩ := exists_pieceAt hsplit
  rw [h] at hpiece
  rw [htext]
  by_cases hd : d = '/'
  · rw [hd]
    rfl
  · unfold pieceAt at hpiece
    simp only [hd, beq_iff_eq, if_false] at hpiece
    repeat' split at hpiece
    all_goals cases hpiece

/-- After a word there is no character that continues it. -/
theorem isIdentifierPart_after_word {cs : List Char} {p : Piece × List Char}
    {before after : List (Piece × List Char)} (h : pieces cs = before ++ p :: after)
    (hp : p.1 = .token .word) : ∀ c ∈ (textOf after).head?, isIdentifierPart c = false := by
  obtain ⟨d, ds, hpiece, -, hafter⟩ := exists_pieceAt h
  rw [hp] at hpiece
  have hlength : (pieceAt d ds).2 = (ds.takeWhile isIdentifierPart).length := by
    unfold pieceAt at hpiece ⊢
    by_cases hgap : isGap d = true
    · simp [hgap] at hpiece
    by_cases hstart : isIdentifierStart d = true
    · simp [hgap, hstart]
    · simp only [hgap, hstart, if_false, Bool.false_eq_true] at hpiece
      repeat' split at hpiece
      all_goals simp at hpiece
  have hdrop : ds.drop (ds.takeWhile isIdentifierPart).length = ds.dropWhile isIdentifierPart := by
    have hsplit := List.takeWhile_append_dropWhile (p := isIdentifierPart) (l := ds)
    conv_lhs => rhs; rw [← hsplit]
    exact List.drop_left
  have hnot := List.head?_dropWhile_not isIdentifierPart ds
  intro c hc
  rw [hafter, hlength, hdrop] at hc
  rwa [Option.mem_def.1 hc] at hnot

/-- What starts with a letter is a word. -/
theorem eq_word_of_start {cs : List Char} {p : Piece × List Char} (hp : p ∈ pieces cs)
    (h : ∀ c ∈ p.2.head?, isIdentifierStart c = true) : p.1 = .token .word := by
  obtain ⟨before, after, hsplit⟩ := List.append_of_mem hp
  obtain ⟨d, ds, hpiece, htext, -⟩ := exists_pieceAt hsplit
  have hd := h d (by rw [htext]; rfl)
  rw [hpiece]
  simp [pieceAt, isGap_of_isIdentifierStart hd, hd]

/-! ## Text without comments -/

/-- No comment of a source lies in a range. -/
def CommentFree (source : List Char) (s : Span) : Prop :=
  ∀ c ∈ (lex source).comments, ¬ (s.start ≤ c.start ∧ c.stop ≤ s.stop)

instance (source : List Char) (s : Span) : Decidable (CommentFree source s) :=
  inferInstanceAs (Decidable (∀ c ∈ (lex source).comments, ¬ (s.start ≤ c.start ∧ c.stop ≤ s.stop)))

theorem isBlank_of_isGap {c : Char} (h : isGap c = true) : isBlank c = true := by
  simp only [isGap, Bool.or_eq_true, Bool.and_eq_true, decide_eq_true_eq, beq_iff_eq] at h
  simp only [isBlank, Bool.or_eq_true, Bool.and_eq_true, decide_eq_true_eq, beq_iff_eq]
  rcases h with h | rfl
  · omega
  · decide

/-- Pieces without comments are tokens and white space. -/
theorem eq_gap_of_lexeme?_eq_none {p : Piece × List Char} (h : lexeme? p = none)
    (hp : p.1 ≠ .comment) : p.1 = .gap := by
  obtain ⟨piece, text⟩ := p
  cases piece with
  | gap => rfl
  | comment => exact absurd rfl hp
  | token lexeme => cases h

theorem textOf_of_lexeme? {p : Piece × List Char} {r : Lexeme × String} (h : lexeme? p = some r) :
    p.2 = r.2.toList := by
  obtain ⟨piece, text⟩ := p
  cases piece with
  | gap => cases h
  | comment => cases h
  | token lexeme =>
    cases h
    simp

/-- Where there is white space between tokens and no comment, nothing is left of it without
    blanks. -/
theorem squeeze_textOf {cs : List Char} {ps : List (Piece × List Char)}
    (hps : ∀ p ∈ ps, p ∈ pieces cs) (hfree : ∀ p ∈ ps, p.1 ≠ .comment) :
    squeeze (textOf ps) = (ps.filterMap lexeme?).flatMap fun r => squeeze r.2.toList := by
  induction ps with
  | nil => rfl
  | cons p ps ih =>
    have hrest := ih (fun q hq => hps q (List.mem_cons_of_mem _ hq))
      fun q hq => hfree q (List.mem_cons_of_mem _ hq)
    rw [textOf_cons, squeeze_append, hrest]
    cases hp : lexeme? p with
    | some r =>
      rw [List.filterMap_cons_some hp, List.flatMap_cons, textOf_of_lexeme? hp]
    | none =>
      rw [List.filterMap_cons_none hp]
      obtain ⟨c, hc, hgap⟩ := eq_of_gap (hps p List.mem_cons_self)
        (eq_gap_of_lexeme?_eq_none hp (hfree p List.mem_cons_self))
      rw [hc, squeeze_of_blank (by simpa using isBlank_of_isGap hgap), List.nil_append]

/-- Where no white space and no slash stands, there are only tokens. -/
theorem textOf_eq {cs : List Char} {ps : List (Piece × List Char)} (hps : ∀ p ∈ ps, p ∈ pieces cs)
    (hcompact : ∀ c ∈ textOf ps, isGap c = false ∧ c ≠ '/') :
    textOf ps = (ps.filterMap lexeme?).flatMap (·.2.toList) := by
  induction ps with
  | nil => rfl
  | cons p ps ih =>
    rw [textOf_cons] at hcompact ⊢
    have hrest := ih (fun q hq => hps q (List.mem_cons_of_mem _ hq))
      fun c hc => hcompact c (List.mem_append_right _ hc)
    rw [hrest]
    cases hp : lexeme? p with
    | some r =>
      rw [List.filterMap_cons_some hp, List.flatMap_cons, textOf_of_lexeme? hp]
    | none =>
      -- neither white space nor a comment can be there
      by_cases hcomment : p.1 = .comment
      · have hslash := head?_of_comment (hps p List.mem_cons_self) hcomment
        have hmem : '/' ∈ p.2 := List.mem_of_mem_head? hslash
        exact absurd rfl (hcompact _ (List.mem_append_left _ hmem)).2
      · obtain ⟨c, hc, hgap⟩ := eq_of_gap (hps p List.mem_cons_self)
          (eq_gap_of_lexeme?_eq_none hp hcomment)
        have hno := (hcompact c (List.mem_append_left _ (by rw [hc]; exact List.mem_cons_self))).1
        rw [hgap] at hno
        cases hno

namespace Stretch

variable {source : List Char} {ts : List Token} {s : Span} {ps : List (Piece × List Char)}

theorem mem_pieces (h : Stretch source ts s ps) : ∀ p ∈ ps, p ∈ pieces (unmarked source) := by
  obtain ⟨before, after, heq⟩ := h.within
  intro p hp
  rw [heq]
  exact List.mem_append_left _ (List.mem_append_right _ hp)

theorem ne_comment (h : Stretch source ts s ps) (hfree : CommentFree source s) :
    ∀ p ∈ ps, p.1 ≠ .comment := by
  intro p hp hcomment
  obtain ⟨c, hc, hin⟩ := h.comments p hp hcomment
  exact hfree c hc hin

/-- The first and the last piece are the first and the last token. -/
theorem exists_ends {first last : Token} {mid : List Token}
    (h : Stretch source (first :: mid ++ [last]) s ps) :
    ∃ p qs q, ps = p :: qs ++ [q] ∧ lexeme? p = some first.reading ∧
      qs.filterMap lexeme? = mid.map Token.reading ∧ lexeme? q = some last.reading := by
  have hlexemes := h.lexemes_eq
  obtain ⟨p, hp, hpSome⟩ := h.first
  obtain ⟨q, hq, hqSome⟩ := h.last
  obtain ⟨r, hr⟩ := Option.isSome_iff_exists.1 hpSome
  obtain ⟨r', hr'⟩ := Option.isSome_iff_exists.1 hqSome
  cases ps with
  | nil => cases hp
  | cons x rest =>
    cases hp
    rw [List.filterMap_cons_some hr, List.cons_append, List.map_cons, List.cons.injEq] at hlexemes
    have hne : rest ≠ [] := by
      rintro rfl
      simp at hlexemes
    rw [List.getLast?_cons_of_ne_nil hne] at hq
    have hrest := List.dropLast_append_getLast? q hq
    rw [← hrest, List.filterMap_append, List.filterMap_cons_some hr', List.map_append] at hlexemes
    obtain ⟨hmid, hlast⟩ := List.append_inj' hlexemes.2 rfl
    refine ⟨p, rest.dropLast, q, by rw [List.cons_append, hrest], hlexemes.1 ▸ hr, hmid, ?_⟩
    rw [hr']
    simpa using hlast

/-- Without comments, the text of a range without blanks is that of its tokens. -/
theorem squeeze_eq (h : Stretch source ts s ps) (hfree : CommentFree source s) :
    squeeze (slice source s.start s.stop) =
      (ts.map Token.reading).flatMap fun r => squeeze r.2.toList := by
  rw [h.slice_eq, squeeze_textOf h.mem_pieces (h.ne_comment hfree), h.lexemes_eq]

/-- Without white space and slashes, the text of a range is that of its tokens. -/
theorem eq_of_compact (h : Stretch source ts s ps)
    (hcompact : ∀ c ∈ slice source s.start s.stop, isGap c = false ∧ c ≠ '/') :
    slice source s.start s.stop = (ts.map Token.reading).flatMap (·.2.toList) := by
  rw [h.slice_eq] at hcompact ⊢
  rw [textOf_eq h.mem_pieces hcompact, h.lexemes_eq]

end Stretch

end Tracepoint.Java
