import Tracepoint.Proofs.Java.Stretch
import Tracepoint.Proofs.Text.Split
import Tracepoint.Source.Import

/-!
# Imports and the tokens of their declarations

An import is read from the text of its declaration and not from the tokens there. Blanks do not
count, so that the import is the one that the tokens make, unless a comment stands in the
declaration.

Results:

* `splitStatic_of_blank`, `splitStatic_of_ne`: the word `static` is found if it is the first one.
* `parse?_of_over`: an import declaration without comments is read as its tokens say.
-/

namespace Tracepoint.Source

open Java Text

namespace Import

/-- The import with a path, in which `.*` can come last. -/
def ofPath (line : Nat) (isStatic : Bool) (path : List Char) : Import :=
  match dropEnd? ['.', '*'] path with
  | some package => ⟨String.ofList package, isStatic, true, line⟩
  | none => ⟨String.ofList path, isStatic, false, line⟩

/-- The import with a path given by its tokens and whether the word `static` comes first. -/
def ofParts (line : Nat) : List (Lexeme × String) → Import
  | [] => ofPath line false []
  | r :: more =>
    if r.2 = "static" then ofPath line true (more.flatMap fun r => squeeze r.2.toList)
    else ofPath line false ((r :: more).flatMap fun r => squeeze r.2.toList)

theorem ofPath_append_star (line : Nat) (isStatic : Bool) (path : List Char) :
    ofPath line isStatic (path ++ ['.', '*']) = ⟨String.ofList path, isStatic, true, line⟩ := by
  rw [ofPath, dropEnd?_eq_some_iff.2 rfl]

theorem ofPath_of_not_mem {path : List Char} (h : '*' ∉ path) (line : Nat) (isStatic : Bool) :
    ofPath line isStatic path = ⟨String.ofList path, isStatic, false, line⟩ := by
  have hnone : dropEnd? ['.', '*'] path = none := by
    by_contra hsome
    obtain ⟨package, hdrop⟩ := Option.ne_none_iff_exists'.1 hsome
    rw [dropEnd?_eq_some_iff.1 hdrop] at h
    simp at h
  rw [ofPath, hnone]

theorem dropSemicolons_concat {s : List Char} (h : ';' ∉ s) : dropSemicolons (s ++ [';']) = s := by
  have hs : s.reverse.dropWhile (· == ';') = s.reverse := by
    cases hr : s.reverse with
    | nil => rfl
    | cons c cs =>
      have hc : c ∈ s := List.mem_reverse.1 (by rw [hr]; exact List.mem_cons_self)
      rw [List.dropWhile_cons_of_neg]
      simp only [beq_iff_eq]
      exact fun heq => h (heq ▸ hc)
  rw [dropSemicolons, List.reverse_append, List.reverse_singleton, List.singleton_append,
    List.dropWhile_cons_of_pos (by rfl), hs, List.reverse_reverse]

theorem parse?_congr {s t : List Char} (h : trim s = trim t) (line : Nat) :
    parse? s line = parse? t line := by
  rw [parse?, parse?, h]

/-- What is read between the word `import` and a semicolon. -/
theorem parse?_eq {body : List Char} (h : ';' ∉ body) (line : Nat) :
    parse? ("import".toList ++ body ++ [';']) line =
      some (ofPath line (splitStatic (trim body)).1 (squeeze (splitStatic (trim body)).2)) := by
  have hsemicolon : isBlank ';' = false := by decide
  have htext : trim ("import".toList ++ body ++ [';']) = "import".toList ++ (body ++ [';']) := by
    rw [trim, List.append_assoc]
    have hstart : trimStart ("import".toList ++ (body ++ [';'])) =
        "import".toList ++ (body ++ [';']) := trimStart_cons_of_solid (by decide) _
    rw [hstart, ← List.append_assoc, trimEnd_concat_of_solid hsemicolon, List.append_assoc]
  have hbody : trim (dropSemicolons (trim (body ++ [';']))) = trim body := by
    have hstart : trimStart (body ++ [';']) = trimStart body ++ [';'] := by
      rw [trimStart, List.dropWhile_append]
      split_ifs with hempty
      · rw [trimStart, List.isEmpty_iff.1 hempty]
        exact trimStart_cons_of_solid hsemicolon []
      · rfl
    have hnot : ';' ∉ trimStart body := fun hmem => h ((List.dropWhile_suffix _).mem hmem)
    rw [trim, trim, hstart, trimEnd_concat_of_solid hsemicolon, dropSemicolons_concat hnot,
      trimStart_trimStart, ← trim]
  unfold parse?
  rw [htext, dropStart?_eq_some_iff.2 rfl]
  simp only [Option.bind_eq_bind, Option.bind_some, hbody]
  unfold ofPath
  split <;> simp_all

/-! ## The word `static` -/

theorem splitStatic_of_blank {c : Char} {s : List Char} (h : isBlank c = true) :
    splitStatic ("static".toList ++ c :: s) = (true, trim (c :: s)) := by
  unfold splitStatic
  rw [dropStart?_eq_some_iff.2 rfl]
  simp only [h, if_true]

/-- The word `static` counts only if a blank follows it. -/
theorem splitStatic_of_not_blank {s : List Char}
    (h : ∀ c rest, s = "static".toList ++ c :: rest → isBlank c = false) :
    splitStatic s = (false, s) := by
  unfold splitStatic
  split
  · rename_i c rest hdrop
    rw [if_neg (by rw [h c rest (dropStart?_eq_some_iff.1 hdrop)]; exact Bool.false_ne_true)]
  · rfl

/-- Another word at the start is not taken for `static`. -/
theorem splitStatic_of_ne {w s : List Char} (hw : ∀ c ∈ w, isBlank c = false)
    (hne : w ≠ "static".toList) (hs : ∀ c ∈ s.head?, c ∉ "static".toList) :
    splitStatic (w ++ s) = (false, w ++ s) := by
  refine splitStatic_of_not_blank fun c rest heq => ?_
  rcases List.append_eq_append_iff.1 heq with ⟨a, hstatic, rfl⟩ | ⟨a, rfl, hrest⟩
  · -- the word ends within `static`, and what follows does not go on with it
    cases a with
    | nil => exact absurd (by simpa using hstatic.symm) hne
    | cons d a => exact absurd (by rw [hstatic]; simp) (hs d rfl)
  · -- what follows `static` stands in the word
    cases a with
    | nil => exact absurd (List.append_nil _) hne
    | cons d a =>
      obtain ⟨rfl, -⟩ := List.cons.inj hrest
      exact hw c (by simp)

/-! ## Tokens of an import -/

theorem solid_of_isIdentifier {w : List Char} (h : isIdentifier w = true) :
    ∀ c ∈ w, isBlank c = false := by
  intro c hc
  by_contra hblank
  exact not_mem_of_isIdentifier h (isIdentifierPart_of_isBlank (by simpa using hblank)) hc

/-- The parts of a text that starts with a word, after white space. -/
structure Opening (ps : List (Piece × List Char)) (w : List Char)
    (rest : List (Piece × List Char)) : Prop where
  word : isIdentifier w = true
  trim_eq : trim (textOf ps) = w ++ trimEnd (textOf rest)
  next : ∀ c ∈ (textOf rest).head?, isIdentifierPart c = false

theorem exists_opening {cs : List Char} {before ps after : List (Piece × List Char)} {t : Token}
    {more : List (Lexeme × String)} (hpieces : pieces cs = before ++ ps ++ after)
    (hfree : ∀ p ∈ ps, p.1 ≠ .comment) (hlexemes : ps.filterMap lexeme? = t.reading :: more)
    (hword : isIdentifier t.text.toList = true) :
    ∃ rest, rest <:+ ps ∧ Opening ps t.text.toList rest ∧ rest.filterMap lexeme? = more := by
  obtain ⟨lead, p, rest, rfl, hlead, hp, hrest⟩ := List.filterMap_eq_cons_iff.1 hlexemes
  have hmem : ∀ q ∈ lead ++ p :: rest, q ∈ pieces cs := by
    intro q hq
    rw [hpieces]
    exact List.mem_append_left _ (List.mem_append_right _ hq)
  have hblank : ∀ c ∈ textOf lead, isBlank c = true := by
    intro c hc
    obtain ⟨q, hq, hcq⟩ := List.mem_flatMap.1 hc
    obtain ⟨d, hd, hgap⟩ := eq_of_gap (hmem q (List.mem_append_left _ hq))
      (eq_gap_of_lexeme?_eq_none (hlead q hq) (hfree q (List.mem_append_left _ hq)))
    rw [hd, List.mem_singleton] at hcq
    exact hcq ▸ isBlank_of_isGap hgap
  have htext : p.2 = t.text.toList := textOf_of_lexeme? hp
  refine ⟨rest, ⟨lead ++ [p], by simp⟩, ⟨hword, ?_, ?_⟩, hrest⟩
  · rw [textOf_append, textOf_cons, htext]
    refine trim_append_word hblank (solid_of_isIdentifier hword) (fun hnil => ?_) _
    rw [hnil] at hword
    cases hword
  · have hwordPiece : p.1 = .token .word := by
      refine eq_word_of_start (hmem p (by simp)) fun c hc => ?_
      rw [htext] at hc
      cases hw : t.text.toList with
      | nil =>
        rw [hw] at hc
        cases hc
      | cons d w =>
        rw [hw] at hc hword
        cases hc
        rw [isIdentifier, Bool.and_eq_true] at hword
        exact hword.1
    have hafter := @isIdentifierPart_after_word cs p (before ++ lead) (rest ++ after)
      (by rw [hpieces]; simp) hwordPiece
    intro c hc
    refine hafter c ?_
    rw [textOf_append, List.head?_append, Option.mem_def.1 hc]
    rfl

/-- White space follows the word `static` if another word comes next. -/
theorem exists_blank {cs : List Char} {ps rest : List (Piece × List Char)} {w : List Char}
    {t : Token} {more : List (Lexeme × String)} (h : Opening ps w rest)
    (hmem : ∀ p ∈ rest, p ∈ pieces cs) (hfree : ∀ p ∈ rest, p.1 ≠ .comment)
    (hlexemes : rest.filterMap lexeme? = t.reading :: more)
    (hword : isIdentifier t.text.toList = true) :
    ∃ c s, trimEnd (textOf rest) = c :: s ∧ isBlank c = true := by
  have hsome : squeeze (textOf rest) ≠ [] := by
    rw [squeeze_textOf hmem hfree, hlexemes, List.flatMap_cons]
    refine List.append_ne_nil_of_left_ne_nil ?_ _
    cases hw : t.text.toList with
    | nil =>
      rw [hw] at hword
      cases hword
    | cons c w =>
      have hc := solid_of_isIdentifier hword c (by rw [hw]; exact List.mem_cons_self)
      simp [Token.reading, hw, squeeze, hc]
  cases htrim : trimEnd (textOf rest) with
  | nil =>
    rw [← squeeze_trimEnd, htrim] at hsome
    exact absurd rfl hsome
  | cons c s =>
    have hc : c ∈ (textOf rest).head? := head?_trimEnd (by rw [htrim]; rfl)
    refine ⟨c, s, rfl, ?_⟩
    have hnot := h.next c hc
    cases rest with
    | nil => cases hc
    | cons q qs =>
      cases hq : lexeme? q with
      | none =>
        obtain ⟨d, hd, hgap⟩ := eq_of_gap (hmem q List.mem_cons_self)
          (eq_gap_of_lexeme?_eq_none hq (hfree q List.mem_cons_self))
        rw [textOf_cons, hd] at hc
        cases hc
        exact isBlank_of_isGap hgap
      | some r =>
        -- the next word would continue this one
        rw [List.filterMap_cons_some hq, List.cons.injEq] at hlexemes
        have htext := textOf_of_lexeme? hq
        rw [hlexemes.1] at htext
        have hmemWord : c ∈ t.text.toList := by
          rw [textOf_cons, htext, List.head?_append] at hc
          cases hw : t.text.toList with
          | nil =>
            rw [hw] at hword
            cases hword
          | cons d w =>
            simp only [Token.reading, hw] at hc
            cases hc
            exact List.mem_cons_self
        exact absurd hmemWord (not_mem_of_isIdentifier hword hnot)

/-- What is found in front of the path and the path itself are those of the tokens. -/
theorem ofPath_splitStatic {cs : List Char} {before ps after : List (Piece × List Char)}
    {path : List Token} (hpieces : pieces cs = before ++ ps ++ after)
    (hfree : ∀ p ∈ ps, p.1 ≠ .comment) (hlexemes : ps.filterMap lexeme? = path.map Token.reading)
    (hpath : IsPath path) (hwords : ProperWords path) (line : Nat) :
    ofPath line (splitStatic (trim (textOf ps))).1
        (squeeze (splitStatic (trim (textOf ps))).2) =
      ofParts line (path.map Token.reading) := by
  have hmem : ∀ p ∈ ps, p ∈ pieces cs := by
    intro p hp
    rw [hpieces]
    exact List.mem_append_left _ (List.mem_append_right _ hp)
  obtain ⟨t, more, rfl, hfirst⟩ := hpath.first
  rw [List.map_cons] at hlexemes ⊢
  rcases hfirst with ⟨hword, hne⟩ | ⟨hstatic, u, hu, hword⟩
  · have hidentifier := hwords t List.mem_cons_self hword
    obtain ⟨rest, -, hopening, -⟩ := exists_opening hpieces hfree hlexemes hidentifier
    have hnext : ∀ c ∈ (trimEnd (textOf rest)).head?, c ∉ "static".toList := by
      have hletters : ∀ c ∈ "static".toList, isIdentifierPart c = true :=
        List.all_eq_true.1 (by decide)
      intro c hc hletter
      have hpart := hopening.next c (head?_trimEnd hc)
      rw [hletters c hletter] at hpart
      cases hpart
    have hneText : t.text.toList ≠ "static".toList := fun heq => hne (String.toList_inj.1 heq)
    have hsplit := splitStatic_of_ne (solid_of_isIdentifier hidentifier) hneText hnext
    rw [← hopening.trim_eq] at hsplit
    rw [hsplit, squeeze_trim, squeeze_textOf hmem hfree, hlexemes, ofParts]
    exact (if_neg hne).symm
  · have hidentifier : isIdentifier t.text.toList = true := by
      rw [hstatic]
      decide
    obtain ⟨rest, hsuffix, hopening, hrest⟩ := exists_opening hpieces hfree hlexemes hidentifier
    obtain ⟨v, rfl⟩ : ∃ v, more = u :: v := by
      cases more with
      | nil => cases hu
      | cons w v => cases hu; exact ⟨v, rfl⟩
    have hmemRest : ∀ p ∈ rest, p ∈ pieces cs := fun p hp => hmem p (hsuffix.mem hp)
    have hfreeRest : ∀ p ∈ rest, p.1 ≠ .comment := fun p hp => hfree p (hsuffix.mem hp)
    obtain ⟨c, s, htrim, hblank⟩ := exists_blank hopening hmemRest hfreeRest hrest
      (hwords u (List.mem_cons_of_mem _ List.mem_cons_self) hword)
    have hsplit := splitStatic_of_blank (s := s) hblank
    rw [← htrim, ← hstatic, ← hopening.trim_eq] at hsplit
    rw [hsplit, squeeze_trim, squeeze_trimEnd, squeeze_textOf hmemRest hfreeRest, hrest, ofParts]
    exact (if_pos hstatic).symm

/-- No semicolon stands in a path. -/
theorem semicolon_not_mem {cs : List Char} {ps : List (Piece × List Char)} {path : List Token}
    (hmem : ∀ p ∈ ps, p ∈ pieces cs) (hfree : ∀ p ∈ ps, p.1 ≠ .comment)
    (hlexemes : ps.filterMap lexeme? = path.map Token.reading) (hpath : ∀ t ∈ path, t.IsPathPart)
    (hwords : ProperWords path) : ';' ∉ textOf ps := by
  intro h
  obtain ⟨p, hp, hin⟩ := List.mem_flatMap.1 h
  cases hlexeme : lexeme? p with
  | none =>
    obtain ⟨c, hc, hgap⟩ := eq_of_gap (hmem p hp) (eq_gap_of_lexeme?_eq_none hlexeme (hfree p hp))
    rw [hc, List.mem_singleton] at hin
    rw [← hin] at hgap
    cases hgap
  | some r =>
    have hr : r ∈ path.map Token.reading := by
      rw [← hlexemes]
      exact List.mem_filterMap.2 ⟨p, hp, hlexeme⟩
    obtain ⟨t, ht, rfl⟩ := List.mem_map.1 hr
    rw [textOf_of_lexeme? hlexeme] at hin
    rcases hpath t ht with hword | htext | htext | htext
    · exact not_mem_of_isIdentifier (hwords t ht hword) (by decide) hin
    all_goals simp [Token.reading, htext] at hin

/-- An import declaration without comments is read as its tokens say. -/
theorem parse?_of_over {source : List Char} {s : Span} {ts : List Token}
    (h : s.Over (lex source).tokens ts) (hts : IsImport ts) (hfree : CommentFree source s)
    (line : Nat) :
    parse? (slice source s.start s.stop) line =
      some (ofParts line ((ts.map Token.reading).drop 1).dropLast) := by
  have hwords : ProperWords ts := fun t ht =>
    ((lex_standsIn source).1 t (h.within.mem ht)).word
  obtain ⟨first, path, last, rfl, himport, hsemicolon, hpath⟩ := hts
  obtain ⟨ps, hps⟩ := h.exists_stretch (by simp)
  have hmem := hps.mem_pieces
  have hno := hps.ne_comment hfree
  obtain ⟨p, qs, q, rfl, hp, hqs, hq⟩ := hps.exists_ends
  have hwordsPath : ProperWords path := fun t ht => hwords t (by simp [ht])
  have hmemPath : ∀ x ∈ qs, x ∈ pieces (unmarked source) := fun x hx => hmem x (by simp [hx])
  have hnoPath : ∀ x ∈ qs, x.1 ≠ .comment := fun x hx => hno x (by simp [hx])
  have htext : slice source s.start s.stop = "import".toList ++ textOf qs ++ [';'] := by
    have hfirst : p.2 = "import".toList := by rw [textOf_of_lexeme? hp, Token.reading, himport]
    have hlast : q.2 = [';'] := by simp [textOf_of_lexeme? hq, Token.reading, hsemicolon]
    rw [hps.slice_eq, textOf_append, textOf_cons, textOf_cons, hfirst, hlast, textOf_nil,
      List.append_nil]
  obtain ⟨before, after, hwithin⟩ := hps.within
  have hpieces : pieces (unmarked source) = (before ++ [p]) ++ qs ++ (q :: after) := by
    rw [hwithin]
    simp
  have hparts : ((first :: path ++ [last]).map Token.reading).drop 1 =
      path.map Token.reading ++ [last.reading] := by simp
  rw [htext, parse?_eq (semicolon_not_mem hmemPath hnoPath hqs hpath.parts hwordsPath) line,
    ofPath_splitStatic hpieces hnoPath hqs hpath hwordsPath line, hparts, List.dropLast_concat]

end Import

end Tracepoint.Source
