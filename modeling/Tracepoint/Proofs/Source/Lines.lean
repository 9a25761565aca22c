import Mathlib.Data.List.TakeWhile
import Tracepoint.Proofs.Source.Tokens
import Tracepoint.Proofs.Text.Split
import Tracepoint.Source.Render

/-!
# Tokens of inserted lines

The lines that are inserted into a source have the tokens that one reads in them. They hold
nothing that could run into what stands next to them. This is shown here for numbers, dotted
names and imports; calls are made up of the same parts.

Results:

* `pieces_number`, `pieces_dotted`: numbers and dotted names.
* `ReadsAs`: a text that stands alone and has given tokens, put together with `ReadsAs.append`.
* `readsAs_importEdit`: the imports that are inserted.
-/

namespace Tracepoint.Source

open Java Text

/-! ## Numbers -/

/-- Only zero is written with a leading zero. -/
theorem head?_toDigits {n : Nat} (h : 0 < n) : (Nat.toDigits 10 n).head? ≠ some '0' := by
  have hdigit : ∀ n < 10, 0 < n → [n.digitChar].head? ≠ some '0' := by decide
  induction n using Nat.strongRecOn with
  | _ n ih =>
    by_cases hn : n < 10
    · rw [Nat.toDigits_of_lt_base hn]
      exact hdigit n hn h
    · rw [Nat.toDigits_of_base_le (by decide) (by omega), List.head?_append]
      have hhead := ih (n / 10) (by omega) (by omega)
      cases hdigits : Nat.toDigits 10 (n / 10) with
      | nil => exact absurd hdigits Nat.toDigits_ne_nil
      | cons c cs =>
        rw [hdigits] at hhead
        exact hhead

theorem digitRun_of_all {isDigit : Char → Bool} {ds : List Char} (h : ∀ c ∈ ds, isDigit c = true)
    (hline : '_' ∉ ds) : digitRun isDigit ds = ds.length := by
  have hrun : (ds.takeWhile fun c => isDigit c || c == '_') = ds :=
    List.takeWhile_eq_self_iff.2 fun c hc => by simp [h c hc]
  have hlast : ds.reverse.dropWhile (· == '_') = ds.reverse := by
    cases hds : ds.reverse with
    | nil => rfl
    | cons c cs =>
      have hc : c ∈ ds := by
        rw [← List.mem_reverse, hds]
        exact List.mem_cons_self
      refine List.dropWhile_cons_of_neg ?_
      rw [beq_iff_eq]
      rintro rfl
      exact hline hc
  cases ds with
  | nil => rfl
  | cons c cs =>
    rw [digitRun, hrun, hlast, List.length_reverse]
    simp [h c List.mem_cons_self]

/-- A number is read to its last digit. -/
theorem numberLength_of_digits {ds : List Char} (hdigits : ∀ c ∈ ds, c.isDigit = true)
    (hzero : ds.head? = some '0' → ds = ['0']) : numberLength ds = ds.length := by
  have hline : '_' ∉ ds := fun h => by simpa using hdigits _ h
  have hmarked : markedLength ds = 0 := by
    cases ds with
    | nil => rfl
    | cons c cs =>
      by_cases hc : c = '0'
      · rw [hzero (by rw [hc]; rfl)]
        rfl
      · exact markedLength_of_ne hc cs
  have hinteger : integerLength ds = ds.length := by
    unfold integerLength
    split_ifs with hhead
    · rw [hzero hhead]
      decide
    · exact digitRun_of_all hdigits hline
  rw [numberLength_eq, hmarked, decimalLength_eq, digitRun_of_all hdigits hline, hinteger]
  simp [fractionLength, exponentLength, suffixLength]

theorem pieces_number {d : Char} (hd : d ∈ separators) (n : Nat) (rest : List Char) :
    pieces ((toString n).toList ++ d :: rest) =
      (.token .number, (toString n).toList) :: pieces (d :: rest) := by
  rw [Nat.toString_eq_ofList_toDigits, String.toList_ofList]
  have hdigits : ∀ c ∈ Nat.toDigits 10 n, c.isDigit = true := fun c hc =>
    Nat.isDigit_of_mem_toDigits (by decide) (by decide) hc
  have hzero : (Nat.toDigits 10 n).head? = some '0' → Nat.toDigits 10 n = ['0'] := by
    intro h
    rcases Nat.eq_zero_or_pos n with rfl | hn
    · rfl
    · exact absurd h (head?_toDigits hn)
  have hlength := numberLength_of_digits hdigits hzero
  cases hds : Nat.toDigits 10 n with
  | nil => exact absurd hds Nat.toDigits_ne_nil
  | cons c cs =>
    rw [hds] at hdigits hlength
    have hc : c.isDigit = true := hdigits c List.mem_cons_self
    have hstart : isIdentifierStart c = false := by
      rw [Bool.eq_false_iff]
      intro h
      rw [isDigit_of_isIdentifierStart h] at hc
      cases hc
    have hgap : isGap c = false := isGap_of_isDigit hc
    have hpiece : pieceAt c (cs ++ d :: rest) = (.token .number, cs.length) := by
      have hnumber := numberLength_append hd (c :: cs) rest
      rw [hlength, List.cons_append] at hnumber
      simp [pieceAt, hgap, hstart, hc, hnumber]
    rw [List.cons_append, pieces_cons hpiece, List.take_left, List.drop_left]

/-! ## Names -/

/-- Identifiers with dots between. -/
def IsDottedName (name : String) : Prop :=
  ∀ part ∈ splitAll '.' name.toList, isIdentifier part = true

instance (name : String) : Decidable (IsDottedName name) :=
  inferInstanceAs (Decidable (∀ part ∈ splitAll '.' name.toList, isIdentifier part = true))

/-- The piece that a token is. -/
def asPiece (x : Lexeme × String) : Piece × List Char := (.token x.1, x.2.toList)

/-- The tokens of a name: its parts and the dots between them. -/
def nameLexemes (name : List Char) : List (Lexeme × String) :=
  ((splitAll '.' name).map fun part => (.word, String.ofList part)).intersperse (.symbol, ".")

theorem nameLexemes_of_not_mem {name : List Char} (h : '.' ∉ name) :
    nameLexemes name = [(.word, String.ofList name)] := by
  rw [nameLexemes, splitAll_of_not_mem h]
  rfl

theorem nameLexemes_append (name more : List Char) :
    nameLexemes (name ++ '.' :: more) =
      nameLexemes name ++ (.symbol, ".") :: nameLexemes more := by
  obtain ⟨q, qs, hq⟩ := List.exists_cons_of_ne_nil (splitAll_ne_nil '.' more)
  have hname := splitAll_ne_nil '.' name
  unfold nameLexemes
  rw [splitAll_append, hq]
  generalize splitAll '.' name = parts at hname
  induction parts with
  | nil => exact absurd rfl hname
  | cons part parts ih =>
    cases parts with
    | nil => rfl
    | cons second parts =>
      simp only [List.map_cons, List.cons_append, List.intersperse_cons_cons] at ih ⊢
      rw [ih (by simp)]

theorem ne_stray_of_mem_nameLexemes {name : List Char} {t : Lexeme × String}
    (h : t ∈ nameLexemes name) : t.1 ≠ .stray := by
  unfold nameLexemes at h
  generalize splitAll '.' name = parts at h
  induction parts with
  | nil => cases h
  | cons part parts ih =>
    cases parts with
    | nil =>
      rw [List.mem_singleton.1 h]
      exact nofun
    | cons second parts =>
      rw [List.map_cons, List.map_cons, List.intersperse_cons_cons] at h
      rcases List.mem_cons.1 h with rfl | h
      · exact nofun
      rcases List.mem_cons.1 h with rfl | h
      · exact nofun
      · exact ih h

/-- A dotted name starts like its first part. -/
theorem exists_start_of_parts {name : List Char}
    (h : ∀ part ∈ splitAll '.' name, isIdentifier part = true) :
    ∃ c cs, name = c :: cs ∧ isIdentifierStart c = true := by
  cases name with
  | nil => simpa [isIdentifier] using h [] List.mem_cons_self
  | cons c cs =>
    have hc : c ≠ '.' := by
      rintro rfl
      rw [splitAll_cons_self] at h
      simpa [isIdentifier] using h [] List.mem_cons_self
    obtain ⟨first, more, -, hcons⟩ := exists_splitAll_cons hc cs
    have hfirst := h (c :: first) (by simp [hcons])
    rw [isIdentifier, Bool.and_eq_true] at hfirst
    exact ⟨c, cs, rfl, hfirst.1⟩

theorem pieces_dotted {name rest : List Char}
    (hname : ∀ part ∈ splitAll '.' name, isIdentifier part = true)
    (hrest : ∀ c ∈ rest.head?, isIdentifierPart c = false) :
    pieces (name ++ rest) = (nameLexemes name).map asPiece ++ pieces rest := by
  induction hn : name.length using Nat.strongRecOn generalizing name with
  | _ n ih =>
    cases hfirst : splitFirst? '.' name with
    | none =>
      have hsplit := splitAll_of_not_mem (splitFirst?_eq_none hfirst)
      rw [pieces_word (hname name (by simp [hsplit])) hrest]
      simp [nameLexemes, hsplit, asPiece]
    | some p =>
      obtain ⟨part, more⟩ := p
      obtain ⟨rfl, hdot⟩ := splitFirst?_eq_some hfirst
      have hsplit : splitAll '.' (part ++ '.' :: more) = part :: splitAll '.' more := by
        rw [splitAll_append, splitAll_of_not_mem hdot, List.singleton_append]
      rw [hsplit] at hname
      have hmore := fun q hq => hname q (List.mem_cons_of_mem _ hq)
      have hrec := ih more.length (by rw [← hn, List.length_append, List.length_cons]; omega)
        hmore rfl
      -- the next part starts right after the dot
      obtain ⟨c, cs, rfl, hstart⟩ := exists_start_of_parts hmore
      rw [nameLexemes_append, nameLexemes_of_not_mem hdot, List.append_assoc, List.cons_append,
        pieces_word (hname part List.mem_cons_self), List.cons_append, pieces_dot hstart,
        ← List.cons_append, hrec]
      · simp [asPiece]
      · intro d hd
        cases hd
        decide

/-! ## Lines -/

/-- A text has some tokens and no comments, whatever follows it. -/
structure ReadsAs (x : List Char) (tokens : List (Lexeme × String)) : Prop extends
    StandsAlone x where
  tokens_eq : (pieces x).filterMap lexeme? = tokens
  comments_eq : (pieces x).filterMap remark? = []

namespace ReadsAs

/-- A text of which the pieces are known with every text after it. -/
theorem of_pieces {x : List Char} (ps : List (Piece × List Char))
    (h : ∀ rest, pieces (x ++ rest) = ps ++ pieces rest)
    (hps : ∀ p ∈ ps, p.1 ≠ .comment ∧ p.1 ≠ .token .stray) (hstar : '*' ∉ x) :
    ReadsAs x (ps.filterMap lexeme?) := by
  have hx : pieces x = ps := by simpa using h []
  refine ⟨⟨fun rest => by rw [hx, h], fun p hp => (hps p (hx ▸ hp)).2, hstar⟩, by rw [hx], ?_⟩
  rw [hx, List.filterMap_eq_nil_iff]
  rintro ⟨piece, text⟩ hp
  cases piece with
  | comment => exact absurd rfl (hps _ hp).1
  | gap => rfl
  | token lexeme => rfl

theorem append {x y : List Char} {ts us : List (Lexeme × String)} (hx : ReadsAs x ts)
    (hy : ReadsAs y us) : ReadsAs (x ++ y) (ts ++ us) := by
  have hxy := hx.pieces_append y
  refine ⟨⟨fun rest => ?_, ?_, ?_⟩, ?_, ?_⟩
  · rw [List.append_assoc, hx.pieces_append, hy.pieces_append, hxy, List.append_assoc]
  · rw [hxy]
    intro p hp
    rcases List.mem_append.1 hp with hp | hp
    · exact hx.proper p hp
    · exact hy.proper p hp
  · rw [List.mem_append, not_or]
    exact ⟨hx.no_star, hy.no_star⟩
  · rw [hxy, List.filterMap_append, hx.tokens_eq, hy.tokens_eq]
  · rw [hxy, List.filterMap_append, hx.comments_eq, hy.comments_eq, List.append_nil]

theorem nil : ReadsAs [] [] :=
  of_pieces [] (fun rest => rfl) (by simp) (by simp)

/-- White space has no tokens. -/
theorem gaps {l : List Char} (h : ∀ c ∈ l, isGap c = true) : ReadsAs l [] := by
  induction l with
  | nil => exact nil
  | cons c l ih =>
    rw [List.forall_mem_cons] at h
    have hstar : '*' ∉ [c] := by
      rw [List.mem_singleton]
      rintro rfl
      cases h.1
    have hgap : ReadsAs [c] [] :=
      of_pieces [(.gap, [c])] (pieces_gap h.1) (by simp) hstar
    exact hgap.append (ih h.2)

/-- A text of which the pieces are tokens, with every text after it. -/
theorem of_tokens {x : List Char} {tokens : List (Lexeme × String)}
    (h : ∀ rest, pieces (x ++ rest) = tokens.map asPiece ++ pieces rest)
    (htokens : ∀ t ∈ tokens, t.1 ≠ .stray) (hstar : '*' ∉ x) : ReadsAs x tokens := by
  have hproper : ∀ p ∈ tokens.map asPiece, p.1 ≠ .comment ∧ p.1 ≠ .token .stray := by
    intro p hp
    obtain ⟨t, ht, rfl⟩ := List.mem_map.1 hp
    exact ⟨nofun, fun h => htokens t ht (Piece.token.inj h)⟩
  have hlexeme : lexeme? ∘ asPiece = some := by
    funext t
    simp [lexeme?, asPiece]
  have hreads := of_pieces _ h hproper hstar
  rwa [List.filterMap_map, hlexeme, List.filterMap_some] at hreads

theorem separator {d : Char} (hd : d ∈ separators) : ReadsAs [d] [(.symbol, String.ofList [d])] :=
  of_tokens (fun rest => by simp [asPiece, pieces_separator hd]) (by simp)
    (by simpa using (ne_of_separator hd (by decide)).symm)

/-- A number up to a separator. -/
theorem number {d : Char} (hd : d ∈ separators) (n : Nat) :
    ReadsAs ((toString n).toList ++ [d])
      [(.number, toString n), (.symbol, String.ofList [d])] := by
  refine of_tokens (fun rest => ?_) (by simp) ?_
  · rw [List.append_assoc, List.singleton_append, pieces_number hd, pieces_separator hd]
    simp [asPiece]
  · rw [Nat.toString_eq_ofList_toDigits, String.toList_ofList, List.mem_append, not_or]
    refine ⟨fun h => ?_, by simpa using (ne_of_separator hd (by decide)).symm⟩
    exact absurd (Nat.isDigit_of_mem_toDigits (by decide) (by decide) h) (by decide)

/-- A dotted name up to a separator. -/
theorem dotted {name : List Char} (hname : ∀ part ∈ splitAll '.' name, isIdentifier part = true)
    {d : Char} (hd : d ∈ separators) :
    ReadsAs (name ++ [d]) (nameLexemes name ++ [(.symbol, String.ofList [d])]) := by
  refine of_tokens (fun rest => ?_) (fun t ht => ?_) ?_
  · rw [List.append_assoc, List.singleton_append, pieces_dotted hname, pieces_separator hd]
    · simp [asPiece]
    · intro c hc
      cases hc
      exact not_of_separator hd (by decide)
  · rcases List.mem_append.1 ht with ht | ht
    · exact ne_stray_of_mem_nameLexemes ht
    · rw [List.mem_singleton.1 ht]
      exact nofun
  · rw [List.mem_append, not_or]
    refine ⟨fun h => ?_, by simpa using (ne_of_separator hd (by decide)).symm⟩
    obtain ⟨part, hpart, hmem⟩ := (exists_mem_splitAll_iff (show '*' ≠ '.' by decide)).2 h
    exact not_mem_of_isIdentifier (hname part hpart) (by decide) hmem

end ReadsAs

theorem ReadsAs.lexemes_eq {x : List Char} {tokens : List (Lexeme × String)}
    (h : ReadsAs x tokens) : lexemes x = tokens := by
  rw [Java.lexemes_eq, unmarked_of_proper h.proper, h.tokens_eq]

theorem ReadsAs.remarks_eq {x : List Char} {tokens : List (Lexeme × String)}
    (h : ReadsAs x tokens) : remarks x = [] := by
  rw [Java.remarks_eq, unmarked_of_proper h.proper, h.comments_eq]

/-- The tokens of an import. -/
def importLexemes (name : String) : List (Lexeme × String) :=
  (.word, "import") :: nameLexemes name.toList ++ [(.symbol, ";")]

theorem readsAs_import {name : String} (h : IsDottedName name) :
    ReadsAs (s!"import {name};").toList (importLexemes name) := by
  have hword : ReadsAs "import ".toList [(.word, "import")] := by
    refine ReadsAs.of_pieces [(.token .word, "import".toList), (.gap, [' '])] ?_ (by simp)
      (by decide)
    intro rest
    have hsplit : "import ".toList ++ rest = "import".toList ++ ' ' :: rest := rfl
    rw [hsplit, pieces_word (by decide), pieces_gap (by decide)]
    · rfl
    · intro c hc
      cases hc
      decide
  have hname := ReadsAs.dotted h (d := ';') (by decide)
  have hsplit : (s!"import {name};").toList = "import ".toList ++ (name.toList ++ [';']) := by
    simp
    rfl
  rw [hsplit]
  exact hword.append hname

theorem readsAs_importBlock {names : List String} (h : ∀ name ∈ names, IsDottedName name) :
    ReadsAs (CompilationUnit.importBlock names).toList (names.flatMap importLexemes) := by
  unfold CompilationUnit.importBlock
  induction names with
  | nil => exact .nil
  | cons name names ih =>
    rw [List.forall_mem_cons] at h
    have hname := readsAs_import h.1
    cases names with
    | nil => simpa using hname
    | cons second names =>
      have hline : ReadsAs "\n".toList [] := .gaps (List.all_eq_true.1 (by decide))
      rw [List.map_cons, List.map_cons, String.intercalate_cons_cons, String.toList_append,
        String.toList_append, List.flatMap_cons]
      simpa using (hname.append hline).append (ih h.2)

/-- The edit that adds imports has their tokens. -/
theorem readsAs_importEdit (u : CompilationUnit) {names : List String}
    (h : ∀ name ∈ names, IsDottedName name) :
    ReadsAs (u.importEdit names).text.toList (names.flatMap importLexemes) := by
  have hblock := readsAs_importBlock h
  have hline : ReadsAs "\n".toList [] := .gaps (List.all_eq_true.1 (by decide))
  have hlines : ReadsAs "\n\n".toList [] := .gaps (List.all_eq_true.1 (by decide))
  unfold CompilationUnit.importEdit
  simp only
  split_ifs
  · rw [String.toList_append]
    simpa using hblock.append hlines
  · rw [String.toList_append]
    exact hlines.append hblock
  · rw [String.toList_append]
    exact hline.append hblock

end Tracepoint.Source
