import Mathlib.Data.List.Basic
import Mathlib.Tactic.Common
import Tracepoint.Java.Token

/-!
# The pieces of a text

Scanning a text cuts it into pieces: tokens, comments and white space. Which piece comes
next depends on what is left of the text and not on what came before, so the tokens and
comments can be read off the sequence of pieces, wherever the text starts.

A byte order mark is skipped at the very start of a text and starts no token anywhere else.

Results:

* `lexAt_eq`: tokens and comments are the pieces of a text with the ranges where they stand.
* `lexemes_eq`, `remarks_eq`: their texts come from the pieces.
* `pieces_word`, `pieces_dot`, `pieces_separator`, `pieces_gap`, `pieces_mark`: the piece
  that stands at the start of a text.
* `Scans.pieces`: the pieces from a point on that scanning comes to.
-/

namespace Tracepoint.Java

open Text

/-! ## Pieces -/

/-- The pieces of a text, each with the characters that it takes. -/
def pieces : List Char → List (Piece × List Char)
  | [] => []
  | c :: cs =>
    let (piece, n) := pieceAt c cs
    (piece, c :: cs.take n) :: pieces (cs.drop n)
  termination_by cs => cs.length
  decreasing_by grind

@[simp] theorem pieces_nil : pieces [] = [] := by rw [pieces]

theorem pieces_cons {c : Char} {cs : List Char} {piece : Piece} {n : Nat}
    (h : pieceAt c cs = (piece, n)) :
    pieces (c :: cs) = (piece, c :: cs.take n) :: pieces (cs.drop n) := by
  rw [pieces, h]

/-- The class and the text of the token that a piece is. -/
def lexeme? : Piece × List Char → Option (Lexeme × String)
  | (.token lexeme, text) => some (lexeme, String.ofList text)
  | _ => none

/-- The text of the comment that a piece is. -/
def remark? : Piece × List Char → Option (List Char)
  | (.comment, text) => some text
  | _ => none

/-- The tokens of a text without their ranges. -/
def lexemes (source : List Char) : List (Lexeme × String) :=
  (lex source).tokens.map fun t => (t.lexeme, t.text)

/-- The texts of the comments of a text. -/
def remarks (source : List Char) : List (List Char) :=
  (lex source).comments.map fun s => slice source s.start s.stop

/-- A text without a byte order mark at its start. -/
def unmarked : List Char → List Char
  | c :: cs => if c == '\ufeff' then cs else c :: cs
  | [] => []

/-! ## Pieces with their ranges -/

/-- The characters of some pieces. -/
def textOf (ps : List (Piece × List Char)) : List Char := ps.flatMap (·.2)

@[simp] theorem textOf_nil : textOf [] = [] := rfl

@[simp] theorem textOf_cons (p : Piece × List Char) (ps : List (Piece × List Char)) :
    textOf (p :: ps) = p.2 ++ textOf ps := rfl

@[simp] theorem textOf_append (ps qs : List (Piece × List Char)) :
    textOf (ps ++ qs) = textOf ps ++ textOf qs := List.flatMap_append

/-- Pieces that stand in a text from an offset on, with their ranges. -/
def located (position : Nat) : List (Piece × List Char) → List (Span × Piece × List Char)
  | [] => []
  | p :: ps =>
    (⟨position, position + byteSize p.2⟩, p) :: located (position + byteSize p.2) ps

/-- The token that a piece is. -/
def tokenOf? : Span × Piece × List Char → Option Token
  | (s, .token lexeme, text) => some ⟨lexeme, String.ofList text, s⟩
  | _ => none

/-- The range of the comment that a piece is. -/
def commentOf? : Span × Piece × List Char → Option Span
  | (s, .comment, _) => some s
  | _ => none

theorem located_append (position : Nat) (ps qs : List (Piece × List Char)) :
    located position (ps ++ qs) =
      located position ps ++ located (position + byteSize (textOf ps)) qs := by
  induction ps generalizing position with
  | nil => rfl
  | cons p ps ih =>
    rw [List.cons_append, located, located, ih, textOf_cons, byteSize_append, Nat.add_assoc,
      List.cons_append]

theorem map_snd_located (position : Nat) (ps : List (Piece × List Char)) :
    (located position ps).map (·.2) = ps := by
  induction ps generalizing position with
  | nil => rfl
  | cons p ps ih => rw [located, List.map_cons, ih]

/-- The class and the text of a token. -/
def Token.reading (t : Token) : Lexeme × String := (t.lexeme, t.text)

theorem filterMap_lexeme?_eq {xs : List (Span × Piece × List Char)} :
    (xs.map (·.2)).filterMap lexeme? = (xs.filterMap tokenOf?).map Token.reading := by
  rw [List.filterMap_map, List.map_filterMap]
  refine List.filterMap_congr fun x _ => ?_
  obtain ⟨s, piece, text⟩ := x
  cases piece <;> rfl

theorem lexAt_eq (position : Nat) (cs : List Char) :
    (lexAt position cs).tokens = (located position (pieces cs)).filterMap tokenOf? ∧
      (lexAt position cs).comments = (located position (pieces cs)).filterMap commentOf? := by
  induction hn : cs.length using Nat.strongRecOn generalizing cs position with
  | _ n ih =>
    cases cs with
    | nil => simp [lexAt, located]
    | cons c cs =>
      cases hpiece : pieceAt c cs with | mk piece k =>
      have hlt : (cs.drop k).length < n := by
        rw [← hn, List.length_drop, List.length_cons]
        omega
      have hrest := ih _ hlt (position + byteSize (c :: cs.take k)) (cs.drop k) rfl
      rw [lexAt, pieces_cons hpiece, hpiece, located]
      cases piece <;> simpa [List.filterMap_cons, tokenOf?, commentOf?] using hrest

/-- The tokens and comments of a text after a byte order mark. -/
theorem lex_eq (source : List Char) :
    ∃ pre, source = pre ++ unmarked source ∧
      lex source = lexAt (byteSize pre) (unmarked source) := by
  cases source with
  | nil => exact ⟨[], rfl, by simp [lex, unmarked, lexAt]⟩
  | cons c cs =>
    rw [lex, unmarked]
    split_ifs
    · exact ⟨[c], rfl, by simp⟩
    · exact ⟨[], rfl, rfl⟩

/-- What is left of the pieces of a text are the pieces of what is left of it. -/
theorem eq_pieces_of_append {cs : List Char} {ps qs : List (Piece × List Char)}
    (h : pieces cs = ps ++ qs) : ∃ ds, cs = textOf ps ++ ds ∧ qs = pieces ds := by
  induction ps generalizing cs with
  | nil => exact ⟨cs, rfl, h.symm⟩
  | cons p ps ih =>
    cases cs with
    | nil => simp at h
    | cons c cs =>
      rw [pieces_cons (Prod.eta (pieceAt c cs)).symm, List.cons_append, List.cons.injEq] at h
      obtain ⟨ds, hds, hqs⟩ := ih h.2
      refine ⟨ds, ?_, hqs⟩
      rw [textOf_cons, ← h.1, List.append_assoc, ← hds, List.cons_append, List.take_append_drop]

theorem textOf_pieces (cs : List Char) : textOf (pieces cs) = cs := by
  obtain ⟨ds, hds, hnil⟩ := eq_pieces_of_append (List.append_nil (pieces cs)).symm
  cases ds with
  | nil => rw [← List.append_nil (textOf _), ← hds]
  | cons d ds =>
    rw [pieces_cons (Prod.eta (pieceAt d ds)).symm] at hnil
    cases hnil

/-- The range between the ends of two starts of a text holds what the longer one has more. -/
theorem slice_append (a b c : List Char) :
    slice (a ++ b ++ c) (byteSize a) (byteSize a + byteSize b) = b := by
  have hstart : cut? (a ++ b ++ c) (byteSize a) = some (a, b ++ c) :=
    cut?_eq_some_iff.2 ⟨List.append_assoc a b c, rfl⟩
  have hstop : cut? (b ++ c) (byteSize b) = some (b, c) := cut?_eq_some_iff.2 ⟨rfl, rfl⟩
  rw [slice, slice?, if_pos (Nat.le_add_right _ _), hstart]
  simp [hstop]

/-- The range of a located piece holds its text. -/
theorem slice_of_mem_located {pre post : List Char} {ps : List (Piece × List Char)} {s : Span}
    {p : Piece × List Char} (h : (s, p) ∈ located (byteSize pre) ps) :
    slice (pre ++ textOf ps ++ post) s.start s.stop = p.2 := by
  induction ps generalizing pre with
  | nil => cases h
  | cons q ps ih =>
    rw [located] at h
    rcases List.mem_cons.1 h with h | h
    · cases h
      have hslice := slice_append pre p.2 (textOf ps ++ post)
      simpa using hslice
    · rw [← byteSize_append] at h
      simpa using ih h

theorem lexemes_eq (source : List Char) :
    lexemes source = (pieces (unmarked source)).filterMap lexeme? := by
  obtain ⟨pre, -, hlex⟩ := lex_eq source
  rw [← map_snd_located (byteSize pre) (pieces (unmarked source)), filterMap_lexeme?_eq,
    ← (lexAt_eq _ _).1, ← hlex]
  rfl

theorem remarks_eq (source : List Char) :
    remarks source = (pieces (unmarked source)).filterMap remark? := by
  obtain ⟨pre, hsource, hlex⟩ := lex_eq source
  rw [← map_snd_located (byteSize pre) (pieces (unmarked source)), List.filterMap_map, remarks,
    hlex, (lexAt_eq _ _).2, List.map_filterMap]
  refine List.filterMap_congr fun x hx => ?_
  obtain ⟨s, piece, text⟩ := x
  cases piece with
  | gap => rfl
  | token lexeme => rfl
  | comment =>
    have hslice := @slice_of_mem_located pre [] _ s _ hx
    rw [textOf_pieces, List.append_nil, ← hsource] at hslice
    exact congrArg some hslice

/-! ## Words -/

/-- The letters of ASCII come after its digits. -/
theorem le_toNat_of_isAlpha {c : Char} (h : c.isAlpha = true) : 0x41 ≤ c.toNat := by
  rcases Bool.or_eq_true_iff.1 h with h | h
  · exact UInt32.le_iff_toNat_le.1 (of_decide_eq_true h).1
  · have hle : 97 ≤ c.toNat :=
      UInt32.le_iff_toNat_le.1 (of_decide_eq_true (Bool.and_eq_true_iff.1 h).1)
    omega

/-- The code of what can start an identifier. -/
theorem le_toNat_of_isIdentifierStart {c : Char} (h : isIdentifierStart c = true) :
    c = '$' ∨ 0x41 ≤ c.toNat := by
  unfold isIdentifierStart at h
  split_ifs at h with hc
  · rw [Bool.or_eq_true, Bool.or_eq_true, beq_iff_eq, beq_iff_eq] at h
    rcases h with (h | rfl) | rfl
    · exact .inr (le_toNat_of_isAlpha h)
    · exact .inr (by decide)
    · exact .inl rfl
  · exact .inr (by omega)

/-- White space comes first in ASCII. -/
theorem isGap_of_lt {c : Char} (h : 0x20 < c.toNat) : isGap c = false := by
  have hspace : c ≠ ' ' := by
    rintro rfl
    exact absurd h (by decide)
  have : ¬ c.toNat ≤ 13 := by omega
  simp [isGap, hspace, this]

/-- What can start an identifier is no white space. -/
theorem isGap_of_isIdentifierStart {c : Char} (h : isIdentifierStart c = true) :
    isGap c = false := by
  rcases le_toNat_of_isIdentifierStart h with rfl | hle
  · decide
  · exact isGap_of_lt (by omega)

/-- A digit is no white space. -/
theorem isGap_of_isDigit {c : Char} (h : c.isDigit = true) : isGap c = false := by
  have hle : 48 ≤ c.toNat :=
    UInt32.le_iff_toNat_le.1 (of_decide_eq_true (Bool.and_eq_true_iff.1 h).1)
  exact isGap_of_lt (by omega)

/-- What can start an identifier is no digit. -/
theorem isDigit_of_isIdentifierStart {c : Char} (h : isIdentifierStart c = true) :
    c.isDigit = false := by
  rcases le_toNat_of_isIdentifierStart h with rfl | hle
  · decide
  · rw [Char.isDigit, Bool.and_eq_false_iff]
    refine .inr (decide_eq_false fun h9 => ?_)
    have : c.toNat ≤ 57 := UInt32.le_iff_toNat_le.1 h9
    omega

/-- A word is a piece where no character follows that continues it. -/
theorem pieces_word {w rest : List Char} (hw : isIdentifier w = true)
    (hrest : ∀ c ∈ rest.head?, isIdentifierPart c = false) :
    pieces (w ++ rest) = (.token .word, w) :: pieces rest := by
  cases w with
  | nil => cases hw
  | cons c w =>
    rw [isIdentifier, Bool.and_eq_true, List.all_eq_true] at hw
    have htake : (w ++ rest).takeWhile isIdentifierPart = w := by
      rw [List.takeWhile_append_of_pos hw.2]
      cases rest with
      | nil => simp
      | cons d rest => simp [hrest d rfl]
    have hpiece : pieceAt c (w ++ rest) = (.token .word, w.length) := by
      simp [pieceAt, isGap_of_isIdentifierStart hw.1, hw.1, htake]
    rw [List.cons_append, pieces_cons hpiece, List.take_left, List.drop_left]

/-! ## Single characters -/

/-- White space takes one character after the other. -/
theorem pieces_gap {c : Char} (h : isGap c = true) (rest : List Char) :
    pieces (c :: rest) = (.gap, [c]) :: pieces rest := by
  have hpiece : pieceAt c rest = (.gap, 0) := by simp [pieceAt, h]
  simpa using pieces_cons hpiece

/-- A character that starts nothing longer is a symbol or stray. -/
theorem pieceAt_single {c : Char} {cs : List Char} (hgap : isGap c = false)
    (hstart : isIdentifierStart c = false)
    (hdigit : (c.isDigit || (c == '.' && (cs.head?.map Char.isDigit).getD false)) = false)
    (hquote : c ∉ ['"', '\x27', '/'])
    (hlong : longSymbols.find? (startsWith · (c :: cs)) = none) :
    pieceAt c cs = (.token (if shortSymbols.contains c then .symbol else .stray), 0) := by
  simp only [List.mem_cons, List.not_mem_nil, or_false, not_or] at hquote
  simp only [pieceAt, symbolTail?, hgap, hstart, hdigit, hquote, hlong, beq_iff_eq, if_false,
    Bool.false_eq_true]
  split_ifs <;> rfl

/-- The characters that are a symbol of their own wherever they stand. -/
def separators : List Char := ['(', ')', '{', '}', '[', ']', ';', ',']

/-- What is false of all separators is false of each. -/
theorem not_of_separator {p : Char → Bool} {d : Char} (hd : d ∈ separators)
    (h : separators.all (fun c => !p c) = true) : p d = false := by
  simpa using List.all_eq_true.1 h d hd

theorem ne_of_separator {c d : Char} (hd : d ∈ separators) (hc : c ∉ separators) : d ≠ c :=
  ne_of_mem_of_not_mem hd hc

theorem not_mem_of_separator {cs : List Char} {d : Char} (hd : d ∈ separators)
    (h : cs.all (fun c => !separators.contains c) = true) : d ∉ cs := by
  intro hmem
  have hnot := List.all_eq_true.1 h d hmem
  rw [List.contains_iff_mem.2 hd] at hnot
  cases hnot

theorem pieceAt_separator {d : Char} (h : d ∈ separators) (rest : List Char) :
    pieceAt d rest = (.token .symbol, 0) := by
  have hlong : longSymbols.find? (startsWith · (d :: rest)) = none := by
    simp only [separators, List.mem_cons, List.not_mem_nil, or_false] at h
    rcases h with rfl | rfl | rfl | rfl | rfl | rfl | rfl | rfl <;>
      simp [longSymbols, startsWith, dropStart?]
  have hgap : isGap d = false := not_of_separator h (by decide)
  have hstart : isIdentifierStart d = false := not_of_separator h (by decide)
  have hdigit : d.isDigit = false := not_of_separator h (by decide)
  have hdot : d ≠ '.' := ne_of_separator h (by decide)
  have hquote : d ∉ ['"', '\x27', '/'] := not_mem_of_separator h (by decide)
  have hshort : shortSymbols.contains d = true := List.all_eq_true.1 (by decide) d h
  rw [pieceAt_single hgap hstart (by simp [hdigit, hdot]) hquote hlong, if_pos hshort]

theorem pieces_separator {d : Char} (h : d ∈ separators) (rest : List Char) :
    pieces (d :: rest) = (.token .symbol, [d]) :: pieces rest := by
  simpa using pieces_cons (pieceAt_separator h rest)

/-- A dot is a piece where an identifier follows. -/
theorem pieces_dot {c : Char} (hc : isIdentifierStart c = true) (rest : List Char) :
    pieces ('.' :: c :: rest) = (.token .symbol, ['.']) :: pieces (c :: rest) := by
  have hdot : c ≠ '.' := by
    rintro rfl
    cases hc
  have hpiece : pieceAt '.' (c :: rest) = (.token .symbol, 0) :=
    pieceAt_single (by decide) (by decide) (by simp [isDigit_of_isIdentifierStart hc])
      (by decide) (by simp [longSymbols, startsWith, dropStart?, hdot.symm])
  simpa using pieces_cons hpiece

/-- A byte order mark starts no token. -/
theorem pieces_mark (rest : List Char) :
    pieces ('\ufeff' :: rest) = (.token .stray, ['\ufeff']) :: pieces rest := by
  have hpiece : pieceAt '\ufeff' rest = (.token .stray, 0) :=
    pieceAt_single (by decide) (by decide +kernel) (by simp) (by decide)
      (by simp [longSymbols, startsWith, dropStart?])
  simpa using pieces_cons hpiece

theorem length_unmarked_le (cs : List Char) : (unmarked cs).length ≤ cs.length := by
  cases cs with
  | nil => exact Nat.le_refl _
  | cons c cs =>
    rw [unmarked]
    split_ifs
    · exact Nat.le_succ _
    · exact Nat.le_refl _

theorem unmarked_append {t : List Char} (h : t ≠ []) (rest : List Char) :
    unmarked (t ++ rest) = unmarked t ++ rest := by
  cases t with
  | nil => exact absurd rfl h
  | cons c t =>
    rw [List.cons_append, unmarked, unmarked]
    split_ifs <;> rfl

theorem unmarked_of_head? {cs : List Char} (h : cs.head? ≠ some '\ufeff') : unmarked cs = cs := by
  cases cs with
  | nil => rfl
  | cons c cs =>
    rw [unmarked, if_neg]
    intro hc
    exact h (congrArg some (beq_iff_eq.1 hc))

/-- Where no character is stray, there is no byte order mark to skip. -/
theorem unmarked_of_proper {cs : List Char} (h : ∀ p ∈ pieces cs, p.1 ≠ .token .stray) :
    unmarked cs = cs := by
  refine unmarked_of_head? fun hhead => ?_
  cases cs with
  | nil => cases hhead
  | cons c cs =>
    rw [Option.some.inj hhead, pieces_mark] at h
    exact h _ List.mem_cons_self rfl

/-! ## Points that scanning comes to -/

/-- Scanning a text comes to a point where `rest` is left. -/
inductive Scans : List Char → List Char → Prop
  | here (rest : List Char) : Scans rest rest
  | piece {c : Char} {cs rest : List Char} :
      Scans (cs.drop (pieceAt c cs).2) rest → Scans (c :: cs) rest

namespace Scans

theorem trans {cs ds rest : List Char} (h : Scans cs ds) (h' : Scans ds rest) : Scans cs rest := by
  induction h with
  | here => exact h'
  | piece _ ih => exact .piece (ih h')

/-- The pieces from such a point on are the last pieces of the text. -/
theorem pieces {cs rest : List Char} (h : Scans cs rest) :
    ∃ ps, Java.pieces cs = ps ++ Java.pieces rest := by
  induction h with
  | here rest => exact ⟨[], rfl⟩
  | @piece c cs rest _ ih =>
    obtain ⟨ps, hps⟩ := ih
    have hcons := pieces_cons (Prod.eta (pieceAt c cs)).symm
    exact ⟨_ :: ps, by rw [hcons, hps, List.cons_append]⟩

/-- What is left is an end of the text. -/
theorem exists_append {cs rest : List Char} (h : Scans cs rest) : ∃ a, cs = a ++ rest := by
  induction h with
  | here rest => exact ⟨[], rfl⟩
  | @piece c cs rest _ ih =>
    obtain ⟨a, ha⟩ := ih
    refine ⟨c :: cs.take (pieceAt c cs).2 ++ a, ?_⟩
    rw [List.append_assoc, ← ha, List.cons_append, List.take_append_drop]

theorem length_le {cs rest : List Char} (h : Scans cs rest) : rest.length ≤ cs.length := by
  obtain ⟨a, rfl⟩ := h.exists_append
  rw [List.length_append]
  omega

/-- To a point after its start, scanning gets through the first piece of a text. -/
theorem after_piece {c : Char} {cs rest : List Char} (h : Scans (c :: cs) rest)
    (hlt : rest.length < (c :: cs).length) : Scans (cs.drop (pieceAt c cs).2) rest := by
  cases h with
  | here => exact absurd hlt (Nat.lt_irrefl _)
  | piece h => exact h

/-- Of two points, scanning comes to the later one from the earlier one. -/
theorem between {cs ds rest : List Char} (h : Scans cs ds) (h' : Scans cs rest)
    (hle : rest.length ≤ ds.length) : Scans ds rest := by
  induction h with
  | here => exact h'
  | @piece c cs ds h ih =>
    cases h' with
    | here =>
      -- the whole text cannot be left after a piece of it
      have := h.length_le
      rw [List.length_drop] at this
      rw [List.length_cons] at hle
      omega
    | piece h' => exact ih h' hle

/-- A separator is left behind. -/
theorem separator {d : Char} (h : d ∈ separators) (rest : List Char) : Scans (d :: rest) rest := by
  refine .piece ?_
  rw [pieceAt_separator h]
  exact .here rest

end Scans

end Tracepoint.Java
