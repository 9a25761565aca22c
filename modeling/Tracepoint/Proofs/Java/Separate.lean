import Mathlib.Data.List.Find
import Tracepoint.Proofs.Java.Scan

/-!
# Taking a text apart at a separator

A separator such as a brace or a semicolon is part of no longer token, so what comes after
it has no part in how the text up to it is cut into pieces. The one exception is a comment
that is never closed, which is no comment: a text after the separator could close it.

This is shown for each way in which the end of a piece is found, and then for the pieces
of a whole text.

Results:

* `EndsBefore`: the length of a number, and of its parts, is found before a separator.
* `FindsEnd`: the end of a string, a character or a comment is found without looking past it.
* `pieceAt_separated`: a piece before a separator stays as it is when what comes after the
  separator is exchanged.
* `pieces_append`: a text can be cut into pieces up to a separator and from there on.
-/

namespace Tracepoint.Java

open Text

/-! ## Numbers -/

/-- A length that is found before a character `d`, whatever comes after it. -/
structure EndsBefore (d : Char) (f : List Char → Nat) : Prop where
  eq : ∀ l b, f (l ++ d :: b) = f l
  le : ∀ l, f l ≤ l.length

theorem takeWhile_append_cons {p : Char → Bool} {d : Char} (h : p d = false) (l b : List Char) :
    (l ++ d :: b).takeWhile p = l.takeWhile p := by
  rw [List.takeWhile_append]
  split_ifs with hall
  · rw [List.takeWhile_cons_of_neg (by simp [h]), List.append_nil]
    exact ((List.takeWhile_prefix p).eq_of_length hall).symm
  · rfl

theorem EndsBefore.drop_append {d : Char} {f : List Char → Nat} (h : EndsBefore d f)
    (l b : List Char) : (l ++ d :: b).drop (f l) = l.drop (f l) ++ d :: b :=
  List.drop_append_of_le_length (h.le l)

theorem endsBefore_digitRun {isDigit : Char → Bool} {d : Char} (h : isDigit d = false)
    (hd : d ≠ '_') : EndsBefore d (digitRun isDigit) := by
  constructor
  · intro l b
    unfold digitRun
    rw [takeWhile_append_cons (by simp [h, hd])]
    cases l with
    | nil => simp [h]
    | cons c l => rfl
  · intro l
    unfold digitRun
    simp only
    split_ifs
    · calc ((l.takeWhile _).reverse.dropWhile _).length
          ≤ (l.takeWhile _).reverse.length := (List.dropWhile_suffix _).length_le
        _ = (l.takeWhile _).length := List.length_reverse
        _ ≤ l.length := (List.takeWhile_prefix _).length_le
    · exact Nat.zero_le _

theorem endsBefore_suffixLength {p : Char → Bool} {d : Char} (h : p d = false) :
    EndsBefore d (suffixLength p) := by
  constructor
  · intro l b
    cases l with
    | nil => simp [suffixLength, h]
    | cons c l => rfl
  · intro l
    cases l with
    | nil => simp [suffixLength]
    | cons c l =>
      unfold suffixLength
      split_ifs <;> simp

theorem endsBefore_exponentLength {isMark : Char → Bool} {d : Char} (hd : d ∈ separators)
    (h : isMark d = false) : EndsBefore d (exponentLength isMark) := by
  have hsign : EndsBefore d (suffixLength fun x => x == '+' || x == '-') :=
    endsBefore_suffixLength (not_of_separator (p := fun x => x == '+' || x == '-') hd (by decide))
  have hdigits : EndsBefore d (digitRun Char.isDigit) :=
    endsBefore_digitRun (not_of_separator hd (by decide)) (ne_of_separator hd (by decide))
  constructor
  · intro l b
    cases l with
    | nil => simp [exponentLength, h]
    | cons c l =>
      simp only [List.cons_append, exponentLength]
      rw [hsign.eq, hsign.drop_append, hdigits.eq]
  · intro l
    cases l with
    | nil => simp [exponentLength]
    | cons c l =>
      have hle := hsign.le l
      have hle' := hdigits.le (l.drop (suffixLength (fun x => x == '+' || x == '-') l))
      rw [List.length_drop] at hle'
      simp only [exponentLength, List.length_cons]
      split_ifs <;> omega

theorem radixLength_append {isDigit : Char → Bool} {d : Char} (hd : d ∈ separators)
    (h : isDigit d = false) (l b : List Char) :
    radixLength isDigit (l ++ d :: b) = radixLength isDigit l := by
  have hdigits : EndsBefore d (digitRun isDigit) :=
    endsBefore_digitRun h (ne_of_separator hd (by decide))
  have hsuffix : EndsBefore d (suffixLength isLongSuffix) :=
    endsBefore_suffixLength (not_of_separator hd (by decide))
  simp only [radixLength]
  rw [hdigits.eq, hdigits.drop_append, hsuffix.eq]

/-- The length of a point and the digits after it. -/
def fractionLength (isDigit : Char → Bool) : List Char → Nat
  | '.' :: more => 1 + digitRun isDigit more
  | _ => 0

theorem endsBefore_fractionLength {isDigit : Char → Bool} {d : Char} (hd : d ∈ separators)
    (h : isDigit d = false) : EndsBefore d (fractionLength isDigit) := by
  have hdigits : EndsBefore d (digitRun isDigit) :=
    endsBefore_digitRun h (ne_of_separator hd (by decide))
  constructor
  · intro l b
    cases l with
    | nil => simp [fractionLength, ne_of_separator (c := '.') hd (by decide)]
    | cons c l =>
      rw [List.cons_append]
      unfold fractionLength
      split
      · rename_i more heq
        cases heq
        simp only
        rw [hdigits.eq]
      · rename_i hdot
        split
        · rename_i more heq
          cases heq
          exact absurd rfl (hdot (l ++ d :: b))
        · rfl
  · intro l
    unfold fractionLength
    split
    · rename_i more
      have := hdigits.le more
      rw [List.length_cons]
      omega
    · exact Nat.zero_le _

theorem hexFloatLength_eq (cs : List Char) : hexFloatLength cs =
    let whole := digitRun isHexDigit cs
    let rest := cs.drop whole
    let part := fractionLength isHexDigit rest
    let exponent := exponentLength (fun c => c == 'p' || c == 'P') (rest.drop part)
    if exponent = 0 || whole + part ≤ 1 then 0
    else 2 + whole + part + exponent + suffixLength isFloatSuffix (rest.drop (part + exponent)) :=
  rfl

theorem hexFloatLength_append {d : Char} (hd : d ∈ separators) (l b : List Char) :
    hexFloatLength (l ++ d :: b) = hexFloatLength l := by
  have hdigits : EndsBefore d (digitRun isHexDigit) :=
    endsBefore_digitRun (not_of_separator hd (by decide)) (ne_of_separator hd (by decide))
  have hfraction : EndsBefore d (fractionLength isHexDigit) :=
    endsBefore_fractionLength hd (not_of_separator hd (by decide))
  have hexponent : EndsBefore d (exponentLength fun c => c == 'p' || c == 'P') :=
    endsBefore_exponentLength hd
      (not_of_separator (p := fun c => c == 'p' || c == 'P') hd (by decide))
  have hsuffix : EndsBefore d (suffixLength isFloatSuffix) :=
    endsBefore_suffixLength (not_of_separator hd (by decide))
  rw [hexFloatLength_eq, hexFloatLength_eq]
  simp only [hdigits.eq, hdigits.drop_append, hfraction.eq, hfraction.drop_append, hexponent.eq,
    ← List.drop_drop, hexponent.drop_append, hsuffix.eq]

/-- The length of the digits of an integer, of which one with a leading zero is octal. -/
def integerLength (cs : List Char) : Nat :=
  if cs.head? = some '0' then max 1 (digitRun isOctalDigit cs) else digitRun Char.isDigit cs

theorem endsBefore_integerLength {d : Char} (hd : d ∈ separators) :
    EndsBefore d integerLength := by
  have hdigits : EndsBefore d (digitRun Char.isDigit) :=
    endsBefore_digitRun (not_of_separator hd (by decide)) (ne_of_separator hd (by decide))
  have hoctal : EndsBefore d (digitRun isOctalDigit) :=
    endsBefore_digitRun (not_of_separator hd (by decide)) (ne_of_separator hd (by decide))
  constructor
  · intro l b
    have hhead : (l ++ d :: b).head? = some '0' ↔ l.head? = some '0' := by
      cases l <;> simp [ne_of_separator (c := '0') hd (by decide)]
    simp only [integerLength, hhead, hdigits.eq, hoctal.eq]
  · intro l
    unfold integerLength
    split_ifs with hhead
    · have hpos : 0 < l.length := by
        cases l with
        | nil => cases hhead
        | cons c l => exact Nat.succ_pos _
      have := hoctal.le l
      omega
    · exact hdigits.le l

theorem decimalLength_eq (cs : List Char) : decimalLength cs =
    let whole := digitRun Char.isDigit cs
    let rest := cs.drop whole
    let part := fractionLength Char.isDigit rest
    let exponent := exponentLength (fun c => c == 'e' || c == 'E') (rest.drop part)
    let suffix := suffixLength isFloatSuffix ((rest.drop part).drop exponent)
    if part + exponent + suffix = 0 then
      integerLength cs + suffixLength isLongSuffix (cs.drop (integerLength cs))
    else whole + part + exponent + suffix := by
  unfold decimalLength
  simp only
  split
  · rename_i more heq
    simp only [heq, fractionLength]
    rw [if_neg (by omega), Nat.add_comm 1, List.drop_succ_cons, List.drop_drop]
    omega
  · rename_i hdot
    have hpart : fractionLength Char.isDigit (cs.drop (digitRun Char.isDigit cs)) = 0 := by
      unfold fractionLength
      split
      · rename_i more heq
        exact absurd heq (hdot more)
      · rfl
    simp only [hpart, integerLength, List.drop_zero, Nat.zero_add, Nat.add_zero]

theorem decimalLength_append {d : Char} (hd : d ∈ separators) (l b : List Char) :
    decimalLength (l ++ d :: b) = decimalLength l := by
  have hdigits : EndsBefore d (digitRun Char.isDigit) :=
    endsBefore_digitRun (not_of_separator hd (by decide)) (ne_of_separator hd (by decide))
  have hfraction : EndsBefore d (fractionLength Char.isDigit) :=
    endsBefore_fractionLength hd (not_of_separator hd (by decide))
  have hexponent : EndsBefore d (exponentLength fun c => c == 'e' || c == 'E') :=
    endsBefore_exponentLength hd
      (not_of_separator (p := fun c => c == 'e' || c == 'E') hd (by decide))
  have hfloat : EndsBefore d (suffixLength isFloatSuffix) :=
    endsBefore_suffixLength (not_of_separator hd (by decide))
  have hlong : EndsBefore d (suffixLength isLongSuffix) :=
    endsBefore_suffixLength (not_of_separator hd (by decide))
  have hinteger := endsBefore_integerLength hd
  rw [decimalLength_eq, decimalLength_eq]
  simp only [hdigits.eq, hdigits.drop_append, hfraction.eq, hfraction.drop_append, hexponent.eq,
    hexponent.drop_append, hfloat.eq, hinteger.eq, hinteger.drop_append, hlong.eq]

/-- The length of a number with a radix mark, or 0. -/
def markedLength : List Char → Nat
  | '0' :: m :: more =>
    if m == 'x' || m == 'X' then max (radixLength isHexDigit more) (hexFloatLength more)
    else if m == 'b' || m == 'B' then radixLength isBinaryDigit more
    else if m == 'o' || m == 'O' then radixLength isOctalDigit more
    else 0
  | _ => 0

theorem numberLength_eq (cs : List Char) :
    numberLength cs = max (markedLength cs) (decimalLength cs) := rfl

theorem markedLength_of_ne {c : Char} (h : c ≠ '0') (cs : List Char) :
    markedLength (c :: cs) = 0 := by
  cases cs <;> simp [markedLength, h]

theorem markedLength_append {d : Char} (hd : d ∈ separators) (l b : List Char) :
    markedLength (l ++ d :: b) = markedLength l := by
  have hmark : d ∉ ['0', 'x', 'X', 'b', 'B', 'o', 'O'] :=
    not_mem_of_separator hd (by decide)
  simp only [List.mem_cons, List.not_mem_nil, or_false, not_or] at hmark
  cases l with
  | nil => exact markedLength_of_ne hmark.1 b
  | cons c l =>
    by_cases hc : c = '0'
    · subst hc
      cases l with
      | nil => simp [markedLength, hmark]
      | cons m more =>
        simp only [List.cons_append, markedLength]
        rw [radixLength_append hd (not_of_separator hd (by decide)),
          radixLength_append hd (not_of_separator hd (by decide)),
          radixLength_append hd (not_of_separator hd (by decide)), hexFloatLength_append hd]
    · rw [List.cons_append, markedLength_of_ne hc, markedLength_of_ne hc]

/-- A number ends before a separator. -/
theorem numberLength_append {d : Char} (hd : d ∈ separators) (l b : List Char) :
    numberLength (l ++ d :: b) = numberLength l := by
  rw [numberLength_eq, numberLength_eq, decimalLength_append hd, markedLength_append hd]

/-! ## Strings, characters and comments -/

/-- The end of a piece is found without looking past it. -/
def FindsEnd (f : List Char → Option Nat) : Prop :=
  ∀ cs n, f cs = some n → ∃ q r, cs = q ++ r ∧ q.length = n ∧ ∀ y, f (q ++ y) = some n

/-- An end that is found before some point stays where it is when the text from there on is
    exchanged. -/
theorem FindsEnd.append {f : List Char → Option Nat} (hf : FindsEnd f) {l b : List Char} {n : Nat}
    (h : f (l ++ b) = some n) (hn : n ≤ l.length) (b' : List Char) : f (l ++ b') = some n := by
  obtain ⟨q, r, hsplit, hlength, hq⟩ := hf _ _ h
  obtain ⟨m, rfl⟩ : ∃ m, l = q ++ m := by
    rcases List.append_eq_append_iff.1 hsplit with ⟨m, hm, -⟩ | ⟨m, hm, -⟩
    · have : m = [] := by
        rw [hm, List.length_append] at hlength
        exact List.eq_nil_of_length_eq_zero (by omega)
      exact ⟨[], by simp [hm, this]⟩
    · exact ⟨m, hm⟩
  rw [List.append_assoc]
  exact hq _

theorem findsEnd_blockCommentTail? : FindsEnd blockCommentTail? := by
  intro cs
  fun_induction blockCommentTail? cs with
  | case1 => intro n h; cases h
  | case2 cs =>
    intro n h
    cases h
    exact ⟨['*', '/'], cs, rfl, rfl, fun y => by simp [blockCommentTail?]⟩
  | case3 c cs hc ih =>
    intro n h
    obtain ⟨m, hm, rfl⟩ := Option.map_eq_some_iff.1 h
    obtain ⟨q, r, rfl, hlength, hq⟩ := ih m hm
    refine ⟨c :: q, r, rfl, by simp [hlength], fun y => ?_⟩
    cases q with
    | nil => exact absurd (hq []) (by simp [blockCommentTail?])
    | cons e q =>
      rw [List.cons_append, List.cons_append, blockCommentTail?]
      · rw [← List.cons_append, hq, Option.map_some]
      · intro tail hstar hslash
        cases hslash
        exact hc (q ++ r) hstar rfl

theorem findsEnd_textBlockTail? : FindsEnd textBlockTail? := by
  intro cs
  fun_induction textBlockTail? cs with
  | case1 => intro n h; cases h
  | case2 cs =>
    intro n h
    cases h
    exact ⟨['"', '"', '"'], cs, rfl, rfl, fun y => by simp [textBlockTail?]⟩
  | case3 c cs ih =>
    intro n h
    obtain ⟨m, hm, rfl⟩ := Option.map_eq_some_iff.1 h
    obtain ⟨q, r, rfl, hlength, hq⟩ := ih m hm
    exact ⟨'\\' :: c :: q, r, rfl, by simp [hlength], fun y => by simp [textBlockTail?, hq]⟩
  | case4 c cs hquotes hescape ih =>
    intro n h
    obtain ⟨m, hm, rfl⟩ := Option.map_eq_some_iff.1 h
    obtain ⟨q, r, rfl, hlength, hq⟩ := ih m hm
    refine ⟨c :: q, r, rfl, by simp [hlength], fun y => ?_⟩
    match q with
    | [] => exact absurd (hq []) (by simp [textBlockTail?])
    | [e] => exact absurd (hq []) (by simp [textBlockTail?])
    | e :: e' :: q =>
      rw [List.cons_append, List.cons_append, List.cons_append, textBlockTail?]
      · rw [← List.cons_append, ← List.cons_append, hq, Option.map_some]
      · intro tail hc hcs
        cases hcs
        exact hquotes (q ++ r) hc rfl
      · intro e'' tail hc hcs
        cases hcs
        exact hescape _ _ hc rfl

theorem findsEnd_characterTail? : FindsEnd characterTail? := by
  intro cs
  fun_induction characterTail? cs with
  | case1 => intro n h; cases h
  | case2 cs =>
    intro n h
    cases h
    exact ⟨['\x27'], cs, rfl, rfl, fun y => by simp [characterTail?]⟩
  | case3 c cs ih =>
    intro n h
    obtain ⟨m, hm, rfl⟩ := Option.map_eq_some_iff.1 h
    obtain ⟨q, r, rfl, hlength, hq⟩ := ih m hm
    exact ⟨'\\' :: c :: q, r, rfl, by simp [hlength], fun y => by simp [characterTail?, hq]⟩
  | case4 c cs hquote hescape hend => intro n h; cases h
  | case5 c cs hquote hescape hend ih =>
    intro n h
    obtain ⟨m, hm, rfl⟩ := Option.map_eq_some_iff.1 h
    obtain ⟨q, r, rfl, hlength, hq⟩ := ih m hm
    refine ⟨c :: q, r, rfl, by simp [hlength], fun y => ?_⟩
    rw [List.cons_append, characterTail?, if_neg hend, hq, Option.map_some]
    · exact hquote
    · intro e tail hc _
      simp [hc] at hend

/-- Whether a text starts with so many hexadecimal digits is decided before another
    character. -/
theorem take_isHexDigit_append {d : Char} (hd : isHexDigit d = false) (k : Nat) (q r : List Char) :
    (((q ++ d :: r).take k).length == k && ((q ++ d :: r).take k).all isHexDigit) =
      ((q.take k).length == k && (q.take k).all isHexDigit) := by
  by_cases hk : k ≤ q.length
  · rw [List.take_append_of_le_length hk]
  · have hmem : d ∈ (q ++ d :: r).take k := by
      obtain ⟨m, hm⟩ : ∃ m, k - q.length = m + 1 := ⟨k - q.length - 1, by omega⟩
      rw [List.take_append, hm, List.take_succ_cons]
      simp
    have hall : ((q ++ d :: r).take k).all isHexDigit = false :=
      List.all_eq_false.2 ⟨d, hmem, by simp [hd]⟩
    have hlength : ((q.take k).length == k) = false := by
      rw [List.length_take, beq_eq_false_iff_ne]
      omega
    rw [hall, hlength, Bool.and_false, Bool.false_and]

/-- An escape with digits in braces is decided before a quote. -/
theorem isEscape_brace_append (q r : List Char) :
    isEscape ('u' :: '{' :: (q ++ '"' :: r)) =
      (!(q.takeWhile isHexDigit).isEmpty &&
        (q.drop (q.takeWhile isHexDigit).length).head? == some '}') := by
  simp only [isEscape]
  rw [takeWhile_append_cons (by decide),
    List.drop_append_of_le_length (List.takeWhile_prefix _).length_le]
  congr 1
  cases q.drop (q.takeWhile isHexDigit).length <;> rfl

theorem isEscape_of_no_brace {cs : List Char} (h : cs.head? ≠ some '{') :
    isEscape ('u' :: cs) = ((cs.take 4).length == 4 && (cs.take 4).all isHexDigit) := by
  rw [isEscape]
  intro tail htail
  simp [htail] at h

/-- Whether the text after a backslash starts an escape is decided before the next quote. -/
theorem isEscape_append_quote (c : Char) (q r r' : List Char) :
    isEscape (c :: (q ++ '"' :: r)) = isEscape (c :: (q ++ '"' :: r')) := by
  have hquote : isHexDigit '"' = false := by decide
  by_cases hx : c = 'x'
  · subst hx
    simp only [isEscape, take_isHexDigit_append hquote]
  by_cases hu : c = 'u'
  · subst hu
    cases q with
    | nil =>
      have hhead : ∀ y : List Char, ('"' :: y).head? ≠ some '{' := by simp
      rw [List.nil_append, List.nil_append, isEscape_of_no_brace (hhead r),
        isEscape_of_no_brace (hhead r')]
      exact (take_isHexDigit_append hquote 4 [] r).trans
        (take_isHexDigit_append hquote 4 [] r').symm
    | cons e q =>
      by_cases he : e = '{'
      · subst he
        rw [List.cons_append, List.cons_append, isEscape_brace_append, isEscape_brace_append]
      · have hhead : ∀ y : List Char, (e :: q ++ '"' :: y).head? ≠ some '{' := by simp [he]
        rw [isEscape_of_no_brace (hhead r), isEscape_of_no_brace (hhead r'),
          take_isHexDigit_append hquote, take_isHexDigit_append hquote]
  · have hother : ∀ cs, isEscape (c :: cs) = true := by
      intro cs
      unfold isEscape
      split
      all_goals simp_all
    rw [hother, hother]

/-- The end of a string, which is a quote. -/
theorem stringTail?_eq_some {cs : List Char} : ∀ {n : Nat}, stringTail? cs = some n →
    ∃ q r, cs = q ++ '"' :: r ∧ q.length + 1 = n ∧ ∀ y, stringTail? (q ++ '"' :: y) = some n := by
  fun_induction stringTail? cs with
  | case1 => intro n h; cases h
  | case2 cs =>
    intro n h
    cases h
    exact ⟨[], cs, rfl, rfl, fun y => by simp [stringTail?]⟩
  | case3 c cs hescape ih =>
    intro n h
    obtain ⟨m, hm, rfl⟩ := Option.map_eq_some_iff.1 h
    obtain ⟨q, r, rfl, hlength, hq⟩ := ih hm
    refine ⟨'\\' :: c :: q, r, rfl, by simp [← hlength], fun y => ?_⟩
    have hescape' : isEscape (c :: (q ++ '"' :: y)) = true := by
      rw [isEscape_append_quote c q y r]
      exact hescape
    simp only [List.cons_append, stringTail?, hescape', if_true, hq, Option.map_some]
  | case4 c cs hescape => intro n h; cases h
  | case5 c cs hquote hescape hslash => intro n h; cases h
  | case6 c cs hquote hescape hslash ih =>
    intro n h
    obtain ⟨m, hm, rfl⟩ := Option.map_eq_some_iff.1 h
    obtain ⟨q, r, rfl, hlength, hq⟩ := ih hm
    refine ⟨c :: q, r, rfl, by simp [← hlength], fun y => ?_⟩
    rw [List.cons_append, stringTail?, if_neg hslash, hq, Option.map_some]
    · exact hquote
    · intro e tail hc _
      simp [hc] at hslash

theorem findsEnd_stringTail? : FindsEnd stringTail? := by
  intro cs n h
  obtain ⟨q, r, hcs, hlength, hq⟩ := stringTail?_eq_some h
  exact ⟨q ++ ['"'], r, by simp [hcs], by simpa using hlength, fun y => by simpa using hq y⟩

theorem quotedTail?_append {d : Char} (hd : d ∈ separators) {l b : List Char} {n : Nat}
    (h : quotedTail? (l ++ d :: b) = some n) (hn : n ≤ l.length) (b' : List Char) :
    quotedTail? (l ++ d :: b') = some n := by
  have hquote : d ≠ '"' := ne_of_separator hd (by decide)
  by_cases hl : ∃ more, l = '"' :: '"' :: more
  · obtain ⟨more, rfl⟩ := hl
    obtain ⟨m, hm, rfl⟩ := Option.map_eq_some_iff.1 h
    have hle : m ≤ more.length := by
      rw [List.length_cons, List.length_cons] at hn
      omega
    exact Option.map_eq_some_iff.2 ⟨m, findsEnd_textBlockTail?.append hm hle _, rfl⟩
  · -- a third quote would have to stand before the separator
    have hstring : ∀ y, quotedTail? (l ++ d :: y) = stringTail? (l ++ d :: y) := by
      intro y
      rw [quotedTail?]
      intro more hmore
      match l with
      | [] => simp [hquote] at hmore
      | [e] => simp [hquote] at hmore
      | e :: e' :: more' =>
        simp only [List.cons_append, List.cons.injEq] at hmore
        exact hl ⟨more', by rw [hmore.1, hmore.2.1]⟩
    rw [hstring] at h ⊢
    exact findsEnd_stringTail?.append h hn _

/-- Whether a text closes a comment. -/
def closesComment (cs : List Char) : Bool := (blockCommentTail? cs).isSome

theorem closesComment_cons {c : Char} {cs : List Char}
    (h : c = '*' → ∀ more, cs ≠ '/' :: more) : closesComment (c :: cs) = closesComment cs := by
  rw [closesComment, blockCommentTail?, Option.isSome_map, closesComment]
  intro more hc hcs
  exact h hc more hcs

/-- A separator is no part of what closes a comment. -/
theorem closesComment_append {d : Char} (hd : d ∈ separators) (l b : List Char) :
    closesComment (l ++ d :: b) = (closesComment l || closesComment b) := by
  induction l with
  | nil => exact closesComment_cons fun h => absurd h (ne_of_separator hd (by decide))
  | cons c l ih =>
    by_cases hl : c = '*' ∧ ∃ more, l = '/' :: more
    · obtain ⟨rfl, more, rfl⟩ := hl
      simp [closesComment, blockCommentTail?]
    · rw [List.cons_append, closesComment_cons, closesComment_cons, ih]
      · intro hc more hmore
        exact hl ⟨hc, more, hmore⟩
      · intro hc more hmore
        cases l with
        | nil => exact absurd (List.cons.inj hmore).1 (ne_of_separator hd (by decide))
        | cons e l => exact hl ⟨hc, l, by rw [(List.cons.inj hmore).1]⟩

/-- A text without a star closes no comment. -/
theorem closesComment_append_of_not_mem {l : List Char} (h : '*' ∉ l) (b : List Char) :
    closesComment (l ++ b) = closesComment b := by
  induction l with
  | nil => rfl
  | cons c l ih =>
    rw [List.mem_cons, not_or] at h
    rw [List.cons_append, closesComment_cons fun hc => absurd hc.symm h.1, ih h.2]

theorem commentTail?_separator {d : Char} (hd : d ∈ separators) (b : List Char) :
    commentTail? (d :: b) = none := by
  rw [commentTail?]
  · intro cs heq
    exact absurd (List.cons.inj heq).1 (ne_of_separator hd (by decide))
  · intro cs heq
    exact absurd (List.cons.inj heq).1 (ne_of_separator hd (by decide))

theorem commentTail?_append_of_some {d : Char} (hd : d ∈ separators) {l b : List Char} {n : Nat}
    (h : commentTail? (l ++ d :: b) = some n) (hn : n ≤ l.length) (b' : List Char) :
    commentTail? (l ++ d :: b') = some n := by
  cases l with
  | nil =>
    rw [List.nil_append, commentTail?_separator hd] at h
    cases h
  | cons c l =>
    rw [List.cons_append] at h ⊢
    rw [List.length_cons] at hn
    unfold commentTail? at h
    split at h
    · rename_i cs heq
      obtain ⟨rfl, rfl⟩ := List.cons.inj heq
      rw [Option.some.injEq] at h
      by_cases hline : (l.takeWhile (· != '\n')).length = l.length
      · -- the comment would take the separator
        have hnewline : (d != '\n') = true := bne_iff_ne.2 (ne_of_separator hd (by decide))
        rw [List.takeWhile_append, if_pos hline,
          List.takeWhile_cons_of_pos (p := fun x => x != '\n') hnewline, List.length_append,
          List.length_cons] at h
        omega
      · rw [List.takeWhile_append, if_neg hline] at h
        rw [commentTail?, List.takeWhile_append, if_neg hline, h]
    · rename_i cs heq
      obtain ⟨rfl, rfl⟩ := List.cons.inj heq
      obtain ⟨m, hm, rfl⟩ := Option.map_eq_some_iff.1 h
      exact Option.map_eq_some_iff.2
        ⟨m, findsEnd_blockCommentTail?.append hm (by omega) _, rfl⟩
    · cases h

/-- What is no comment stays none unless it is closed after the separator. -/
theorem commentTail?_append_of_none {d : Char} (hd : d ∈ separators) {l b b' : List Char}
    (h : commentTail? (l ++ d :: b) = none)
    (hb : closesComment b' = true → closesComment b = true) :
    commentTail? (l ++ d :: b') = none := by
  cases l with
  | nil => exact commentTail?_separator hd b'
  | cons c l =>
    rw [List.cons_append] at h ⊢
    by_cases hslash : c = '/'
    · subst hslash
      simp [commentTail?] at h
    by_cases hstar : c = '*'
    · subst hstar
      have hopen : closesComment (l ++ d :: b) = false := by
        simpa [commentTail?, closesComment] using h
      have hopen' : closesComment (l ++ d :: b') = false := by
        rw [closesComment_append hd] at hopen ⊢
        rw [Bool.or_eq_false_iff] at hopen ⊢
        exact ⟨hopen.1, Bool.eq_false_iff.2 fun h' => by simp [hb h'] at hopen⟩
      simpa [commentTail?, closesComment] using hopen'
    · rw [commentTail?]
      · intro cs heq
        exact absurd (List.cons.inj heq).1 hslash
      · intro cs heq
        exact absurd (List.cons.inj heq).1 hstar

/-! ## Symbols -/

theorem startsWith_append {p : List Char} {d : Char} (h : d ∉ p) (l b b' : List Char) :
    startsWith p (l ++ d :: b) = startsWith p (l ++ d :: b') := by
  induction p generalizing l with
  | nil => rfl
  | cons x p ih =>
    rw [List.mem_cons, not_or] at h
    unfold startsWith at ih ⊢
    cases l with
    | nil => simp [dropStart?, Ne.symm h.1]
    | cons c l =>
      simp only [List.cons_append, dropStart?]
      split_ifs
      · exact ih h.2 l
      · rfl

theorem symbolTail?_append {d : Char} (hd : d ∈ separators) (c : Char) (l b b' : List Char) :
    symbolTail? c (l ++ d :: b) = symbolTail? c (l ++ d :: b') := by
  have hnot : ∀ p ∈ longSymbols, d ∉ p := fun p hp =>
    not_mem_of_separator hd (List.all_eq_true.1
      (show longSymbols.all (·.all fun c => !separators.contains c) = true by decide) p hp)
  have hfind : longSymbols.find? (startsWith · (c :: (l ++ d :: b))) =
      longSymbols.find? (startsWith · (c :: (l ++ d :: b'))) :=
    List.find?_congr fun p hp => startsWith_append (hnot p hp) (c :: l) b b'
  rw [symbolTail?, symbolTail?, hfind]

/-! ## Pieces -/

/-- A piece before a separator stays as it is when what comes after the separator is exchanged,
    unless this closes a comment. -/
theorem pieceAt_separated {d : Char} (hd : d ∈ separators) {c : Char} {l b b' : List Char}
    {piece : Piece} {n : Nat} (h : pieceAt c (l ++ d :: b) = (piece, n)) (hn : n ≤ l.length)
    (hstray : piece ≠ .token .stray) (hb : closesComment b' = true → closesComment b = true) :
    pieceAt c (l ++ d :: b') = (piece, n) := by
  have hword : ∀ y, (l ++ d :: y).takeWhile isIdentifierPart = l.takeWhile isIdentifierPart :=
    takeWhile_append_cons (not_of_separator hd (by decide)) l
  have hhead : ∀ y, ((l ++ d :: y).head?.map Char.isDigit).getD false =
      (l.head?.map Char.isDigit).getD false := by
    intro y
    have hdigit : d.isDigit = false := not_of_separator hd (by decide)
    cases l <;> simp [hdigit]
  have hnumber : ∀ y, numberLength (c :: (l ++ d :: y)) = numberLength (c :: l) :=
    numberLength_append hd (c :: l)
  unfold pieceAt at h ⊢
  rw [hword, hhead, hnumber] at h ⊢
  split_ifs at h ⊢
  · exact h
  · exact h
  · exact h
  · cases hq : quotedTail? (l ++ d :: b) with
    | none =>
      rw [hq] at h
      cases h
      exact absurd rfl hstray
    | some m =>
      rw [hq] at h
      cases h
      rw [quotedTail?_append hd hq hn b']
  · cases hq : characterTail? (l ++ d :: b) with
    | none =>
      rw [hq] at h
      cases h
      exact absurd rfl hstray
    | some m =>
      simp only [hq] at h
      split_ifs at h with hm
      · cases h
        exact absurd rfl hstray
      · cases h
        simp only [findsEnd_characterTail?.append hq hn, if_neg hm]
  · cases hq : commentTail? (l ++ d :: b) with
    | none =>
      rw [hq] at h
      rw [commentTail?_append_of_none hd hq hb]
      simpa only [symbolTail?_append hd c l b' b] using h
    | some m =>
      rw [hq] at h
      cases h
      rw [commentTail?_append_of_some hd hq hn]
  · simpa only [symbolTail?_append hd c l b' b] using h

/-- A text can be cut into pieces up to a separator and from there on. What comes after the
    separator can be exchanged, unless this closes a comment. -/
theorem pieces_append {d : Char} (hd : d ∈ separators) {a b : List Char}
    (h : Scans (a ++ d :: b) (d :: b))
    (hstray : ∀ p ∈ pieces (a ++ d :: b), p.1 ≠ .token .stray) {b' : List Char}
    (hb : closesComment b' = true → closesComment b = true) :
    pieces (a ++ d :: b') = pieces (a ++ [d]) ++ pieces b' := by
  induction hn : a.length using Nat.strongRecOn generalizing a with
  | _ n ih =>
    cases a with
    | nil =>
      rw [List.nil_append, List.nil_append, pieces_separator hd, pieces_separator hd]
      simp
    | cons c a =>
      cases hpiece : pieceAt c (a ++ d :: b) with | mk piece k =>
      rw [List.cons_append] at h hstray
      have hrest := h.after_piece (by
        simp only [List.length_cons, List.length_append]
        omega)
      rw [hpiece] at hrest
      have hk : k ≤ a.length := by
        have := hrest.length_le
        rw [List.length_drop, List.length_append, List.length_cons] at this
        omega
      rw [pieces_cons hpiece] at hstray
      rw [List.drop_append_of_le_length hk] at hrest hstray
      have hpiece' : ∀ y, (closesComment y = true → closesComment b = true) →
          pieces (c :: (a ++ d :: y)) =
            (piece, c :: a.take k) :: pieces (a.drop k ++ d :: y) := by
        intro y hy
        rw [pieces_cons (pieceAt_separated hd hpiece hk (hstray _ List.mem_cons_self) hy),
          List.take_append_of_le_length hk, List.drop_append_of_le_length hk]
      have hlt : (a.drop k).length < n := by
        rw [← hn, List.length_drop, List.length_cons]
        omega
      rw [List.cons_append, List.cons_append, hpiece' b' hb, hpiece' [] (by simp [closesComment,
        blockCommentTail?]), ih _ hlt hrest (fun p hp => hstray p (List.mem_cons_of_mem _ hp)) rfl,
        List.cons_append]

end Tracepoint.Java
