import Mathlib.Data.List.DropRight
import Tracepoint.Text.Blank
import Tracepoint.Text.Identifier

/-!
# Blanks around and in a text

Blanks are taken off the ends of a text, or out of all of it. No blank stands in an identifier.

Results:

* `isIdentifierPart_of_isBlank`: blanks are no part of an identifier.
* `squeeze_trim`: without any blank, it makes no difference what the ends were.
* `trimEnd_append_of_solid`: trimming stops at what is no blank.
* `trim_append_of_blank`: trimming takes off what is blank at both ends.
-/

namespace Tracepoint.Text

/-! ## Blanks and identifiers -/

/-- The code points of the blanks. -/
def blankCodes : List Nat :=
  [0x09, 0x0a, 0x0b, 0x0c, 0x0d, 0x20, 0x85, 0xa0, 0x1680, 0x2000, 0x2001, 0x2002, 0x2003, 0x2004,
    0x2005, 0x2006, 0x2007, 0x2008, 0x2009, 0x200a, 0x2028, 0x2029, 0x202f, 0x205f, 0x3000]

theorem mem_blankCodes {c : Char} (h : isBlank c = true) : c.toNat ∈ blankCodes := by
  simp only [isBlank, Bool.or_eq_true, Bool.and_eq_true, decide_eq_true_eq, beq_iff_eq] at h
  simp only [blankCodes, List.mem_cons, List.not_mem_nil, or_false]
  omega

/-- A blank is no part of an identifier. -/
theorem isIdentifierPart_of_isBlank {c : Char} (h : isBlank c = true) :
    isIdentifierPart c = false := by
  have hall : (blankCodes.all fun n => !isIdentifierPart (Char.ofNat n)) = true := by
    decide +kernel
  simpa [Char.ofNat_toNat] using List.all_eq_true.1 hall _ (mem_blankCodes h)

/-! ## Trimming -/

theorem trimStart_cons_of_solid {c : Char} (h : isBlank c = false) (s : List Char) :
    trimStart (c :: s) = c :: s := by
  rw [trimStart, List.dropWhile_cons_of_neg (by simp [h])]

theorem trimEnd_concat_of_solid {c : Char} (h : isBlank c = false) (s : List Char) :
    trimEnd (s ++ [c]) = s ++ [c] := by
  rw [trimEnd, List.reverse_append, List.reverse_singleton, List.singleton_append,
    List.dropWhile_cons_of_neg (by simp [h])]
  simp

theorem trimStart_append_of_blank {s : List Char} (h : ∀ c ∈ s, isBlank c = true)
    (t : List Char) : trimStart (s ++ t) = trimStart t := by
  rw [trimStart, List.dropWhile_append_of_pos h, trimStart]

theorem squeeze_of_blank {s : List Char} (h : ∀ c ∈ s, isBlank c = true) : squeeze s = [] := by
  simpa [squeeze, List.filter_eq_nil_iff] using h

theorem squeeze_of_solid {s : List Char} (h : ∀ c ∈ s, isBlank c = false) : squeeze s = s := by
  rw [squeeze, List.filter_eq_self]
  intro c hc
  rw [h c hc]
  rfl

@[simp] theorem squeeze_trimStart (s : List Char) : squeeze (trimStart s) = squeeze s := by
  conv_rhs => rw [← trimStart_append s, squeeze_append,
    squeeze_of_blank fun c hc => List.mem_takeWhile_imp hc, List.nil_append]

@[simp] theorem squeeze_trimEnd (s : List Char) : squeeze (trimEnd s) = squeeze s := by
  conv_rhs => rw [← trimEnd_append s, squeeze_append,
    squeeze_of_blank fun c hc => List.mem_takeWhile_imp (List.mem_reverse.1 hc), List.append_nil]

/-- Without any blank, it makes no difference what blanks the ends had. -/
@[simp] theorem squeeze_trim (s : List Char) : squeeze (trim s) = squeeze s := by
  rw [trim, squeeze_trimEnd, squeeze_trimStart]

theorem trimStart_trimStart (s : List Char) : trimStart (trimStart s) = trimStart s :=
  List.dropWhile_idempotent _ s

/-- Trimming stops at what is no blank. -/
theorem trimEnd_append_of_solid {w : List Char} (h : ∀ c ∈ w, isBlank c = false) (s : List Char) :
    trimEnd (w ++ s) = w ++ trimEnd s := by
  have hw : w.reverse.dropWhile isBlank = w.reverse := by
    cases hr : w.reverse with
    | nil => rfl
    | cons c cs =>
      have hc : c ∈ w := List.mem_reverse.1 (by rw [hr]; exact List.mem_cons_self)
      rw [List.dropWhile_cons_of_neg (by simp [h c hc])]
  rw [trimEnd, trimEnd, List.reverse_append, List.dropWhile_append, hw]
  split_ifs with hempty
  · rw [List.isEmpty_iff.1 hempty]
    simp
  · simp

theorem trimEnd_append_of_blank {t : List Char} (h : ∀ c ∈ t, isBlank c = true) (s : List Char) :
    trimEnd (s ++ t) = trimEnd s := by
  rw [trimEnd, List.reverse_append,
    List.dropWhile_append_of_pos fun c hc => h c (List.mem_reverse.1 hc), trimEnd]

/-- White space around a text makes no difference when it is trimmed. -/
theorem trim_append_of_blank {lead trail : List Char} (hlead : ∀ c ∈ lead, isBlank c = true)
    (htrail : ∀ c ∈ trail, isBlank c = true) (s : List Char) :
    trim (lead ++ (s ++ trail)) = trim s := by
  rw [trim, trim, trimStart_append_of_blank hlead, trimStart, List.dropWhile_append]
  split_ifs with hempty
  · rw [trimStart, List.isEmpty_iff.1 hempty, List.dropWhile_eq_nil_iff.2 htrail]
  · exact trimEnd_append_of_blank htrail _

/-- Of a text with a word behind some white space, the word is what is left first. -/
theorem trim_append_word {gap w : List Char} (hgap : ∀ c ∈ gap, isBlank c = true)
    (hw : ∀ c ∈ w, isBlank c = false) (hne : w ≠ []) (s : List Char) :
    trim (gap ++ (w ++ s)) = w ++ trimEnd s := by
  obtain ⟨c, w, rfl⟩ := List.exists_cons_of_ne_nil hne
  rw [trim, trimStart_append_of_blank hgap, List.cons_append,
    trimStart_cons_of_solid (hw c List.mem_cons_self), ← List.cons_append,
    trimEnd_append_of_solid hw]

theorem trimStart_of_solid {w : List Char} (h : ∀ c ∈ w, isBlank c = false) : trimStart w = w := by
  cases w with
  | nil => rfl
  | cons c w => exact trimStart_cons_of_solid (h c List.mem_cons_self) w

theorem trimEnd_of_solid {w : List Char} (h : ∀ c ∈ w, isBlank c = false) : trimEnd w = w := by
  have happend := trimEnd_append_of_solid h []
  rwa [List.append_nil, show trimEnd [] = [] from rfl, List.append_nil] at happend

/-- What is left at the end starts as the whole text does. -/
theorem head?_trimEnd {c : Char} {s : List Char} (h : c ∈ (trimEnd s).head?) : c ∈ s.head? := by
  rw [← trimEnd_append s, List.head?_append, Option.mem_def.1 h]
  rfl

end Tracepoint.Text
