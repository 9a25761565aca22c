import Mathlib.Data.List.Nodup
import Mathlib.Data.List.TakeWhile
import Mathlib.Tactic.Common
import Tracepoint.Config.Logger

/-!
# Reading logger properties back

A properties file has a line for each key. A reader of the format cuts the file into lines,
takes off the white space at their starts, leaves out blank lines and comments, goes on in the
next line where a backslash ends one, and ends the key at the first separator that is not
escaped. What is read is kept in 16-bit units, two of them for a character beyond U+FFFF.

What the file of a logger is written with keeps all of this apart, but for one character: a form
feed is white space of the format and is written as it stands. So a key ends at a form feed, and
a value loses those at its start.

Results:

* `utf16_injective`: units tell texts apart.
* `logicalLines_render`: the reader finds one line for each key.
* `entryOf_content`: what it reads in a line.
* `load_render_of_free`: the values that are read back as they are.
* `load_render_iff`: there are no others.
* `load_render_form_feed`: a form feed in a key cuts it short.
-/

namespace Tracepoint.Config.Properties

/-! ## The format -/

/-- The white space of the format: a space, a tab or a form feed. -/
def isSpace (c : Char) : Bool := c = ' ' || c = '\t' || c = '\x0c'

/-- What ends a key, unless it is escaped. -/
def isSeparator (c : Char) : Bool := c = '=' || c = ':' || isSpace c

/-- The lines of a text, which end at `\n`, `\r` or `\r\n`. -/
def naturalLines : List Char → List (List Char)
  | [] => [[]]
  | '\r' :: '\n' :: rest => [] :: naturalLines rest
  | c :: rest =>
    if c = '\n' || c = '\r' then [] :: naturalLines rest
    else match naturalLines rest with
      | [] => [[c]]
      | line :: more => (c :: line) :: more

/-- Whether a line ends in a backslash that is not escaped itself. -/
def goesOn : List Char → Bool
  | [] => false
  | ['\\'] => true
  | '\\' :: _ :: rest => goesOn rest
  | _ :: rest => goesOn rest

/-- Whether a line has nothing to say: it is blank or a comment. -/
def isIdle (line : List Char) : Bool :=
  match line with
  | [] => true
  | c :: _ => c = '#' || c = '!'

/-- The lines as they count: without white space at their starts, without those that are idle,
    and each with the lines that it goes on in. `before` is what has been read of a line that
    goes on. -/
def logicalLines (before : Option (List Char)) : List (List Char) → List (List Char)
  | [] => before.toList
  | line :: more =>
    let content := line.dropWhile isSpace
    if before.isNone && isIdle content then logicalLines none more
    else if goesOn content then
      logicalLines (some (before.getD [] ++ content.dropLast)) more
    else (before.getD [] ++ content) :: logicalLines none more

/-- A line cut at the first separator that is not escaped. -/
def cutKey : List Char → List Char × List Char
  | [] => ([], [])
  | '\\' :: c :: rest => ('\\' :: c :: (cutKey rest).1, (cutKey rest).2)
  | c :: rest =>
    if isSeparator c then ([], c :: rest) else (c :: (cutKey rest).1, (cutKey rest).2)

/-- The value after a key: white space, one `=` or `:`, and white space go first. -/
def afterSeparator (rest : List Char) : List Char :=
  match rest.dropWhile isSpace with
  | '=' :: value => value.dropWhile isSpace
  | ':' :: value => value.dropWhile isSpace
  | value => value

/-- The 16-bit units of a character. -/
def units (c : Char) : List Nat :=
  if c.toNat < 0x10000 then [c.toNat]
  else [0xd800 + (c.toNat - 0x10000) / 0x400, 0xdc00 + (c.toNat - 0x10000) % 0x400]

/-- The 16-bit units of a text. -/
def utf16 (s : List Char) : List Nat := s.flatMap units

/-- What a character stands for after a backslash. -/
def meaning : Char → Char
  | 'n' => '\n'
  | 'r' => '\r'
  | 't' => '\t'
  | 'f' => '\x0c'
  | c => c

/-- The value of a hexadecimal digit. -/
def hexDigit? (c : Char) : Option Nat :=
  if '0' ≤ c ∧ c ≤ '9' then some (c.toNat - '0'.toNat)
  else if 'a' ≤ c ∧ c ≤ 'f' then some (c.toNat - 'a'.toNat + 10)
  else if 'A' ≤ c ∧ c ≤ 'F' then some (c.toNat - 'A'.toNat + 10)
  else none

/-- The unit that four hexadecimal digits give. -/
def unit? (a b c d : Char) : Option Nat :=
  return (((← hexDigit? a) * 16 + (← hexDigit? b)) * 16 + (← hexDigit? c)) * 16 + (← hexDigit? d)

/-- The units of a key or value as it is written. There are none if `\u` stands without four
    hexadecimal digits. -/
def decode : List Char → Option (List Nat)
  | [] => some []
  | '\\' :: 'u' :: a :: b :: c :: d :: rest => return (← unit? a b c d) :: (← decode rest)
  | '\\' :: 'u' :: _ => none
  | '\\' :: c :: rest => return units (meaning c) ++ (← decode rest)
  | c :: rest => return units c ++ (← decode rest)

/-- The key and the value in a line. -/
def entryOf (line : List Char) : Option (List Nat × List Nat) := do
  return (← decode (cutKey line).1, ← decode (afterSeparator (cutKey line).2))

/-- The entries that a text is read as, in order. There are none if it is malformed. -/
def load (text : List Char) : Option (List (List Nat × List Nat)) :=
  (logicalLines none (naturalLines text)).mapM entryOf

/-- The value of a key. A later entry replaces an earlier one. -/
def valueOf (entries : List (List Nat × List Nat)) (key : List Nat) : Option (List Nat) :=
  (entries.reverse.find? (·.1 = key)).map (·.2)

/-- Keys and values in 16-bit units. -/
def inUnits (values : List (String × String)) : List (List Nat × List Nat) :=
  values.map fun e => (utf16 e.1.toList, utf16 e.2.toList)

/-! ## Units -/

theorem units_ne_nil (c : Char) : units c ≠ [] := by
  unfold units
  split_ifs <;> simp

/-- The units of a character are not the start of those of another one. -/
theorem units_append_inj {c d : Char} {s t : List Nat} (h : units c ++ s = units d ++ t) :
    c = d ∧ s = t := by
  -- the first unit tells whether there is a second one
  have hc : c.toNat < 0xd800 ∨ 0xdfff < c.toNat ∧ c.toNat < 0x110000 := c.valid
  have hd : d.toNat < 0xd800 ∨ 0xdfff < d.toNat ∧ d.toNat < 0x110000 := d.valid
  suffices c.toNat = d.toNat ∧ s = t from ⟨Char.toNat_inj.1 this.1, this.2⟩
  unfold units at h
  split_ifs at h with h₁ h₂ h₂ <;>
    simp only [List.cons_append, List.nil_append, List.cons.injEq] at h
  · exact h
  · omega
  · omega
  · exact ⟨by omega, h.2.2⟩

/-- Units tell texts apart. -/
theorem utf16_injective : Function.Injective utf16 := by
  intro s
  induction s with
  | nil =>
    intro t h
    cases t with
    | nil => rfl
    | cons d t => exact absurd (List.append_eq_nil_iff.1 h.symm).1 (units_ne_nil d)
  | cons c s ih =>
    intro t h
    cases t with
    | nil => exact absurd (List.append_eq_nil_iff.1 h).1 (units_ne_nil c)
    | cons d t =>
      obtain ⟨rfl, hst⟩ := units_append_inj h
      rw [ih hst]

/-! ## Written characters -/

/-- A character is written as it stands, a space only after the start of a value, or after a
    backslash. -/
theorem propertyChar_cases (k : Bool) (index : Nat) (c : Char) :
    propertyChar k index c = [c] ∧ c ∉ ['\\', '\n', '\r', '\t', '=', ':', '#', '!'] ∧
        (c = ' ' → k = false ∧ index ≠ 0) ∨
      ∃ d, propertyChar k index c = ['\\', d] ∧ d ∉ ['u', '\n', '\r'] ∧ meaning d = c := by
  unfold propertyChar
  split
  · exact .inr ⟨'\\', rfl, by decide, rfl⟩
  · exact .inr ⟨'n', rfl, by decide, rfl⟩
  · exact .inr ⟨'r', rfl, by decide, rfl⟩
  · exact .inr ⟨'t', rfl, by decide, rfl⟩
  · exact .inr ⟨'=', rfl, by decide, rfl⟩
  · exact .inr ⟨':', rfl, by decide, rfl⟩
  · exact .inr ⟨'#', rfl, by decide, rfl⟩
  · exact .inr ⟨'!', rfl, by decide, rfl⟩
  · split_ifs with h
    · exact .inr ⟨' ', rfl, by decide, rfl⟩
    · exact .inl ⟨rfl, by decide, fun _ => by simpa using h⟩
  · rename_i h₁ h₂ h₃ h₄ h₅ h₆ h₇ h₈ h₉
    refine .inl ⟨rfl, ?_, fun h => absurd h h₉⟩
    simpa using ⟨h₁, h₂, h₃, h₄, h₅, h₆, h₇, h₈⟩

variable {k : Bool} {i : Nat} {s t : List Char}

/-- No line break is written as it stands. -/
theorem mem_propertyChars {c : Char} (h : c ∈ propertyChars k i s) :
    c ≠ '\n' ∧ c ≠ '\r' := by
  induction s generalizing i with
  | nil => cases h
  | cons a s ih =>
    rw [propertyChars] at h
    rcases List.mem_append.1 h with h | h
    · rcases propertyChar_cases k i a with ⟨ha, hplain, -⟩ | ⟨d, ha, hd, -⟩
      · rw [ha, List.mem_singleton] at h
        subst h
        simp at hplain
        exact ⟨hplain.2.1, hplain.2.2.1⟩
      · rw [ha, List.mem_pair] at h
        rcases h with rfl | rfl
        · decide
        · simp at hd
          exact hd.2
    · exact ih h

theorem goesOn_cons {c : Char} (hc : c ≠ '\\') : goesOn (c :: s) = goesOn s := by
  cases s <;> simp [goesOn, hc]

/-- What is written ends in no backslash that would make the line go on. -/
theorem goesOn_propertyChars_append :
    goesOn (propertyChars k i s ++ t) = goesOn t := by
  induction s generalizing i with
  | nil => rfl
  | cons c s ih =>
    rw [propertyChars, List.append_assoc]
    rcases propertyChar_cases k i c with ⟨hc, hplain, -⟩ | ⟨d, hc, -, -⟩
    · have hne : c ≠ '\\' := fun h => hplain (h ▸ List.mem_cons_self)
      rw [hc, List.cons_append, List.nil_append, goesOn_cons hne, ih]
    · rw [hc]
      exact ih

theorem decode_cons {c : Char} (hc : c ≠ '\\') :
    decode (c :: s) = (decode s).map (units c ++ ·) := by
  rw [decode]
  · cases decode s <;> rfl
  all_goals simp [hc]

theorem decode_escaped {d : Char} (hd : d ≠ 'u') :
    decode ('\\' :: d :: s) = (decode s).map (units (meaning d) ++ ·) := by
  rw [decode]
  · cases decode s <;> rfl
  all_goals simp [hd]

/-- What is written is decoded as what it was written for. -/
theorem decode_propertyChars : decode (propertyChars k i s) = some (utf16 s) := by
  induction s generalizing i with
  | nil => rfl
  | cons c s ih =>
    rw [propertyChars, utf16, List.flatMap_cons]
    rcases propertyChar_cases k i c with ⟨hc, hplain, -⟩ | ⟨d, hc, hd, hmeaning⟩
    · have hne : c ≠ '\\' := fun h => hplain (h ▸ List.mem_cons_self)
      rw [hc, List.cons_append, List.nil_append, decode_cons hne, ih]
      rfl
    · have hne : d ≠ 'u' := fun h => hd (h ▸ List.mem_cons_self)
      rw [hc, List.cons_append, List.cons_append, List.nil_append, decode_escaped hne, ih, hmeaning]
      rfl

/-! ## White space that is written as it stands -/

/-- Whether a character is written as white space of the format. -/
def isBare (k : Bool) (i : Nat) (c : Char) : Bool :=
  c = '\x0c' || (c = ' ' && !k && i ≠ 0)

theorem isBare_zero (c : Char) : isBare k 0 c = true ↔ c = '\x0c' := by simp [isBare]

theorem isBare_key (i : Nat) (c : Char) : isBare true i c = true ↔ c = '\x0c' := by
  simp [isBare]

/-- What is written for a character either is white space or starts with something else. -/
theorem propertyChar_head (k : Bool) (i : Nat) (c : Char) :
    propertyChar k i c = [c] ∧ isSpace c = true ∧ isBare k i c = true ∨
      ∃ a w, propertyChar k i c = a :: w ∧ isSpace a = false ∧
        a ∉ ['#', '!'] ∧ isBare k i c = false := by
  rcases propertyChar_cases k i c with ⟨hc, hplain, hspace⟩ | ⟨d, hc, -, hmeaning⟩
  · by_cases hbare : isBare k i c = true
    · refine .inl ⟨hc, ?_, hbare⟩
      unfold isBare at hbare
      unfold isSpace
      grind
    · refine .inr ⟨c, [], hc, ?_, by simp_all, by simpa using hbare⟩
      unfold isBare at hbare
      unfold isSpace
      grind
  · refine .inr ⟨'\\', [d], hc, rfl, by decide, ?_⟩
    have hfeed : c ≠ '\x0c' := by
      rintro rfl
      have hwritten : propertyChar k i '\x0c' = ['\x0c'] := rfl
      rw [hwritten] at hc
      cases hc
    have hspace : c = ' ' → k = true ∨ i = 0 := by
      rintro rfl
      by_contra hnot
      rw [propertyChar, if_neg (by simpa using hnot)] at hc
      cases hc
    unfold isBare
    grind

/-- White space at the start of what is written comes from the start of what it is written
    for. -/
theorem dropWhile_propertyChars (ht : t.dropWhile isSpace = t) :
    ∃ gone kept j, s = gone ++ kept ∧ (gone = [] ↔ ∀ c ∈ s.head?, isBare k i c = false) ∧
      (propertyChars k i s ++ t).dropWhile isSpace = propertyChars k j kept ++ t ∧
        ∀ a ∈ (propertyChars k j kept).head?, isSpace a = false ∧ a ∉ ['#', '!'] := by
  induction s generalizing i with
  | nil => exact ⟨[], [], i, rfl, by simp, ht, by simp [propertyChars]⟩
  | cons c s ih =>
    rcases propertyChar_head k i c with ⟨hc, hspace, hbare⟩ | ⟨a, w, hc, hspace, ha, hbare⟩
    · obtain ⟨gone, kept, j, rfl, -, hdrop, hhead⟩ := ih (i := i + 1)
      refine ⟨c :: gone, kept, j, rfl, by simp [hbare], ?_, hhead⟩
      rw [propertyChars, hc, List.append_assoc, List.cons_append, List.nil_append,
        List.dropWhile_cons_of_pos hspace, hdrop]
    · refine ⟨[], c :: s, i, rfl, by simpa using hbare, ?_, ?_⟩
      · rw [propertyChars, hc, List.cons_append, List.cons_append,
          List.dropWhile_cons_of_neg (by simp [hspace])]
      · rw [propertyChars, hc, List.cons_append, List.head?_cons]
        simpa using ⟨hspace, by simpa using ha⟩

/-! ## Keys -/

/-- A key is read up to its first form feed. -/
theorem cutKey_fst :
    (cutKey (propertyChars true i s ++ '=' :: t)).1 =
      propertyChars true i (s.takeWhile (· ≠ '\x0c')) := by
  induction s generalizing i with
  | nil => rfl
  | cons c s ih =>
    rw [propertyChars, List.append_assoc]
    rcases propertyChar_cases true i c with ⟨hc, hplain, hspace⟩ | ⟨d, hc, -, hmeaning⟩
    · have hne : c ≠ '\\' := fun h => hplain (h ▸ List.mem_cons_self)
      by_cases hfeed : c = '\x0c'
      · subst hfeed
        rfl
      · have hsep : isSeparator c = false := by
          simp at hplain
          simp at hspace
          simp [isSeparator, isSpace, hplain, hspace, hfeed]
        rw [List.takeWhile_cons_of_pos (by simpa using hfeed), propertyChars, hc,
          List.cons_append, List.nil_append, cutKey]
        · rw [if_neg (by simp [hsep]), ih]
          rfl
        · simp [hne]
    · have hfeed : c ≠ '\x0c' := by
        rintro rfl
        cases hc
      rw [List.takeWhile_cons_of_pos (by simpa using hfeed), propertyChars, hc,
        List.cons_append, List.cons_append, List.nil_append, cutKey, ih]
      rfl

/-- A key without a form feed is read up to the separator. -/
theorem cutKey_snd (hs : '\x0c' ∉ s) :
    (cutKey (propertyChars true i s ++ '=' :: t)).2 = '=' :: t := by
  induction s generalizing i with
  | nil => rfl
  | cons c s ih =>
    rw [List.mem_cons, not_or] at hs
    rw [propertyChars, List.append_assoc]
    rcases propertyChar_cases true i c with ⟨hc, hplain, hspace⟩ | ⟨d, hc, -, -⟩
    · have hne : c ≠ '\\' := fun h => hplain (h ▸ List.mem_cons_self)
      have hsep : isSeparator c = false := by
        simp at hplain
        simp at hspace
        simp [isSeparator, isSpace, hplain, hspace, Ne.symm hs.1]
      rw [hc, List.cons_append, List.nil_append, cutKey]
      · rw [if_neg (by simp [hsep]), ih hs.2]
      · simp [hne]
    · rw [hc, List.cons_append, List.cons_append, List.nil_append, cutKey, ih hs.2]

theorem afterSeparator_equals : afterSeparator ('=' :: t) = t.dropWhile isSpace := rfl

/-! ## Lines -/

/-- The line of a key and its value, without the line break. -/
def line (e : String × String) : List Char :=
  propertyChars true 0 e.1.toList ++ '=' :: propertyChars false 0 e.2.toList

/-- A line as it counts. -/
def content (e : String × String) : List Char := (line e).dropWhile isSpace

/-- White space at the start of a line is what its key starts with. -/
theorem exists_content (e : String × String) :
    ∃ gone kept j, e.1.toList = gone ++ kept ∧ (gone = [] ↔ ∀ c ∈ e.1.toList.head?, c ≠ '\x0c') ∧
      content e = propertyChars true j kept ++ '=' :: propertyChars false 0 e.2.toList ∧
        ∀ a ∈ (propertyChars true j kept).head?, a ∉ ['#', '!'] := by
  obtain ⟨gone, kept, j, hkey, hgone, hdrop, hhead⟩ :=
    dropWhile_propertyChars (k := true) (i := 0) (s := e.1.toList)
      (t := '=' :: propertyChars false 0 e.2.toList) rfl
  refine ⟨gone, kept, j, hkey, hgone.trans ?_, hdrop, fun a ha => (hhead a ha).2⟩
  exact forall₂_congr fun c _ => by rw [← Bool.not_eq_true, isBare_key]

theorem naturalLines_append (h : ∀ c ∈ s, c ≠ '\n' ∧ c ≠ '\r') :
    naturalLines (s ++ '\n' :: t) = s :: naturalLines t := by
  induction s with
  | nil => rfl
  | cons c s ih =>
    obtain ⟨hc, hs⟩ := List.forall_mem_cons.1 h
    rw [List.cons_append, naturalLines]
    · rw [if_neg (by simp [hc]), ih hs]
    · exact fun _ hr => absurd hr hc.2

theorem not_break_mem_line {e : String × String} : ∀ c ∈ line e, c ≠ '\n' ∧ c ≠ '\r' := by
  intro c hc
  rw [line, List.mem_append, List.mem_cons] at hc
  rcases hc with hc | rfl | hc
  · exact mem_propertyChars hc
  · decide
  · exact mem_propertyChars hc

theorem isIdle_content (e : String × String) : isIdle (content e) = false := by
  obtain ⟨-, kept, j, -, -, hcontent, hhead⟩ := exists_content e
  rw [hcontent]
  cases hw : propertyChars true j kept with
  | nil => rfl
  | cons a w =>
    have ha := hhead a (by rw [hw]; rfl)
    simpa [isIdle] using ha

theorem goesOn_content (e : String × String) : goesOn (content e) = false := by
  obtain ⟨-, kept, j, -, -, hcontent, -⟩ := exists_content e
  rw [hcontent, goesOn_propertyChars_append, goesOn_cons (by decide)]
  have h := goesOn_propertyChars_append (k := false) (i := 0) (s := e.2.toList) (t := [])
  rwa [List.append_nil] at h

/-- The reader finds one line for each key. -/
theorem logicalLines_render (p : LoggerProperties) :
    logicalLines none (naturalLines p.render.toList) = p.values.map content := by
  rw [LoggerProperties.render, String.toList_ofList]
  induction p.values with
  | nil => rfl
  | cons e values ih =>
    have hline : propertyLine e.1 e.2 = line e ++ ['\n'] := rfl
    rw [List.flatMap_cons, hline, List.append_assoc, List.cons_append, List.nil_append,
      naturalLines_append not_break_mem_line, logicalLines]
    have hidle := isIdle_content e
    have hgoes := goesOn_content e
    unfold content at hidle hgoes
    simp only [hidle, hgoes, ih]
    rfl

/-! ## Entries -/

/-- What is read in a line. A key without form feeds is read back, and the value without the
    white space that a form feed at its start makes of it. -/
theorem entryOf_content {e : String × String} (hkey : '\x0c' ∉ e.1.toList) :
    ∃ gone kept, e.2.toList = gone ++ kept ∧ (gone = [] ↔ ∀ c ∈ e.2.toList.head?, c ≠ '\x0c') ∧
      entryOf (content e) = some (utf16 e.1.toList, utf16 kept) := by
  obtain ⟨gone, kept, j, hvalue, hgone, hdrop, -⟩ :=
    dropWhile_propertyChars (k := false) (i := 0) (s := e.2.toList) (t := []) rfl
  refine ⟨gone, kept, hvalue, hgone.trans ?_, ?_⟩
  · exact forall₂_congr fun c _ => by rw [← Bool.not_eq_true, isBare_zero]
  obtain ⟨gone', kept', i, hkept, hnone, hcontent, -⟩ := exists_content e
  have hnil : gone' = [] := by
    refine hnone.2 fun c hc => ?_
    rintro rfl
    exact hkey (List.mem_of_mem_head? hc)
  rw [hnil, List.nil_append] at hkept
  have hfree : ∀ c ∈ kept', c ≠ '\x0c' := fun c hc hfeed => hkey (hkept ▸ hfeed ▸ hc)
  rw [List.append_nil] at hdrop
  rw [hcontent, entryOf, cutKey_snd fun h => hfree _ h rfl, afterSeparator_equals, hdrop, cutKey_fst,
    List.takeWhile_eq_self_iff.2 (by simpa using hfree), decode_propertyChars, ← hkept,
    List.append_nil, decode_propertyChars]
  rfl

/-- No key that is read has a form feed. -/
theorem key_of_entryOf {e : String × String} {entry : List Nat × List Nat}
    (h : entryOf (content e) = some entry) : ∃ key, '\x0c' ∉ key ∧ entry.1 = utf16 key := by
  obtain ⟨-, kept, i, -, -, hcontent, -⟩ := exists_content e
  rw [hcontent, entryOf, cutKey_fst, decode_propertyChars] at h
  obtain ⟨key, hkey, h⟩ := Option.bind_eq_some_iff.1 h
  obtain ⟨value, -, h⟩ := Option.bind_eq_some_iff.1 h
  cases hkey
  cases h
  refine ⟨_, fun hmem => ?_, rfl⟩
  simpa using List.mem_takeWhile_imp hmem

/-! ## Maps -/

theorem valueOf_of_mem {entries : List (List Nat × List Nat)}
    (h : (entries.map (·.1)).Nodup) {entry : List Nat × List Nat} (hentry : entry ∈ entries) :
    valueOf entries entry.1 = some entry.2 := by
  unfold valueOf
  cases hfind : entries.reverse.find? (·.1 = entry.1) with
  | none =>
    have hnot := List.find?_eq_none.1 hfind entry (List.mem_reverse.2 hentry)
    simp at hnot
  | some found =>
    have hmem := List.mem_reverse.1 (List.mem_of_find?_eq_some hfind)
    have hkey : found.1 = entry.1 := by simpa using List.find?_some hfind
    rw [List.inj_on_of_nodup_map h hmem hentry hkey]
    rfl

theorem exists_of_valueOf {entries : List (List Nat × List Nat)} {key value : List Nat}
    (h : valueOf entries key = some value) :
    ∃ entry ∈ entries, entry.1 = key ∧ entry.2 = value := by
  obtain ⟨entry, hfind, hvalue⟩ := Option.map_eq_some_iff.1 h
  exact ⟨entry, List.mem_reverse.1 (List.mem_of_find?_eq_some hfind),
    by simpa using List.find?_some hfind, hvalue⟩

theorem valueOf_eq_none {entries : List (List Nat × List Nat)} {key : List Nat}
    (h : ∀ entry ∈ entries, entry.1 ≠ key) : valueOf entries key = none := by
  rw [valueOf, Option.map_eq_none_iff, List.find?_eq_none]
  intro entry hentry
  simpa using h entry (List.mem_reverse.1 hentry)

theorem mapM_eq_some_iff {α β : Type} {f : α → Option β} {xs : List α} {ys : List β} :
    xs.mapM f = some ys ↔ xs.map f = ys.map some := by
  induction xs generalizing ys with
  | nil => cases ys <;> simp
  | cons x xs ih =>
    simp only [List.mapM_cons, Option.bind_eq_bind, Option.bind_eq_some_iff, Option.pure_def,
      Option.some.injEq, ih, List.map_cons]
    constructor
    · rintro ⟨y, hy, zs, hzs, rfl⟩
      rw [hy, hzs, List.map_cons]
    · intro h
      cases ys with
      | nil => cases h
      | cons y ys =>
        rw [List.map_cons, List.cons.injEq] at h
        exact ⟨y, h.1, ys, h.2, rfl⟩

/-- What a file is read as are the entries of its lines. -/
theorem load_render_eq_some {p : LoggerProperties} {entries : List (List Nat × List Nat)} :
    load p.render.toList = some entries ↔
      p.values.map (entryOf ∘ content) = entries.map some := by
  rw [load, logicalLines_render, mapM_eq_some_iff, List.map_map]

/-- Without form feeds at those places, the entries that are read are the values themselves. -/
theorem load_render_of_free {p : LoggerProperties}
    (h : ∀ e ∈ p.values, '\x0c' ∉ e.1.toList ∧ e.2.toList.head? ≠ some '\x0c') :
    load p.render.toList = some (inUnits p.values) := by
  rw [load_render_eq_some, inUnits, List.map_map]
  refine List.map_congr_left fun e he => ?_
  obtain ⟨gone, kept, hsplit, hgone, hread⟩ := entryOf_content (h e he).1
  have hnil : gone = [] := hgone.2 fun c hc hfeed => (h e he).2 (hfeed ▸ hc)
  rw [hnil, List.nil_append] at hsplit
  rw [Function.comp_apply, hread, ← hsplit]
  rfl

/-- Different keys are different in units. -/
theorem nodup_inUnits {values : List (String × String)} (h : (values.map (·.1)).Nodup) :
    ((inUnits values).map (·.1)).Nodup := by
  have hinjective : Function.Injective fun key : String => utf16 key.toList :=
    utf16_injective.comp fun _ _ => String.toList_inj.1
  have hkeys := h.map hinjective
  rw [List.map_map] at hkeys
  rw [inUnits, List.map_map]
  exact hkeys

/-- A file is read back as the same values exactly if no key has a form feed and no value starts
    with one. -/
theorem load_render_iff {p : LoggerProperties} (h : (p.values.map (·.1)).Nodup) :
    (∃ entries, load p.render.toList = some entries ∧
        ∀ key, valueOf entries key = valueOf (inUnits p.values) key) ↔
      ∀ e ∈ p.values, '\x0c' ∉ e.1.toList ∧ e.2.toList.head? ≠ some '\x0c' := by
  constructor
  · rintro ⟨entries, hload, hsame⟩
    have hentries := load_render_eq_some.1 hload
    have hread : ∀ entry ∈ entries, ∃ e ∈ p.values, entryOf (content e) = some entry := by
      intro entry hentry
      exact List.mem_map.1 (hentries ▸ List.mem_map_of_mem hentry)
    -- each value can be looked up in what was read
    have hfound : ∀ e ∈ p.values,
        valueOf entries (utf16 e.1.toList) = some (utf16 e.2.toList) := by
      intro e he
      rw [hsame]
      exact valueOf_of_mem (nodup_inUnits h) (List.mem_map_of_mem he)
    have hkeys : ∀ e ∈ p.values, '\x0c' ∉ e.1.toList := by
      intro e he hfeed
      have hnone : valueOf entries (utf16 e.1.toList) = none := by
        refine valueOf_eq_none fun entry hentry hkey => ?_
        obtain ⟨e', -, he'⟩ := hread entry hentry
        obtain ⟨key, hfree, hkey'⟩ := key_of_entryOf he'
        rw [utf16_injective (hkey'.symm.trans hkey)] at hfree
        exact hfree hfeed
      rw [hfound e he] at hnone
      cases hnone
    refine fun e he => ⟨hkeys e he, fun hhead => ?_⟩
    -- the value that is found is that of the line, which has lost its start
    have hvalue := hfound e he
    obtain ⟨entry, hentry, hkey, hentryValue⟩ := exists_of_valueOf hvalue
    obtain ⟨e', he', hcontent⟩ := hread entry hentry
    obtain ⟨gone, kept, hsplit, hgone, hplain⟩ := entryOf_content (hkeys e' he')
    rw [hplain, Option.some.injEq] at hcontent
    subst hcontent
    obtain rfl : e' = e :=
      List.inj_on_of_nodup_map h he' he (String.toList_inj.1 (utf16_injective hkey))
    rw [utf16_injective hentryValue] at hsplit
    exact hgone.1 (List.append_left_eq_self.1 hsplit.symm) _ hhead rfl
  · intro hfree
    exact ⟨inUnits p.values, load_render_of_free hfree, fun _ => rfl⟩

/-- Keys and values with separators, comment marks, line breaks, backslashes and white space are
    read back. -/
theorem load_render_of_marks :
    let p : LoggerProperties :=
      ⟨"f", [("", ""), (" #k=:\\", " \t\n\r\\"), ("!é😀", "\\u0041 x")]⟩
    (p.values.map (·.1)).Nodup ∧ ∃ entries, load p.render.toList = some entries ∧
      ∀ key, valueOf entries key = valueOf (inUnits p.values) key :=
  ⟨by decide, (load_render_iff (by decide)).2 (by decide)⟩

/-- A form feed in a key cuts it short, and the rest of the line becomes the value. -/
theorem load_render_form_feed :
    let p : LoggerProperties := ⟨"f", [("a\x0cb", "c")]⟩
    (p.values.map (·.1)).Nodup ∧ load p.render.toList = some (inUnits [("a", "b=c")]) ∧
      ¬ ∃ entries, load p.render.toList = some entries ∧
        ∀ key, valueOf entries key = valueOf (inUnits p.values) key := by
  intro p
  have hload : load p.render.toList = some (inUnits [("a", "b=c")]) := by decide
  refine ⟨by decide, hload, ?_⟩
  rintro ⟨entries, hentries, hsame⟩
  cases hload.symm.trans hentries
  exact absurd (hsame (utf16 "a\x0cb".toList)) (by decide)

end Tracepoint.Config.Properties
