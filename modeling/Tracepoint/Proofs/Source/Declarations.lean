import Tracepoint.Proofs.Model.Imports
import Tracepoint.Proofs.Source.Imports

/-!
# How import declarations are written

An import declaration consists of tokens: the word `import`, perhaps the word `static`, names with
dots between them, perhaps a dot and a star, and a semicolon. White space can stand in front and
after each of them. However a declaration is laid out, it is read as what it says.

Results:

* `Spaced.squeeze_eq`: without its white space, a text is its tokens.
* `Declaration.splitStatic_of_content`: the word `static` is found if it is there, and not taken
  from the letters of a name.
* `Declaration.ofPath_path`: what the tokens of a path say.
* `Declaration.target_of_namesMember`, `Declaration.target_of_not_namesMember`: what has to exist
  for a declaration to make sense.
* `Declaration.parse?_of_writes`: every layout of a declaration is read back.
-/

namespace Tracepoint.Source

open Text

namespace Import

/-! ## Declarations -/

/-- A name that can stand in the path of an import: it is not empty, not the word `static`, and has
    no character that would end it. -/
structure IsName (name : String) : Prop where
  ne_empty : name ≠ ""
  ne_static : name ≠ "static"
  solid : ∀ c ∈ name.toList, isBlank c = false
  plain : ∀ c ∈ name.toList, c ≠ '.' ∧ c ≠ '*' ∧ c ≠ ';'

/-- Every identifier that is no keyword is a name. -/
theorem isName_of_isIdentifier {name : String} (h : isIdentifier name.toList = true)
    (hne : name ≠ "static") : IsName name where
  ne_empty := by
    rintro rfl
    cases h
  ne_static := hne
  solid := solid_of_isIdentifier h
  plain c hc := by
    refine ⟨?_, ?_, ?_⟩
    all_goals
      rintro rfl
      exact not_mem_of_isIdentifier h (by decide) hc

/-- What an import declaration says. -/
structure Declaration where
  isStatic : Bool
  names : List String
  /-- Whether a dot and a star follow the names. -/
  wildcard : Bool
  names_ne_nil : names ≠ []
  isName : ∀ name ∈ names, IsName name

namespace Declaration

variable (d : Declaration)

/-- The import that a declaration on a line stands for. -/
def toImport (line : Nat) : Import :=
  ⟨String.intercalate "." d.names, d.isStatic, d.wildcard, line⟩

/-- A static member is imported, and the type that has it is named. -/
def NamesMember : Prop := d.isStatic = true ∧ d.wildcard = false ∧ 2 ≤ d.names.length

/-- The tokens of the path. -/
def path : List (List Char) :=
  (d.names.map String.toList).intersperse ['.'] ++ if d.wildcard then [['.'], ['*']] else []

/-- The tokens between the word `import` and the semicolon. -/
def content : List (List Char) := if d.isStatic then "static".toList :: d.path else d.path

/-- The tokens of a declaration. -/
def tokens : List (List Char) := "import".toList :: (d.content ++ [[';']])

end Declaration

/-- Tokens in order, each with white space after it. After the words `import` and `static` there is
    some, and after any other token there may be none. -/
inductive Spaced : List (List Char) → List Char → Prop
  | nil : Spaced [] []
  | token (t gap : List Char) {rest : List Char} {ts : List (List Char)} :
      (∀ c ∈ gap, isBlank c = true) → (t = "import".toList ∨ t = "static".toList → gap ≠ []) →
        Spaced ts rest → Spaced (t :: ts) (t ++ (gap ++ rest))

/-- A text has the tokens of a declaration, with white space around them. -/
def Declaration.Writes (d : Declaration) (text : List Char) : Prop :=
  ∃ lead s, text = lead ++ s ∧ (∀ c ∈ lead, isBlank c = true) ∧ Spaced d.tokens s

/-! ## Texts and their tokens -/

namespace Spaced

theorem cons_inv {t s : List Char} {ts : List (List Char)} (h : Spaced (t :: ts) s) :
    ∃ gap rest, s = t ++ (gap ++ rest) ∧ (∀ c ∈ gap, isBlank c = true) ∧
      (t = "import".toList ∨ t = "static".toList → gap ≠ []) ∧ Spaced ts rest := by
  cases h with
  | token _ gap hgap hword hrest => exact ⟨gap, _, rfl, hgap, hword, hrest⟩

theorem append_inv {ts us : List (List Char)} {s : List Char} (h : Spaced (ts ++ us) s) :
    ∃ a b, s = a ++ b ∧ Spaced ts a ∧ Spaced us b := by
  induction ts generalizing s with
  | nil => exact ⟨[], s, rfl, .nil, h⟩
  | cons t ts ih =>
    obtain ⟨gap, rest, rfl, hgap, hword, hrest⟩ := h.cons_inv
    obtain ⟨a, b, rfl, ha, hb⟩ := ih hrest
    exact ⟨t ++ (gap ++ a), b, by simp, .token t gap hgap hword ha, hb⟩

/-- What stands in a text is white space or stands in a token. -/
theorem blank_or_mem {ts : List (List Char)} {s : List Char} (h : Spaced ts s) {c : Char}
    (hc : c ∈ s) : isBlank c = true ∨ ∃ t ∈ ts, c ∈ t := by
  induction h with
  | nil => cases hc
  | token t gap hgap _ _ ih =>
    rcases List.mem_append.1 hc with hc | hc
    · exact .inr ⟨t, List.mem_cons_self, hc⟩
    rcases List.mem_append.1 hc with hc | hc
    · exact .inl (hgap c hc)
    · exact (ih hc).imp_right fun ⟨t, ht, hct⟩ => ⟨t, List.mem_cons_of_mem _ ht, hct⟩

/-- Without its white space, a text is its tokens. -/
theorem squeeze_eq {ts : List (List Char)} {s : List Char} (h : Spaced ts s)
    (hsolid : ∀ t ∈ ts, ∀ c ∈ t, isBlank c = false) : squeeze s = ts.flatten := by
  induction h with
  | nil => rfl
  | token t gap hgap _ _ ih =>
    rw [List.forall_mem_cons] at hsolid
    rw [squeeze_append, squeeze_append, squeeze_of_solid hsolid.1, squeeze_of_blank hgap,
      ih hsolid.2, List.nil_append, List.flatten_cons]

end Spaced

namespace Declaration

/-! ## Paths -/

theorem eq_or_mem_of_mem_intersperse {α : Type} {x sep : α} {xs : List α}
    (h : x ∈ xs.intersperse sep) : x = sep ∨ x ∈ xs := by
  match xs with
  | [] => exact absurd h List.not_mem_nil
  | [y] => exact .inr h
  | y :: z :: xs =>
    rw [List.intersperse_cons_cons, List.mem_cons, List.mem_cons] at h
    rcases h with rfl | rfl | h
    · exact .inr List.mem_cons_self
    · exact .inl rfl
    · exact (eq_or_mem_of_mem_intersperse h).imp_right (List.mem_cons_of_mem _)

section

variable (d : Declaration)

/-- A token of a path is a name, a dot or a star. -/
theorem mem_path {t : List Char} (h : t ∈ d.path) :
    (∃ name ∈ d.names, t = name.toList) ∨ t = ['.'] ∨ t = ['*'] := by
  rcases List.mem_append.1 h with h | h
  · rcases eq_or_mem_of_mem_intersperse h with rfl | h
    · exact .inr (.inl rfl)
    · obtain ⟨name, hname, rfl⟩ := List.mem_map.1 h
      exact .inl ⟨name, hname, rfl⟩
  · split_ifs at h
    · exact .inr (by simpa using h)
    · cases h

theorem solid_of_mem_path {t : List Char} (h : t ∈ d.path) : ∀ c ∈ t, isBlank c = false := by
  rcases d.mem_path h with ⟨name, hname, rfl⟩ | rfl | rfl
  · exact (d.isName name hname).solid
  · exact List.forall_mem_singleton.2 rfl
  · exact List.forall_mem_singleton.2 rfl

theorem semicolon_not_mem_of_mem_path {t : List Char} (h : t ∈ d.path) : ';' ∉ t := by
  rcases d.mem_path h with ⟨name, hname, rfl⟩ | rfl | rfl
  · exact fun hmem => ((d.isName name hname).plain _ hmem).2.2 rfl
  · decide
  · decide

theorem semicolon_not_mem_of_mem_content {t : List Char} (h : t ∈ d.content) : ';' ∉ t := by
  unfold content at h
  split_ifs at h
  · rcases List.mem_cons.1 h with rfl | h
    · decide
    · exact d.semicolon_not_mem_of_mem_path h
  · exact d.semicolon_not_mem_of_mem_path h

/-- A path starts with a name, which a dot follows if anything does. -/
theorem exists_path_eq : ∃ name more, d.path = name.toList :: more ∧ IsName name ∧
    ∀ t ∈ more.head?, t = ['.'] := by
  obtain ⟨name, names, hnames⟩ := List.exists_cons_of_ne_nil d.names_ne_nil
  have hname := d.isName name (by rw [hnames]; exact List.mem_cons_self)
  cases names with
  | nil =>
    refine ⟨name, if d.wildcard then [['.'], ['*']] else [], by rw [path, hnames]; rfl, hname, ?_⟩
    cases d.wildcard <;> simp
  | cons next names =>
    exact ⟨name, ['.'] :: (((next :: names).map String.toList).intersperse ['.'] ++
      if d.wildcard then [['.'], ['*']] else []), by rw [path, hnames]; rfl, hname, by simp⟩

theorem flatten_path : d.path.flatten =
    (String.intercalate "." d.names).toList ++ if d.wildcard then ['.', '*'] else [] := by
  rw [path, List.flatten_append, String.toList_intercalate, List.intercalate]
  cases d.wildcard <;> rfl

theorem star_not_mem_names : '*' ∉ (String.intercalate "." d.names).toList := by
  rw [String.toList_intercalate, List.intercalate]
  intro h
  obtain ⟨t, ht, hstar⟩ := List.mem_flatten.1 h
  rcases eq_or_mem_of_mem_intersperse ht with rfl | ht
  · simp at hstar
  · obtain ⟨name, hname, rfl⟩ := List.mem_map.1 ht
    exact ((d.isName name hname).plain _ hstar).2.1 rfl

/-- The tokens of a path say what the declaration does. -/
theorem ofPath_path (line : Nat) : ofPath line d.isStatic d.path.flatten = d.toImport line := by
  rw [flatten_path, toImport]
  cases d.wildcard with
  | true => rw [if_pos rfl, ofPath_append_star, String.ofList_toList]
  | false =>
    rw [if_neg Bool.false_ne_true, List.append_nil, ofPath_of_not_mem d.star_not_mem_names,
      String.ofList_toList]

end

/-! ## The word `static` -/

section

variable {d : Declaration} {gap body : List Char}

theorem squeeze_of_spaced_path (h : Spaced d.path body) : squeeze body = d.path.flatten :=
  h.squeeze_eq fun _ ht => d.solid_of_mem_path ht

/-- What follows the word `static` is the path. -/
theorem splitStatic_of_static (hgap : ∀ c ∈ gap, isBlank c = true)
    (hbody : Spaced ("static".toList :: d.path) body) :
    ∃ rest, splitStatic (trim (gap ++ body)) = (true, rest) ∧ squeeze rest = d.path.flatten := by
  obtain ⟨after, path, rfl, hafter, hword, hpath⟩ := hbody.cons_inv
  have hsqueeze : squeeze (trimEnd (after ++ path)) = d.path.flatten := by
    rw [squeeze_trimEnd, squeeze_append, squeeze_of_blank hafter, squeeze_of_spaced_path hpath,
      List.nil_append]
  rw [trim_append_word hgap (solid_of_isIdentifier (by decide)) (by decide)]
  obtain ⟨b, blanks, rfl⟩ := List.exists_cons_of_ne_nil (hword (.inr rfl))
  cases htrim : trimEnd (b :: blanks ++ path) with
  | nil =>
    -- a path is more than white space
    obtain ⟨name, more, heq, hname, -⟩ := d.exists_path_eq
    rw [htrim, heq, List.flatten_cons] at hsqueeze
    exact absurd (List.append_eq_nil_iff.1 hsqueeze.symm).1 (by simpa using hname.ne_empty)
  | cons c s =>
    have hc : c ∈ (b :: blanks ++ path).head? := head?_trimEnd (by rw [htrim]; rfl)
    cases hc
    refine ⟨_, splitStatic_of_blank (hafter b List.mem_cons_self), ?_⟩
    rw [squeeze_trim, ← htrim, hsqueeze]

/-- The first name of a path is not taken for the word `static`, whatever letters it starts with. -/
theorem splitStatic_of_path (hgap : ∀ c ∈ gap, isBlank c = true) (hbody : Spaced d.path body) :
    ∃ rest, splitStatic (trim (gap ++ body)) = (false, rest) ∧
      squeeze rest = d.path.flatten := by
  refine ⟨trim (gap ++ body), ?_, ?_⟩
  · obtain ⟨name, more, heq, hname, hmore⟩ := d.exists_path_eq
    rw [heq] at hbody
    obtain ⟨after, rest, rfl, hafter, -, hrest⟩ := hbody.cons_inv
    rw [trim_append_word hgap hname.solid (by simpa using hname.ne_empty)]
    refine splitStatic_of_ne hname.solid (fun h => hname.ne_static (String.toList_inj.1 h)) ?_
    -- a blank comes next, or a dot
    intro c hc hletter
    have hc := head?_trimEnd hc
    cases after with
    | cons b blanks =>
      cases hc
      have hsolid : isBlank c = false := solid_of_isIdentifier (by decide) c hletter
      exact absurd (hafter c List.mem_cons_self) (by simp [hsolid])
    | nil =>
      cases hrest with
      | nil => cases hc
      | token t =>
        rw [hmore t rfl] at hc
        cases hc
        exact absurd hletter (by decide)
  · rw [squeeze_trim, squeeze_append, squeeze_of_blank hgap, squeeze_of_spaced_path hbody,
      List.nil_append]

/-- The word `static` is found exactly if it is there. -/
theorem splitStatic_of_content (hgap : ∀ c ∈ gap, isBlank c = true)
    (hbody : Spaced d.content body) :
    ∃ rest, splitStatic (trim (gap ++ body)) = (d.isStatic, rest) ∧
      squeeze rest = d.path.flatten := by
  unfold content at hbody
  split_ifs at hbody with hstatic
  · rw [hstatic]
    exact splitStatic_of_static hgap hbody
  · rw [Bool.not_eq_true] at hstatic
    rw [hstatic]
    exact splitStatic_of_path hgap hbody

end

/-! ## Targets -/

section

variable {d : Declaration}

theorem exists_names_eq (d : Declaration) :
    ∃ init last, d.names = init ++ [last] ∧ IsName last := by
  obtain ⟨init, last, hnames⟩ := (List.eq_nil_or_concat' d.names).resolve_left d.names_ne_nil
  exact ⟨init, last, hnames, d.isName last (by simp [hnames])⟩

/-- The last name is not lost where names are joined. -/
theorem intercalate_dropLast_ne (d : Declaration) :
    String.intercalate "." d.names.dropLast ≠ String.intercalate "." d.names := by
  obtain ⟨init, last, hnames, hlast⟩ := d.exists_names_eq
  rw [hnames, List.dropLast_concat]
  intro h
  by_cases hinit : init = []
  · subst hinit
    exact hlast.ne_empty (by simpa using h.symm)
  · rw [String.intercalate_append_of_ne_nil hinit (by simp)] at h
    have hlength := congrArg String.length h
    have hdot : ".".length = 1 := rfl
    rw [String.length_append, String.length_append] at hlength
    omega

theorem target_of_namesMember (h : d.NamesMember) (line : Nat) :
    (d.toImport line).target = String.intercalate "." d.names.dropLast := by
  obtain ⟨hstatic, hwildcard, hlength⟩ := h
  obtain ⟨init, last, hnames, hlast⟩ := d.exists_names_eq
  have hinit : init ≠ [] := by
    rintro rfl
    simp [hnames] at hlength
  have hpath : (d.toImport line).path = String.intercalate "." init ++ "." ++ last := by
    rw [toImport, hnames, String.intercalate_append_of_ne_nil hinit (by simp),
      String.intercalate_singleton]
  rw [hnames, List.dropLast_concat]
  exact (Needs.owner hstatic hwildcard hpath fun hdot => (hlast.plain _ hdot).1 rfl).eq_target.symm

theorem target_of_not_namesMember (h : ¬ d.NamesMember) (line : Nat) :
    (d.toImport line).target = String.intercalate "." d.names := by
  refine (Needs.path fun hstatic hwildcard => ?_).eq_target.symm
  obtain ⟨init, last, hnames, hlast⟩ := d.exists_names_eq
  cases init with
  | nil =>
    rw [toImport, hnames, List.nil_append, String.intercalate_singleton]
    exact fun hdot => (hlast.plain _ hdot).1 rfl
  | cons name init => exact absurd ⟨hstatic, hwildcard, by simp [hnames]⟩ h

end

/-! ## Reading a declaration -/

/-- Of a text that writes a declaration, what stands between the word `import` and the semicolon
    is read. -/
theorem exists_body {d : Declaration} {text : List Char} (h : d.Writes text) :
    ∃ gap body, (∀ c ∈ gap, isBlank c = true) ∧ Spaced d.content body ∧
      ∀ line, parse? text line =
        some (ofPath line (splitStatic (trim (gap ++ body))).1
          (squeeze (splitStatic (trim (gap ++ body))).2)) := by
  obtain ⟨lead, s, rfl, hlead, hs⟩ := h
  obtain ⟨gap, rest, rfl, hgap, -, hrest⟩ := hs.cons_inv
  obtain ⟨body, last, rfl, hbody, hlast⟩ := hrest.append_inv
  obtain ⟨trail, rest, rfl, htrail, -, hend⟩ := hlast.cons_inv
  cases hend
  refine ⟨gap, body, hgap, hbody, fun line => ?_⟩
  have hsemicolon : ';' ∉ gap ++ body := by
    intro hmem
    rcases List.mem_append.1 hmem with hmem | hmem
    · cases hgap ';' hmem
    · rcases hbody.blank_or_mem hmem with hblank | ⟨t, ht, hmem⟩
      · cases hblank
      · exact d.semicolon_not_mem_of_mem_content ht hmem
  have htext : lead ++ ("import".toList ++ (gap ++ (body ++ ([';'] ++ (trail ++ []))))) =
      lead ++ (("import".toList ++ (gap ++ body) ++ [';']) ++ trail) := by
    simp only [List.append_assoc, List.append_nil]
  rw [htext, parse?_congr (trim_append_of_blank hlead htrail _), parse?_eq hsemicolon]

/-- A declaration is read back from every text that writes it: the flags are those that it has, and
    the path is its names with dots between them. The target leaves the last name out exactly if
    the declaration names a static member of a type, and is the whole path exactly if not. -/
theorem parse?_of_writes (d : Declaration) {text : List Char} (h : d.Writes text) (line : Nat) :
    parse? text line = some (d.toImport line) ∧
      ((d.toImport line).target = String.intercalate "." d.names.dropLast ↔ d.NamesMember) ∧
      ((d.toImport line).target = String.intercalate "." d.names ↔ ¬ d.NamesMember) := by
  have hread : parse? text line = some (d.toImport line) := by
    obtain ⟨gap, body, hgap, hbody, hparse⟩ := exists_body h
    obtain ⟨rest, hsplit, hsqueeze⟩ := splitStatic_of_content hgap hbody
    rw [hparse, hsplit, hsqueeze, d.ofPath_path]
  refine ⟨hread, ⟨fun htarget => ?_, fun hmember => target_of_namesMember hmember line⟩,
    ⟨fun htarget hmember => ?_, fun hnot => target_of_not_namesMember hnot line⟩⟩
  · by_contra hnot
    rw [target_of_not_namesMember hnot] at htarget
    exact d.intercalate_dropLast_ne htarget.symm
  · rw [target_of_namesMember hmember] at htarget
    exact d.intercalate_dropLast_ne htarget

/-- A static member of a type whose names start like words of the declaration, over two lines. -/
theorem parse?_of_writes_over_lines :
    let text := "\t import\n static\u00a0staticImports . importer\t.m ;\n".toList
    ∃ d : Declaration, d.names = ["staticImports", "importer", "m"] ∧ d.NamesMember ∧
      d.Writes text ∧ parse? text 7 = some ⟨"staticImports.importer.m", true, false, 7⟩ ∧
      (d.toImport 7).target = "staticImports.importer" := by
  intro text
  let d : Declaration := {
    isStatic := true
    names := ["staticImports", "importer", "m"]
    wildcard := false
    names_ne_nil := by decide
    isName := by
      have hidentifiers : ∀ name ∈ ["staticImports", "importer", "m"],
          isIdentifier name.toList = true ∧ name ≠ "static" := by decide
      exact fun name h => isName_of_isIdentifier (hidentifiers name h).1 (hidentifiers name h).2 }
  have hmember : d.NamesMember := ⟨rfl, rfl, by decide⟩
  have hwrites : d.Writes text := by
    have hblank : ∀ gap : List Char, gap.all isBlank = true → ∀ c ∈ gap, isBlank c = true :=
      fun _ h => List.all_eq_true.1 h
    refine ⟨['\t', ' '], _, ?_, hblank _ rfl,
      .token _ ['\n', ' '] (hblank _ rfl) (by decide) <|
      .token _ ['\u00a0'] (hblank _ rfl) (by decide) <|
      .token _ [' '] (hblank _ rfl) (by decide) <| .token _ [' '] (hblank _ rfl) (by decide) <|
      .token _ ['\t'] (hblank _ rfl) (by decide) <| .token _ [] (hblank _ rfl) (by decide) <|
      .token _ [' '] (hblank _ rfl) (by decide) <| .token _ ['\n'] (hblank _ rfl) (by decide) .nil⟩
    decide
  obtain ⟨hread, htarget, -⟩ := d.parse?_of_writes hwrites 7
  exact ⟨d, rfl, hmember, hwrites, hread, htarget.2 hmember⟩

end Declaration

end Import

end Tracepoint.Source
