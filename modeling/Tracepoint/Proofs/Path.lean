import Mathlib.Data.List.DropRight
import Tracepoint.Proofs.Walk

/-!
# The names in a path

A path leads through the names between its slashes. Joining a relative path adds its names,
and the directory that holds a path has the same names except for the last one, where points
do not count.

Results:

* `names_join`, `steps_join`: the names in a joined path.
* `holds_of_parent`: the names in the path of the directory that holds a path.
* `inside_locate`: how the path of a file below a root is written.
* `named_listing`: the source files at or below a root are named below it.
-/

namespace Tracepoint

namespace Path

open Text

/-! ## Names -/

/-- The texts between the slashes of a text. -/
def namesIn (s : List Char) : List String :=
  ((splitAll '/' s).filter (· ≠ [])).map String.ofList

theorem namesIn_append (a b : List Char) : namesIn (a ++ '/' :: b) = namesIn a ++ namesIn b := by
  rw [namesIn, splitAll_append, List.filter_append, List.map_append]
  rfl

/-- The names that a path leads through, points among them. -/
def names (p : Path) : List String := namesIn p.text.toList

@[simp] theorem names_ofList (s : List Char) : names ⟨String.ofList s⟩ = namesIn s := by
  rw [names, String.toList_ofList]

@[simp] theorem isAbsolute_ofList (s : List Char) :
    isAbsolute ⟨String.ofList s⟩ = startsWith ['/'] s := by
  rw [isAbsolute, String.toList_ofList]

theorem steps_eq (p : Path) :
    Disk.steps p = p.names ++ if endsWith ['/'] p.text.toList then ["."] else [] := rfl

/-- The characters of a path are those of its names, and slashes. -/
theorem mem_toList_iff {p : Path} {c : Char} (hc : c ≠ '/') :
    c ∈ p.text.toList ↔ ∃ n ∈ p.names, c ∈ n.toList := by
  constructor
  · intro h
    obtain ⟨piece, hpiece, hmem⟩ := (exists_mem_splitAll_iff hc).2 h
    refine ⟨String.ofList piece, List.mem_map_of_mem (List.mem_filter.2 ⟨hpiece, ?_⟩), ?_⟩
    · simpa using List.ne_nil_of_mem hmem
    · rwa [String.toList_ofList]
  · rintro ⟨n, hn, hmem⟩
    obtain ⟨piece, hpiece, rfl⟩ := List.mem_map.1 hn
    rw [String.toList_ofList] at hmem
    exact (exists_mem_splitAll_iff hc).1 ⟨piece, (List.mem_filter.1 hpiece).1, hmem⟩

/-- A text between slashes. -/
structure IsPiece (n : String) : Prop where
  ne_empty : n ≠ ""
  no_slash : '/' ∉ n.toList

theorem isPiece_of_mem_names {p : Path} {n : String} (h : n ∈ p.names) : IsPiece n := by
  obtain ⟨piece, hpiece, rfl⟩ := List.mem_map.1 h
  obtain ⟨hpiece, hne⟩ := List.mem_filter.1 hpiece
  refine ⟨fun hn => ?_, ?_⟩
  · have hnil : piece = [] := by simpa using congrArg String.toList hn
    simp [hnil] at hne
  · rw [String.toList_ofList]
    exact not_mem_of_mem_splitAll piece hpiece

theorem isPiece_of_mem_steps {p : Path} {n : String} (h : n ∈ Disk.steps p) : IsPiece n := by
  rw [steps_eq, List.mem_append] at h
  rcases h with h | h
  · exact isPiece_of_mem_names h
  · split_ifs at h
    · rw [List.mem_singleton.1 h]
      exact ⟨by decide, by decide⟩
    · simp at h

theorem IsPiece.isName {n : String} (h : IsPiece n) (hhere : n ≠ ".") (hup : n ≠ "..") :
    IsName n :=
  ⟨h.ne_empty, h.no_slash, hhere, hup⟩

/-! ## Joined paths -/

theorem isEmpty_eq_false_iff {p : Path} : p.isEmpty = false ↔ p.text.toList ≠ [] := by
  rw [isEmpty, ← Bool.not_eq_true, Ne, not_iff_not, String.isEmpty_iff, String.toList_eq_nil_iff]

/-- How a relative path is written below another. -/
theorem join_cases (a : Path) {b : Path} (hb : b.isAbsolute = false) :
    (a.isEmpty = true ∧ a.join b = b) ∨
      ∃ t, a.text.toList ≠ [] ∧ (a.text.toList = t ++ ['/'] ∨ a.text.toList = t) ∧
        (a.join b).text.toList = t ++ '/' :: b.text.toList := by
  unfold join
  rw [hb, Bool.false_or]
  split_ifs with hempty hslash
  · exact .inl ⟨hempty, rfl⟩
  · obtain ⟨t, ht⟩ := Option.isSome_iff_exists.1 hslash
    have htext := dropEnd?_eq_some_iff.1 ht
    exact .inr ⟨t, by rw [htext]; simp, .inl htext, by simp [String.toList_append, htext]⟩
  · refine .inr ⟨a.text.toList, isEmpty_eq_false_iff.1 (by simpa using hempty), .inr rfl, ?_⟩
    simp [String.toList_append]

theorem names_of_isEmpty {p : Path} (h : p.isEmpty = true) : p.names = [] := by
  have htext : p.text.toList = [] := by
    by_contra hne
    rw [isEmpty_eq_false_iff.2 hne] at h
    cases h
  rw [names, htext]
  rfl

theorem isAbsolute_of_isEmpty {p : Path} (h : p.isEmpty = true) : p.isAbsolute = false := by
  obtain ⟨text⟩ := p
  rw [show text = "" by simpa [isEmpty] using h]
  rfl

theorem names_join (a : Path) {b : Path} (hb : b.isAbsolute = false) :
    (a.join b).names = a.names ++ b.names := by
  rcases a.join_cases hb with ⟨hempty, hjoin⟩ | ⟨t, -, ha | ha, hjoin⟩
  · rw [hjoin, names_of_isEmpty hempty, List.nil_append]
  · rw [names, hjoin, namesIn_append, names, ha, namesIn_append]
    show _ = namesIn t ++ [] ++ _
    rw [List.append_nil]
    rfl
  · rw [names, hjoin, namesIn_append, names, ha]
    rfl

theorem isAbsolute_join (a : Path) {b : Path} (hb : b.isAbsolute = false) :
    (a.join b).isAbsolute = a.isAbsolute := by
  rcases a.join_cases hb with ⟨hempty, hjoin⟩ | ⟨t, hne, ha | ha, hjoin⟩
  · rw [hjoin, hb, isAbsolute_of_isEmpty hempty]
  · rw [isAbsolute, hjoin, isAbsolute, ha, List.append_cons, startsWith_append (by simp)]
  · rw [isAbsolute, hjoin, isAbsolute, ha, startsWith_append (ha ▸ hne)]

theorem prefix_join (a : Path) {b : Path} (hb : b.isAbsolute = false) :
    a.text.toList <+: (a.join b).text.toList := by
  rcases a.join_cases hb with ⟨hempty, -⟩ | ⟨t, hne, ha | ha, hjoin⟩
  · rw [isEmpty, String.isEmpty_iff] at hempty
    rw [hempty]
    exact List.nil_prefix
  · exact ⟨b.text.toList, by rw [hjoin, ha, List.append_assoc, List.singleton_append]⟩
  · exact ⟨'/' :: b.text.toList, by rw [hjoin, ha]⟩

theorem isEmpty_join (a : Path) {b : Path} (hb : b.isAbsolute = false) :
    (a.join b).isEmpty = (a.isEmpty && b.isEmpty) := by
  rcases a.join_cases hb with ⟨hempty, hjoin⟩ | ⟨t, hne, -, hjoin⟩
  · rw [hjoin, hempty, Bool.true_and]
  · rw [isEmpty_eq_false_iff.2 hne, Bool.false_and, isEmpty_eq_false_iff, hjoin]
    simp

theorem mem_join (a : Path) {b : Path} (hb : b.isAbsolute = false) {c : Char}
    (h : c ∈ (a.join b).text.toList) : c ∈ a.text.toList ∨ c = '/' ∨ c ∈ b.text.toList := by
  rcases a.join_cases hb with ⟨-, hjoin⟩ | ⟨t, -, ha, hjoin⟩
  · exact .inr (.inr (hjoin ▸ h))
  · rw [hjoin, List.mem_append, List.mem_cons] at h
    refine h.imp_left fun hc => ?_
    rcases ha with ha | ha <;> simp [ha, hc]

theorem endsWith_append {c : Char} {t : List Char} (ht : t ≠ []) (s : List Char) :
    endsWith [c] (s ++ t) = endsWith [c] t := by
  have hstarts : ∀ x : List Char, endsWith [c] x = startsWith [c] x.reverse := by
    intro x
    simp [endsWith, dropEnd?, startsWith]
  rw [hstarts, hstarts, List.reverse_append, startsWith_append (by simpa using ht)]

/-- The text of a path with a slash at its end. -/
def slashed (p : Path) : List Char :=
  if endsWith ['/'] p.text.toList then p.text.toList else p.text.toList ++ ['/']

theorem toList_join {a b : Path} (ha : a.isEmpty = false) (hb : b.isAbsolute = false) :
    (a.join b).text.toList = a.slashed ++ b.text.toList := by
  unfold join slashed
  rw [ha, hb]
  simp only [Bool.or_self, Bool.false_eq_true, if_false]
  split_ifs <;> simp [String.toList_append]

theorem slashed_join {a b : Path} (ha : a.isEmpty = false) (hb : b.isAbsolute = false) :
    (a.join b).slashed = a.slashed ++ if b.isEmpty then [] else b.slashed := by
  have hends : endsWith ['/'] a.slashed = true := by
    unfold slashed
    split_ifs with hslash
    · exact hslash
    · rw [endsWith_append (by simp)]
      rfl
  rw [slashed, toList_join ha hb]
  split_ifs with hslash hempty hempty
  · rw [isEmpty, String.isEmpty_iff] at hempty
    rw [hempty]
    rfl
  · rw [endsWith_append (isEmpty_eq_false_iff.1 (by simpa using hempty))] at hslash
    rw [show b.slashed = b.text.toList from if_pos hslash]
  · rw [isEmpty, String.isEmpty_iff] at hempty
    rw [hempty] at hslash
    exact absurd (by simpa using hends) hslash
  · rw [endsWith_append (isEmpty_eq_false_iff.1 (by simpa using hempty))] at hslash
    rw [show b.slashed = b.text.toList ++ ['/'] from if_neg hslash, List.append_assoc]

/-- Relative paths can be joined first. -/
theorem join_join (a : Path) {b c : Path} (hb : b.isAbsolute = false)
    (hc : c.isAbsolute = false) : (a.join b).join c = a.join (b.join c) := by
  have hempty : ∀ {p : Path}, p.isEmpty = true → ∀ q : Path, p.join q = q := by
    intro p hp q
    simp [join, hp]
  cases ha : a.isEmpty with
  | true => rw [hempty ha, hempty ha]
  | false =>
    have hab : (a.join b).isEmpty = false := by rw [isEmpty_join a hb, ha, Bool.false_and]
    have hbc : (b.join c).isAbsolute = false := by rw [isAbsolute_join b hc, hb]
    have htext : ((a.join b).join c).text.toList = (a.join (b.join c)).text.toList := by
      rw [toList_join hab hc, slashed_join ha hb, toList_join ha hbc]
      split_ifs with hbe
      · rw [hempty hbe, List.append_nil]
      · rw [toList_join (by simpa using hbe) hc, List.append_assoc]
    exact congrArg mk (String.toList_injective htext)

/-- A path that is joined adds its steps. -/
theorem steps_join (a : Path) {b : Path} (hb : b.isAbsolute = false) (hne : b.isEmpty = false) :
    Disk.steps (a.join b) = a.names ++ Disk.steps b := by
  have htext := isEmpty_eq_false_iff.1 hne
  have hslash : endsWith ['/'] (a.join b).text.toList = endsWith ['/'] b.text.toList := by
    rcases a.join_cases hb with ⟨-, hjoin⟩ | ⟨t, -, -, hjoin⟩
    · rw [hjoin]
    · rw [hjoin, List.append_cons, endsWith_append htext]
  rw [steps_eq, hslash, names_join a hb, steps_eq, List.append_assoc]

/-- The empty path that is joined leads to the directory itself. -/
theorem steps_join_empty {a : Path} (ha : a.isEmpty = false) {b : Path} (hb : b.isEmpty = true) :
    Disk.steps (a.join b) = a.names ++ ["."] := by
  have hslash : endsWith ['/'] (a.join b).text.toList = true := by
    rcases a.join_cases (isAbsolute_of_isEmpty hb) with ⟨hempty, -⟩ | ⟨t, -, -, hjoin⟩
    · rw [ha] at hempty
      cases hempty
    · rw [isEmpty, String.isEmpty_iff] at hb
      rw [hjoin, hb, endsWith_append (by simp)]
      rfl
  rw [steps_eq, hslash, names_join a (isAbsolute_of_isEmpty hb), names_of_isEmpty hb,
    List.append_nil]
  rfl

theorem steps_ne_nil {p : Path} (h : p.isEmpty = false) : Disk.steps p ≠ [] := by
  intro hnil
  rw [steps_eq, List.append_eq_nil_iff] at hnil
  obtain ⟨hnames, hslash⟩ := hnil
  have hne := isEmpty_eq_false_iff.1 h
  split_ifs at hslash with hends
  -- a text without a slash at its end has a last piece
  have hlast : p.text.toList.getLast hne ≠ '/' := by
    intro hlast
    apply hends
    rw [← List.dropLast_append_getLast hne, hlast, endsWith_append (by simp)]
    rfl
  obtain ⟨piece, hpiece, hmem⟩ := (exists_mem_splitAll_iff hlast).2 (List.getLast_mem hne)
  have hin : String.ofList piece ∈ p.names :=
    List.mem_map_of_mem (List.mem_filter.2 ⟨hpiece, by simpa using List.ne_nil_of_mem hmem⟩)
  rw [hnames] at hin
  cases hin

/-! ## Parts of paths -/

/-- The names in pieces between slashes. -/
def namesOf (pieces : List (List Char)) : List String :=
  (pieces.filter (· ≠ [])).map String.ofList

/-- The names in the head of a path. -/
def headNames (head : List Component) : List String :=
  if head = [.here] then ["."] else []

theorem namesOf_append (xs ys : List (List Char)) :
    namesOf (xs ++ ys) = namesOf xs ++ namesOf ys := by
  rw [namesOf, List.filter_append, List.map_append]
  rfl

theorem head_cases (p : Path) : p.head = [.root] ∨ p.head = [.here] ∨ p.head = [] := by
  unfold head
  split_ifs <;> simp

theorem head_eq_root_iff {p : Path} : p.head = [.root] ↔ p.isAbsolute = true := by
  unfold head
  split_ifs <;> simp_all

/-- The names in a path are those of its head and its body. -/
theorem names_eq (p : Path) : p.names = headNames p.head ++ namesOf p.body := by
  show namesOf (splitAll '/' p.text.toList) = _
  unfold body headNames head
  split_ifs with habsolute hroot hhere <;> try simp_all
  · obtain ⟨t, ht⟩ := Option.isSome_iff_exists.1 habsolute
    rw [dropStart?_eq_some_iff.1 ht, List.singleton_append, splitAll_cons, if_pos rfl]
    rfl
  · obtain ⟨more, hmore⟩ := List.head?_eq_some_iff.1 hhere
    rw [hmore]
    rfl

theorem splitAll_joinWith {pieces : List (List Char)} (hne : pieces ≠ [])
    (h : ∀ x ∈ pieces, '/' ∉ x) : splitAll '/' (joinWith ['/'] pieces) = pieces := by
  induction pieces with
  | nil => exact absurd rfl hne
  | cons x pieces ih =>
    cases pieces with
    | nil => exact splitAll_of_not_mem (h x List.mem_cons_self)
    | cons y pieces =>
      rw [joinWith, List.append_assoc, List.singleton_append, splitAll_append,
        splitAll_of_not_mem (h x List.mem_cons_self),
        ih (List.cons_ne_nil _ _) fun z hz => h z (List.mem_cons_of_mem _ hz)]
      rfl

theorem namesIn_joinWith {pieces : List (List Char)} (h : ∀ x ∈ pieces, '/' ∉ x) :
    namesIn (joinWith ['/'] pieces) = namesOf pieces := by
  by_cases hne : pieces = []
  · rw [hne]
    rfl
  · rw [namesIn, splitAll_joinWith hne h, namesOf]

theorem names_ofParts {head : List Component} {pieces : List (List Char)}
    (hhead : head = [.root] ∨ head = [.here] ∨ head = []) (h : ∀ x ∈ pieces, '/' ∉ x) :
    (ofParts head pieces).names = headNames head ++ namesOf pieces := by
  have hrest := namesIn_joinWith h
  rcases hhead with rfl | rfl | rfl
  · rw [ofParts, names_ofList, show '/' :: joinWith ['/'] pieces = [] ++ '/' :: _ from rfl,
      namesIn_append, hrest]
    rfl
  · unfold ofParts
    simp only
    split_ifs with hnil
    · rw [hnil]
      rfl
    · rw [names_ofList, show '.' :: '/' :: joinWith ['/'] pieces = ['.'] ++ '/' :: _ from rfl,
        namesIn_append, hrest]
      rfl
  · exact (names_ofList _).trans hrest

/-- A list of pieces without the fillers at its end. -/
theorem exists_trimBody (pieces : List (List Char)) :
    ∃ fillers, pieces = trimBody pieces ++ fillers ∧ ∀ x ∈ fillers, isFiller x = true := by
  refine ⟨(pieces.reverse.takeWhile isFiller).reverse, ?_, fun x hx => ?_⟩
  · rw [trimBody, ← List.reverse_append, List.takeWhile_append_dropWhile, List.reverse_reverse]
  · exact List.mem_takeWhile_imp (List.mem_reverse.1 hx)

theorem isFiller_getLast_trimBody {pieces : List (List Char)} (h : trimBody pieces ≠ []) :
    isFiller ((trimBody pieces).getLast h) = false := by
  exact Bool.eq_false_iff.2 (List.rdropWhile_last_not isFiller pieces h)

theorem isFiller_iff {piece : List Char} :
    isFiller piece = true ↔ piece = [] ∨ String.ofList piece = "." := by
  have hdot : String.ofList piece = "." ↔ piece = ['.'] := by
    constructor
    · intro h
      simpa using congrArg String.toList h
    · rintro rfl
      rfl
  rw [hdot]
  simp [isFiller]

theorem namesOf_fillers {fillers : List (List Char)} (h : ∀ x ∈ fillers, isFiller x = true) :
    ∀ n ∈ namesOf fillers, n = "." := by
  intro n hn
  obtain ⟨piece, hpiece, rfl⟩ := List.mem_map.1 hn
  obtain ⟨hmem, hne⟩ := List.mem_filter.1 hpiece
  exact (isFiller_iff.1 (h piece hmem)).resolve_left (by simpa using hne)

theorem headNames_eq_here {head : List Component} : ∀ n ∈ headNames head, n = "." := by
  unfold headNames
  split_ifs <;> simp

/-- Only points stand at the end of the names of a path if there is nothing else in it. -/
def Trimmed (p : Path) : Prop :=
  ∀ init, p.names = init ++ ["."] → ∀ n ∈ p.names, n = "."

/-- The path of the directory that holds a path. Its names are those of the path up to the last
    one, where points do not count. -/
structure Holds (q p : Path) (before : List String) (last : String) (after : List String) :
    Prop where
  names : p.names = q.names ++ before ++ last :: after
  before : ∀ n ∈ before, n = "."
  after : ∀ n ∈ after, n = "."
  last : last ≠ "."
  absolute : q.isAbsolute = p.isAbsolute
  trimmed : q.Trimmed

namespace Holds

variable {q p : Path} {before after : List String} {last : String}

theorem after_eq_nil (h : Holds q p before last after) (hp : p.Trimmed) : after = [] := by
  rcases List.eq_nil_or_concat after with hnil | ⟨init, n, hinit⟩
  · exact hnil
  · have hn : n = "." := h.after n (by simp [hinit])
    have hnames := h.names
    rw [hinit, hn, List.concat_eq_append, ← List.cons_append, ← List.append_assoc] at hnames
    exact absurd (hp _ hnames last (by simp [hnames])) h.last

/-- There are more names in a path than in the one of the directory that holds it, points not
    counted. -/
theorem length_lt (h : Holds q p before last after) :
    (q.names.filter (· ≠ ".")).length < (p.names.filter (· ≠ ".")).length := by
  rw [h.names, List.filter_append, List.filter_append,
    List.filter_cons_of_pos (by simpa using h.last)]
  simp only [List.length_append, List.length_cons]
  omega

end Holds

/-- Pieces make a relative path, unless the first is empty. -/
theorem isAbsolute_ofParts_cons {c : Char} (hc : c ≠ '/') (cs : List Char)
    (pieces : List (List Char)) : (ofParts [] ((c :: cs) :: pieces)).isAbsolute = false := by
  refine (isAbsolute_ofList _).trans ?_
  cases pieces <;> simp [joinWith, startsWith, dropStart?, Ne.symm hc]

theorem isAbsolute_ofParts {p : Path} {pieces : List (List Char)} (h : pieces <+: p.body) :
    (ofParts p.head pieces).isAbsolute = p.isAbsolute := by
  have hrelative : p.head ≠ [.root] → p.isAbsolute = false := fun hhead => by
    rwa [← Bool.not_eq_true, ← head_eq_root_iff]
  rcases p.head_cases with hhead | hhead | hhead
  · rw [hhead, head_eq_root_iff.1 hhead, ofParts, isAbsolute_ofList]
    rfl
  · rw [hrelative (by simp [hhead]), hhead]
    unfold ofParts
    simp only
    split_ifs
    · rfl
    · rw [isAbsolute_ofList]
      rfl
  · have habsolute := hrelative (by simp [hhead])
    rw [habsolute, hhead]
    rw [body, hhead] at h
    cases pieces with
    | nil => rfl
    | cons x pieces =>
      obtain ⟨more, hmore⟩ := h
      have hsplit : splitAll '/' p.text.toList = x :: (pieces ++ more) := hmore.symm
      -- the first piece is empty only if the path is absolute or empty
      cases htext : p.text.toList with
      | nil =>
        rw [htext] at hsplit
        obtain ⟨rfl, hnil⟩ := List.cons.inj hsplit
        rw [(List.append_eq_nil_iff.1 hnil.symm).1]
        rfl
      | cons c cs =>
        have hc : c ≠ '/' := by
          rintro rfl
          rw [isAbsolute, htext] at habsolute
          cases habsolute
        obtain ⟨first, rest, -, hcons⟩ := exists_splitAll_cons hc cs
        rw [htext, hcons, List.cons.injEq] at hsplit
        rw [← hsplit.1]
        exact isAbsolute_ofParts_cons hc first pieces

theorem no_slash_of_mem_body {p : Path} {x : List Char} (h : x ∈ p.body) : '/' ∉ x :=
  not_mem_of_mem_splitAll x (List.mem_of_mem_drop h)

theorem trimmed_ofParts {p : Path} {pieces : List (List Char)}
    (h : ∀ x ∈ trimBody pieces, '/' ∉ x) : (ofParts p.head (trimBody pieces)).Trimmed := by
  intro init hinit
  rw [names_ofParts p.head_cases h] at hinit ⊢
  by_cases hnil : trimBody pieces = []
  · rw [hnil]
    simpa [namesOf] using headNames_eq_here
  -- otherwise the last name is no point
  have hlast := isFiller_getLast_trimBody hnil
  rw [← Bool.not_eq_true, isFiller_iff, not_or] at hlast
  have hnames : namesOf (trimBody pieces) = namesOf (trimBody pieces).dropLast ++
      [String.ofList ((trimBody pieces).getLast hnil)] := by
    conv_lhs => rw [← List.dropLast_append_getLast hnil, namesOf_append]
    rw [List.append_cancel_left_eq, namesOf, List.filter_cons_of_pos (by simpa using hlast.1)]
    rfl
  rw [hnames, ← List.append_assoc] at hinit
  exact absurd (List.append_inj_right' hinit rfl) (by simpa using hlast.2)

/-- What the directory is called that holds a path. -/
theorem holds_of_parent {p q : Path} (h : p.parent? = some q) :
    (q.isEmpty = true ∧ ∀ n ∈ p.names, n = ".") ∨ ∃ before last after, Holds q p before last after := by
  obtain ⟨fillers, hbody, hfillers⟩ := exists_trimBody p.body
  have hnames := p.names_eq
  rw [hbody, namesOf_append] at hnames
  unfold parent? at h
  split at h
  · rename_i htrim hhead
    cases h
    refine .inl ⟨rfl, fun n hn => ?_⟩
    rw [hnames, htrim] at hn
    rcases List.mem_append.1 hn with hn | hn
    · exact headNames_eq_here n hn
    · exact namesOf_fillers hfillers n hn
  · cases h
  · rename_i hne _
    cases h
    have hnil : trimBody p.body ≠ [] := fun hnil => hne hnil
    obtain ⟨fillers', hbody', hfillers'⟩ := exists_trimBody (trimBody p.body).dropLast
    have hstart : trimBody (trimBody p.body).dropLast <+: p.body :=
      ⟨fillers' ++ [(trimBody p.body).getLast hnil] ++ fillers, by
        rw [← List.append_assoc, ← List.append_assoc, ← hbody',
          List.dropLast_append_getLast hnil, ← hbody]⟩
    have hslash : ∀ x ∈ trimBody (trimBody p.body).dropLast, '/' ∉ x :=
      fun x hx => no_slash_of_mem_body (hstart.subset hx)
    have hlast := isFiller_getLast_trimBody hnil
    rw [← Bool.not_eq_true, isFiller_iff, not_or] at hlast
    refine .inr ⟨namesOf fillers', String.ofList ((trimBody p.body).getLast hnil),
      namesOf fillers, ?_, namesOf_fillers hfillers', namesOf_fillers hfillers, hlast.2,
      isAbsolute_ofParts hstart, trimmed_ofParts hslash⟩
    rw [names_ofParts p.head_cases hslash, hnames]
    conv_lhs => rw [← List.dropLast_append_getLast hnil, hbody']
    rw [namesOf_append, namesOf_append,
      show namesOf [(trimBody p.body).getLast hnil] =
        [String.ofList ((trimBody p.body).getLast hnil)] by simp [namesOf, hlast.1]]
    simp

theorem names_of_parent_eq_none {p : Path} (h : p.parent? = none) : ∀ n ∈ p.names, n = "." := by
  obtain ⟨fillers, hbody, hfillers⟩ := exists_trimBody p.body
  unfold parent? at h
  split at h
  · cases h
  · rename_i htrim _
    intro n hn
    rw [p.names_eq, hbody, htrim, List.nil_append] at hn
    rcases List.mem_append.1 hn with hn | hn
    · exact headNames_eq_here n hn
    · exact namesOf_fillers hfillers n hn
  · cases h

/-! ## Levels -/

theorem filter_namesOf (pieces : List (List Char)) :
    (namesOf pieces).filter (· ≠ ".") = (pieces.filter (!isFiller ·)).map String.ofList := by
  rw [namesOf, List.filter_map, List.filter_filter]
  congr 1
  refine List.filter_congr fun piece _ => ?_
  rw [Bool.eq_iff_iff]
  simp only [Function.comp_apply, Bool.and_eq_true, decide_eq_true_eq, Bool.not_eq_true',
    ← Bool.not_eq_true, isFiller_iff, not_or]
  exact and_comm

/-- There are as many components in a path as there are names, points not counted. -/
theorem length_names_le (p : Path) :
    (p.names.filter (· ≠ ".")).length ≤ p.components.length := by
  have hhead : (headNames p.head).filter (· ≠ ".") = [] :=
    List.filter_eq_nil_iff.2 fun n hn => by simpa using headNames_eq_here n hn
  rw [names_eq, List.filter_append, hhead, List.nil_append, filter_namesOf, List.length_map,
    components, List.length_append, List.length_map]
  omega

/-! ## Paths below a root -/

/-- A path that goes on with names where another one ends. -/
def Named (root p : Path) : Prop :=
  ∃ ns : List String, p.components = root.components ++ ns.map .name

theorem Named.refl (root : Path) : Named root root := ⟨[], by simp⟩

theorem Named.trans {p q r : Path} (h : Named p q) (h' : Named q r) : Named p r := by
  obtain ⟨ns, hns⟩ := h
  obtain ⟨ns', hns'⟩ := h'
  exact ⟨ns ++ ns', by rw [hns', hns, List.map_append, List.append_assoc]⟩

theorem mem_components_body {p : Path} {c : Component} (h : c ∈ p.components)
    (hroot : c ≠ .root) (hhere : c ≠ .here) :
    ∃ piece ∈ p.body, isFiller piece = false ∧ c = component piece := by
  rcases List.mem_append.1 h with h | h
  · rcases p.head_cases with hhead | hhead | hhead <;> rw [hhead] at h <;> simp at h
    · exact absurd h hroot
    · exact absurd h hhere
  · obtain ⟨piece, hpiece, rfl⟩ := List.mem_map.1 h
    obtain ⟨hmem, hfiller⟩ := List.mem_filter.1 hpiece
    exact ⟨piece, hmem, by simpa using hfiller, rfl⟩

theorem isName_of_component {p : Path} {n : String} (h : .name n ∈ p.components) : IsName n := by
  obtain ⟨piece, hmem, hfiller, hname⟩ := mem_components_body h (by simp) (by simp)
  unfold component at hname
  split_ifs at hname with hup
  cases hname
  rw [← Bool.not_eq_true, isFiller_iff, not_or] at hfiller
  refine ⟨fun hn => hfiller.1 (by simpa using congrArg String.toList hn), ?_, hfiller.2,
    fun hn => hup (by simpa using congrArg String.toList hn)⟩
  rw [String.toList_ofList]
  exact no_slash_of_mem_body hmem

theorem isName_of_fileName {p : Path} {n : String} (h : p.fileName? = some n) : IsName n := by
  unfold fileName? at h
  split at h
  · rename_i m hm
    cases h
    exact isName_of_component (List.mem_of_getLast? hm)
  · cases h

theorem filter_dropPieces (n : Nat) (pieces : List (List Char)) :
    (dropPieces n pieces).filter (!isFiller ·) = (pieces.filter (!isFiller ·)).drop n := by
  induction pieces generalizing n with
  | nil => cases n <;> simp [dropPieces]
  | cons x pieces ih =>
    cases n with
    | zero => simp [dropPieces]
    | succ n =>
      rw [dropPieces]
      split_ifs with hx
      · rw [ih, List.filter_cons_of_neg (by simp [hx])]
      · rw [ih, List.filter_cons_of_pos (by simpa using hx), List.drop_succ_cons]

theorem dropPieces_suffix (n : Nat) (pieces : List (List Char)) :
    dropPieces n pieces <:+ pieces := by
  induction pieces generalizing n with
  | nil => cases n <;> simp [dropPieces]
  | cons x pieces ih =>
    cases n with
    | zero => simp [dropPieces]
    | succ n =>
      rw [dropPieces]
      split_ifs
      · exact (ih (n + 1)).trans (List.suffix_cons x pieces)
      · exact (ih n).trans (List.suffix_cons x pieces)

theorem components_of_absolute {p : Path} (h : p.isAbsolute = true) :
    p.components = .root :: (p.body.filter (!isFiller ·)).map component := by
  rw [components, head_eq_root_iff.2 h]
  rfl

/-- A path that is relative and leads nowhere up. -/
structure Inside (r : Path) : Prop where
  relative : r.isAbsolute = false
  up : ".." ∉ r.names

theorem IsName.names_eq {n : String} (h : IsName n) : names ⟨n⟩ = [n] := by
  rw [names, namesIn, splitAll_of_not_mem h.no_slash]
  simp [h.toList_ne_nil]

theorem IsName.inside {n : String} (h : IsName n) : Inside ⟨n⟩ := by
  refine ⟨h.not_absolute, ?_⟩
  rw [h.names_eq, List.mem_singleton]
  exact Ne.symm h.ne_up

/-- A path starts with the root exactly if it is absolute. -/
theorem head?_components_eq_root_iff {p : Path} :
    p.components.head? = some .root ↔ p.isAbsolute = true := by
  refine ⟨fun h => ?_, fun h => by rw [components_of_absolute h]; rfl⟩
  rw [← head_eq_root_iff]
  rcases p.head_cases with hhead | hhead | hhead
  · exact hhead
  · rw [components, hhead] at h
    simp at h
  · rw [components, hhead, List.nil_append, List.head?_map] at h
    obtain ⟨piece, -, hpiece⟩ := Option.map_eq_some_iff.1 h
    unfold component at hpiece
    split_ifs at hpiece

/-- The pieces of a path after those that an absolute root has. -/
def piecesBelow (root p : Path) : List (List Char) :=
  (dropPieces (root.components.length - root.head.length) p.body).dropWhile isFiller

section Below

variable {root p : Path}

theorem relativeTo?_of_named (hroot : root.isAbsolute = true) (h : Named root p) :
    relativeTo? root p = some (ofParts [] (trimBody (piecesBelow root p))) := by
  obtain ⟨ns, hns⟩ := h
  have hbelow : root.isBelow p = true := by
    rw [isBelow, hns, List.isPrefixOf_iff_prefix]
    exact List.prefix_append _ _
  rw [relativeTo?, if_pos hbelow, if_neg (by simp [components_of_absolute hroot])]
  rfl

theorem no_slash_of_mem_piecesBelow {x : List Char} (h : x ∈ piecesBelow root p) : '/' ∉ x :=
  no_slash_of_mem_body (((List.dropWhile_suffix _).trans (dropPieces_suffix _ _)).subset h)

/-- What is left below a root does not start with a filler. -/
theorem isFiller_of_mem_head?_piecesBelow {x : List Char} (h : x ∈ (piecesBelow root p).head?) :
    isFiller x = false := by
  have hnot := List.head?_dropWhile_not isFiller
    (dropPieces (root.components.length - root.head.length) p.body)
  rw [Option.mem_def, piecesBelow] at h
  rw [h] at hnot
  exact hnot

/-- The components of the pieces below a root are the names there. -/
theorem components_piecesBelow (hroot : root.isAbsolute = true) {ns : List String}
    (h : p.components = root.components ++ ns.map .name) :
    ((piecesBelow root p).filter (!isFiller ·)).map component = ns.map .name := by
  have habsolute : p.isAbsolute = true := by
    rw [← head?_components_eq_root_iff, h, components_of_absolute hroot]
    rfl
  rw [components_of_absolute habsolute, components_of_absolute hroot, List.cons_append,
    List.cons.injEq] at h
  have hlength : root.components.length - root.head.length =
      ((root.body.filter (!isFiller ·)).map component).length := by
    rw [components_of_absolute hroot, head_eq_root_iff.2 hroot]
    simp
  have hfilter : ∀ xs : List (List Char),
      (xs.dropWhile isFiller).filter (!isFiller ·) = xs.filter (!isFiller ·) := by
    intro xs
    induction xs with
    | nil => rfl
    | cons x xs ih => cases hx : isFiller x <;> simp [hx, ih]
  rw [piecesBelow, hfilter, filter_dropPieces, List.map_drop, h.2, hlength, List.drop_left]

theorem ne_up_of_mem_piecesBelow (hroot : root.isAbsolute = true) (h : Named root p)
    {x : List Char} (hx : x ∈ piecesBelow root p) : x ≠ ['.', '.'] := by
  rintro rfl
  obtain ⟨ns, hns⟩ := h
  have hkept : ['.', '.'] ∈ (piecesBelow root p).filter (!isFiller ·) :=
    List.mem_filter.2 ⟨hx, rfl⟩
  have hcomponent := List.mem_map_of_mem (f := component) hkept
  rw [components_piecesBelow hroot hns] at hcomponent
  obtain ⟨n, -, hn⟩ := List.mem_map.1 hcomponent
  cases hn

/-- The rest of a path below a root. -/
theorem inside_relativeTo (hroot : root.isAbsolute = true) (h : Named root p) :
    ∃ r, relativeTo? root p = some r ∧ Inside r := by
  have htrim : trimBody (piecesBelow root p) <+: piecesBelow root p :=
    List.rdropWhile_prefix isFiller _
  have hslash : ∀ x ∈ trimBody (piecesBelow root p), '/' ∉ x :=
    fun x hx => no_slash_of_mem_piecesBelow (htrim.subset hx)
  refine ⟨_, relativeTo?_of_named hroot h, ?_, ?_⟩
  · cases hpieces : trimBody (piecesBelow root p) with
    | nil => rfl
    | cons x xs =>
      -- the first piece is no filler, and so it is not empty
      have hfirst : x ∈ (piecesBelow root p).head? := by
        obtain ⟨more, hmore⟩ := htrim
        rw [← hmore, hpieces]
        rfl
      have hfiller := isFiller_of_mem_head?_piecesBelow hfirst
      have hx := hslash x (hpieces ▸ List.mem_cons_self)
      cases x with
      | nil => cases hfiller
      | cons c cs =>
        rw [List.mem_cons, not_or] at hx
        exact isAbsolute_ofParts_cons (Ne.symm hx.1) cs xs
  · rw [names_ofParts (.inr (.inr rfl)) hslash]
    intro hmem
    have hin : ".." ∈ namesOf (trimBody (piecesBelow root p)) := by simpa [headNames] using hmem
    obtain ⟨piece, hpiece, htext⟩ := List.mem_map.1 hin
    have hup := ne_up_of_mem_piecesBelow hroot h (htrim.subset (List.mem_filter.1 hpiece).1)
    exact hup (by simpa using congrArg String.toList htext)

/-- The rest of a path below a root has the names that come after the root. -/
theorem names_relativeTo (hroot : root.isAbsolute = true) {ns : List String}
    (h : p.components = root.components ++ ns.map .name) {r : Path}
    (hr : relativeTo? root p = some r) : r.names.filter (· ≠ ".") = ns := by
  obtain rfl := Option.some.inj ((relativeTo?_of_named hroot ⟨ns, h⟩).symm.trans hr)
  have hslash : ∀ x ∈ trimBody (piecesBelow root p), '/' ∉ x :=
    fun x hx => no_slash_of_mem_piecesBelow ((List.rdropWhile_prefix isFiller _).subset hx)
  obtain ⟨fillers, hpieces, hfillers⟩ := exists_trimBody (piecesBelow root p)
  have hnone : fillers.filter (!isFiller ·) = [] :=
    List.filter_eq_nil_iff.2 fun x hx => by simp [hfillers x hx]
  have hcomponents := components_piecesBelow hroot h
  rw [hpieces, List.filter_append, hnone, List.append_nil] at hcomponents
  rw [names_ofParts (.inr (.inr rfl)) hslash]
  show (namesOf _).filter _ = _
  rw [filter_namesOf]
  have hname : ∀ (xs : List (List Char)) (ns : List String),
      xs.map component = ns.map .name → xs.map String.ofList = ns := by
    intro xs
    induction xs with
    | nil =>
      intro ns hxs
      rw [List.map_nil, eq_comm, List.map_eq_nil_iff] at hxs
      rw [hxs, List.map_nil]
    | cons x xs ih =>
      intro ns hxs
      obtain ⟨n, ns, rfl, hn, hns⟩ := List.map_eq_cons_iff.1 hxs.symm
      rw [List.map_cons, ih ns hns.symm]
      unfold component at hn
      split_ifs at hn
      cases hn
      rfl
  exact hname _ _ hcomponents

end Below

/-- The path of a file below a root is written as names. -/
theorem inside_locate {root p : Path} (hroot : root.isAbsolute = true) (h : Named root p)
    (hname : p.fileName?.isSome = true) :
    Inside (locate root p) ∧ (locate root p).isEmpty = false := by
  obtain ⟨n, hn⟩ := Option.isSome_iff_exists.1 hname
  have hisName := isName_of_fileName hn
  obtain ⟨r, hr, hinside⟩ := inside_relativeTo hroot h
  unfold locate
  rw [hr, hn]
  simp only [Option.map_some, Option.getD_some]
  split_ifs with hempty
  · refine ⟨hisName.inside, isEmpty_eq_false_iff.2 ?_⟩
    exact hisName.toList_ne_nil
  · exact ⟨hinside, by simpa using hempty⟩

end Path

/-! ## What walks list -/

theorem Disk.named_below {d : Disk} (hd : d.WellFormed) (options : WalkOptions) (depth : Nat) :
    ∀ (chain : Ignore.RuleChain) (path : Path) (loc : Location),
      ∀ f ∈ d.below options depth chain path loc, Path.Named path f.path := by
  induction depth with
  | zero => intro chain path loc f hf; simp [below] at hf
  | succ depth ih =>
    intro chain path loc f hf
    rw [below_succ] at hf
    obtain ⟨n, hn, hf⟩ := List.mem_flatMap.1 hf
    have hjoin := path.components_join (hd.isName hn)
    rcases mem_belowName hf with hpath | ⟨chain', hf⟩
    · exact ⟨[n], by rw [hpath, hjoin]; rfl⟩
    · obtain ⟨ns, hns⟩ := ih _ _ _ f hf
      exact ⟨n :: ns, by rw [hns, hjoin, List.append_assoc]; rfl⟩

theorem Disk.named_walkFrom {d : Disk} (hd : d.WellFormed) {cwd : Location}
    {options : WalkOptions} {root : Path} {f : Found} (h : f ∈ d.walkFrom cwd options root) :
    Path.Named root f.path := by
  unfold walkFrom at h
  split at h
  · cases h
  · exact named_below hd _ _ _ _ _ f h

/-- The source files at or below a root are named below it. -/
theorem named_listing {registry : Registry} {root : Path} {d : Disk} (hd : d.WellFormed)
    {cwd : Location} {files : List Path} (h : listing registry root d cwd = .ok files) :
    ∀ p ∈ files, Path.Named root p := by
  intro p hp
  unfold listing at h
  split_ifs at h
  · cases h
    rw [List.mem_singleton.1 hp]
    exact .refl root
  · cases h
    cases hp
  · cases h
    obtain ⟨f, hf, rfl⟩ := List.mem_map.1 (List.mem_filter.1 hp).1
    exact Disk.named_walkFrom hd hf

end Tracepoint
