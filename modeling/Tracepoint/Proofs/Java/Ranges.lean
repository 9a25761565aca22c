import Tracepoint.Java.Parse
import Tracepoint.Proofs.Java.Scan

/-!
# Ranges of syntax trees

Every node of the tree of a source text stands between two positions of that text,
every node that is the body of its parent starts with a brace, and every name is an
identifier. Type declarations have a name, no node has two class bodies, and calls of
constructors and declarations of packages and imports end with a semicolon.

The tokens of a text stand where their ranges say. A rule of the grammar reads from
such tokens and yields nodes whose ranges start and end where tokens do. It never reads
past a character that starts no token. This is shown once for each way to combine
rules.

Results:

* `lex_standsIn`: tokens and comments lie in the text.
* `Rule.Fits`, `Rule.FitsWithBody`, `Rule.FitAll`, `Rule.Braced`, `Rule.Terminated`,
  `Rule.Worded`, `Rule.HasRole`: what the nodes of a rule are like, kept by every way to
  combine rules.
-/

namespace Tracepoint.Java

open Text

/-! ## Ranges and tokens -/

/-- A range starts and ends at positions of a source. -/
def Span.IsIn (source : List Char) (s : Span) : Prop :=
  isBoundary source s.start = true ∧ isBoundary source s.stop = true

/-- Scanning comes to a brace at an offset of a source. -/
def BraceAt (source : List Char) (n : Nat) : Prop :=
  ∃ a b, source = a ++ '{' :: b ∧ byteSize a = n ∧ Scans (unmarked source) ('{' :: b)

/-- Scanning comes to a semicolon right before an offset of a source. -/
def SemicolonBefore (source : List Char) (n : Nat) : Prop :=
  ∃ a b, source = a ++ ';' :: b ∧ byteSize a + 1 = n ∧ Scans (unmarked source) (';' :: b)

theorem SemicolonBefore.isBoundary {source : List Char} {n : Nat} (h : SemicolonBefore source n) :
    Text.isBoundary source n = true := by
  obtain ⟨a, b, hs, hn, -⟩ := h
  refine isBoundary_iff.2 ⟨a ++ [';'], b, by simp [hs], ?_⟩
  rw [byteSize_append, ← hn]
  rfl

/-- A token stands in a source where its range says, scanning comes to it, and a word is an
    identifier. -/
structure Token.StandsIn (source : List Char) (t : Token) : Prop where
  there : ∃ a b, source = a ++ t.text.toList ++ b ∧
    t.span = ⟨byteSize a, byteSize (a ++ t.text.toList)⟩ ∧
    Scans (unmarked source) (t.text.toList ++ b)
  word : t.lexeme = .word → isIdentifier t.text.toList = true

theorem Token.StandsIn.isIn {source : List Char} {t : Token} (h : t.StandsIn source) :
    t.span.IsIn source := by
  obtain ⟨a, b, hs, ht, -⟩ := h.there
  rw [ht]
  exact ⟨isBoundary_iff.2 ⟨a, t.text.toList ++ b, by simp [hs], rfl⟩,
    isBoundary_iff.2 ⟨a ++ t.text.toList, b, hs, rfl⟩⟩

theorem Token.StandsIn.braceAt {source : List Char} {t : Token} (h : t.StandsIn source)
    (hb : t.text = "\x7b") : BraceAt source t.span.start := by
  obtain ⟨a, b, hs, ht, hscans⟩ := h.there
  rw [ht]
  exact ⟨a, b, by simpa [hb] using hs, rfl, by simpa [hb] using hscans⟩

theorem Token.StandsIn.semicolonBefore {source : List Char} {t : Token} (h : t.StandsIn source)
    (hb : t.text = ";") : SemicolonBefore source t.span.stop := by
  obtain ⟨a, b, hs, ht, hscans⟩ := h.there
  rw [ht]
  exact ⟨a, b, by simpa [hb] using hs, by rw [hb, byteSize_append]; rfl,
    by simpa [hb] using hscans⟩

/-- The text in the range of a token is the text of the token. -/
theorem Token.StandsIn.slice_eq {source : List Char} {t : Token} (h : t.StandsIn source) :
    slice source t.span.start t.span.stop = t.text.toList := by
  obtain ⟨a, b, hs, ht, -⟩ := h.there
  have hslice := slice_append a t.text.toList b
  rw [← hs, ← byteSize_append] at hslice
  rw [ht]
  exact hslice

/-! ## The lexer -/

/-- A word takes in all characters that can continue it. -/
theorem isIdentifier_pieceAt {c : Char} {cs : List Char} {n : Nat}
    (h : pieceAt c cs = (.token .word, n)) : isIdentifier (c :: cs.take n) = true := by
  by_cases hgap : isGap c = true
  · simp [pieceAt, hgap] at h
  by_cases hstart : isIdentifierStart c = true
  · have hn : n = (cs.takeWhile isIdentifierPart).length := by
      simpa [pieceAt, hgap, hstart, eq_comm] using h
    have htake : cs.take n = cs.takeWhile isIdentifierPart := by
      rw [hn]
      exact List.prefix_iff_eq_take.1 (List.takeWhile_prefix _) |>.symm
    rw [htake, isIdentifier, hstart, Bool.true_and]
    exact List.all_takeWhile
  · simp only [pieceAt, hgap, hstart, Bool.false_eq_true, if_false] at h
    repeat' split at h
    all_goals simp at h

theorem lexAt_standsIn (source : List Char) :
    ∀ (cs pre : List Char), source = pre ++ cs → Scans (unmarked source) cs →
      (∀ t ∈ (lexAt (byteSize pre) cs).tokens, t.StandsIn source) ∧
        ∀ s ∈ (lexAt (byteSize pre) cs).comments, s.IsIn source := by
  intro cs
  induction hn : cs.length using Nat.strongRecOn generalizing cs with
  | _ n ih =>
    intro pre hs hscans
    cases cs with
    | nil => simp [lexAt]
    | cons c cs =>
      rw [lexAt]
      cases hpiece : pieceAt c cs with | mk piece k =>
      simp only
      have hsplit : source = pre ++ (c :: cs.take k) ++ cs.drop k := by simp [hs]
      have hlt : (cs.drop k).length < n := by
        rw [← hn, List.length_drop, List.length_cons]
        omega
      have hnext : Scans (c :: cs) (cs.drop k) := by
        refine .piece ?_
        rw [hpiece]
        exact .here _
      have hrest := ih (cs.drop k).length hlt (cs.drop k) rfl (pre ++ c :: cs.take k) hsplit
        (hscans.trans hnext)
      rw [byteSize_append] at hrest
      have hin : Span.IsIn source ⟨byteSize pre, byteSize pre + byteSize (c :: cs.take k)⟩ :=
        ⟨isBoundary_iff.2 ⟨pre, c :: cs, hs, rfl⟩,
          isBoundary_iff.2 ⟨_, _, hsplit, byteSize_append _ _⟩⟩
      cases piece with
      | gap => exact hrest
      | comment =>
        refine ⟨hrest.1, ?_⟩
        intro s hmem
        rcases List.mem_cons.1 hmem with rfl | hmem
        · exact hin
        · exact hrest.2 s hmem
      | token lexeme =>
        refine ⟨?_, hrest.2⟩
        intro t hmem
        rcases List.mem_cons.1 hmem with rfl | hmem
        · refine ⟨⟨pre, cs.drop k, by simp [hs], by simp, by simpa using hscans⟩, fun hword => ?_⟩
          subst hword
          simpa using isIdentifier_pieceAt hpiece
        · exact hrest.1 t hmem

theorem lex_standsIn (source : List Char) :
    (∀ t ∈ (lex source).tokens, t.StandsIn source) ∧
      ∀ s ∈ (lex source).comments, s.IsIn source := by
  cases source with
  | nil => simp [lex]
  | cons c cs =>
    rw [lex]
    split_ifs with hc
    · have hscans : Scans (unmarked (c :: cs)) cs := by
        rw [unmarked, if_pos hc]
        exact .here cs
      have h := lexAt_standsIn (c :: cs) cs [c] rfl hscans
      simpa using h
    · have hscans : Scans (unmarked (c :: cs)) (c :: cs) := by
        rw [unmarked, if_neg hc]
        exact .here (c :: cs)
      exact lexAt_standsIn (c :: cs) (c :: cs) [] rfl hscans

/-! ## Nodes -/

/-- A property of all nodes of a tree. -/
inductive Node.All (P : Node → Prop) : Node → Prop
  | mk {k : Kind} {r : Role} {s : Span} {cs : List Node} :
      P (.mk k r s cs) → (∀ c ∈ cs, Node.All P c) → Node.All P (.mk k r s cs)

theorem Node.All.here {P : Node → Prop} {n : Node} (h : n.All P) : P n := by
  cases h with
  | mk hn _ => exact hn

theorem Node.All.children {P : Node → Prop} {n : Node} (h : n.All P) :
    ∀ c ∈ n.children, c.All P := by
  cases h with
  | mk _ hcs => exact hcs

/-- A kind whose nodes end with a semicolon that later stages look for. The definition is reducible
    so that it is decided while instances are looked for. -/
@[reducible] def Kind.isTerminated : Kind → Bool
  | .packageDeclaration | .importDeclaration | .constructorCall => true
  | _ => false

/-- A node is the body of a class. -/
abbrev Node.isClassBody (n : Node) : Bool := n.kind == .classBody

/-- A node fits a source: its range lies in the source, if it is a body, it starts with a
    brace, if it is a name, it is an identifier, if it is a constructor, it has a body, if it is
    a type declaration, it has a name, if its kind asks for that, it ends with a semicolon, and
    at most one of its children is a class body. -/
structure Node.FitsIn (source : List Char) (n : Node) : Prop where
  isIn : n.span.IsIn source
  brace : n.role = .body → BraceAt source n.span.start
  word : n.role = .name → isIdentifier (n.text source) = true
  body : n.kind = .constructorDeclaration → ∃ b ∈ n.children, b.role = .body
  name : n.kind.isTypeDeclaration = true → ∃ b ∈ n.children, b.role = .name
  semicolon : n.kind.isTerminated = true → SemicolonBefore source n.span.stop
  oneBody : n.children.countP Node.isClassBody ≤ 1

/-- All nodes of some trees fit a source, and at most one of the trees is a class body. -/
structure Nodes.FitWithBody (source : List Char) (xs : Nodes) : Prop where
  all : ∀ x ∈ xs, x.All (Node.FitsIn source)
  oneBody : xs.countP Node.isClassBody ≤ 1

/-- All nodes of some trees fit a source, and none of the trees is a class body. -/
structure Nodes.Fit (source : List Char) (xs : Nodes) : Prop where
  all : ∀ x ∈ xs, x.All (Node.FitsIn source)
  noBody : xs.countP Node.isClassBody = 0

theorem Nodes.Fit.withBody {source : List Char} {xs : Nodes} (h : Nodes.Fit source xs) :
    Nodes.FitWithBody source xs :=
  ⟨h.all, by rw [h.noBody]; exact Nat.zero_le 1⟩

theorem Nodes.fit_nil (source : List Char) : Nodes.Fit source [] :=
  ⟨fun x hx => by simp at hx, rfl⟩

theorem Nodes.Fit.appendBody {source : List Char} {xs ys : Nodes} (hx : Nodes.Fit source xs)
    (hy : Nodes.FitWithBody source ys) : Nodes.FitWithBody source (xs ++ ys) := by
  constructor
  · intro x h
    rcases List.mem_append.1 h with h | h
    · exact hx.all x h
    · exact hy.all x h
  · rw [List.countP_append, hx.noBody, Nat.zero_add]
    exact hy.oneBody

theorem Nodes.Fit.append {source : List Char} {xs ys : Nodes} (hx : Nodes.Fit source xs)
    (hy : Nodes.Fit source ys) : Nodes.Fit source (xs ++ ys) :=
  ⟨(hx.appendBody hy.withBody).all, by rw [List.countP_append, hx.noBody, hy.noBody]⟩

/-- A kind of which nothing more is known than that its nodes have ranges. -/
@[reducible] def Kind.isPlain : Kind → Bool
  | .constructorDeclaration | .classDeclaration | .interfaceDeclaration | .enumDeclaration
  | .recordDeclaration | .annotationTypeDeclaration | .packageDeclaration | .importDeclaration
  | .constructorCall | .classBody => false
  | _ => true

/-- A kind of type declarations. -/
@[reducible] def Kind.isNamed : Kind → Bool
  | .classDeclaration | .interfaceDeclaration | .enumDeclaration | .recordDeclaration
  | .annotationTypeDeclaration => true
  | _ => false

/-- A class of tokens that rules can read. -/
@[reducible] def Lexeme.isProper : Lexeme → Bool
  | .stray => false
  | _ => true

/-- A condition that is found true by computing it. -/
class Holds (b : Bool) : Prop where
  eq_true : b = true

instance : Holds true := ⟨rfl⟩

/-- What a node of a kind has to be like: what it has to have among its children and how it has to
    end. -/
structure Kind.AsksFor (source : List Char) (k : Kind) (stop : Nat) (xs : Nodes) : Prop where
  body : k = .constructorDeclaration → ∃ b ∈ xs, b.role = .body
  name : k.isTypeDeclaration = true → ∃ b ∈ xs, b.role = .name
  semicolon : k.isTerminated = true → SemicolonBefore source stop

theorem Kind.asksFor_of_isPlain {k : Kind} (h : k.isPlain = true ∨ k = .classBody)
    (source : List Char) (stop : Nat) (xs : Nodes) : k.AsksFor source stop xs := by
  constructor
  · rintro rfl
    simp at h
  · intro hk
    cases k <;> simp [Kind.isTypeDeclaration] at h hk
  · intro hk
    cases k <;> simp at h hk

theorem Kind.asksFor_of_isNamed {k : Kind} (h : k.isNamed = true) (source : List Char) (stop : Nat)
    {xs : Nodes} (hn : ∃ b ∈ xs, b.role = .name) : k.AsksFor source stop xs := by
  refine ⟨?_, fun _ => hn, fun hk => ?_⟩
  · rintro rfl
    cases h
  · cases k <;> simp at h hk

theorem Kind.asksFor_of_isTerminated {k : Kind} (h : k.isTerminated = true) {source : List Char}
    {stop : Nat} (hs : SemicolonBefore source stop) (xs : Nodes) : k.AsksFor source stop xs := by
  refine ⟨?_, fun hk => ?_, fun _ => hs⟩
  · rintro rfl
    cases h
  · cases k <;> simp [Kind.isTypeDeclaration] at h hk

/-- A node without a role fits if its range does and its children fit. -/
theorem Nodes.all_node {source : List Char} {k : Kind} {s : Span} {xs : Nodes}
    (hs : s.IsIn source) (hx : Nodes.FitWithBody source xs) (hk : k.AsksFor source s.stop xs) :
    (Node.mk k .none s xs).All (Node.FitsIn source) :=
  .mk ⟨hs, fun hr => (by cases hr), fun hr => (by cases hr), hk.body, hk.name, hk.semicolon,
    hx.oneBody⟩ hx.all

theorem Nodes.fit_node {source : List Char} {k : Kind} {s : Span} {xs : Nodes}
    (hs : s.IsIn source) (hx : Nodes.FitWithBody source xs) (hk : k.AsksFor source s.stop xs)
    (hb : k ≠ .classBody) : Nodes.Fit source [.mk k .none s xs] := by
  constructor
  · intro x h
    rw [List.mem_singleton] at h
    subst h
    exact Nodes.all_node hs hx hk
  · simp [Node.isClassBody, Node.kind, hb]

/-! ## Rules -/

/-- The tokens that a cursor has left stand in a source, and the last token read ends at a
    position of it. If the source has a stray token, it is among those left. -/
structure Cursor.ReadsFrom (source : List Char) (c : Cursor) : Prop where
  tokens : ∀ t ∈ c.rest, t.StandsIn source
  stop : isBoundary source c.stop = true
  stray : (∃ t ∈ (lex source).tokens, t.lexeme = .stray) → ∃ t ∈ c.rest, t.lexeme = .stray

theorem Cursor.ReadsFrom.reached {source : List Char} {c : Cursor} (h : c.ReadsFrom source)
    (reach : Nat) : Cursor.ReadsFrom source { c with reach := reach } :=
  ⟨h.tokens, h.stop, h.stray⟩

/-- The start of the next token, or the end of the last one, is a position. -/
theorem Cursor.ReadsFrom.start {source : List Char} {c : Cursor} (h : c.ReadsFrom source) :
    isBoundary source ((c.rest.head?.map (·.span.start)).getD c.stop) = true := by
  cases hc : c.rest with
  | nil => simpa [hc] using h.stop
  | cons t ts =>
    have ht := h.tokens t (by simp [hc])
    simpa [hc] using ht.isIn.1

namespace Rule

variable {α : Type} {source : List Char}

/-- Reading from a source, a rule yields values with a property and reads on from the same
    source. -/
def Yields (source : List Char) (Q : α → Prop) (p : Rule α) : Prop :=
  ∀ c, c.ReadsFrom source → ∀ a c', p c = .done a c' → c'.ReadsFrom source ∧ Q a

theorem Yields.apply {Q : α → Prop} {p : Rule α} (h : p.Yields source Q) {c c' : Cursor}
    (hc : c.ReadsFrom source) {a : α} (hp : p c = .done a c') : c'.ReadsFrom source ∧ Q a :=
  h c hc a c' hp

theorem yields_reject (Q : α → Prop) : (reject : Rule α).Yields source Q := by
  intro c _ a c' h
  cases h

/-- A rule that reads on from the same source, whatever it yields. -/
class Advances (source : List Char) (p : Rule α) : Prop where
  yields : p.Yields source fun _ => True

/-- A rule that yields nodes which fit the source. These are classes so that what is known of
    the parts of a rule is found by the shape of the rule. -/
class Fits (source : List Char) (p : Rule Nodes) : Prop where
  yields : p.Yields source (Nodes.Fit source)

instance (p : Rule Nodes) [h : p.Fits source] : p.Advances source :=
  ⟨fun c hc a c' hp => ⟨(h.yields c hc a c' hp).1, trivial⟩⟩

/-- A rule that yields nodes which fit the source, of which at most one is a class body. -/
class FitsWithBody (source : List Char) (p : Rule Nodes) : Prop where
  yields : p.Yields source (Nodes.FitWithBody source)

instance (p : Rule Nodes) [h : p.Fits source] : p.FitsWithBody source :=
  ⟨fun c hc a c' hp => ⟨(h.yields c hc a c' hp).1, (h.yields c hc a c' hp).2.withBody⟩⟩

/-! ## Single tokens -/

theorem rest_of_tokenWhere {f : Token → Bool} {c c' : Cursor} {t : Token}
    (h : tokenWhere f c = .done t c') :
    c.rest = t :: c'.rest ∧ f t = true ∧ c'.stop = t.span.stop := by
  unfold tokenWhere at h
  split at h
  · rename_i u us hrest
    split_ifs at h with hu
    · cases h
      exact ⟨hrest, hu, rfl⟩
    · cases h
  · cases h

/-- Reading a token that is not stray leaves a stray one to be read. -/
theorem advances_tokenWhere {f : Token → Bool} (hf : ∀ t, f t = true → t.lexeme ≠ .stray) :
    (tokenWhere f).Advances source := by
  constructor
  intro c hc t c' h
  obtain ⟨hrest, ht, hstop⟩ := rest_of_tokenWhere h
  have htokens := hc.tokens
  rw [hrest] at htokens
  refine ⟨⟨fun u hu => htokens u (List.mem_cons_of_mem _ hu), ?_, fun hstray => ?_⟩, trivial⟩
  · rw [hstop]
    exact (htokens t List.mem_cons_self).isIn.2
  · obtain ⟨u, hu, hlexeme⟩ := hc.stray hstray
    rw [hrest] at hu
    rcases List.mem_cons.1 hu with rfl | hu
    · exact absurd hlexeme (hf u ht)
    · exact ⟨u, hu, hlexeme⟩

instance : nothing.Fits source := by
  constructor
  intro c hc a c' h
  cases h
  exact ⟨hc, Nodes.fit_nil source⟩

instance (p : Rule α) [hp : p.Advances source] : (skip p).Fits source := by
  constructor
  intro c hc a c' h
  unfold skip at h
  split at h
  · rename_i b c'' hb
    cases h
    exact ⟨(hp.yields.apply hc hb).1, Nodes.fit_nil source⟩
  · cases h

instance (f : Token → Bool) :
    (tokenWhere fun t => f t && (t.lexeme == .symbol || t.lexeme == .word)).Advances source :=
  advances_tokenWhere fun t ht hs => by simp [hs] at ht

instance (f : Token → Bool) :
    (tokenWhere fun t => t.lexeme == .word && f t).Advances source :=
  advances_tokenWhere fun t ht hs => by simp [hs] at ht

instance (l : Lexeme) [hl : Holds l.isProper] :
    (tokenWhere fun t => t.lexeme == l).Advances source :=
  advances_tokenWhere fun t ht hs => by
    rw [beq_iff_eq.1 ht] at hs
    subst hs
    cases hl.eq_true

instance (s : String) : (tok s).Fits source := by unfold tok; infer_instance

instance (ss : List String) : (tokIn ss).Fits source := by unfold tokIn; infer_instance

instance (l : Lexeme) [Holds l.isProper] : (lexeme l).Fits source := by
  unfold lexeme; infer_instance

theorem yields_glued (ss : List String) : (glued ss).Yields source (Nodes.Fit source) := by
  fun_induction glued ss with
  | case1 => exact Fits.yields
  | case2 s => exact Fits.yields
  | case3 s t more ih =>
    intro c hc a c' h
    simp only at h
    split at h
    · cases h
    · rename_i b c₁ hb
      have h₁ := (Fits.yields (p := tok s)).apply hc hb
      split at h
      · split_ifs at h
        · exact ih c₁ h₁.1 a c' h
        · cases h
      · cases h

instance (ss : List String) : (glued ss).Fits source := ⟨yields_glued ss⟩

/-! ## Combined rules -/

instance (p q : Rule Nodes) [hp : p.Fits source] [hq : q.Fits source] :
    (andThen p q).Fits source := by
  constructor
  intro c hc a c' h
  unfold andThen at h
  split at h
  · cases h
  · rename_i xs c₁ hx
    split at h
    · cases h
    · rename_i ys c₂ hy
      cases h
      have h₁ := hp.yields.apply hc hx
      have h₂ := hq.yields.apply h₁.1 hy
      exact ⟨h₂.1, h₁.2.append h₂.2⟩

instance (p q : Rule Nodes) [hp : p.Fits source] [hq : q.Fits source] :
    (orElse p q).Fits source := by
  constructor
  intro c hc a c' h
  unfold orElse at h
  split at h
  · rename_i xs c₁ hx
    cases h
    exact hp.yields.apply hc hx
  · exact hq.yields.apply (hc.reached _) h

/-- All rules of a list fit the source. -/
class FitAll (source : List Char) (ps : List (Rule Nodes)) : Prop where
  fits : ∀ p ∈ ps, Fits source p

instance : FitAll source [] := ⟨fun p hp => by simp at hp⟩

instance (p : Rule Nodes) (ps : List (Rule Nodes)) [hp : p.Fits source]
    [hps : FitAll source ps] : FitAll source (p :: ps) := by
  constructor
  intro q hq
  rcases List.mem_cons.1 hq with rfl | hq
  · exact hp
  · exact hps.fits q hq

theorem fits_all {ps : List (Rule Nodes)} (h : ∀ p ∈ ps, Fits source p) :
    (all ps).Fits source := by
  fun_induction all ps with
  | case1 => infer_instance
  | case2 p => exact h p List.mem_cons_self
  | case3 p q more ih =>
    have hp := h p List.mem_cons_self
    have hmore := ih fun r hr => h r (List.mem_cons_of_mem _ hr)
    infer_instance

theorem fits_any {ps : List (Rule Nodes)} (h : ∀ p ∈ ps, Fits source p) :
    (any ps).Fits source := by
  fun_induction any ps with
  | case1 => exact ⟨yields_reject _⟩
  | case2 p => exact h p List.mem_cons_self
  | case3 p q more ih =>
    have hp := h p List.mem_cons_self
    have hmore := ih fun r hr => h r (List.mem_cons_of_mem _ hr)
    infer_instance

instance (ps : List (Rule Nodes)) [h : FitAll source ps] : (all ps).Fits source :=
  fits_all h.fits

instance (ps : List (Rule Nodes)) [h : FitAll source ps] : (any ps).Fits source :=
  fits_any h.fits

instance (p : Rule Nodes) [p.Fits source] : (opt p).Fits source := by
  unfold opt; infer_instance

instance (p : Rule Nodes) : (notAhead p).Fits source := by
  constructor
  intro c hc a c' h
  unfold notAhead at h
  split at h
  · cases h
  · cases h
    exact ⟨hc.reached _, Nodes.fit_nil source⟩

instance (p : Rule Nodes) : (ahead p).Fits source := by
  constructor
  intro c hc a c' h
  unfold ahead at h
  split at h
  · cases h
    exact ⟨hc, Nodes.fit_nil source⟩
  · cases h

theorem yields_manyUpTo (p : Rule Nodes) [hp : p.Fits source] (fuel : Nat) :
    (manyUpTo p fuel).Yields source (Nodes.Fit source) := by
  induction fuel with
  | zero => exact Fits.yields (p := nothing)
  | succ fuel ih =>
    intro c hc a c' h
    unfold manyUpTo at h
    split at h
    · cases h
      exact ⟨hc.reached _, Nodes.fit_nil source⟩
    · rename_i xs c₁ hx
      have h₁ := hp.yields.apply hc hx
      split_ifs at h
      · split at h
        · rename_i ys c₂ hy
          cases h
          have h₂ := ih.apply h₁.1 hy
          exact ⟨h₂.1, h₁.2.append h₂.2⟩
        · cases h
      · cases h
        exact h₁

instance (p : Rule Nodes) [p.Fits source] : (many p).Fits source :=
  ⟨fun c hc => yields_manyUpTo p c.left c hc⟩

instance (p : Rule Nodes) [p.Fits source] : (many1 p).Fits source := by
  unfold many1; infer_instance

instance (p sep : Rule Nodes) [p.Fits source] [sep.Fits source] :
    (sepBy1 p sep).Fits source := by
  unfold sepBy1; infer_instance

instance (p : Rule Nodes) [p.Fits source] : (commaSep p).Fits source := by
  unfold commaSep; infer_instance

instance (p : Rule Nodes) [p.Fits source] : (commaSep1 p).Fits source := by
  unfold commaSep1; infer_instance

/-! ## Rules that end in a class body -/

theorem exists_of_all {p q : Rule Nodes} {ps : List (Rule Nodes)} {c c' : Cursor} {xs : Nodes}
    (h : all (p :: q :: ps) c = .done xs c') :
    ∃ ys zs c₁, p c = .done ys c₁ ∧ all (q :: ps) c₁ = .done zs c' ∧ xs = ys ++ zs := by
  rw [all, andThen] at h
  split at h
  · cases h
  · rename_i ys c₁ hy
    split at h
    · cases h
    · rename_i zs c₂ hz
      cases h
      exact ⟨ys, zs, c₁, hy, hz, rfl⟩

/-- A rule that may yield a class body can stand at the end of a sequence. -/
instance (priority := low) (p q : Rule Nodes) (ps : List (Rule Nodes)) [hp : p.Fits source]
    [hq : (all (q :: ps)).FitsWithBody source] : (all (p :: q :: ps)).FitsWithBody source := by
  constructor
  intro c hc a c' h
  obtain ⟨xs, ys, c₁, hx, hy, rfl⟩ := exists_of_all h
  have h₁ := hp.yields.apply hc hx
  have h₂ := hq.yields.apply h₁.1 hy
  exact ⟨h₂.1, h₁.2.appendBody h₂.2⟩

instance (priority := low) (p : Rule Nodes) [hp : p.FitsWithBody source] :
    (all [p]).FitsWithBody source := hp

instance (priority := low) (p : Rule Nodes) [hp : p.FitsWithBody source] :
    (opt p).FitsWithBody source := by
  constructor
  intro c hc a c' h
  unfold opt orElse at h
  split at h
  · rename_i xs c₁ hx
    cases h
    exact hp.yields.apply hc hx
  · cases h
    exact ⟨hc.reached _, (Nodes.fit_nil source).withBody⟩

/-! ## Rules that make nodes -/

theorem eq_of_node {k : Kind} {p : Rule Nodes} {c c' : Cursor} {a : Nodes}
    (h : node k p c = .done a c') :
    ∃ xs, p c = .done xs c' ∧
      a = [.mk k .none ⟨(c.rest.head?.map (·.span.start)).getD c.stop, c'.stop⟩ xs] := by
  unfold node at h
  split at h
  · cases h
  · rename_i xs c₁ hx
    cases h
    exact ⟨xs, hx, rfl⟩

/-- A node fits if the rule for its children does, and if these are what the kind asks for. -/
theorem yields_node {k : Kind} {p : Rule Nodes} [hp : p.FitsWithBody source]
    (hk : ∀ c, c.ReadsFrom source → ∀ xs c', p c = .done xs c' → k.AsksFor source c'.stop xs)
    (hb : k ≠ .classBody) : (node k p).Yields source (Nodes.Fit source) := by
  intro c hc a c' h
  obtain ⟨xs, hx, rfl⟩ := eq_of_node h
  have h₁ := hp.yields.apply hc hx
  exact ⟨h₁.1, Nodes.fit_node ⟨hc.start, h₁.1.stop⟩ h₁.2 (hk c hc xs c' hx) hb⟩

instance (k : Kind) (p : Rule Nodes) [hk : Holds k.isPlain] [p.FitsWithBody source] :
    (node k p).Fits source :=
  ⟨yields_node (fun _ _ xs _ _ => Kind.asksFor_of_isPlain (.inl hk.eq_true) source _ xs)
    fun h => by subst h; cases hk.eq_true⟩

instance (p : Rule Nodes) [hp : p.Fits source] : (node .classBody p).FitsWithBody source := by
  constructor
  intro c hc a c' h
  obtain ⟨xs, hx, rfl⟩ := eq_of_node h
  have h₁ := hp.yields.apply hc hx
  refine ⟨h₁.1, fun x hmem => ?_, Nat.le_refl 1⟩
  rw [List.mem_singleton] at hmem
  subst hmem
  exact Nodes.all_node ⟨hc.start, h₁.1.stop⟩ h₁.2.withBody
    (Kind.asksFor_of_isPlain (.inr rfl) source _ xs)

instance : identifier.Fits source := by unfold identifier; infer_instance

instance : anyWord.Fits source := by unfold anyWord; infer_instance

instance (words : List String) : (wordExcept words).Fits source := by
  unfold wordExcept; infer_instance

/-! ## Rules for names and bodies -/

/-- A rule all of whose nodes are identifiers. -/
class Worded (source : List Char) (p : Rule Nodes) : Prop where
  yields : p.Yields source fun xs => ∀ x ∈ xs, isIdentifier (x.text source) = true

/-- A node over one word stands where the word does. -/
theorem worded_node {k : Kind} {f : Token → Bool} [(tokenWhere f).Advances source]
    (hf : ∀ t, f t = true → t.lexeme = .word) :
    (node k (skip (tokenWhere f))).Worded source := by
  constructor
  intro c hc a c' h
  obtain ⟨xs, hx, rfl⟩ := eq_of_node h
  refine ⟨((Fits.yields (p := skip (tokenWhere f))).apply hc hx).1, fun x hmem => ?_⟩
  rw [List.mem_singleton] at hmem
  subst hmem
  unfold skip at hx
  split at hx
  · rename_i t c₁ ht
    cases hx
    obtain ⟨hrest, hword, hstop⟩ := rest_of_tokenWhere ht
    have hstands := hc.tokens t (by simp [hrest])
    rw [Node.text, Node.span, hrest, hstop]
    simp only [List.head?_cons, Option.map_some, Option.getD_some]
    rw [hstands.slice_eq]
    exact hstands.word (hf t hword)
  · cases hx

instance : identifier.Worded source := worded_node fun t ht => by simp at ht; exact ht.1

instance : anyWord.Worded source := worded_node fun t ht => by simpa using ht

instance (words : List String) : (wordExcept words).Worded source :=
  worded_node fun t ht => by simp at ht; exact ht.1

/-- A rule all of whose nodes start with a brace. -/
class Braced (source : List Char) (p : Rule Nodes) : Prop where
  yields : p.Yields source fun xs => ∀ x ∈ xs, BraceAt source x.span.start

theorem rest_of_tok {s : String} {c c' : Cursor} {a : Nodes} (h : tok s c = .done a c') :
    ∃ t, c.rest = t :: c'.rest ∧ t.text = s ∧ c'.stop = t.span.stop := by
  unfold tok skip at h
  split at h
  · rename_i t c₁ ht
    cases h
    obtain ⟨hrest, htext, hstop⟩ := rest_of_tokenWhere ht
    simp only [Bool.and_eq_true, beq_iff_eq] at htext
    exact ⟨t, hrest, htext.1, hstop⟩
  · cases h

/-- A node that opens with a brace starts with it. -/
instance (k : Kind) (p : Rule Nodes) (ps : List (Rule Nodes))
    [hfits : (node k (all (tok "\x7b" :: p :: ps))).FitsWithBody source] :
    (node k (all (tok "\x7b" :: p :: ps))).Braced source := by
  constructor
  intro c hc a c' h
  refine ⟨(hfits.yields.apply hc h).1, ?_⟩
  obtain ⟨xs, hx, rfl⟩ := eq_of_node h
  obtain ⟨ys, zs, c₁, hy, -, -⟩ := exists_of_all hx
  obtain ⟨t, hrest, ht, -⟩ := rest_of_tok hy
  intro x hmem
  rw [List.mem_singleton] at hmem
  subst hmem
  have hstands := hc.tokens t (by simp [hrest])
  simpa [Node.span, hrest] using hstands.braceAt ht

theorem isClassBody_withRole (r : Role) (n : Node) :
    (n.withRole r).isClassBody = n.isClassBody := by
  cases n; rfl

theorem all_withRole {n : Node} {r : Role} (h : n.All (Node.FitsIn source))
    (hb : r = .body → BraceAt source n.span.start)
    (hw : r = .name → isIdentifier (n.text source) = true) :
    (n.withRole r).All (Node.FitsIn source) := by
  cases h with
  | mk hn hcs => exact .mk ⟨hn.isIn, hb, hw, hn.body, hn.name, hn.semicolon, hn.oneBody⟩ hcs

theorem eq_of_asRole {r : Role} {p : Rule Nodes} {c c' : Cursor} {a : Nodes}
    (h : asRole r p c = .done a c') :
    ∃ xs, p c = .done xs c' ∧ a = xs.map (Node.withRole r) := by
  unfold asRole at h
  split at h
  · cases h
  · rename_i xs c₁ hx
    cases h
    exact ⟨xs, hx, rfl⟩

theorem countP_withRole (r : Role) (xs : Nodes) :
    (xs.map (Node.withRole r)).countP Node.isClassBody = xs.countP Node.isClassBody := by
  rw [List.countP_map]
  exact List.countP_congr fun n _ => by simp [isClassBody_withRole]

/-- Nodes fit in a role if they do so without one and are what the role asks for. -/
theorem yields_asRole {r : Role} {p : Rule Nodes} [hp : p.FitsWithBody source]
    (hb : r = .body → p.Braced source) (hw : r = .name → p.Worded source) :
    (asRole r p).Yields source (Nodes.FitWithBody source) := by
  intro c hc a c' h
  obtain ⟨xs, hx, rfl⟩ := eq_of_asRole h
  have h₁ := hp.yields.apply hc hx
  refine ⟨h₁.1, fun y hy => ?_, by rw [countP_withRole]; exact h₁.2.oneBody⟩
  obtain ⟨x, hmem, rfl⟩ := List.mem_map.1 hy
  exact all_withRole (h₁.2.all x hmem) (fun hr => ((hb hr).yields.apply hc hx).2 x hmem)
    fun hr => ((hw hr).yields.apply hc hx).2 x hmem

theorem fits_asRole {r : Role} {p : Rule Nodes} [hp : p.Fits source]
    (hb : r = .body → p.Braced source) (hw : r = .name → p.Worded source) :
    (asRole r p).Fits source := by
  constructor
  intro c hc a c' h
  have hall := yields_asRole hb hw c hc a c' h
  obtain ⟨xs, hx, rfl⟩ := eq_of_asRole h
  exact ⟨hall.1, hall.2.all, by rw [countP_withRole]; exact (hp.yields.apply hc hx).2.noBody⟩

instance (p : Rule Nodes) [p.Fits source] [hw : p.Worded source] :
    (asRole .name p).Fits source :=
  fits_asRole (by simp) fun _ => hw

instance (p : Rule Nodes) [p.Fits source] : (asRole .type p).Fits source :=
  fits_asRole (by simp) (by simp)

instance (p : Rule Nodes) [p.Fits source] : (asRole .parameters p).Fits source :=
  fits_asRole (by simp) (by simp)

instance (p : Rule Nodes) [p.Fits source] [hb : p.Braced source] :
    (asRole .body p).Fits source :=
  fits_asRole (fun _ => hb) (by simp)

instance (priority := low) (p : Rule Nodes) [p.FitsWithBody source] [hb : p.Braced source] :
    (asRole .body p).FitsWithBody source :=
  ⟨yields_asRole (fun _ => hb) (by simp)⟩

/-- A rule that yields a node in a role among its nodes. -/
class HasRole (r : Role) (p : Rule Nodes) : Prop where
  exists_role : ∀ c xs c', p c = .done xs c' → ∃ b ∈ xs, b.role = r

instance (r : Role) (k : Kind) (p : Rule Nodes) : (asRole r (node k p)).HasRole r := by
  constructor
  intro c xs c' h
  obtain ⟨ys, hy, rfl⟩ := eq_of_asRole h
  obtain ⟨zs, -, rfl⟩ := eq_of_node hy
  exact ⟨_, List.mem_singleton.2 rfl, rfl⟩

instance (r : Role) : (asRole r identifier).HasRole r := by unfold identifier; infer_instance

instance (r : Role) : (asRole r anyWord).HasRole r := by unfold anyWord; infer_instance

instance (r : Role) (p : Rule Nodes) [hp : p.HasRole r] : (all [p]).HasRole r := hp

instance (r : Role) (p q : Rule Nodes) (ps : List (Rule Nodes)) [hq : (all (q :: ps)).HasRole r] :
    (all (p :: q :: ps)).HasRole r := by
  constructor
  intro c xs c' h
  obtain ⟨ys, zs, c₁, -, hz, rfl⟩ := exists_of_all h
  obtain ⟨b, hb, hr⟩ := hq.exists_role _ _ _ hz
  exact ⟨b, List.mem_append_right _ hb, hr⟩

instance (r : Role) (p q : Rule Nodes) (ps : List (Rule Nodes)) [hp : p.HasRole r] :
    (all (p :: q :: ps)).HasRole r := by
  constructor
  intro c xs c' h
  obtain ⟨ys, zs, c₁, hy, -, rfl⟩ := exists_of_all h
  obtain ⟨b, hb, hr⟩ := hp.exists_role _ _ _ hy
  exact ⟨b, List.mem_append_left _ hb, hr⟩

instance (p : Rule Nodes) [p.Fits source] [hb : p.HasRole .body] :
    (node .constructorDeclaration p).Fits source :=
  ⟨yields_node (fun c _ xs c' h =>
    ⟨fun _ => hb.exists_role c xs c' h, (by simp [Kind.isTypeDeclaration]), (by simp)⟩) (by simp)⟩

instance (k : Kind) (p : Rule Nodes) [hk : Holds k.isNamed] [p.FitsWithBody source]
    [hn : p.HasRole .name] : (node k p).Fits source :=
  ⟨yields_node (fun c _ xs c' h =>
    Kind.asksFor_of_isNamed hk.eq_true source _ (hn.exists_role c xs c' h))
    fun h => by subst h; cases hk.eq_true⟩

/-- A rule that ends with a semicolon. -/
class Terminated (source : List Char) (p : Rule Nodes) : Prop where
  stop : ∀ c, c.ReadsFrom source → ∀ xs c', p c = .done xs c' → SemicolonBefore source c'.stop

instance : (tok ";").Terminated source := by
  constructor
  intro c hc xs c' h
  obtain ⟨t, hrest, htext, hstop⟩ := rest_of_tok h
  rw [hstop]
  exact (hc.tokens t (by simp [hrest])).semicolonBefore htext

instance (p : Rule Nodes) [hp : p.Terminated source] : (all [p]).Terminated source := hp

instance (p q : Rule Nodes) (ps : List (Rule Nodes)) [hp : p.Fits source]
    [hq : (all (q :: ps)).Terminated source] : (all (p :: q :: ps)).Terminated source := by
  constructor
  intro c hc xs c' h
  obtain ⟨ys, zs, c₁, hy, hz, -⟩ := exists_of_all h
  exact hq.stop c₁ (hp.yields.apply hc hy).1 zs c' hz

instance (p : Rule Nodes) [hp : p.Terminated source] : (any [p]).Terminated source := hp

instance (p q : Rule Nodes) (ps : List (Rule Nodes)) [hp : p.Terminated source]
    [hq : (any (q :: ps)).Terminated source] : (any (p :: q :: ps)).Terminated source := by
  constructor
  intro c hc xs c' h
  rw [any, orElse] at h
  split at h
  · rename_i ys c₁ hy
    cases h
    exact hp.stop c hc xs c' hy
  · exact hq.stop _ (hc.reached _) xs c' h

instance (k : Kind) (p : Rule Nodes) [hk : Holds k.isTerminated] [p.Fits source]
    [hp : p.Terminated source] : (node k p).Fits source :=
  ⟨yields_node (fun c hc xs c' h =>
    Kind.asksFor_of_isTerminated hk.eq_true (hp.stop c hc xs c' h) xs)
    fun h => by subst h; cases hk.eq_true⟩

end Rule

end Tracepoint.Java
