import Mathlib.Data.List.Infix
import Tracepoint.Proofs.Java.Ranges
import Tracepoint.Proofs.Text.Enclosed

/-!
# Parsing without regard to layout

A rule of the grammar looks at the classes and the texts of tokens, and only where an operator is
put together from several tokens at whether something stands between them. So on two sequences of
tokens that read alike a rule fails on both, or reads equally many tokens of both and yields trees
of the same shape. A node ranges over the tokens that its rule has read.

Results:

* `readings`: what of a sequence of tokens counts.
* `Node.Alike`: trees of one shape, with nodes over tokens that read alike.
* `Rule.Alike`: a rule treats sequences alike that read alike, kept by every way to combine rules.
-/

namespace Tracepoint.Java

open Text

/-! ## Sequences of tokens -/

/-- Nothing stands between two tokens. -/
def Token.meets (a b : Token) : Bool := b.span.start == a.span.stop

/-- Whether the first of some tokens is read as one with what follows: a `>` that is part of a
    longer operator, or the start of `non-sealed`. -/
def fuses : List Token → Bool
  | a :: b :: more =>
    if a.text = ">" then (b.text == ">" || b.text == "=") && a.meets b
    else if a.text = "non" then
      b.text == "-" && a.meets b && more.head?.any fun c => c.text == "sealed" && b.meets c
    else false
  | _ => false

/-- What of a sequence of tokens counts for the grammar. -/
def readings : List Token → List ((Lexeme × String) × Bool)
  | [] => []
  | t :: ts => (t.reading, fuses (t :: ts)) :: readings ts

theorem length_readings (ts : List Token) : (readings ts).length = ts.length := by
  induction ts with
  | nil => rfl
  | cons t ts ih => rw [readings, List.length_cons, ih, List.length_cons]

/-- Sequences that read alike are both empty or start with tokens that read alike. -/
theorem readings_cases {ts ts' : List Token} (h : readings ts = readings ts') :
    (ts = [] ∧ ts' = []) ∨ ∃ t more t' more', ts = t :: more ∧ ts' = t' :: more' ∧
      t.reading = t'.reading ∧ readings more = readings more' := by
  cases ts with
  | nil =>
    cases ts' with
    | nil => exact .inl ⟨rfl, rfl⟩
    | cons t' more' => cases h
  | cons t more =>
    cases ts' with
    | nil => cases h
    | cons t' more' =>
      rw [readings, readings, List.cons.injEq, Prod.mk.injEq] at h
      exact .inr ⟨t, more, t', more', rfl, rfl, h.1.1, h.2⟩

/-- A range goes over tokens that follow each other in a sequence. -/
structure Span.Over (T ts : List Token) (s : Span) : Prop where
  within : ts <:+: T
  start : ∀ t ∈ ts.head?, s.start = t.span.start
  stop : ∀ t ∈ ts.getLast?, s.stop = t.span.stop

/-! ## Trees -/

/-- All words are identifiers. -/
def ProperWords (ts : List Token) : Prop :=
  ∀ t ∈ ts, t.lexeme = .word → isIdentifier t.text.toList = true

/-- A token of the path of an import declaration or in front of it. -/
def Token.IsPathPart (t : Token) : Prop :=
  t.lexeme = .word ∨ t.text = "." ∨ t.text = "*" ∨ t.text = "static"

/-- The tokens between the word of an import declaration and its semicolon. They start with a word
    that is not `static`, or with that word and another one. -/
structure IsPath (path : List Token) : Prop where
  parts : ∀ t ∈ path, t.IsPathPart
  first : ∃ t more, path = t :: more ∧
    (t.lexeme = .word ∧ t.text ≠ "static" ∨ t.text = "static" ∧ ∃ u ∈ more.head?, u.lexeme = .word)

/-- The tokens of an import declaration. -/
def IsImport (ts : List Token) : Prop :=
  ∃ first path last, ts = first :: path ++ [last] ∧ first.text = "import" ∧ last.text = ";" ∧
    IsPath path

/-- Tokens whose commas stand in brackets that they close, where so many are open around them. With
    annotations among them nothing is known. -/
def Nested (depth : Nat) (ts : List Token) : Prop :=
  ProperWords ts → (∃ t ∈ ts, t.text = "@") ∨
    Enclosed depth ',' opensList closesList (ts.flatMap (·.text.toList))

/-- The first token has a property. -/
def StartsWith (f : Token → Prop) (ts : List Token) : Prop := ∃ t ∈ ts.head?, f t

theorem StartsWith.ne_nil {f : Token → Prop} {ts : List Token} (h : StartsWith f ts) : ts ≠ [] := by
  obtain ⟨t, ht, -⟩ := h
  exact List.ne_nil_of_mem (List.mem_of_mem_head? ht)

/-- A word or the name of a primitive type. -/
def Token.NamesType (t : Token) : Prop := t.lexeme = .word ∨ t.text ∈ Grammar.primitiveTypes

/-- The tokens of a type. -/
structure IsType (ts : List Token) : Prop where
  first : StartsWith Token.NamesType ts
  nested : Nested 0 ts

/-- The kinds and roles of nodes, comments left out. -/
def Nodes.outline (xs : Nodes) : List (Kind × Role) :=
  (xs.filter (·.kind ≠ .comment)).map fun c => (c.kind, c.role)

@[simp] theorem Nodes.outline_nil : Nodes.outline [] = [] := rfl

@[simp] theorem Nodes.outline_cons (n : Node) (xs : Nodes) :
    Nodes.outline (n :: xs) =
      if n.kind = .comment then Nodes.outline xs else (n.kind, n.role) :: Nodes.outline xs := by
  unfold Nodes.outline
  rw [List.filter_cons]
  split_ifs <;> simp_all

/-- What the tokens of a node of a kind are like, and what its children are. -/
def Kind.Wants (k : Kind) (ts : List Token) (children : List (Kind × Role)) : Prop :=
  match k with
  | .importDeclaration => IsImport ts
  | .type => IsType ts
  | .name | .qualifiedName => ts ≠ []
  | .parameter => ∃ c ∈ children.find? (·.2 = .type), c.1 = .type
  | .spreadParameter =>
    ∃ c ∈ children.find? (fun c => c.1 ≠ .modifiers && c.1 ≠ .declarator), c.1 = .type
  | .comment => False
  | _ => True

/-- A kind that wants nothing of the tokens and children of its nodes. -/
@[reducible] def Kind.isFree : Kind → Bool
  | .importDeclaration | .type | .name | .qualifiedName | .parameter | .spreadParameter
  | .comment => false
  | _ => true

/-- A kind of names and types, which are not empty. -/
@[reducible] def Kind.isSolid : Kind → Bool
  | .type | .name | .qualifiedName => true
  | _ => false

/-- A role that only names and types play. -/
@[reducible] def Role.isSolid : Role → Bool
  | .type | .name => true
  | _ => false

/-- A role that anything can play. -/
@[reducible] def Role.isFree : Role → Bool
  | .type | .name => false
  | _ => true

theorem Kind.wants_of_isFree {k : Kind} (h : k.isFree = true) (ts : List Token)
    (children : List (Kind × Role)) : k.Wants ts children := by
  cases k <;> trivial

theorem Kind.Wants.ne_nil {k : Kind} {ts : List Token} {children : List (Kind × Role)}
    (h : k.Wants ts children) (hk : k.isSolid = true) : ts ≠ [] := by
  cases k <;> first | exact (IsType.first h).ne_nil | exact h | cases hk

mutual

/-- Trees of one shape, with nodes over tokens that read alike, where some nodes do not count. -/
inductive Node.Alike (C : Node → Prop) (T T' : List Token) : Node → Node → Prop
  | mk {k : Kind} {r : Role} {s s' : Span} {cs cs' : List Node} {ts ts' : List Token} :
      s.Over T ts → s'.Over T' ts' → ts.map Token.reading = ts'.map Token.reading →
      (r.isSolid = true → ts ≠ []) →
      k.Wants ts (Nodes.outline cs) → k.Wants ts' (Nodes.outline cs') →
      Node.AlikeAll C T T' cs cs' → Node.Alike C T T' (.mk k r s cs) (.mk k r s' cs')

/-- Lists of trees of one shape. -/
inductive Node.AlikeAll (C : Node → Prop) (T T' : List Token) : List Node → List Node → Prop
  | nil : Node.AlikeAll C T T' [] []
  | cons {c c' : Node} {cs cs' : List Node} :
      Node.Alike C T T' c c' → Node.AlikeAll C T T' cs cs' →
        Node.AlikeAll C T T' (c :: cs) (c' :: cs')
  | left {c : Node} {cs cs' : List Node} :
      C c → Node.AlikeAll C T T' cs cs' → Node.AlikeAll C T T' (c :: cs) cs'
  | right {c' : Node} {cs cs' : List Node} :
      C c' → Node.AlikeAll C T T' cs cs' → Node.AlikeAll C T T' cs (c' :: cs')

end

/-- Lists of trees of one shape, where all nodes count. -/
abbrev Nodes.Alike (T T' : List Token) : Nodes → Nodes → Prop :=
  Node.AlikeAll (fun _ => False) T T'

section

variable {C D : Node → Prop} {T T' : List Token}

/-- Induction along two lists of one shape. -/
@[elab_as_elim]
theorem Node.AlikeAll.induction {motive : ∀ ns ns', Node.AlikeAll C T T' ns ns' → Prop}
    (nil : motive [] [] .nil)
    (cons : ∀ {n n' ns ns'} (hn : Node.Alike C T T' n n') (hns : Node.AlikeAll C T T' ns ns'),
      motive ns ns' hns → motive (n :: ns) (n' :: ns') (.cons hn hns))
    (left : ∀ {n ns ns'} (hn : C n) (hns : Node.AlikeAll C T T' ns ns'),
      motive ns ns' hns → motive (n :: ns) ns' (.left hn hns))
    (right : ∀ {n' ns ns'} (hn : C n') (hns : Node.AlikeAll C T T' ns ns'),
      motive ns ns' hns → motive ns (n' :: ns') (.right hn hns)) :
    ∀ {ns ns' : List Node} (h : Node.AlikeAll C T T' ns ns'), motive ns ns' h
  | _, _, .nil => nil
  | _, _, .cons hn hns => cons hn hns (hns.induction nil cons left right)
  | _, _, .left hn hns => left hn hns (hns.induction nil cons left right)
  | _, _, .right hn hns => right hn hns (hns.induction nil cons left right)

theorem Node.AlikeAll.append {xs xs' ys ys' : List Node} (hx : Node.AlikeAll C T T' xs xs')
    (hy : Node.AlikeAll C T T' ys ys') : Node.AlikeAll C T T' (xs ++ ys) (xs' ++ ys') := by
  induction hx using Node.AlikeAll.induction with
  | nil => exact hy
  | cons hn _ ih => exact .cons hn ih
  | left hn _ ih => exact .left hn ih
  | right hn _ ih => exact .right hn ih

mutual

/-- More nodes may not count. -/
theorem Node.Alike.mono (h : ∀ c, C c → D c) {n n' : Node} :
    n.Alike C T T' n' → n.Alike D T T' n'
  | .mk hs hs' heq hr hk hk' hcs => .mk hs hs' heq hr hk hk' (hcs.mono h)

theorem Node.AlikeAll.mono (h : ∀ c, C c → D c) {ns ns' : List Node} :
    Node.AlikeAll C T T' ns ns' → Node.AlikeAll D T T' ns ns'
  | .nil => .nil
  | .cons hn hns => .cons (hn.mono h) (hns.mono h)
  | .left hc hns => .left (h _ hc) (hns.mono h)
  | .right hc hns => .right (h _ hc) (hns.mono h)

end

/-- A tree can play a role that only names and types play if it is one. -/
theorem Node.Alike.withRole {r : Role} {n n' : Node} (hr : r.isSolid = true → n.kind.isSolid = true)
    (h : n.Alike C T T' n') : (n.withRole r).Alike C T T' (n'.withRole r) := by
  cases h with
  | mk hs hs' heq _ hk hk' hcs =>
    exact .mk hs hs' heq (fun hsolid => hk.ne_nil (hr hsolid)) hk hk' hcs

theorem Nodes.Alike.withRole {r : Role} {xs xs' : Nodes}
    (hr : r.isSolid = true → ∀ x ∈ xs, x.kind.isSolid = true) :
    Nodes.Alike T T' xs xs' →
      Nodes.Alike T T' (xs.map (Node.withRole r)) (xs'.map (Node.withRole r))
  | .nil => .nil
  | .cons hx hxs =>
    .cons (hx.withRole fun h => hr h _ List.mem_cons_self)
      (Nodes.Alike.withRole (fun h x hmem => hr h x (List.mem_cons_of_mem _ hmem)) hxs)

end

/-! ## Cursors -/

/-- Two cursors stand at the same place of sequences that read alike. -/
structure Cursor.Beside (T T' : List Token) (c c' : Cursor) : Prop where
  left : c.left = c'.left
  alike : readings c.rest = readings c'.rest
  within : c.rest <:+ T
  within' : c'.rest <:+ T'

/-- Reading some tokens leads from one cursor to another. -/
structure Cursor.Reads (c : Cursor) (ts : List Token) (d : Cursor) : Prop where
  rest : c.rest = ts ++ d.rest
  stop : d.stop = (ts.getLast?.map (·.span.stop)).getD c.stop

theorem Cursor.Reads.refl (c : Cursor) : c.Reads [] c := ⟨rfl, rfl⟩

theorem Cursor.Reads.trans {c d e : Cursor} {ts us : List Token} (h : c.Reads ts d)
    (h' : d.Reads us e) : c.Reads (ts ++ us) e := by
  refine ⟨by rw [h.rest, h'.rest, List.append_assoc], ?_⟩
  rw [h'.stop, h.stop, List.getLast?_append]
  cases us.getLast? <;> rfl

/-- Where a node starts that a rule makes from here. -/
def Cursor.start (c : Cursor) : Nat := (c.rest.head?.map (·.span.start)).getD c.stop

/-- A node ranges over the tokens that its rule has read. -/
theorem Cursor.Reads.over {T ts : List Token} {c d : Cursor} (h : c.Reads ts d)
    (hc : c.rest <:+ T) : Span.Over T ts ⟨c.start, d.stop⟩ := by
  refine ⟨?_, fun t ht => ?_, fun t ht => ?_⟩
  · obtain ⟨before, rfl⟩ := hc
    exact ⟨before, d.rest, by rw [h.rest, List.append_assoc]⟩
  · cases ts with
    | nil => cases ht
    | cons u us =>
      cases ht
      simp [Cursor.start, h.rest]
  · simp [h.stop, Option.mem_def.1 ht]

/-- Two cursors go on side by side. -/
structure Cursor.Step (T T' : List Token) (c c' d d' : Cursor) : Prop where
  beside : d.Beside T T' d'
  reads : ∃ ts ts', c.Reads ts d ∧ c'.Reads ts' d' ∧
    ts.map Token.reading = ts'.map Token.reading

namespace Cursor

variable {T T' : List Token} {c c' d d' e e' : Cursor}

theorem Beside.reached (h : c.Beside T T' c') (reach reach' : Nat) :
    Beside T T' { c with reach := reach } { c' with reach := reach' } :=
  ⟨h.left, h.alike, h.within, h.within'⟩

theorem Step.refl (h : c.Beside T T' c') : Step T T' c c' c c' :=
  ⟨h, [], [], .refl c, .refl c', rfl⟩

theorem Step.trans (h : Step T T' c c' d d') (h' : Step T T' d d' e e') :
    Step T T' c c' e e' := by
  obtain ⟨ts, ts', hts, hts', heq⟩ := h.reads
  obtain ⟨us, us', hus, hus', heq'⟩ := h'.reads
  exact ⟨h'.beside, _, _, hts.trans hus, hts'.trans hus',
    by rw [List.map_append, List.map_append, heq, heq']⟩

end Cursor

/-! ## Rules -/

/-- What a rule makes of two cursors that stand side by side: it fails, or goes on side by side
    with related values. -/
inductive Outcome.Alike {α : Type} (T T' : List Token) (R : α → α → Prop) (c c' : Cursor) :
    Outcome α → Outcome α → Prop
  | done {a a' : α} {d d' : Cursor} :
      c.Step T T' c' d d' → R a a' → Outcome.Alike T T' R c c' (.done a d) (.done a' d')
  | failed {r r' : Nat} : Outcome.Alike T T' R c c' (.failed r) (.failed r')

/-- How far was looked for tokens makes no difference. -/
theorem Outcome.Alike.reached {α : Type} {T T' : List Token} {R : α → α → Prop} {c c' : Cursor}
    {o o' : Outcome α} {reach reach' : Nat}
    (h : Outcome.Alike T T' R { c with reach := reach } { c' with reach := reach' } o o') :
    Outcome.Alike T T' R c c' o o' := by
  cases h with
  | failed => exact .failed
  | done hstep ha =>
    obtain ⟨ts, ts', hts, hts', heq⟩ := hstep.reads
    exact .done ⟨hstep.beside, ts, ts', ⟨hts.rest, hts.stop⟩, ⟨hts'.rest, hts'.stop⟩, heq⟩ ha

/-- Going on from where two cursors have got side by side. -/
theorem Outcome.Alike.after {α : Type} {T T' : List Token} {R : α → α → Prop}
    {c c' d d' : Cursor} {o o' : Outcome α} (hstep : c.Step T T' c' d d')
    (h : Outcome.Alike T T' R d d' o o') : Outcome.Alike T T' R c c' o o' := by
  cases h with
  | failed => exact .failed
  | done hstep' ha => exact .done (hstep.trans hstep') ha

namespace Rule

variable {α : Type} {T T' : List Token}

/-- A rule treats sequences alike that read alike, with related values. -/
def Paired (T T' : List Token) (R : α → α → Prop) (p : Rule α) : Prop :=
  ∀ c c', c.Beside T T' c' → Outcome.Alike T T' R c c' (p c) (p c')

theorem paired_reject (R : α → α → Prop) : Paired T T' R (reject : Rule α) :=
  fun _ _ _ => .failed

/-- A rule that treats sequences alike, whatever it yields. -/
class Steps (T T' : List Token) (p : Rule α) : Prop where
  paired : Paired T T' (fun _ _ => True) p

/-- A rule that treats sequences alike and yields trees of one shape. -/
class Alike (T T' : List Token) (p : Rule Nodes) : Prop where
  paired : Paired T T' (Nodes.Alike T T') p

/-- A rule fails on both sides, or goes on side by side with related values. -/
theorem Paired.cases {R : α → α → Prop} {p : Rule α} (h : Paired T T' R p) {c c' : Cursor}
    (hc : c.Beside T T' c') :
    (∃ r r', p c = .failed r ∧ p c' = .failed r') ∨
      ∃ a a' d d', p c = .done a d ∧ p c' = .done a' d' ∧ c.Step T T' c' d d' ∧ R a a' := by
  have hp := h c c' hc
  generalize p c = o at hp ⊢
  generalize p c' = o' at hp ⊢
  cases hp with
  | failed => exact .inl ⟨_, _, rfl, rfl⟩
  | done hstep ha => exact .inr ⟨_, _, _, _, rfl, rfl, hstep, ha⟩

instance (p : Rule Nodes) [h : p.Alike T T'] : p.Steps T T' := by
  constructor
  intro c c' hc
  obtain ⟨r, r', hr, hr'⟩ | ⟨a, a', d, d', hd, hd', hstep, -⟩ := h.paired.cases hc
  · rw [hr, hr']
    exact .failed
  · rw [hd, hd']
    exact .done hstep trivial

/-! ## Single tokens -/

/-- A rule that asks for the class and the text of a token. -/
theorem steps_tokenWhere {f : Token → Bool}
    (hf : ∀ t t' : Token, t.reading = t'.reading → f t = f t') :
    (tokenWhere f).Steps T T' := by
  constructor
  intro c c' hc
  unfold tokenWhere
  obtain ⟨hnil, hnil'⟩ | ⟨t, more, t', more', hcons, hcons', ht, hmore⟩ := readings_cases hc.alike
  · rw [hnil, hnil']
    exact .failed
  · rw [hcons, hcons']
    simp only [hf t t' ht]
    split_ifs
    · have hwithin := hc.within
      have hwithin' := hc.within'
      rw [hcons] at hwithin
      rw [hcons'] at hwithin'
      exact .done ⟨⟨by rw [hc.left], hmore, (List.suffix_cons t more).trans hwithin,
        (List.suffix_cons t' more').trans hwithin'⟩,
        [t], [t'], ⟨hcons, rfl⟩, ⟨hcons', rfl⟩, by simp [ht]⟩ trivial
    · exact .failed

instance : nothing.Alike T T' := ⟨fun _ _ hc => .done (.refl hc) .nil⟩

instance (p : Rule α) [hp : p.Steps T T'] : (skip p).Alike T T' := by
  constructor
  intro c c' hc
  unfold skip
  obtain ⟨r, r', hr, hr'⟩ | ⟨a, a', d, d', hd, hd', hstep, -⟩ := hp.paired.cases hc
  · rw [hr, hr']
    exact .failed
  · rw [hd, hd']
    exact .done hstep .nil

theorem steps_symbolWhere (f : String → Bool) :
    (tokenWhere fun t => f t.text && (t.lexeme == .symbol || t.lexeme == .word)).Steps T T' :=
  steps_tokenWhere fun t t' h => by
    injection h with hlexeme htext
    rw [hlexeme, htext]

theorem steps_wordWhere (f : String → Bool) :
    (tokenWhere fun t => t.lexeme == .word && f t.text).Steps T T' :=
  steps_tokenWhere fun t t' h => by
    injection h with hlexeme htext
    rw [hlexeme, htext]

instance (s : String) : (tok s).Alike T T' := by
  have hsteps : Steps T T' _ := steps_symbolWhere (· == s)
  unfold tok
  infer_instance

instance (ss : List String) : (tokIn ss).Alike T T' := by
  have hsteps : Steps T T' _ := steps_symbolWhere (ss.contains ·)
  unfold tokIn
  infer_instance

instance (l : Lexeme) : (lexeme l).Alike T T' := by
  have hsteps : Steps T T' (tokenWhere fun t => t.lexeme == l) :=
    steps_tokenWhere fun t t' h => by
      injection h with hlexeme htext
      rw [hlexeme]
  unfold lexeme
  infer_instance

/-! ## Tokens without gaps -/

/-- What reading the first of several glued tokens comes to. -/
structure GluedStep (T T' : List Token) (s : String) (c c' d d' : Cursor) (x n x' n' : Token)
    (more more' : List Token) : Prop where
  rest : c.rest = x :: n :: more
  rest' : c'.rest = x' :: n' :: more'
  text : x.text = s
  text' : x'.text = s
  next : d.rest = n :: more
  next' : d'.rest = n' :: more'
  step : c.Step T T' c' d d'

theorem GluedStep.fuses_eq {s : String} {c c' d d' : Cursor} {x n x' n' : Token}
    {more more' : List Token} (h : GluedStep T T' s c c' d d' x n x' n' more more')
    (hc : c.Beside T T' c') : fuses (x :: n :: more) = fuses (x' :: n' :: more') := by
  have halike := hc.alike
  rw [h.rest, h.rest'] at halike
  injection halike with hfirst _
  exact congrArg Prod.snd hfirst

/-- Reading glued tokens fails on both sides, or comes to a second token that has to meet the
    first. -/
theorem glued_cases (s t : String) (ss : List String) {c c' : Cursor} (hc : c.Beside T T' c') :
    (∃ r r', glued (s :: t :: ss) c = .failed r ∧ glued (s :: t :: ss) c' = .failed r') ∨
      ∃ d d' x n x' n' more more', GluedStep T T' s c c' d d' x n x' n' more more' ∧
        glued (s :: t :: ss) c = (if x.meets n then glued (t :: ss) d else reject d) ∧
        glued (s :: t :: ss) c' = (if x'.meets n' then glued (t :: ss) d' else reject d') := by
  simp only [glued]
  obtain ⟨r, r', hr, hr'⟩ | ⟨a, a', d, d', hd, hd', hstep, -⟩ :=
    (Alike.paired (p := tok s)).cases hc
  · rw [hr, hr']
    exact .inl ⟨r, r', rfl, rfl⟩
  rw [hd, hd']
  obtain ⟨x, hrest, htext, hstop⟩ := rest_of_tok hd
  obtain ⟨x', hrest', htext', hstop'⟩ := rest_of_tok hd'
  obtain ⟨hnil, hnil'⟩ | ⟨n, more, n', more', hcons, hcons', -, -⟩ :=
    readings_cases hstep.beside.alike
  · simp only [hnil, hnil']
    exact .inl ⟨_, _, rfl, rfl⟩
  · rw [hcons] at hrest
    rw [hcons'] at hrest'
    refine .inr ⟨d, d', x, n, x', n', more, more',
      ⟨hrest, hrest', htext, htext', hcons, hcons', hstep⟩, ?_, ?_⟩
    · simp only [hcons, hstop, Token.meets, beq_iff_eq]
    · simp only [hcons', hstop', Token.meets, beq_iff_eq]

theorem glued_of_ne {t : String} (ss : List String) {c : Cursor} {n : Token} {more : List Token}
    (hrest : c.rest = n :: more) (hn : n.text ≠ t) : ∃ r, glued (t :: ss) c = .failed r := by
  have htok : tok t c = reject c := by
    simp [tok, skip, tokenWhere, hrest, hn, reject]
  cases ss with
  | nil => exact ⟨_, htok⟩
  | cons u ss =>
    simp only [glued, htok]
    exact ⟨_, rfl⟩

/-- The texts that an operator with `>` is put together from. -/
def isAngles : List String → Bool
  | [] => false
  | [s] => s == ">" || s == "="
  | s :: ss => s == ">" && isAngles ss

theorem isAngles_cons (s t : String) (ss : List String) :
    isAngles (s :: t :: ss) = (s == ">" && isAngles (t :: ss)) := rfl

theorem alike_angles : ∀ ss : List String, isAngles ss = true → (glued ss).Alike T T'
  | [], h => by cases h
  | [s], _ => inferInstanceAs (Rule.Alike T T' (tok s))
  | s :: t :: ss, h => by
    rw [isAngles_cons, Bool.and_eq_true, beq_iff_eq] at h
    have ih := alike_angles (t :: ss) h.2
    have ht : t = ">" ∨ t = "=" := by
      cases ss with
      | nil => simpa [isAngles] using h.2
      | cons u ss =>
        rw [isAngles_cons, Bool.and_eq_true, beq_iff_eq] at h
        exact .inl h.2.1
    constructor
    intro c c' hc
    obtain ⟨r, r', hr, hr'⟩ | ⟨d, d', x, n, x', n', more, more', hglued, heq, heq'⟩ :=
      glued_cases s t ss hc
    · rw [hr, hr']
      exact .failed
    rw [heq, heq']
    have hfuses := hglued.fuses_eq hc
    obtain ⟨hnil, -⟩ | ⟨m, ms, m', ms', hcons, hcons', hreading, -⟩ :=
      readings_cases hglued.step.beside.alike
    · rw [hglued.next] at hnil
      cases hnil
    rw [hglued.next, List.cons.injEq] at hcons
    rw [hglued.next', List.cons.injEq] at hcons'
    rw [← hcons.1, ← hcons'.1] at hreading
    have htext : n.text = n'.text := congrArg Prod.snd hreading
    by_cases hn : n.text = ">" ∨ n.text = "="
    · -- the next token can be part of the operator, so both sides agree on whether it is
      have hcan : (n.text == ">" || n.text == "=") = true := by simpa using hn
      have hmeets : x.meets n = x'.meets n' := by
        simpa only [fuses, hglued.text, hglued.text', h.1, ← htext, hcan, if_true,
          Bool.true_and] using hfuses
      rw [hmeets]
      split_ifs
      · exact .after hglued.step (ih.paired _ _ hglued.step.beside)
      · exact .failed
    · have hne : n.text ≠ t := fun heq => hn (heq ▸ ht)
      obtain ⟨r, hr⟩ := glued_of_ne ss hglued.next hne
      obtain ⟨r', hr'⟩ := glued_of_ne ss hglued.next' (htext ▸ hne)
      rw [hr, hr']
      split_ifs <;> exact .failed

instance : (glued [">", ">", ">", "="]).Alike T T' := alike_angles _ rfl

instance : (glued [">", ">", "="]).Alike T T' := alike_angles _ rfl

instance : (glued [">", ">", ">"]).Alike T T' := alike_angles _ rfl

instance : (glued [">", ">"]).Alike T T' := alike_angles _ rfl

instance : (glued [">", "="]).Alike T T' := alike_angles _ rfl

instance : (glued ["non", "-", "sealed"]).Alike T T' := by
  constructor
  intro c c' hc
  obtain ⟨r, r', hr, hr'⟩ | ⟨d, d', x, n, x', n', more, more', hglued, heq, heq'⟩ :=
    glued_cases "non" "-" ["sealed"] hc
  · rw [hr, hr']
    exact .failed
  rw [heq, heq']
  have hfuses := hglued.fuses_eq hc
  obtain ⟨r, r', hr, hr'⟩ | ⟨e, e', y, m, y', m', rest, rest', hglued', heq, heq'⟩ :=
    glued_cases "-" "sealed" [] hglued.step.beside
  · rw [hr, hr']
    split_ifs <;> exact .failed
  rw [heq, heq']
  obtain ⟨r, r', hr, hr'⟩ | ⟨a, a', f, f', hf, hf', hstep, ha⟩ :=
    (Alike.paired (p := tok "sealed")).cases hglued'.step.beside
  · simp only [glued, hr, hr']
    split_ifs <;> exact .failed
  -- all three texts are there, so that both sides agree on whether they are one word
  obtain ⟨z, hz, hsealed, -⟩ := rest_of_tok hf
  obtain ⟨z', hz', hsealed', -⟩ := rest_of_tok hf'
  have hrest := hglued'.rest
  rw [hglued.next, List.cons.injEq] at hrest
  have hrest' := hglued'.rest'
  rw [hglued.next', List.cons.injEq] at hrest'
  rw [hglued'.next, List.cons.injEq] at hz
  rw [hglued'.next', List.cons.injEq] at hz'
  have hmeets : (x.meets n && y.meets m) = (x'.meets n' && y'.meets m') := by
    simpa [fuses, hglued.text, hglued.text', hrest.2, hrest'.2, hrest.1, hrest'.1, hglued'.text,
      hglued'.text', hz.1, hz'.1, hsealed, hsealed'] using hfuses
  simp only [glued, hf, hf']
  have hdone := Outcome.Alike.after (hglued.step.trans hglued'.step) (.done hstep ha)
  cases h : x.meets n <;> cases h' : y.meets m <;> cases i : x'.meets n' <;>
    cases i' : y'.meets m' <;> simp [h, h', i, i'] at hmeets ⊢ <;>
      first | exact hdone | exact .failed

/-! ## Combined rules -/

instance (p q : Rule Nodes) [hp : p.Alike T T'] [hq : q.Alike T T'] :
    (andThen p q).Alike T T' := by
  constructor
  intro c c' hc
  unfold andThen
  obtain ⟨r, r', hr, hr'⟩ | ⟨xs, xs', d, d', hd, hd', hstep, hxs⟩ := hp.paired.cases hc
  · rw [hr, hr']
    exact .failed
  · rw [hd, hd']
    obtain ⟨r, r', hr, hr'⟩ | ⟨ys, ys', e, e', he, he', hstep', hys⟩ :=
      hq.paired.cases hstep.beside
    · simp only [hr, hr']
      exact .failed
    · simp only [he, he']
      exact .done (hstep.trans hstep') (hxs.append hys)

instance (p q : Rule Nodes) [hp : p.Alike T T'] [hq : q.Alike T T'] :
    (orElse p q).Alike T T' := by
  constructor
  intro c c' hc
  unfold orElse
  obtain ⟨r, r', hr, hr'⟩ | ⟨xs, xs', d, d', hd, hd', hstep, hxs⟩ := hp.paired.cases hc
  · rw [hr, hr']
    exact (hq.paired _ _ (hc.reached _ _)).reached
  · rw [hd, hd']
    exact .done hstep hxs

/-- All rules of a list treat sequences alike. -/
class AllAlike (T T' : List Token) (ps : List (Rule Nodes)) : Prop where
  alike : ∀ p ∈ ps, Rule.Alike T T' p

instance : AllAlike T T' [] := ⟨fun p hp => by simp at hp⟩

instance (p : Rule Nodes) (ps : List (Rule Nodes)) [hp : p.Alike T T']
    [hps : AllAlike T T' ps] : AllAlike T T' (p :: ps) := by
  constructor
  intro q hq
  rcases List.mem_cons.1 hq with rfl | hq
  · exact hp
  · exact hps.alike q hq

theorem alike_all {ps : List (Rule Nodes)} (h : ∀ p ∈ ps, Rule.Alike T T' p) :
    (all ps).Alike T T' := by
  fun_induction all ps with
  | case1 => infer_instance
  | case2 p => exact h p List.mem_cons_self
  | case3 p q more ih =>
    have hp := h p List.mem_cons_self
    have hmore := ih fun r hr => h r (List.mem_cons_of_mem _ hr)
    infer_instance

theorem alike_any {ps : List (Rule Nodes)} (h : ∀ p ∈ ps, Rule.Alike T T' p) :
    (any ps).Alike T T' := by
  fun_induction any ps with
  | case1 => exact ⟨paired_reject _⟩
  | case2 p => exact h p List.mem_cons_self
  | case3 p q more ih =>
    have hp := h p List.mem_cons_self
    have hmore := ih fun r hr => h r (List.mem_cons_of_mem _ hr)
    infer_instance

instance (ps : List (Rule Nodes)) [h : AllAlike T T' ps] : (all ps).Alike T T' :=
  alike_all h.alike

instance (ps : List (Rule Nodes)) [h : AllAlike T T' ps] : (any ps).Alike T T' :=
  alike_any h.alike

instance (p : Rule Nodes) [p.Alike T T'] : (opt p).Alike T T' := by
  unfold opt; infer_instance

instance (p : Rule Nodes) [hp : p.Alike T T'] : (notAhead p).Alike T T' := by
  constructor
  intro c c' hc
  unfold notAhead
  obtain ⟨r, r', hr, hr'⟩ | ⟨xs, xs', d, d', hd, hd', -, -⟩ := hp.paired.cases hc
  · rw [hr, hr']
    exact .reached (.done (.refl (hc.reached _ _)) .nil)
  · rw [hd, hd']
    exact .failed

instance (p : Rule Nodes) [hp : p.Alike T T'] : (ahead p).Alike T T' := by
  constructor
  intro c c' hc
  unfold ahead
  obtain ⟨r, r', hr, hr'⟩ | ⟨xs, xs', d, d', hd, hd', -, -⟩ := hp.paired.cases hc
  · rw [hr, hr']
    exact .failed
  · rw [hd, hd']
    exact .done (.refl hc) .nil

theorem paired_manyUpTo (p : Rule Nodes) [hp : p.Alike T T'] (fuel : Nat) :
    (manyUpTo p fuel).Paired T T' (Nodes.Alike T T') := by
  induction fuel with
  | zero => exact Alike.paired (p := nothing)
  | succ fuel ih =>
    intro c c' hc
    unfold manyUpTo
    obtain ⟨r, r', hr, hr'⟩ | ⟨xs, xs', d, d', hd, hd', hstep, hxs⟩ := hp.paired.cases hc
    · rw [hr, hr']
      exact .reached (.done (.refl (hc.reached _ _)) .nil)
    · rw [hd, hd']
      simp only [hstep.beside.left, hc.left]
      split_ifs
      · obtain ⟨r, r', hr, hr'⟩ | ⟨ys, ys', e, e', he, he', hstep', hys⟩ :=
          ih.cases hstep.beside
        · simp only [hr, hr']
          exact .failed
        · simp only [he, he']
          exact .done (hstep.trans hstep') (hxs.append hys)
      · exact .done hstep hxs

instance (p : Rule Nodes) [p.Alike T T'] : (many p).Alike T T' := by
  constructor
  intro c c' hc
  unfold many
  rw [hc.left]
  exact paired_manyUpTo p c'.left c c' hc

instance (p : Rule Nodes) [p.Alike T T'] : (many1 p).Alike T T' := by
  unfold many1; infer_instance

instance (p sep : Rule Nodes) [p.Alike T T'] [sep.Alike T T'] : (sepBy1 p sep).Alike T T' := by
  unfold sepBy1; infer_instance

instance (p : Rule Nodes) [p.Alike T T'] : (commaSep p).Alike T T' := by
  unfold commaSep; infer_instance

instance (p : Rule Nodes) [p.Alike T T'] : (commaSep1 p).Alike T T' := by
  unfold commaSep1; infer_instance

/-! ## Rules that make nodes -/

/-- A node is of one shape if what its rule reads and yields is what its kind wants. -/
theorem alike_node {k : Kind} {p : Rule Nodes} [hp : p.Alike T T']
    (hk : ∀ c ts d xs, c.Reads ts d → p c = .done xs d → k.Wants ts (Nodes.outline xs)) :
    (node k p).Alike T T' := by
  constructor
  intro c c' hc
  unfold node
  obtain ⟨r, r', hr, hr'⟩ | ⟨xs, xs', d, d', hd, hd', hstep, hxs⟩ := hp.paired.cases hc
  · rw [hr, hr']
    exact .failed
  · rw [hd, hd']
    obtain ⟨ts, ts', hts, hts', heq⟩ := hstep.reads
    exact .done hstep (.cons (.mk (hts.over hc.within) (hts'.over hc.within') heq
      (fun hr => by cases hr) (hk c ts d xs hts hd) (hk c' ts' d' xs' hts' hd') hxs) .nil)

instance (k : Kind) (p : Rule Nodes) [hk : Holds k.isFree] [p.Alike T T'] :
    (node k p).Alike T T' :=
  alike_node fun _ _ _ _ _ _ => Kind.wants_of_isFree hk.eq_true _ _

/-- What only names and types play, a rule for these can yield. -/
theorem alike_asRole {r : Role} {p : Rule Nodes} [hp : p.Alike T T']
    (hr : r.isSolid = true → ∀ c xs d, p c = .done xs d → ∀ x ∈ xs, x.kind.isSolid = true) :
    (asRole r p).Alike T T' := by
  constructor
  intro c c' hc
  unfold asRole
  obtain ⟨e, e', he, he'⟩ | ⟨xs, xs', d, d', hd, hd', hstep, hxs⟩ := hp.paired.cases hc
  · rw [he, he']
    exact .failed
  · rw [hd, hd']
    exact .done hstep (Nodes.Alike.withRole (fun h => hr h c xs d hd) hxs)

instance (r : Role) (p : Rule Nodes) [hr : Holds r.isFree] [p.Alike T T'] :
    (asRole r p).Alike T T' := by
  have hfree := hr.eq_true
  refine alike_asRole fun hsolid => ?_
  cases r <;> first | exact absurd hfree (by decide) | exact absurd hsolid (by decide)

/-- A rule that yields names and types only. -/
class Solid (p : Rule Nodes) : Prop where
  isSolid : ∀ c xs d, p c = .done xs d → ∀ x ∈ xs, x.kind.isSolid = true

instance (k : Kind) (p : Rule Nodes) [hk : Holds k.isSolid] : (node k p).Solid := by
  constructor
  intro c xs d h x hx
  obtain ⟨ys, -, rfl⟩ := eq_of_node h
  rw [List.mem_singleton.1 hx]
  exact hk.eq_true

instance (r : Role) (p : Rule Nodes) [hp : p.Solid] [p.Alike T T'] : (asRole r p).Alike T T' :=
  alike_asRole fun _ => hp.isSolid

/-- A rule that reads one token reads some. -/
theorem ne_nil_of_skip {f : Token → Bool} {c d : Cursor} {ts : List Token} {xs : Nodes}
    (hts : c.Reads ts d) (h : skip (tokenWhere f) c = .done xs d) : ts ≠ [] := by
  rintro rfl
  unfold skip at h
  split at h
  · rename_i t e ht
    cases h
    have hrest := hts.rest
    rw [(rest_of_tokenWhere ht).1] at hrest
    simpa using congrArg List.length hrest
  · cases h

/-- A name is one token. -/
theorem alike_name {f : Token → Bool} [(tokenWhere f).Steps T T'] :
    (node .name (skip (tokenWhere f))).Alike T T' :=
  alike_node fun _ _ _ _ hts hd => ne_nil_of_skip hts hd

instance : identifier.Alike T T' := by
  have hsteps : Steps T T' _ := steps_wordWhere fun text => !reservedWords.contains text
  exact alike_name

instance : anyWord.Alike T T' := by
  have hsteps : Steps T T' (tokenWhere fun t => t.lexeme == .word) :=
    steps_tokenWhere fun t t' h => by
      injection h with hlexeme htext
      rw [hlexeme]
  exact alike_name

instance (words : List String) : (wordExcept words).Alike T T' := by
  have hsteps : Steps T T' _ := steps_wordWhere fun text => !words.contains text
  exact alike_name

instance : identifier.Solid := by unfold identifier; infer_instance

instance : anyWord.Solid := by unfold anyWord; infer_instance

instance (words : List String) : (wordExcept words).Solid := by unfold wordExcept; infer_instance

end Rule

end Tracepoint.Java
