import Tracepoint.Proofs.Java.Takes

/-!
# Trees over tokens

A rule of the grammar yields trees that lie over the tokens that it has read, one after the other.
A node goes from its first token to its last, and its children lie over parts of what is between.
A body has a brace of its own on either side of its children.

Results:

* `Node.Laid`: a tree over tokens.
* `Rule.Lays`: a rule yields trees over the tokens that it reads, kept by every way to combine
  rules.
* `Rule.Bracing`: a rule yields what can be a body.
-/

namespace Tracepoint.Java

/-! ## Trees -/

/-- A range from the first to the last of some tokens. -/
structure Span.Covers (ts : List Token) (s : Span) : Prop where
  start : ∃ t ∈ ts.head?, s.start = t.span.start
  stop : ∃ t ∈ ts.getLast?, s.stop = t.span.stop

/-- An opening brace in front of something and a closing one after it. -/
def Braces (before after : List Token) : Prop :=
  ∃ o c, before = [o] ∧ after = [c] ∧ o.text = "\x7b" ∧ c.text = "\x7d"

mutual

/-- A tree over tokens. -/
inductive Node.Laid : List Token → Node → Prop
  | mk {k : Kind} {r : Role} {s : Span} {cs : List Node} {before inner after : List Token} :
      s.Covers (before ++ inner ++ after) → (r = .body → Braces before after) →
        Node.LaidAll inner cs → Node.Laid (before ++ inner ++ after) (.mk k r s cs)

/-- Trees over parts of some tokens that follow each other. -/
inductive Node.LaidAll : List Token → List Node → Prop
  | nil (ts : List Token) : Node.LaidAll ts []
  | cons {before ts after : List Token} {n : Node} {ns : List Node} :
      Node.Laid ts n → Node.LaidAll after ns → Node.LaidAll (before ++ ts ++ after) (n :: ns)

end

theorem Span.Covers.ne_nil {ts : List Token} {s : Span} (h : s.Covers ts) : ts ≠ [] := by
  obtain ⟨t, ht, -⟩ := h.start
  exact List.ne_nil_of_mem (List.mem_of_mem_head? ht)

/-- There are no trees over no tokens. -/
theorem Node.LaidAll.eq_nil {ns : List Node} (h : Node.LaidAll [] ns) : ns = [] := by
  generalize hts : ([] : List Token) = ts at h
  cases h with
  | nil => rfl
  | cons hn _ =>
    cases hn with
    | mk hs _ _ =>
      have hne := hs.ne_nil
      simp_all

theorem Node.LaidAll.before {ts : List Token} {ns : List Node} (h : Node.LaidAll ts ns)
    (us : List Token) : Node.LaidAll (us ++ ts) ns := by
  cases h with
  | nil => exact .nil _
  | @cons before ts after n ns hn hns =>
    have hcons : Node.LaidAll (us ++ before ++ ts ++ after) (n :: ns) := .cons hn hns
    simpa only [List.append_assoc] using hcons

theorem Node.LaidAll.append {ts us : List Token} {xs ys : List Node}
    (hx : Node.LaidAll ts xs) (hy : Node.LaidAll us ys) : Node.LaidAll (ts ++ us) (xs ++ ys) := by
  induction xs generalizing ts with
  | nil => exact hy.before ts
  | cons x xs ih =>
    cases hx with
    | @cons before ts after _ _ hn hns =>
      have hcons : Node.LaidAll (before ++ ts ++ (after ++ us)) (x :: (xs ++ ys)) :=
        .cons hn (ih hns)
      rw [List.cons_append]
      simpa only [List.append_assoc] using hcons

theorem Node.Laid.single {ts : List Token} {n : Node} (h : Node.Laid ts n) :
    Node.LaidAll ts [n] := by
  have hcons : Node.LaidAll ([] ++ ts ++ []) [n] := .cons h (.nil [])
  simpa using hcons

/-- A tree can play any role that asks for no braces. -/
theorem Node.Laid.withRole {r : Role} (hr : r ≠ .body) {ts : List Token} {n : Node}
    (h : Node.Laid ts n) : Node.Laid ts (n.withRole r) := by
  cases h with
  | mk hs _ hcs => exact .mk hs (fun h => absurd h hr) hcs

theorem Node.LaidAll.withRole {r : Role} (hr : r ≠ .body) {ns : List Node} :
    ∀ {ts : List Token}, Node.LaidAll ts ns → Node.LaidAll ts (ns.map (Node.withRole r)) := by
  induction ns with
  | nil => exact fun _ => .nil _
  | cons n ns ih =>
    intro ts h
    cases h with
    | cons hn hns => exact .cons (hn.withRole hr) (ih hns)

/-- A role that asks for no braces. -/
@[reducible] def Role.isOpen : Role → Bool
  | .body => false
  | _ => true

/-- A node goes over the tokens that its rule has read. -/
theorem Cursor.Reads.covers {c d : Cursor} {ts : List Token} (h : c.Reads ts d) (hne : ts ≠ []) :
    Span.Covers ts ⟨c.start, d.stop⟩ := by
  obtain ⟨first, more, rfl⟩ := List.exists_cons_of_ne_nil hne
  obtain ⟨last, hlast⟩ := Option.isSome_iff_exists.1
    (show (first :: more).getLast?.isSome = true by simp)
  refine ⟨⟨first, rfl, ?_⟩, ⟨last, hlast, ?_⟩⟩
  · simp [Cursor.start, h.rest]
  · simp [h.stop, hlast]

/-! ## Rules -/

namespace Rule

variable {α : Type}

/-- A rule yields trees over the tokens that it reads. -/
class Lays (p : Rule Nodes) : Prop where
  lays : ∀ c xs d, p c = .done xs d → ∃ ts, c.Reads ts d ∧ Node.LaidAll ts xs

/-- A rule does not accept without reading. -/
abbrev Consumes (p : Rule α) : Prop := p.Takes (· ≠ [])

theorem Lays.reads {p : Rule Nodes} [hp : p.Lays] {c d : Cursor} {xs : Nodes}
    (h : p c = .done xs d) : ∃ ts, c.Reads ts d := by
  obtain ⟨ts, hts, -⟩ := hp.lays c xs d h
  exact ⟨ts, hts⟩

/-! ## Single tokens -/

instance : nothing.Lays := by
  constructor
  intro c xs d h
  cases h
  exact ⟨[], .refl c, .nil _⟩

instance (f : Token → Bool) : (skip (tokenWhere f)).Lays := by
  constructor
  intro c xs d h
  unfold skip at h
  split at h
  · rename_i t e ht
    cases h
    exact ⟨[t], (reads_of_tokenWhere ht).1, .nil _⟩
  · cases h

instance (p : Rule Nodes) [p.Lays] : (skip p).Lays := by
  constructor
  intro c xs d h
  unfold skip at h
  split at h
  · rename_i ys e hy
    cases h
    obtain ⟨ts, hts⟩ := Lays.reads hy
    exact ⟨ts, hts, .nil _⟩
  · cases h

instance (f : Token → Bool) : (tokenWhere f).Consumes :=
  takes_tokenWhere fun _ _ => List.cons_ne_nil _ _

instance (s : String) : (tok s).Lays := by unfold tok; infer_instance

instance (ss : List String) : (tokIn ss).Lays := by unfold tokIn; infer_instance

instance (l : Lexeme) : (lexeme l).Lays := by unfold lexeme; infer_instance

instance (s : String) : (tok s).Consumes := by unfold tok; infer_instance

instance (ss : List String) : (tokIn ss).Consumes := by unfold tokIn; infer_instance

instance (l : Lexeme) : (lexeme l).Consumes := by unfold lexeme; infer_instance

theorem nil_of_skip {p : Rule α} {c d : Cursor} {xs : Nodes} (h : skip p c = .done xs d) :
    xs = [] := by
  unfold skip at h
  split at h
  · cases h
    rfl
  · cases h

/-- Glued symbols are read one by one and yield nothing. -/
theorem reads_of_glued {s : String} {ss : List String} {c d : Cursor} {xs : Nodes}
    (h : glued (s :: ss) c = .done xs d) : xs = [] ∧ ∃ t ts, c.Reads (t :: ts) d := by
  induction ss generalizing s c with
  | nil =>
    obtain ⟨t, ht, -⟩ := reads_of_tok h
    exact ⟨nil_of_skip h, t, [], ht⟩
  | cons s' ss ih =>
    unfold glued at h
    split at h
    · cases h
    · rename_i ys e hy
      obtain ⟨t, ht, -⟩ := reads_of_tok hy
      split at h
      · split_ifs at h
        · obtain ⟨hnil, u, ts, hts⟩ := ih h
          exact ⟨hnil, t, u :: ts, ht.trans hts⟩
        · cases h
      · cases h

instance (s : String) (ss : List String) : (glued (s :: ss)).Lays := by
  constructor
  intro c xs d h
  obtain ⟨rfl, t, ts, hts⟩ := reads_of_glued h
  exact ⟨_, hts, .nil _⟩

instance (s : String) (ss : List String) : (glued (s :: ss)).Consumes := by
  constructor
  intro c xs d h
  obtain ⟨-, t, ts, hts⟩ := reads_of_glued h
  exact ⟨_, hts, List.cons_ne_nil t ts⟩

/-! ## Combined rules -/

instance (p q : Rule Nodes) [hp : p.Lays] [hq : q.Lays] : (andThen p q).Lays := by
  constructor
  intro c xs d h
  unfold andThen at h
  split at h
  · cases h
  · rename_i ys e hy
    split at h
    · cases h
    · rename_i zs e' hz
      cases h
      obtain ⟨ts, hts, hlaid⟩ := hp.lays c ys e hy
      obtain ⟨us, hus, hlaid'⟩ := hq.lays e zs d hz
      exact ⟨_, hts.trans hus, hlaid.append hlaid'⟩

instance (p q : Rule Nodes) [hp : p.Lays] [hq : q.Lays] : (orElse p q).Lays := by
  constructor
  intro c xs d h
  unfold orElse at h
  split at h
  · rename_i ys e hy
    cases h
    exact hp.lays c xs d hy
  · obtain ⟨ts, hts, hlaid⟩ := hq.lays _ xs d h
    exact ⟨ts, hts.reached, hlaid⟩

/-- All rules of a list yield trees over the tokens that they read. -/
class AllLay (ps : List (Rule Nodes)) : Prop where
  lays : ∀ p ∈ ps, Rule.Lays p

instance : AllLay [] := ⟨fun p hp => by simp at hp⟩

instance (p : Rule Nodes) (ps : List (Rule Nodes)) [hp : p.Lays] [hps : AllLay ps] :
    AllLay (p :: ps) := by
  constructor
  intro q hq
  rcases List.mem_cons.1 hq with rfl | hq
  · exact hp
  · exact hps.lays q hq

theorem lays_all {ps : List (Rule Nodes)} (h : ∀ p ∈ ps, Rule.Lays p) : (all ps).Lays := by
  fun_induction all ps with
  | case1 => infer_instance
  | case2 p => exact h p List.mem_cons_self
  | case3 p q more ih =>
    have hp := h p List.mem_cons_self
    have hmore := ih fun r hr => h r (List.mem_cons_of_mem _ hr)
    infer_instance

theorem lays_any {ps : List (Rule Nodes)} (h : ∀ p ∈ ps, Rule.Lays p) : (any ps).Lays := by
  fun_induction any ps with
  | case1 => exact ⟨fun _ _ _ hd => by cases hd⟩
  | case2 p => exact h p List.mem_cons_self
  | case3 p q more ih =>
    have hp := h p List.mem_cons_self
    have hmore := ih fun r hr => h r (List.mem_cons_of_mem _ hr)
    infer_instance

instance (ps : List (Rule Nodes)) [h : AllLay ps] : (all ps).Lays := lays_all h.lays

instance (ps : List (Rule Nodes)) [h : AllLay ps] : (any ps).Lays := lays_any h.lays

instance (p : Rule Nodes) [p.Lays] : (opt p).Lays := by
  unfold opt; infer_instance

instance (p : Rule Nodes) : (notAhead p).Lays := by
  constructor
  intro c xs d h
  unfold notAhead at h
  split at h
  · cases h
  · cases h
    exact ⟨[], Cursor.Reads.reached (.refl _), .nil _⟩

instance (p : Rule Nodes) : (ahead p).Lays := by
  constructor
  intro c xs d h
  unfold ahead at h
  split at h
  · cases h
    exact ⟨[], .refl _, .nil _⟩
  · cases h

theorem lays_manyUpTo (p : Rule Nodes) [hp : p.Lays] (fuel : Nat) : (manyUpTo p fuel).Lays := by
  induction fuel with
  | zero => exact inferInstanceAs (Lays nothing)
  | succ fuel ih =>
    constructor
    intro c xs d h
    unfold manyUpTo at h
    split at h
    · cases h
      exact ⟨[], Cursor.Reads.reached (.refl _), .nil _⟩
    · rename_i ys e hy
      obtain ⟨ts, hts, hlaid⟩ := hp.lays c ys e hy
      split_ifs at h
      · split at h
        · rename_i zs e' hz
          cases h
          obtain ⟨us, hus, hlaid'⟩ := ih.lays e zs d hz
          exact ⟨_, hts.trans hus, hlaid.append hlaid'⟩
        · cases h
      · cases h
        exact ⟨ts, hts, hlaid⟩

instance (p : Rule Nodes) [p.Lays] : (many p).Lays :=
  ⟨fun c => (lays_manyUpTo p c.left).lays c⟩

instance (p : Rule Nodes) [p.Lays] : (many1 p).Lays := by
  unfold many1; infer_instance

instance (p sep : Rule Nodes) [p.Lays] [sep.Lays] : (sepBy1 p sep).Lays := by
  unfold sepBy1; infer_instance

instance (p : Rule Nodes) [p.Lays] : (commaSep p).Lays := by
  unfold commaSep; infer_instance

instance (p : Rule Nodes) [p.Lays] : (commaSep1 p).Lays := by
  unfold commaSep1; infer_instance

/-! ## Rules that read -/

instance (p q : Rule Nodes) [hp : p.Consumes] [hq : q.Lays] : (andThen p q).Consumes := by
  constructor
  intro c xs d h
  unfold andThen at h
  split at h
  · cases h
  · rename_i ys e hy
    split at h
    · cases h
    · rename_i zs e' hz
      cases h
      obtain ⟨ts, hts, hne⟩ := hp.takes c ys e hy
      obtain ⟨us, hus⟩ := Lays.reads hz
      exact ⟨_, hts.trans hus, List.append_ne_nil_of_left_ne_nil hne _⟩

/-- A sequence reads if its first rule does. -/
instance (p q : Rule Nodes) (ps : List (Rule Nodes)) [p.Consumes] [(all (q :: ps)).Lays] :
    (all (p :: q :: ps)).Consumes := by
  unfold all; infer_instance

/-- A sequence reads if what comes after its first rule does. -/
instance (p q : Rule Nodes) (ps : List (Rule Nodes)) [hp : p.Lays]
    [hps : (all (q :: ps)).Consumes] : (all (p :: q :: ps)).Consumes := by
  constructor
  intro c xs d h
  obtain ⟨ys, zs, e, hy, hz, -⟩ := exists_of_all h
  obtain ⟨ts, hts⟩ := Lays.reads hy
  obtain ⟨us, hus, hne⟩ := hps.takes e zs d hz
  exact ⟨_, hts.trans hus, List.append_ne_nil_of_right_ne_nil _ hne⟩

instance (p : Rule Nodes) [h : p.Consumes] : (all [p]).Consumes := h

instance (p : Rule Nodes) [p.Consumes] [p.Lays] : (many1 p).Consumes := by
  unfold many1; infer_instance

instance (p sep : Rule Nodes) [p.Consumes] [p.Lays] [sep.Lays] : (sepBy1 p sep).Consumes := by
  unfold sepBy1; infer_instance

instance (p : Rule Nodes) [p.Consumes] [p.Lays] : (commaSep1 p).Consumes := by
  unfold commaSep1; infer_instance

/-! ## Rules that make nodes -/

theorem laid_node {k : Kind} {s : Span} {xs : Nodes} {ts : List Token} (hs : s.Covers ts)
    (hx : Node.LaidAll ts xs) : Node.Laid ts (.mk k .none s xs) := by
  have hlaid : Node.Laid ([] ++ ts ++ []) (.mk k .none s xs) :=
    .mk (by simpa using hs) (fun h => by cases h) hx
  simpa using hlaid

instance (k : Kind) (p : Rule Nodes) [hp : p.Lays] [hne : p.Consumes] : (node k p).Lays := by
  constructor
  intro c xs d h
  obtain ⟨ys, hy, rfl⟩ := eq_of_node h
  obtain ⟨ts, hts, hlaid⟩ := hp.lays c ys d hy
  obtain ⟨us, hus, hne⟩ := hne.takes c ys d hy
  obtain rfl := hts.unique hus
  exact ⟨ts, hts, (laid_node (hts.covers hne) hlaid).single⟩

instance (r : Role) (p : Rule Nodes) [hr : Holds r.isOpen] [hp : p.Lays] : (asRole r p).Lays := by
  constructor
  intro c xs d h
  obtain ⟨ys, hy, rfl⟩ := eq_of_asRole h
  obtain ⟨ts, hts, hlaid⟩ := hp.lays c ys d hy
  refine ⟨ts, hts, hlaid.withRole ?_⟩
  rintro rfl
  exact absurd hr.eq_true (by decide)

instance (r : Role) (p : Rule Nodes) [hp : p.Consumes] : (asRole r p).Consumes := by
  constructor
  intro c xs d h
  obtain ⟨ys, hy, -⟩ := eq_of_asRole h
  exact hp.takes c ys d hy

instance : identifier.Lays := by unfold identifier; infer_instance

instance : anyWord.Lays := by unfold anyWord; infer_instance

instance (words : List String) : (wordExcept words).Lays := by unfold wordExcept; infer_instance

instance : identifier.Consumes := by unfold identifier; infer_instance

instance : anyWord.Consumes := by unfold anyWord; infer_instance

instance (words : List String) : (wordExcept words).Consumes := by
  unfold wordExcept; infer_instance

/-! ## Bodies -/

/-- A rule reads a brace, what lies under the children of its one node, and a brace again. -/
class Bracing (p : Rule Nodes) : Prop where
  bracing : ∀ c xs d, p c = .done xs d → ∃ k s ys before inner after,
    xs = [.mk k .none s ys] ∧ Braces before after ∧ c.Reads (before ++ inner ++ after) d ∧
      s.Covers (before ++ inner ++ after) ∧ Node.LaidAll inner ys

/-- What can be a body can also play no role. -/
instance (priority := low) (p : Rule Nodes) [hp : p.Bracing] : p.Lays := by
  constructor
  intro c xs d h
  obtain ⟨k, s, ys, before, inner, after, rfl, -, hread, hs, hlaid⟩ := hp.bracing c xs d h
  exact ⟨_, hread, (Node.Laid.mk hs (fun h => by cases h) hlaid).single⟩

instance (priority := low) (p : Rule Nodes) [hp : p.Bracing] : p.Consumes := by
  constructor
  intro c xs d h
  obtain ⟨k, s, ys, before, inner, after, -, ⟨o, e, rfl, -⟩, hread, -⟩ := hp.bracing c xs d h
  exact ⟨_, hread, by simp⟩

instance (p : Rule Nodes) [hp : p.Bracing] : (asRole .body p).Lays := by
  constructor
  intro c xs d h
  obtain ⟨ys, hy, rfl⟩ := eq_of_asRole h
  obtain ⟨k, s, zs, before, inner, after, rfl, hbraces, hread, hs, hlaid⟩ := hp.bracing c ys d hy
  exact ⟨_, hread, (Node.Laid.mk hs (fun _ => hbraces) hlaid).single⟩

theorem exists_of_all_concat {ps : List (Rule Nodes)} {q : Rule Nodes} {c d : Cursor} {xs : Nodes}
    (h : all (ps ++ [q]) c = .done xs d) :
    ∃ ys zs e, all ps c = .done ys e ∧ q e = .done zs d ∧ xs = ys ++ zs := by
  induction ps generalizing c xs with
  | nil => exact ⟨[], xs, c, rfl, h, rfl⟩
  | cons p ps ih =>
    cases ps with
    | nil =>
      obtain ⟨ys, zs, e, hy, hz, rfl⟩ := exists_of_all h
      exact ⟨ys, zs, e, hy, hz, rfl⟩
    | cons p' ps =>
      obtain ⟨ys, zs, e, hy, hz, rfl⟩ := exists_of_all h
      obtain ⟨us, vs, e', hu, hv, rfl⟩ := ih hz
      refine ⟨ys ++ us, vs, e', ?_, hv, by simp⟩
      rw [all, andThen, hy]
      simp only [hu]

/-- A node over what stands between braces can be a body. -/
theorem bracing_node (k : Kind) (ps : List (Rule Nodes)) [hps : AllLay ps] :
    (node k (all (tok "\x7b" :: (ps ++ [tok "\x7d"])))).Bracing := by
  constructor
  intro c xs d h
  obtain ⟨ys, hy, rfl⟩ := eq_of_node h
  obtain ⟨q, qs, hq⟩ : ∃ q qs, ps ++ [tok "\x7d"] = q :: qs := by
    cases ps <;> exact ⟨_, _, rfl⟩
  rw [hq] at hy
  obtain ⟨_, _, c₁, hopen, hrest, rfl⟩ := exists_of_all hy
  rw [← hq] at hrest
  obtain ⟨zs, _, c₂, hz, hclose, rfl⟩ := exists_of_all_concat hrest
  obtain ⟨o, ho, hopens⟩ := reads_of_tok hopen
  obtain ⟨ts, hts, hlaid⟩ := (lays_all hps.lays).lays c₁ zs c₂ hz
  obtain ⟨e, he, hcloses⟩ := reads_of_tok hclose
  rw [nil_of_skip hopen, nil_of_skip hclose, List.append_nil, List.nil_append]
  have hread : c.Reads ([o] ++ ts ++ [e]) d := (ho.trans hts).trans he
  exact ⟨k, _, zs, [o], ts, [e], rfl, ⟨o, e, rfl, rfl, hopens, hcloses⟩, hread,
    hread.covers (by simp), hlaid⟩

instance (k : Kind) (p : Rule Nodes) [p.Lays] :
    (node k (all [tok "\x7b", p, tok "\x7d"])).Bracing :=
  bracing_node k [p]

instance (k : Kind) (p q : Rule Nodes) [p.Lays] [q.Lays] :
    (node k (all [tok "\x7b", p, q, tok "\x7d"])).Bracing :=
  bracing_node k [p, q]

instance (k : Kind) (p q r : Rule Nodes) [p.Lays] [q.Lays] [r.Lays] :
    (node k (all [tok "\x7b", p, q, r, tok "\x7d"])).Bracing :=
  bracing_node k [p, q, r]

end Rule

end Tracepoint.Java
