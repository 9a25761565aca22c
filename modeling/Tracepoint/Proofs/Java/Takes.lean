import Tracepoint.Proofs.Java.Alike
import Tracepoint.Proofs.Text.Split

/-!
# What rules read

A rule that treats sequences of tokens alike reads some tokens from the front of what is left.
What these tokens are like is shown once for each way to combine rules, for properties that a
sequence has when its parts have them: to consist of words and dots, or to have its commas in
brackets that it closes.

Results:

* `exists_reads`: a rule reads tokens.
* `Takes`: a rule reads tokens with a property, kept by every way to combine rules.
* `nests_angles`, `nests_annotation`: type arguments and annotations in types.
-/

namespace Tracepoint.Java

open Text Rule

theorem Cursor.Reads.unique {c d : Cursor} {ts us : List Token} (h : c.Reads ts d)
    (h' : c.Reads us d) : ts = us :=
  List.append_cancel_right (h.rest.symm.trans h'.rest)

theorem Cursor.Reads.reached {c d : Cursor} {ts : List Token} {reach : Nat}
    (h : Cursor.Reads { c with reach := reach } ts d) : c.Reads ts d :=
  ⟨h.rest, h.stop⟩

namespace Rule

variable {α : Type}

/-! ## What rules read -/

/-- Where a rule treats sequences alike, it reads some tokens. -/
theorem exists_reads {p : Rule α} [h : ∀ T, p.Steps T T] {c d : Cursor} {a : α}
    (hp : p c = .done a d) : ∃ ts, c.Reads ts d := by
  have hc : c.Beside c.rest c.rest c :=
    ⟨rfl, rfl, List.suffix_refl _, List.suffix_refl _⟩
  obtain ⟨r, r', hr, -⟩ | ⟨b, b', e, e', he, -, hstep, -⟩ := (h c.rest).paired.cases hc
  · rw [hp] at hr
    cases hr
  · rw [hp] at he
    cases he
    obtain ⟨ts, -, hts, -, -⟩ := hstep.reads
    exact ⟨ts, hts⟩

theorem reads_of_tokenWhere {f : Token → Bool} {c d : Cursor} {t : Token}
    (h : tokenWhere f c = .done t d) : c.Reads [t] d ∧ f t = true := by
  obtain ⟨hrest, ht, hstop⟩ := rest_of_tokenWhere h
  exact ⟨⟨hrest, hstop⟩, ht⟩

theorem reads_of_tok {s : String} {c d : Cursor} {xs : Nodes} (h : tok s c = .done xs d) :
    ∃ t, c.Reads [t] d ∧ t.text = s := by
  obtain ⟨t, hrest, ht, hstop⟩ := rest_of_tok h
  exact ⟨t, ⟨hrest, hstop⟩, ht⟩

/-- A word is not read only if it is another one. -/
theorem ne_of_tok_failed {s : String} {c : Cursor} {r : Nat} {t : Token} {ts : List Token}
    (h : tok s c = .failed r) (hrest : c.rest = t :: ts) (hword : t.lexeme = .word) :
    t.text ≠ s := by
  intro htext
  simp [tok, skip, tokenWhere, hrest, htext, hword] at h

theorem exists_of_skip {p : Rule α} {c d : Cursor} {xs : Nodes} (h : skip p c = .done xs d) :
    ∃ a, p c = .done a d := by
  unfold skip at h
  split at h
  · rename_i a e ha
    cases h
    exact ⟨a, ha⟩
  · cases h

theorem cases_of_any {p q : Rule Nodes} {ps : List (Rule Nodes)} {c d : Cursor} {xs : Nodes}
    (h : any (p :: q :: ps) c = .done xs d) :
    p c = .done xs d ∨ ∃ reach, any (q :: ps) { c with reach := reach } = .done xs d := by
  rw [any, orElse] at h
  split at h
  · rename_i hp
    cases h
    exact .inl hp
  · exact .inr ⟨_, h⟩

theorem cases_of_opt {p : Rule Nodes} {c d : Cursor} {xs : Nodes} (h : opt p c = .done xs d) :
    p c = .done xs d ∨ xs = [] ∧ (∃ r, p c = .failed r) ∧ c.Reads [] d := by
  rw [opt, orElse] at h
  split at h
  · rename_i hp
    cases h
    exact .inl hp
  · rename_i r hp
    cases h
    exact .inr ⟨rfl, ⟨r, hp⟩, .reached (.refl _)⟩

/-- A property of sequences of tokens that those without tokens have, and those that are put
    together from others with it. -/
class Closed (Q : List Token → Prop) : Prop where
  nil : Q []
  append : ∀ ts us, Q ts → Q us → Q (ts ++ us)

/-- A rule that reads sequences of tokens with a property. -/
class Takes (Q : List Token → Prop) (p : Rule α) : Prop where
  takes : ∀ c a d, p c = .done a d → ∃ ts, c.Reads ts d ∧ Q ts

variable {Q : List Token → Prop}

theorem takes_tokenWhere {f : Token → Bool} (hf : ∀ t, f t = true → Q [t]) :
    (tokenWhere f).Takes Q :=
  ⟨fun _ _ _ h => ⟨_, (reads_of_tokenWhere h).1, hf _ (reads_of_tokenWhere h).2⟩⟩

theorem takes_tok {s : String} (hs : ∀ t : Token, t.text = s → Q [t]) : (tok s).Takes Q := by
  constructor
  intro c xs d hd
  obtain ⟨t, ht, htext⟩ := reads_of_tok hd
  exact ⟨[t], ht, hs t htext⟩

instance (p : Rule α) [hp : p.Takes Q] : (skip p).Takes Q := by
  constructor
  intro c xs d h
  obtain ⟨a, ha⟩ := exists_of_skip h
  exact hp.takes c a d ha

instance takes_node (k : Kind) (p : Rule Nodes) [hp : p.Takes Q] : (node k p).Takes Q := by
  constructor
  intro c xs d h
  obtain ⟨ys, hy, -⟩ := eq_of_node h
  exact hp.takes c ys d hy

section

variable [hQ : Closed Q]

instance : nothing.Takes Q := by
  constructor
  intro c xs d h
  cases h
  exact ⟨[], .refl c, hQ.nil⟩

instance (p q : Rule Nodes) [hp : p.Takes Q] [hq : q.Takes Q] : (andThen p q).Takes Q := by
  constructor
  intro c a d h
  unfold andThen at h
  split at h
  · cases h
  · rename_i xs e hx
    split at h
    · cases h
    · rename_i ys e' hy
      cases h
      obtain ⟨ts, hts, hQts⟩ := hp.takes c xs e hx
      obtain ⟨us, hus, hQus⟩ := hq.takes e ys d hy
      exact ⟨_, hts.trans hus, hQ.append ts us hQts hQus⟩

omit hQ in
instance (p q : Rule Nodes) [hp : p.Takes Q] [hq : q.Takes Q] : (orElse p q).Takes Q := by
  constructor
  intro c a d h
  unfold orElse at h
  split at h
  · rename_i xs e hx
    cases h
    exact hp.takes c a d hx
  · obtain ⟨ts, hts, hQts⟩ := hq.takes _ a d h
    exact ⟨ts, hts.reached, hQts⟩

/-- All rules of a list read sequences with a property. -/
class AllTake (Q : List Token → Prop) (ps : List (Rule Nodes)) : Prop where
  takes : ∀ p ∈ ps, Rule.Takes Q p

omit hQ in
instance : AllTake Q [] := ⟨fun p hp => by simp at hp⟩

omit hQ in
instance (p : Rule Nodes) (ps : List (Rule Nodes)) [hp : p.Takes Q] [hps : AllTake Q ps] :
    AllTake Q (p :: ps) := by
  constructor
  intro q hq
  rcases List.mem_cons.1 hq with rfl | hq
  · exact hp
  · exact hps.takes q hq

theorem takes_all {ps : List (Rule Nodes)} (h : ∀ p ∈ ps, Rule.Takes Q p) :
    (all ps).Takes Q := by
  fun_induction all ps with
  | case1 => infer_instance
  | case2 p => exact h p List.mem_cons_self
  | case3 p q more ih =>
    have hp := h p List.mem_cons_self
    have hmore := ih fun r hr => h r (List.mem_cons_of_mem _ hr)
    infer_instance

omit hQ in
theorem takes_any {ps : List (Rule Nodes)} (h : ∀ p ∈ ps, Rule.Takes Q p) :
    (any ps).Takes Q := by
  fun_induction any ps with
  | case1 => exact ⟨fun _ _ _ hd => by cases hd⟩
  | case2 p => exact h p List.mem_cons_self
  | case3 p q more ih =>
    have hp := h p List.mem_cons_self
    have hmore := ih fun r hr => h r (List.mem_cons_of_mem _ hr)
    infer_instance

instance (ps : List (Rule Nodes)) [h : AllTake Q ps] : (all ps).Takes Q := takes_all h.takes

omit hQ in
instance (ps : List (Rule Nodes)) [h : AllTake Q ps] : (any ps).Takes Q := takes_any h.takes

instance (p : Rule Nodes) [p.Takes Q] : (opt p).Takes Q := by
  unfold opt; infer_instance

theorem takes_manyUpTo (p : Rule Nodes) [hp : p.Takes Q] (fuel : Nat) :
    (manyUpTo p fuel).Takes Q := by
  induction fuel with
  | zero => exact inferInstanceAs (Takes Q nothing)
  | succ fuel ih =>
    constructor
    intro c a d h
    unfold manyUpTo at h
    split at h
    · cases h
      exact ⟨[], Cursor.Reads.reached (.refl _), hQ.nil⟩
    · rename_i xs e hx
      obtain ⟨ts, hts, hQts⟩ := hp.takes c xs e hx
      split_ifs at h
      · split at h
        · rename_i ys e' hy
          cases h
          obtain ⟨us, hus, hQus⟩ := ih.takes e ys d hy
          exact ⟨_, hts.trans hus, hQ.append ts us hQts hQus⟩
        · cases h
      · cases h
        exact ⟨ts, hts, hQts⟩

instance (p : Rule Nodes) [p.Takes Q] : (many p).Takes Q :=
  ⟨fun c => (takes_manyUpTo p c.left).takes c⟩

instance (p : Rule Nodes) [p.Takes Q] : (many1 p).Takes Q := by
  unfold many1; infer_instance

instance (p sep : Rule Nodes) [p.Takes Q] [sep.Takes Q] : (sepBy1 p sep).Takes Q := by
  unfold sepBy1; infer_instance

instance (p : Rule Nodes) [p.Takes Q] [(tok ",").Takes Q] : (commaSep p).Takes Q := by
  unfold commaSep; infer_instance

end

/-! ## First tokens -/

/-- A property of sequences of tokens that shows in the tokens they start with. -/
class Initial (Q : List Token → Prop) : Prop where
  append : ∀ ts us, Q ts → Q (ts ++ us)

instance (p : Rule Nodes) (ps : List (Rule Nodes)) [hQ : Initial Q] [hp : p.Takes Q]
    [∀ T, Rule.Alike T T (all ps)] : (all (p :: ps)).Takes Q := by
  constructor
  intro c xs d h
  cases ps with
  | nil => exact hp.takes c xs d h
  | cons q ps =>
    obtain ⟨ys, zs, e, hy, hz, -⟩ := exists_of_all h
    obtain ⟨ts, hts, hQts⟩ := hp.takes c ys e hy
    obtain ⟨us, hus⟩ := exists_reads hz
    exact ⟨_, hts.trans hus, hQ.append ts us hQts⟩

instance (f : Token → Prop) : Initial (StartsWith f) := by
  constructor
  rintro ts us ⟨t, ht, hf⟩
  cases ts with
  | nil => cases ht
  | cons u more => exact ⟨t, ht, hf⟩

instance : (tokIn Grammar.primitiveTypes).Takes (StartsWith Token.NamesType) := by
  have hprimitive : (tokenWhere fun t => Grammar.primitiveTypes.contains t.text &&
      (t.lexeme == .symbol || t.lexeme == .word)).Takes (StartsWith Token.NamesType) :=
    takes_tokenWhere fun t ht => ⟨t, rfl, .inr (by simp at ht; exact ht.1)⟩
  unfold tokIn
  infer_instance

instance : identifier.Takes (StartsWith Token.NamesType) := by
  have hword : (tokenWhere fun t =>
      t.lexeme == .word && !reservedWords.contains t.text).Takes (StartsWith Token.NamesType) :=
    takes_tokenWhere fun t ht => ⟨t, rfl, .inl (by simp at ht; exact ht.1)⟩
  unfold identifier
  infer_instance

instance : anyWord.Takes (StartsWith (·.lexeme = .word)) := by
  have hword : (tokenWhere fun t => t.lexeme == .word).Takes (StartsWith (·.lexeme = .word)) :=
    takes_tokenWhere fun t ht => ⟨t, rfl, beq_iff_eq.1 ht⟩
  unfold anyWord lexeme
  infer_instance

instance {T T' : List Token} (p : Rule Nodes) [p.Alike T T']
    [hp : p.Takes (StartsWith (·.lexeme = .word))] : (node .qualifiedName p).Alike T T' := by
  refine alike_node fun c ts d xs hts hd => ?_
  obtain ⟨us, hus, hword⟩ := hp.takes c xs d hd
  exact hts.unique hus ▸ hword.ne_nil

end Rule

/-! ## Paths of imports -/

/-- All tokens can be part of the path of an import declaration. -/
def ArePathParts (ts : List Token) : Prop := ∀ t ∈ ts, t.IsPathPart

instance : Rule.Closed ArePathParts where
  nil := fun t ht => by simp at ht
  append := fun ts us h h' t ht => (List.mem_append.1 ht).elim (h t) (h' t)

instance : anyWord.Takes ArePathParts := by
  have hword : (tokenWhere fun t => t.lexeme == .word).Takes ArePathParts :=
    takes_tokenWhere fun t ht u hu => by
      rw [List.mem_singleton.1 hu]
      exact .inl (beq_iff_eq.1 ht)
  unfold anyWord lexeme
  infer_instance

/-! ## Types -/

/-- A rule that reads tokens with their commas in brackets. -/
abbrev Rule.Nests {α : Type} (depth : Nat) (p : Rule α) : Prop := p.Takes (Nested depth)

instance (depth : Nat) : Rule.Closed (Nested depth) where
  nil := fun _ => .inr enclosed_nil
  append := by
    intro ts us h h' hwords
    rcases h fun t ht => hwords t (List.mem_append_left _ ht) with ⟨t, ht, hat⟩ | hts
    · exact .inl ⟨t, List.mem_append_left _ ht, hat⟩
    rcases h' fun t ht => hwords t (List.mem_append_right _ ht) with ⟨t, ht, hat⟩ | hus
    · exact .inl ⟨t, List.mem_append_right _ ht, hat⟩
    · rw [List.flatMap_append]
      exact .inr (hts.append hus)

namespace Rule

variable {depth : Nat}

/-- A word has neither commas nor brackets. -/
theorem nested_of_word {t : Token} (h : t.lexeme = .word) : Nested depth [t] := by
  intro hwords
  have hword := hwords t List.mem_cons_self h
  have hnot : ∀ {p : Char → Bool}, (∀ c, p c = true → isIdentifierPart c = false) →
      ∀ c ∈ t.text.toList, p c = false := by
    intro p hp c hc
    cases h : p c with
    | false => rfl
    | true => exact absurd hc (not_mem_of_isIdentifier hword (hp c h))
  have hopens : ∀ c, opensList c = true → isIdentifierPart c = false := by
    intro c hc
    rcases Bool.or_eq_true_iff.1 hc with hc | hc <;> (rw [beq_iff_eq.1 hc]; decide)
  have hcloses : ∀ c, closesList c = true → isIdentifierPart c = false := by
    intro c hc
    rcases Bool.or_eq_true_iff.1 hc with hc | hc <;> (rw [beq_iff_eq.1 hc]; decide)
  refine .inr ?_
  simpa using enclosed_of_not_mem (not_mem_of_isIdentifier hword (by decide)) (hnot hopens)
    (hnot hcloses)

instance : identifier.Nests depth := by
  have hword : (tokenWhere fun t =>
      t.lexeme == .word && !reservedWords.contains t.text).Nests depth :=
    takes_tokenWhere fun t ht => nested_of_word (by simp at ht; exact ht.1)
  unfold identifier
  infer_instance

/-- A text without commas and brackets. -/
def isPlainText (s : String) : Bool :=
  s.toList.all fun c => c != ',' && !opensList c && !closesList c

theorem nested_of_isPlainText {t : Token} (h : isPlainText t.text = true) : Nested depth [t] := by
  have hall := List.all_eq_true.1 h
  simp only [Bool.and_eq_true, Bool.not_eq_true', bne_iff_ne] at hall
  intro _
  refine .inr ?_
  simpa using enclosed_of_not_mem (fun hmem => (hall _ hmem).1.1 rfl) (fun c hc => (hall c hc).1.2)
    fun c hc => (hall c hc).2

theorem nests_tok {s : String} (h : isPlainText s = true) : (tok s).Nests depth :=
  takes_tok fun _ ht => nested_of_isPlainText (ht ▸ h)

theorem nests_tokIn {ss : List String} (h : ss.all isPlainText = true) :
    (tokIn ss).Nests depth := by
  have htokens : (tokenWhere fun t =>
      ss.contains t.text && (t.lexeme == .symbol || t.lexeme == .word)).Nests depth :=
    takes_tokenWhere fun t ht => nested_of_isPlainText
      (List.all_eq_true.1 h _ (by simp at ht; exact ht.1))
  unfold tokIn
  infer_instance

instance : (tok ",").Nests (depth + 1) :=
  takes_tok fun t ht _ => .inr (by simpa [ht] using enclosed_sep (by decide) (by decide))

/-- Where no comma is outside of brackets, none is so in further brackets. -/
theorem Nests.succ {α : Type} {p : Rule α} (hp : p.Nests depth) : p.Nests (depth + 1) := by
  constructor
  intro c a d h
  obtain ⟨ts, hts, hnested⟩ := hp.takes c a d h
  exact ⟨ts, hts, fun hwords => (hnested hwords).imp_right Enclosed.succ⟩

/-- An annotation starts with a token that tells it. -/
theorem nests_annotation {p : Rule Nodes} {ps : List (Rule Nodes)}
    [∀ T, Rule.Alike T T (all (p :: ps))] : (all (tok "@" :: p :: ps)).Nests depth := by
  constructor
  intro c xs d h
  obtain ⟨ys, zs, e, hy, hz, -⟩ := exists_of_all h
  obtain ⟨t, ht, hat⟩ := reads_of_tok hy
  obtain ⟨us, hus⟩ := exists_reads hz
  exact ⟨_, ht.trans hus, fun _ => .inl ⟨t, by simp, hat⟩⟩

/-- What stands in angle brackets may have commas outside of other brackets. -/
theorem nests_angles {p : Rule Nodes} (hp : p.Nests 1) :
    (all [tok "<", p, tok ">"]).Nests 0 := by
  constructor
  intro c xs d h
  obtain ⟨ys, zs, e, hy, hz, -⟩ := exists_of_all h
  obtain ⟨ys', zs', e', hy', hz', -⟩ := exists_of_all hz
  obtain ⟨t, ht, hopen⟩ := reads_of_tok hy
  obtain ⟨ts, hts, hnested⟩ := hp.takes e ys' e' hy'
  obtain ⟨u, hu, hclose⟩ := reads_of_tok hz'
  refine ⟨_, ht.trans (hts.trans hu), fun hwords => ?_⟩
  rcases hnested fun v hv => hwords v (by simp [hv]) with ⟨v, hv, hat⟩ | henclosed
  · exact .inl ⟨v, by simp [hv], hat⟩
  · have hwrap := henclosed.wrap (c := '<') (d := '>') (by decide) (by decide)
    exact .inr (by simpa [hopen, hclose] using hwrap)

end Rule

end Tracepoint.Java
