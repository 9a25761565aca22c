import Tracepoint.Proofs.Java.Extents
import Tracepoint.Proofs.Java.Ranks
import Tracepoint.Proofs.Java.Stretch

/-!
# Ranges in order

The range of a node is around those of its children, and these follow each other. A body goes from
a brace to a brace and has its children between them. The trees of source texts are like this,
since they lie over tokens that follow each other. Comments do not count: they are put in later and
change no range of another node. Those in front of the first token stand outside the root.

Results:

* `Node.Laid.ranged`: trees over tokens of a source are in order.
* `parse_ranged`: the tree of a source text is in order, and so are its bodies.
-/

namespace Tracepoint.Java

open Text

/-! ## Nodes -/

/-- The ranges of the children of a node that are no comments. -/
def Node.parts (n : Node) : List Span := (n.children.filter Node.isCode).map Node.span

/-- A range is around another one or the same. -/
structure Span.Encloses (s t : Span) : Prop where
  start : s.start ≤ t.start
  stop : t.stop ≤ s.stop

/-- The range of a node is around those of its parts, which follow each other, and a comment has
    no parts. -/
structure Node.Ordered (n : Node) : Prop where
  forward : n.span.start ≤ n.span.stop
  inside : ∀ s ∈ n.parts, n.span.Encloses s
  apart : n.parts.Pairwise fun s t => s.stop ≤ t.start
  comment : n.isCode = false → n.parts = []

/-- A node goes from an opening to a closing brace of a source, and its parts stand between. -/
structure Node.Delimited (source : List Char) (n : Node) : Prop where
  isCode : n.isCode = true
  braces : ∃ before inner after, source = before ++ '{' :: inner ++ '}' :: after ∧
    n.span = ⟨byteSize before, byteSize (before ++ '{' :: inner) + 1⟩
  between : ∀ s ∈ n.parts, n.span.start + 1 ≤ s.start ∧ s.stop + 1 ≤ n.span.stop

/-- A node is in order and stands in a source, between braces if it is a body. -/
structure Node.RangedIn (source : List Char) (n : Node) : Prop extends n.Ordered where
  isIn : n.span.IsIn source
  body : n.role = .body → n.Delimited source

theorem Node.mem_parts {n c : Node} (hc : c ∈ n.children) (hcode : c.isCode = true) :
    c.span ∈ n.parts :=
  List.mem_map_of_mem (List.mem_filter.2 ⟨hc, hcode⟩)

/-- A property of all nodes of a tree that another one follows from. -/
theorem Node.All.imp {P Q : Node → Prop} (h : ∀ n, P n → Q n) {n : Node} (hn : n.All P) :
    n.All Q := by
  induction hn with
  | mk hn _ ih => exact .mk (h _ hn) ih

/-! ## Tokens -/

/-- Tokens stand in a source and follow each other. -/
structure Token.Follow (source : List Char) (ts : List Token) : Prop where
  standsIn : ∀ t ∈ ts, t.StandsIn source
  apart : ts.Pairwise fun t u => t.span.stop ≤ u.span.start

theorem Token.StandsIn.forward {source : List Char} {t : Token} (h : t.StandsIn source) :
    t.span.start ≤ t.span.stop := by
  obtain ⟨a, b, -, ht, -⟩ := h.there
  rw [ht, byteSize_append]
  exact Nat.le_add_right _ _

theorem Token.Follow.sublist {source : List Char} {ts us : List Token}
    (h : Token.Follow source ts) (hsub : us.Sublist ts) : Token.Follow source us :=
  ⟨fun t ht => h.standsIn t (hsub.subset ht), h.apart.sublist hsub⟩

/-- Pieces of a text follow each other. -/
theorem pairwise_located (position : Nat) (ps : List (Piece × List Char)) :
    (located position ps).Pairwise (fun x y => x.1.stop ≤ y.1.start) ∧
      ∀ x ∈ located position ps, position ≤ x.1.start := by
  induction ps generalizing position with
  | nil => simp [located]
  | cons p ps ih =>
    obtain ⟨hpairwise, hle⟩ := ih (position + byteSize p.2)
    rw [located]
    refine ⟨List.pairwise_cons.2 ⟨hle, hpairwise⟩, fun x hx => ?_⟩
    rcases List.mem_cons.1 hx with rfl | hx
    · exact Nat.le_refl _
    · exact (Nat.le_add_right _ _).trans (hle x hx)

theorem forward_of_mem_located {position : Nat} {ps : List (Piece × List Char)}
    {x : Span × Piece × List Char} (h : x ∈ located position ps) : x.1.start ≤ x.1.stop := by
  induction ps generalizing position with
  | nil => cases h
  | cons p ps ih =>
    rw [located] at h
    rcases List.mem_cons.1 h with rfl | h
    · exact Nat.le_add_right _ _
    · exact ih h

theorem forward_of_mem_comments {source : List Char} {c : Span} (h : c ∈ (lex source).comments) :
    c.start ≤ c.stop := by
  obtain ⟨pre, -, hlex⟩ := lex_eq source
  rw [hlex, (lexAt_eq _ _).2] at h
  obtain ⟨⟨s, piece, text⟩, hx, hs⟩ := List.mem_filterMap.1 h
  cases piece <;> cases hs
  exact forward_of_mem_located hx

/-- The tokens of a text follow each other. -/
theorem lex_follow (source : List Char) : Token.Follow source (lex source).tokens := by
  obtain ⟨pre, -, hlex⟩ := lex_eq source
  refine ⟨(lex_standsIn source).1, ?_⟩
  rw [hlex, (lexAt_eq _ _).1]
  refine (pairwise_located _ _).1.filterMap _ fun x y hxy t ht u hu => ?_
  rw [← (tokenOf?_eq_some ht).1, ← (tokenOf?_eq_some hu).1]
  exact hxy

section

variable {source : List Char} {ts : List Token} {s : Span}

/-- A range over tokens is around each of them. -/
theorem Span.Covers.encloses (h : s.Covers ts) (hts : Token.Follow source ts) {t : Token}
    (ht : t ∈ ts) : s.Encloses t.span := by
  obtain ⟨⟨first, hfirst, hstart⟩, ⟨last, hlast, hstop⟩⟩ := h
  obtain ⟨rest, hrest⟩ := List.head?_eq_some_iff.1 hfirst
  obtain ⟨init, hinit⟩ := List.getLast?_eq_some_iff.1 hlast
  constructor
  · rw [hstart]
    rw [hrest] at hts ht
    rcases List.mem_cons.1 ht with rfl | ht
    · exact Nat.le_refl _
    · exact (hts.standsIn first List.mem_cons_self).forward.trans
        ((List.pairwise_cons.1 hts.apart).1 t ht)
  · rw [hstop]
    rw [hinit] at hts ht
    rcases List.mem_append.1 ht with ht | ht
    · exact ((List.pairwise_append.1 hts.apart).2.2 t ht last (by simp)).trans
        (hts.standsIn last (by simp)).forward
    · rw [List.mem_singleton.1 ht]

theorem Span.Covers.isIn (h : s.Covers ts) (hts : Token.Follow source ts) : s.IsIn source := by
  obtain ⟨⟨first, hfirst, hstart⟩, ⟨last, hlast, hstop⟩⟩ := h
  refine ⟨?_, ?_⟩
  · rw [hstart]
    exact (hts.standsIn first (List.mem_of_mem_head? hfirst)).isIn.1
  · rw [hstop]
    exact (hts.standsIn last (List.mem_of_getLast? hlast)).isIn.2

end

/-! ## Trees over tokens -/

section

variable {source : List Char}

theorem Node.Laid.covers {ts : List Token} {n : Node} (h : n.Laid ts) : n.span.Covers ts := by
  cases h with
  | mk hs _ _ => exact hs

/-- Each of some trees lies over some of the tokens. -/
theorem Node.LaidAll.exists_laid {ns : List Node} {n : Node} (hn : n ∈ ns) :
    ∀ {ts : List Token}, Node.LaidAll ts ns → ∃ us, us.Sublist ts ∧ n.Laid us := by
  induction ns with
  | nil => simp at hn
  | cons m ns ih =>
    intro ts h
    cases h with
    | @cons before us after _ _ hm hns =>
      rcases List.mem_cons.1 hn with rfl | hn
      · exact ⟨us, by simp, hm⟩
      · obtain ⟨vs, hvs, hlaid⟩ := ih hn hns
        exact ⟨vs, hvs.trans (by simp), hlaid⟩

/-- Trees over parts of some tokens follow each other. -/
theorem Node.LaidAll.apart {ns : List Node} :
    ∀ {ts : List Token}, Node.LaidAll ts ns → Token.Follow source ts →
      ns.Pairwise fun a b => a.span.stop ≤ b.span.start := by
  induction ns with
  | nil => exact fun _ _ => .nil
  | cons n ns ih =>
    intro ts h hts
    cases h with
    | @cons before us after _ _ hn hns =>
      have hafter : Token.Follow source after := hts.sublist (by simp)
      refine List.pairwise_cons.2 ⟨fun m hm => ?_, ih hns hafter⟩
      obtain ⟨vs, hvs, hlaid⟩ := hns.exists_laid hm
      obtain ⟨last, hlast, hstop⟩ := hn.covers.stop
      obtain ⟨first, hfirst, hstart⟩ := hlaid.covers.start
      rw [hstop, hstart]
      exact (List.pairwise_append.1 hts.apart).2.2 last
        (List.mem_append_right _ (List.mem_of_getLast? hlast)) first
        (hvs.subset (List.mem_of_mem_head? hfirst))

/-- The ranges of trees over some tokens are between bounds of these. -/
theorem Node.LaidAll.between {ts : List Token} {ns : List Node} (h : Node.LaidAll ts ns)
    {lower upper : Nat} (hlower : ∀ t ∈ ts, lower ≤ t.span.start)
    (hupper : ∀ t ∈ ts, t.span.stop ≤ upper) :
    ∀ n ∈ ns, lower ≤ n.span.start ∧ n.span.stop ≤ upper := by
  intro n hn
  obtain ⟨us, hus, hlaid⟩ := h.exists_laid hn
  obtain ⟨⟨first, hfirst, hstart⟩, ⟨last, hlast, hstop⟩⟩ := hlaid.covers
  rw [hstart, hstop]
  exact ⟨hlower first (hus.subset (List.mem_of_mem_head? hfirst)),
    hupper last (hus.subset (List.mem_of_getLast? hlast))⟩

theorem Node.exists_of_mem_parts {n : Node} {s : Span} (h : s ∈ n.parts) :
    ∃ c ∈ n.children, c.span = s := by
  obtain ⟨c, hc, rfl⟩ := List.mem_map.1 h
  exact ⟨c, (List.mem_filter.1 hc).1, rfl⟩

/-- A node over braces goes from the one to the other. -/
theorem delimited_of_braces {k : Kind} {r : Role} {s : Span} {cs : List Node}
    {before inner after : List Token} (hts : Token.Follow source (before ++ inner ++ after))
    (hs : s.Covers (before ++ inner ++ after)) (hbraces : Braces before after)
    (hcs : Node.LaidAll inner cs) (hcode : Node.isCode (.mk k r s cs) = true) :
    Node.Delimited source (.mk k r s cs) := by
  obtain ⟨o, c, rfl, rfl, ho, hc⟩ := hbraces
  have hpairwise : (o :: (inner ++ [c])).Pairwise fun t u => t.span.stop ≤ u.span.start :=
    hts.apart
  obtain ⟨hopen, hrest⟩ := List.pairwise_cons.1 hpairwise
  have hclose := (List.pairwise_append.1 hrest).2.2
  have hapart := hopen c (by simp)
  obtain ⟨a, b, ha, hospan, -⟩ := (hts.standsIn o (by simp)).there
  obtain ⟨a', b', ha', hcspan, -⟩ := (hts.standsIn c (by simp)).there
  rw [ho] at ha hospan
  rw [hc] at ha' hcspan
  have hspan : s = ⟨o.span.start, c.span.stop⟩ := by
    obtain ⟨⟨first, hfirst, hstart⟩, ⟨last, hlast, hstop⟩⟩ := hs
    rw [List.getLast?_concat] at hlast
    cases hfirst
    cases hlast
    rw [← hstart, ← hstop]
  -- the text up to the closing brace goes on after the opening one
  obtain ⟨m, rfl, -⟩ := exists_append_of_byteSize_le
    (show (a ++ "\x7b".toList) ++ b = a' ++ ("\x7d".toList ++ b') by
      rw [← List.append_assoc, ← ha, ← ha'])
    (by simpa [hospan, hcspan] using hapart)
  refine ⟨hcode, ⟨a, m, b', by simpa using ha', ?_⟩, fun t ht => ?_⟩
  · rw [Node.span, hspan, hospan, hcspan]
    simp [Char.utf8Size, Nat.add_assoc]
  · obtain ⟨x, hx, rfl⟩ := Node.exists_of_mem_parts ht
    have hbetween : o.span.stop ≤ x.span.start ∧ x.span.stop ≤ c.span.start :=
      hcs.between (fun t ht => hopen t (by simp [ht])) (fun t ht => hclose t ht c (by simp)) x hx
    have hopenSize : byteSize "\x7b".toList = 1 := rfl
    have hcloseSize : byteSize "\x7d".toList = 1 := rfl
    simp only [hospan, hcspan, byteSize_append] at hbetween
    show s.start + 1 ≤ x.span.start ∧ x.span.stop + 1 ≤ s.stop
    simp only [hspan, hospan, hcspan, byteSize_append]
    omega

mutual

/-- Trees over tokens that follow each other are in order. -/
theorem Node.Laid.ranged {ts : List Token} {n : Node} (hts : Token.Follow source ts)
    (hcode : n.All (·.isCode = true)) : n.Laid ts → n.All (Node.RangedIn source)
  | @Node.Laid.mk k r s cs before inner after hs hbraces hcs => by
    have hinner : Token.Follow source inner := hts.sublist (by simp)
    refine .mk ⟨⟨?_, fun t ht => ?_, ?_, fun h => ?_⟩, hs.isIn hts, fun hr => ?_⟩
      (hcs.ranged hinner hcode.children)
    · obtain ⟨t, ht, hstart⟩ := hs.start
      have htoken := List.mem_of_mem_head? ht
      exact hstart.le.trans ((hts.standsIn t htoken).forward.trans (hs.encloses hts htoken).stop)
    · obtain ⟨c, hc, rfl⟩ := Node.exists_of_mem_parts ht
      obtain ⟨hstart, hstop⟩ := hcs.between (fun t ht => (hs.encloses hts (by simp [ht])).start)
        (fun t ht => (hs.encloses hts (by simp [ht])).stop) c hc
      exact ⟨hstart, hstop⟩
    · exact List.pairwise_map.2 ((hcs.apart hinner).filter _)
    · rw [hcode.here] at h
      cases h
    · exact delimited_of_braces hts hs (hbraces hr) hcs hcode.here

theorem Node.LaidAll.ranged {ts : List Token} {ns : List Node} (hts : Token.Follow source ts)
    (hcode : ∀ n ∈ ns, n.All (·.isCode = true)) :
    Node.LaidAll ts ns → ∀ n ∈ ns, n.All (Node.RangedIn source)
  | .nil _ => by simp
  | @Node.LaidAll.cons before us after n ns hn hns => by
    obtain ⟨hcodeHere, hcodeRest⟩ := List.forall_mem_cons.1 hcode
    exact List.forall_mem_cons.2 ⟨hn.ranged (hts.sublist (by simp)) hcodeHere,
      hns.ranged (hts.sublist (by simp)) hcodeRest⟩

end

mutual

/-- A tree of one shape with another has no comments if all of its nodes count. -/
theorem Node.Alike.all_isCode {T T' : List Token} {n n' : Node} :
    n.Alike (fun _ => False) T T' n' → n.All (·.isCode = true)
  | h@(.mk _ _ _ _ _ _ hcs) =>
    .mk (h.mono fun _ hc => hc.elim).isCode hcs.all_isCode

theorem Node.AlikeAll.all_isCode {T T' : List Token} {ns ns' : List Node} :
    Node.AlikeAll (fun _ => False) T T' ns ns' → ∀ n ∈ ns, n.All (·.isCode = true)
  | .nil => by simp
  | .cons hn hns => List.forall_mem_cons.2 ⟨hn.all_isCode, hns.all_isCode⟩

end

/-- The tree of the tokens of a source is in order. -/
theorem treeOfTokens_ranged {root : Node} (h : treeOfTokens (lex source).tokens = .ok root) :
    root.All (Node.RangedIn source) := by
  rcases treeOfTokens_laid h with hlaid | rfl
  · refine hlaid.ranged (lex_follow source) ?_
    obtain ⟨_, _, he, -⟩ | ⟨_, _, hroot, -, halike⟩ :=
      treeOfTokens_alike (rfl : readings (lex source).tokens = _)
    · rw [h] at he
      cases he
    · rw [h] at hroot
      cases hroot
      exact halike.all_isCode
  · refine .mk ⟨⟨Nat.le_refl 0, ?_, .nil, fun _ => rfl⟩, ?_, fun hr => by cases hr⟩ (by simp)
    · simp [Node.parts, Node.children]
    · exact ⟨isBoundary_zero source, isBoundary_zero source⟩

/-! ## Comments -/

theorem span_withComment (c : Span) (n : Node) : (n.withComment c).span = n.span := by
  cases n with
  | mk k r s cs =>
    rw [Node.withComment]
    split_ifs <;> rfl

theorem isCode_withComment (c : Span) (n : Node) : (n.withComment c).isCode = n.isCode := by
  rw [Node.isCode, kind_withComment, Node.isCode]

theorem filter_insertComment (c : Span) (ns : List Node) :
    (insertComment c ns).filter Node.isCode = ns.filter Node.isCode := by
  induction ns with
  | nil => rfl
  | cons n ns ih =>
    rw [insertComment]
    split_ifs
    · rw [List.filter_cons, List.filter_cons, ih]
    · rfl

theorem parts_withCommentAll (c : Span) (ns : List Node) :
    ((Node.withCommentAll c ns).filter Node.isCode).map Node.span =
      (ns.filter Node.isCode).map Node.span := by
  induction ns with
  | nil => rfl
  | cons n ns ih =>
    rw [Node.withCommentAll, List.filter_cons, List.filter_cons]
    split_ifs <;> simp_all [isCode_withComment, span_withComment]

/-- A comment does not change the parts of a node. -/
theorem parts_withComment (c : Span) (n : Node) : (n.withComment c).parts = n.parts := by
  cases n with
  | mk k r s cs =>
    rw [Node.withComment]
    split_ifs
    · exact parts_withCommentAll c cs
    · exact congrArg (List.map Node.span) (filter_insertComment c cs)

theorem Node.RangedIn.withComment (c : Span) {n : Node} (h : n.RangedIn source) :
    (n.withComment c).RangedIn source := by
  refine ⟨⟨?_, ?_, ?_, ?_⟩, ?_, fun hr => ?_⟩
  · rw [span_withComment]
    exact h.forward
  · rw [span_withComment, parts_withComment]
    exact h.inside
  · rw [parts_withComment]
    exact h.apart
  · rw [isCode_withComment, parts_withComment]
    exact h.comment
  · rw [span_withComment]
    exact h.isIn
  · rw [role_withComment] at hr
    obtain ⟨hcode, hbraces, hbetween⟩ := h.body hr
    exact ⟨by rwa [isCode_withComment], by rwa [span_withComment],
      by rwa [span_withComment, parts_withComment]⟩

theorem Node.rangedIn_comment {c : Span} (hc : c.IsIn source) (hforward : c.start ≤ c.stop) :
    Node.RangedIn source (.mk .comment .none c []) :=
  ⟨⟨hforward, by simp [Node.parts, Node.children], .nil, fun _ => rfl⟩, hc, fun h => by cases h⟩

/-- The tree of a source text is in order, and its bodies stand between braces. -/
theorem parse_ranged {root : Node} (h : parse source = .ok root) :
    root.All (Node.RangedIn source) := by
  unfold parse at h
  simp only at h
  split at h
  · rename_i tree htree
    cases h
    exact Node.All.withComments (fun c _ hn => hn.withComment c)
      (fun c hc => Node.rangedIn_comment ((lex_standsIn source).2 c hc)
        (forward_of_mem_comments hc)) tree (treeOfTokens_ranged htree)
  · cases h

end

end Tracepoint.Java
