import Tracepoint.Proofs.Java.Grammar
import Tracepoint.Proofs.Java.Layout

/-!
# Trees with comments

Comments are put into a tree once it is made. A comment goes between the children of a node, so
that a tree keeps its shape where comments do not count. What a kind wants of the children of its
nodes does not count them either.

Results:

* `Node.Alike.withComments`: trees of one shape are so with any comments put into them.
* `parse_alike`: texts whose tokens read alike have trees of one shape.
-/

namespace Tracepoint.Java

open Text

theorem kind_withComment (c : Span) (n : Node) : (n.withComment c).kind = n.kind := by
  cases n with
  | mk k r s cs =>
    rw [Node.withComment]
    split_ifs <;> rfl

/-! ## Children -/

theorem outline_insertComment (c : Span) (ns : List Node) :
    Nodes.outline (insertComment c ns) = Nodes.outline ns := by
  induction ns with
  | nil => simp [insertComment, Node.kind]
  | cons n ns ih =>
    rw [insertComment]
    split_ifs
    · rw [Nodes.outline_cons, Nodes.outline_cons, ih]
    · simp [Node.kind]

theorem outline_withCommentAll (c : Span) (ns : List Node) :
    Nodes.outline (Node.withCommentAll c ns) = Nodes.outline ns := by
  induction ns with
  | nil => rfl
  | cons n ns ih =>
    rw [Node.withCommentAll, Nodes.outline_cons, Nodes.outline_cons, ih]
    split_ifs <;> simp_all [kind_withComment, role_withComment]

/-- A comment that plays no role, with nothing but comments below it. -/
structure Node.IsComment (n : Node) : Prop where
  all : n.All (·.kind = .comment)
  role : n.role = .none

theorem Node.isComment_mk (s : Span) : Node.IsComment (.mk .comment .none s []) :=
  ⟨.mk rfl (by simp), rfl⟩

theorem Node.IsComment.withComment (c : Span) {n : Node} (h : n.IsComment) :
    (n.withComment c).IsComment :=
  ⟨Node.All.withComment (fun m hm => (kind_withComment c m).trans hm) rfl n h.all,
    (role_withComment c n).trans h.role⟩

/-! ## Shapes -/

variable {T T' : List Token}

theorem Node.AlikeAll.insertComment (c : Span) {ns ns' : List Node}
    (h : Node.AlikeAll Node.IsComment T T' ns ns') :
    Node.AlikeAll Node.IsComment T T' (Java.insertComment c ns) ns' := by
  induction h using Node.AlikeAll.induction with
  | nil => exact .left (Node.isComment_mk c) .nil
  | cons hn hns ih =>
    rw [Java.insertComment]
    split_ifs
    · exact .cons hn ih
    · exact .left (Node.isComment_mk c) (.cons hn hns)
  | left hn hns ih =>
    rw [Java.insertComment]
    split_ifs
    · exact .left hn ih
    · exact .left (Node.isComment_mk c) (.left hn hns)
  | right hn _ ih => exact .right hn ih

mutual

/-- A tree keeps its shape when a comment is put into it. -/
theorem Node.Alike.withComment (c : Span) {n n' : Node} :
    n.Alike Node.IsComment T T' n' → (n.withComment c).Alike Node.IsComment T T' n'
  | .mk hs hs' heq hr hk hk' hcs => by
    rw [Node.withComment]
    split_ifs
    · exact .mk hs hs' heq hr (by rwa [outline_withCommentAll]) hk' (hcs.withCommentAll c)
    · exact .mk hs hs' heq hr (by rwa [outline_insertComment]) hk' (hcs.insertComment c)

theorem Node.AlikeAll.withCommentAll (c : Span) {ns ns' : List Node} :
    Node.AlikeAll Node.IsComment T T' ns ns' →
      Node.AlikeAll Node.IsComment T T' (Node.withCommentAll c ns) ns'
  | .nil => .nil
  | .cons hn hns => by
    rw [Node.withCommentAll]
    split_ifs
    · exact .cons (hn.withComment c) (hns.withCommentAll c)
    · exact .cons hn (hns.withCommentAll c)
  | .left hn hns => by
    rw [Node.withCommentAll]
    split_ifs
    · exact .left (hn.withComment c) (hns.withCommentAll c)
    · exact .left hn (hns.withCommentAll c)
  | .right hn hns => .right hn (hns.withCommentAll c)

end

mutual

theorem Node.Alike.symm {n n' : Node} :
    n.Alike Node.IsComment T T' n' → n'.Alike Node.IsComment T' T n
  | .mk hs hs' heq hr hk hk' hcs =>
    .mk hs' hs heq.symm (fun h hnil => hr h (by simpa [hnil] using heq)) hk' hk hcs.symm

theorem Node.AlikeAll.symm {ns ns' : List Node} :
    Node.AlikeAll Node.IsComment T T' ns ns' → Node.AlikeAll Node.IsComment T' T ns' ns
  | .nil => .nil
  | .cons hn hns => .cons hn.symm hns.symm
  | .left hn hns => .right hn hns.symm
  | .right hn hns => .left hn hns.symm

end

/-- Trees of one shape are so with any comments put into them. -/
theorem Node.Alike.withComments {n n' : Node} (h : n.Alike Node.IsComment T T' n')
    (cs cs' : List Span) :
    (n.withComments cs).Alike Node.IsComment T T' (n'.withComments cs') := by
  have hleft : ∀ (T T' : List Token) (cs : List Span) {n n' : Node},
      n.Alike Node.IsComment T T' n' → (n.withComments cs).Alike Node.IsComment T T' n' := by
    intro T T' cs
    unfold Node.withComments
    induction cs with
    | nil => exact id
    | cons c cs ih => exact fun h => ih (h.withComment c)
  exact (hleft T' T cs' (hleft T T' cs h).symm).symm

/-- Texts whose tokens read alike have trees of one shape. -/
theorem parse_alike {source source' : List Char} {root root' : Node}
    (hreadings : readings (lex source).tokens = readings (lex source').tokens)
    (h : parse source = .ok root) (h' : parse source' = .ok root') :
    root.Alike Node.IsComment (lex source).tokens (lex source').tokens root' := by
  unfold parse at h h'
  simp only at h h'
  obtain ⟨e, e', he, he'⟩ | ⟨tree, tree', ht, ht', halike⟩ := treeOfTokens_alike hreadings
  · rw [he] at h
    cases h
  · rw [ht] at h
    rw [ht'] at h'
    cases h
    cases h'
    exact (halike.mono fun _ h => h.elim).withComments _ _

end Tracepoint.Java
