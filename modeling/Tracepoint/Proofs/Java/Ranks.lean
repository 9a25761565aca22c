import Mathlib.Data.List.Forall2
import Tracepoint.Proofs.Java.Comments
import Tracepoint.Proofs.Java.Places

/-!
# Places in trees of one shape

The places of two trees of one shape correspond to each other in document order, comments left
out. Positions differ where comments stand between siblings, so that places are compared by their
ranks, which leave comments out of the count. A rank tells the place like a position does.

Results:

* `Node.Alike.places`: the places of two trees of one shape, side by side.
* `Place.In.eq_of_rank`: places of one tree with the same rank are the same.
* `Place.Alike.position_iff`: of places side by side, two are the same if the others are.
-/

namespace Tracepoint.Java

variable {T T' : List Token}

/-! ## Ranks -/

/-- A node that is no comment. -/
def Node.isCode (n : Node) : Bool := n.kind ≠ .comment

/-- A node of a kind that comments do not have. -/
theorem Node.isCode_of {f : Kind → Bool} (hf : f .comment = false) {n : Node}
    (h : f n.kind = true) : n.isCode = true := by
  refine decide_eq_true fun hk => ?_
  rw [hk, hf] at h
  cases h

/-- The index of a node among its siblings that are no comments, then that of its parent, and so
    on outwards, for a node with these ancestors and this position. -/
def rankOf : List Node → List Nat → List Nat
  | [], _ => []
  | n :: above, position =>
    (n.children.take (position.headD 0)).countP Node.isCode :: rankOf above position.tail

def Place.rank (p : Place) : List Nat := rankOf p.ancestors p.position

/-- Places of trees of one shape that correspond to each other. -/
structure Place.Alike (T T' : List Token) (p p' : Place) : Prop where
  node : p.node.Alike Node.IsComment T T' p'.node
  ancestors : List.Forall₂ (Node.Alike Node.IsComment T T') p.ancestors p'.ancestors
  rank : p.rank = p'.rank

theorem Node.Alike.kind_eq {n n' : Node} (h : n.Alike Node.IsComment T T' n') :
    n.kind = n'.kind := by
  cases h
  rfl

theorem Node.Alike.isCode {n n' : Node} (h : n.Alike Node.IsComment T T' n') :
    n.isCode = true := by
  cases h with
  | @mk k _ _ _ _ _ _ _ _ _ _ _ hk _ _ =>
    refine decide_eq_true fun hcomment => ?_
    have hkind : k = .comment := hcomment
    subst hkind
    exact hk

theorem Node.IsComment.placesBelow {n : Node} (h : n.IsComment) (above : List Node)
    (position : List Nat) : (n.placesBelow above position).filter (·.node.isCode) = [] := by
  rw [List.filter_eq_nil_iff]
  intro p hp
  have hcomment := (Node.All.placesBelow n h.all p hp).here
  simp [Node.isCode, hcomment]

/-! ## Places side by side -/

theorem rankOf_child {n : Node} {above before after : List Node} {position : List Nat}
    (h : n.children = before ++ after) :
    rankOf (n :: above) (before.length :: position) =
      before.countP Node.isCode :: rankOf above position := by
  simp [rankOf, h]

/-- The places below siblings go on after those of a comment. -/
theorem filter_placesBelowAll_comment {c : Node} (hc : c.IsComment) (above : List Node)
    (position : List Nat) (before : List Node) (cs : List Node) :
    (Node.placesBelowAll above position before.length (c :: cs)).filter (·.node.isCode) =
      (Node.placesBelowAll above position (before ++ [c]).length cs).filter (·.node.isCode) := by
  rw [Node.placesBelowAll, List.filter_append, hc.placesBelow, List.nil_append,
    List.length_append, List.length_singleton]

theorem Node.IsComment.countP {c : Node} (hc : c.IsComment) (before : List Node) :
    (before ++ [c]).countP Node.isCode = before.countP Node.isCode := by
  simp [Node.isCode, hc.all.here]

mutual

theorem Node.Alike.placesBelow {n n' : Node} {above above' : List Node}
    {position position' : List Nat}
    (habove : List.Forall₂ (Node.Alike Node.IsComment T T') above above')
    (hrank : rankOf above position = rankOf above' position') :
    n.Alike Node.IsComment T T' n' →
      List.Forall₂ (Place.Alike T T')
        ((n.placesBelow above position).filter (·.node.isCode))
        ((n'.placesBelow above' position').filter (·.node.isCode))
  | @Node.Alike.mk _ _ _ k r s s' cs cs' _ _ hs hs' heq hr hk hk' hcs => by
    have hn : Node.Alike Node.IsComment T T' (.mk k r s cs) (.mk k r s' cs') :=
      .mk hs hs' heq hr hk hk' hcs
    have hbelow := hcs.placesBelowAll (.mk k r s cs) (.mk k r s' cs') [] [] rfl rfl rfl
      (.cons hn habove) hrank
    simp only [Node.placesBelow, List.filter_cons, hn.isCode, hn.symm.isCode, if_true]
    exact .cons ⟨hn, habove, hrank⟩ hbelow

theorem Node.AlikeAll.placesBelowAll {above above' : List Node} {position position' : List Nat}
    {cs cs' : List Node} (n n' : Node) (before before' : List Node)
    (hcs : n.children = before ++ cs) (hcs' : n'.children = before' ++ cs')
    (hcount : before.countP Node.isCode = before'.countP Node.isCode)
    (habove : List.Forall₂ (Node.Alike Node.IsComment T T') (n :: above) (n' :: above'))
    (hrank : rankOf above position = rankOf above' position') :
    Node.AlikeAll Node.IsComment T T' cs cs' →
      List.Forall₂ (Place.Alike T T')
        ((Node.placesBelowAll (n :: above) position before.length cs).filter (·.node.isCode))
        ((Node.placesBelowAll (n' :: above') position' before'.length cs').filter (·.node.isCode))
  | .nil => by simp [Node.placesBelowAll]
  | @Node.AlikeAll.cons _ _ _ c c' ds ds' hc hds => by
    have hbelow := hds.placesBelowAll n n' (before ++ [c]) (before' ++ [c']) (by simp [hcs])
      (by simp [hcs']) (by simp [hcount, hc.isCode, hc.symm.isCode]) habove hrank
    have hrankHere : rankOf (n :: above) (before.length :: position) =
        rankOf (n' :: above') (before'.length :: position') := by
      rw [rankOf_child hcs, rankOf_child hcs', hcount, hrank]
    have hhere := hc.placesBelow habove hrankHere
    rw [Node.placesBelowAll, Node.placesBelowAll, List.filter_append, List.filter_append]
    simp only [List.length_append, List.length_singleton] at hbelow
    exact List.rel_append hhere hbelow
  | @Node.AlikeAll.left _ _ _ c ds ds' hc hds => by
    rw [filter_placesBelowAll_comment hc]
    exact hds.placesBelowAll n n' (before ++ [c]) before' (by simp [hcs]) hcs'
      (by rw [hc.countP, hcount]) habove hrank
  | @Node.AlikeAll.right _ _ _ c' ds ds' hc hds => by
    rw [filter_placesBelowAll_comment hc]
    exact hds.placesBelowAll n n' before (before' ++ [c']) hcs (by simp [hcs'])
      (by rw [hc.countP, hcount]) habove hrank

end

/-- The places of two trees of one shape correspond to each other in document order. -/
theorem Node.Alike.places {root root' : Node} (h : root.Alike Node.IsComment T T' root') :
    List.Forall₂ (Place.Alike T T') (root.places.filter (·.node.isCode))
      (root'.places.filter (·.node.isCode)) :=
  h.placesBelow .nil rfl

/-! ## What is around a place -/

theorem forall₂_ofAncestors {above above' : List Node}
    (h : List.Forall₂ (Node.Alike Node.IsComment T T') above above') :
    ∀ {position position' : List Nat}, rankOf above position = rankOf above' position' →
      List.Forall₂ (Place.Alike T T') (Place.ofAncestors above position.tail)
        (Place.ofAncestors above' position'.tail) := by
  induction h with
  | nil => exact fun _ => .nil
  | cons hn habove ih =>
    intro position position' hrank
    rw [rankOf, rankOf, List.cons.injEq] at hrank
    exact .cons ⟨hn, habove, hrank.2⟩ (ih hrank.2)

/-- What is around two places side by side is side by side. -/
theorem Place.Alike.outward {p p' : Place} (h : p.Alike T T' p') :
    List.Forall₂ (Place.Alike T T') p.outward p'.outward :=
  forall₂_ofAncestors h.ancestors h.rank

/-! ## Places of one rank -/

/-- A node that counts is found by the number of those in front of it that count. -/
theorem eq_of_countP_take {ns : List Node} {i j : Nat} {n m : Node} (hn : ns[i]? = some n)
    (hm : ns[j]? = some m) (hnCode : n.isCode = true) (hmCode : m.isCode = true)
    (h : (ns.take i).countP Node.isCode = (ns.take j).countP Node.isCode) : i = j := by
  have hlt : ∀ {i j : Nat} {n : Node}, ns[i]? = some n → n.isCode = true → i < j →
      (ns.take i).countP Node.isCode < (ns.take j).countP Node.isCode := by
    intro i j n hn hcode hij
    have hsucc : (ns.take (i + 1)).countP Node.isCode = (ns.take i).countP Node.isCode + 1 := by
      rw [List.take_add_one, hn, Option.toList_some, List.countP_append]
      simp [hcode]
    have hle : (ns.take (i + 1)).countP Node.isCode ≤ (ns.take j).countP Node.isCode :=
      (List.take_sublist_take_left hij).countP_le
    omega
  rcases Nat.lt_trichotomy i j with hij | hij | hij
  · have := hlt hn hnCode hij
    omega
  · exact hij
  · have := hlt hm hmCode hij
    omega

/-- Places of one tree with the same rank are the same, apart from comments. -/
theorem Place.In.eq_of_rank {root : Node} {p q : Place} (hp : p.In root) (hq : q.In root)
    (hpCode : ∀ n ∈ p.node :: p.ancestors, n.isCode = true)
    (hqCode : ∀ n ∈ q.node :: q.ancestors, n.isCode = true) (h : p.rank = q.rank) : p = q := by
  induction hp generalizing q with
  | root =>
    cases hq with
    | root => rfl
    | child => cases h
  | child hp hc ih =>
    cases hq with
    | root => cases h
    | child hq hd =>
      injection h with hcount habove
      cases ih hq (fun n hn => hpCode n (List.mem_cons_of_mem _ hn))
        (fun n hn => hqCode n (List.mem_cons_of_mem _ hn)) habove
      have hi := eq_of_countP_take hc hd (hpCode _ List.mem_cons_self)
        (hqCode _ List.mem_cons_self) hcount
      subst hi
      rw [hc] at hd
      cases hd
      rfl

theorem Place.Alike.symm {p p' : Place} (h : p.Alike T T' p') : p'.Alike T' T p :=
  ⟨h.node.symm, List.Forall₂.flip (List.Forall₂.imp (fun _ _ hn => hn.symm) h.ancestors),
    h.rank.symm⟩

theorem Place.Alike.isCode {p p' : Place} (h : p.Alike T T' p') :
    ∀ n ∈ p.node :: p.ancestors, n.isCode = true := by
  intro n hn
  rcases List.mem_cons.1 hn with rfl | hn
  · exact h.node.isCode
  · have hboth := h.ancestors.imp fun m m' hm => And.intro hm.isCode hm
    exact ((List.forall₂_and_left _ _).1 hboth).1 n hn

/-- Of places side by side, two are at one position if the others are. -/
theorem Place.Alike.position_iff {root root' : Node} {p p' q q' : Place} (hp : p.Alike T T' p')
    (hq : q.Alike T T' q') (hpIn : p.In root) (hqIn : q.In root) (hpIn' : p'.In root')
    (hqIn' : q'.In root') : p.position = q.position ↔ p'.position = q'.position := by
  constructor
  · intro h
    cases hpIn.ext hqIn h
    have hrank : p'.rank = q'.rank := by rw [← hp.rank, hq.rank]
    rw [hpIn'.eq_of_rank hqIn' hp.symm.isCode hq.symm.isCode hrank]
  · intro h
    cases hpIn'.ext hqIn' h
    have hrank : p.rank = q.rank := by rw [hp.rank, ← hq.rank]
    rw [hpIn.eq_of_rank hqIn hp.isCode hq.isCode hrank]

end Tracepoint.Java
