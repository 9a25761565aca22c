import Tracepoint.Proofs.Java.Ordered

/-!
# Places in document order

The position of a place ends with the positions of all places around it. The places at and below a
node stand together in document order. In a tree in order, two places that are no comments either
stand one in the other, and then so do their ranges, or their ranges follow each other.

Results:

* `Place.In.mem_placesBelow_iff`: the places below a place are those around which it stands.
* `Place.In.exists_places_eq`: where the places below a place stand in document order.
* `Place.In.encloses`, `Place.In.nested_or_apart`: the ranges of places of a tree in order.
* `Node.pairwise_start_places`: in document order places start one after the other.
-/

namespace Tracepoint.Java

/-! ## Positions -/

mutual

theorem suffix_of_mem_placesBelow {above : List Node} {position : List Nat} {p : Place} :
    ∀ n : Node, p ∈ n.placesBelow above position → position <:+ p.position
  | .mk k r s cs, hp => by
    rw [Node.placesBelow] at hp
    rcases List.mem_cons.1 hp with rfl | hp
    · exact List.suffix_refl _
    · obtain ⟨j, -, -, hj⟩ := suffix_of_mem_placesBelowAll cs hp
      exact (List.suffix_cons j position).trans hj

theorem suffix_of_mem_placesBelowAll {above : List Node} {position : List Nat} {p : Place}
    {i : Nat} : ∀ ns : List Node, p ∈ Node.placesBelowAll above position i ns →
      ∃ j, i ≤ j ∧ j < i + ns.length ∧ j :: position <:+ p.position
  | [], hp => by simp [Node.placesBelowAll] at hp
  | n :: ns, hp => by
    rw [Node.placesBelowAll] at hp
    rcases List.mem_append.1 hp with hp | hp
    · exact ⟨i, Nat.le_refl i, by simp, suffix_of_mem_placesBelow n hp⟩
    · obtain ⟨j, hij, hlt, hj⟩ := suffix_of_mem_placesBelowAll ns hp
      exact ⟨j, by omega, by rw [List.length_cons]; omega, hj⟩

end

/-- A position ends in one way with a position and one index more. -/
theorem index_eq_of_suffix {i j : Nat} {position positions : List Nat}
    (hi : i :: position <:+ positions) (hj : j :: position <:+ positions) : i = j := by
  have heq := (List.suffix_of_suffix_length_le hi hj (by simp)).eq_of_length (by simp)
  injection heq

theorem not_suffix_self (i : Nat) (position : List Nat) : ¬ i :: position <:+ position := by
  intro h
  have hlength := h.length_le
  rw [List.length_cons] at hlength
  omega

namespace Place

variable {root : Node} {p q : Place}

/-- What is around a place has a position that its position ends with. -/
theorem In.suffix_of_mem_outward (hp : p.In root) (hq : q ∈ p.outward) :
    q.position <:+ p.position := by
  induction hp with
  | root => cases hq
  | child hp _ ih =>
    rw [outward_child] at hq
    rcases List.mem_cons.1 hq with rfl | hq
    · exact List.suffix_cons _ _
    · exact (ih hq).trans (List.suffix_cons _ _)

/-- The places at and below a place are those whose positions end with its position. -/
theorem In.mem_placesBelow_iff (hp : p.In root) (hq : q.In root) :
    q ∈ p.node.placesBelow p.ancestors p.position ↔ p.position <:+ q.position := by
  constructor
  · exact suffix_of_mem_placesBelow p.node
  · intro h
    have hself := mem_placesBelow_self p.ancestors p.position p.node
    induction hq with
    | root =>
      obtain rfl := In.root.ext hp (List.suffix_nil.1 h).symm
      exact hself
    | child hq hc ih =>
      rcases List.suffix_cons_iff.1 h with h | h
      · obtain rfl := (hq.child hc).ext hp h.symm
        exact hself
      · exact child_mem_placesBelow hc p.node (ih h)

/-- A place in another one is in a child of it. -/
theorem In.exists_child (hp : p.In root) (hq : q.In root) (h : p.position <:+ q.position) :
    q = p ∨ ∃ i c, p.node.children[i]? = some c ∧ i :: p.position <:+ q.position := by
  induction hq with
  | root => exact .inl (In.root.ext hp (List.suffix_nil.1 h).symm)
  | child hq hc ih =>
    rcases List.suffix_cons_iff.1 h with h | h
    · exact .inl ((hq.child hc).ext hp h.symm)
    · rcases ih h with rfl | ⟨i, d, hd, hsuffix⟩
      · exact .inr ⟨_, _, hc, List.suffix_refl _⟩
      · exact .inr ⟨i, d, hd, hsuffix.trans (List.suffix_cons _ _)⟩

end Place

/-! ## Document order -/

theorem placesBelowAll_append (above : List Node) (position : List Nat) (i : Nat)
    (ns ms : List Node) :
    Node.placesBelowAll above position i (ns ++ ms) =
      Node.placesBelowAll above position i ns ++
        Node.placesBelowAll above position (i + ns.length) ms := by
  induction ns generalizing i with
  | nil => simp [Node.placesBelowAll]
  | cons n ns ih =>
    rw [List.cons_append, Node.placesBelowAll, ih, Node.placesBelowAll, List.append_assoc,
      List.length_cons, Nat.add_assoc, Nat.add_comm 1]

/-- The places below a node are those of the children in front of a child, those at and below that
    child and those of the children after it. -/
theorem placesBelow_of_child {n c : Node} {i : Nat} (hc : n.children[i]? = some c)
    (above : List Node) (position : List Nat) :
    n.placesBelow above position = ⟨n, above, position⟩ ::
      (Node.placesBelowAll (n :: above) position 0 (n.children.take i) ++
        (c.placesBelow (n :: above) (i :: position) ++
          Node.placesBelowAll (n :: above) position (i + 1) (n.children.drop (i + 1)))) := by
  obtain ⟨hlt, hget⟩ := List.getElem?_eq_some_iff.1 hc
  have hchildren : n.children = n.children.take i ++ c :: n.children.drop (i + 1) := by
    rw [← hget, List.getElem_cons_drop, List.take_append_drop]
  have hlength : (n.children.take i).length = i := by
    rw [List.length_take]
    omega
  have hsplit := placesBelowAll_append (n :: above) position 0 (n.children.take i)
    (c :: n.children.drop (i + 1))
  rw [← hchildren, hlength, Nat.zero_add, Node.placesBelowAll] at hsplit
  rw [← hsplit]
  cases n
  rw [Node.placesBelow, Node.children]

/-- The places at and below a place stand together, and none of those in front of them is below
    the place. -/
theorem Place.In.exists_places_eq {root : Node} {p : Place} (hp : p.In root) :
    ∃ before after,
      root.places = before ++ p.node.placesBelow p.ancestors p.position ++ after ∧
        ∀ q ∈ before, ¬ p.position <:+ q.position := by
  induction hp with
  | root => exact ⟨[], [], by simp [Node.places], by simp⟩
  | @child n c above position i hp hc ih =>
    obtain ⟨before, after, hplaces, hbefore⟩ := ih
    refine ⟨before ++ ⟨n, above, position⟩ ::
        Node.placesBelowAll (n :: above) position 0 (n.children.take i),
      Node.placesBelowAll (n :: above) position (i + 1) (n.children.drop (i + 1)) ++ after, ?_,
      fun q hq hsuffix => ?_⟩
    · rw [hplaces, placesBelow_of_child hc]
      simp only [List.append_assoc, List.cons_append]
    · rcases List.mem_append.1 hq with hq | hq
      · exact hbefore q hq ((List.suffix_cons i position).trans hsuffix)
      · rcases List.mem_cons.1 hq with rfl | hq
        · exact not_suffix_self i position hsuffix
        · obtain ⟨j, -, hj, hjsuffix⟩ := suffix_of_mem_placesBelowAll _ hq
          rw [List.length_take] at hj
          have hij := index_eq_of_suffix hsuffix hjsuffix
          omega

mutual

/-- No position is listed twice. -/
theorem pairwise_placesBelow {above : List Node} {position : List Nat} :
    ∀ n : Node, (n.placesBelow above position).Pairwise fun p q => p.position ≠ q.position
  | .mk k r s cs => by
    rw [Node.placesBelow]
    refine List.pairwise_cons.2 ⟨fun q hq heq => ?_, pairwise_placesBelowAll cs⟩
    obtain ⟨j, -, -, hj⟩ := suffix_of_mem_placesBelowAll cs hq
    rw [← heq] at hj
    exact not_suffix_self j position hj

theorem pairwise_placesBelowAll {above : List Node} {position : List Nat} {i : Nat} :
    ∀ ns : List Node,
      (Node.placesBelowAll above position i ns).Pairwise fun p q => p.position ≠ q.position
  | [] => by simp [Node.placesBelowAll]
  | n :: ns => by
    rw [Node.placesBelowAll]
    refine List.pairwise_append.2
      ⟨pairwise_placesBelow n, pairwise_placesBelowAll ns, fun p hp q hq heq => ?_⟩
    obtain ⟨j, hij, -, hj⟩ := suffix_of_mem_placesBelowAll ns hq
    have hi := suffix_of_mem_placesBelow n hp
    rw [heq] at hi
    have hindex := index_eq_of_suffix hi hj
    omega

end

theorem Node.pairwise_places (root : Node) :
    root.places.Pairwise fun p q => p.position ≠ q.position :=
  pairwise_placesBelow root

/-! ## Ranges -/

theorem Span.Encloses.refl (s : Span) : s.Encloses s := ⟨Nat.le_refl _, Nat.le_refl _⟩

theorem Span.Encloses.trans {s t u : Span} (h : s.Encloses t) (h' : t.Encloses u) :
    s.Encloses u :=
  ⟨h.start.trans h'.start, h'.stop.trans h.stop⟩

/-- A node with a part is no comment. -/
theorem Node.Ordered.isCode_of_mem {n c : Node} (h : n.Ordered) (hc : c ∈ n.children)
    (hcode : c.isCode = true) : n.isCode = true := by
  by_contra hn
  have hmem := Node.mem_parts hc hcode
  rw [h.comment (by simpa using hn)] at hmem
  cases hmem

/-- Children that are no comments follow each other. -/
theorem Node.Ordered.stop_le {n c d : Node} (h : n.Ordered) {i j : Nat} (hij : i < j)
    (hc : n.children[i]? = some c) (hd : n.children[j]? = some d) (hcCode : c.isCode = true)
    (hdCode : d.isCode = true) : c.span.stop ≤ d.span.start := by
  have hpairwise := h.apart
  rw [Node.parts, List.pairwise_map, List.pairwise_filter] at hpairwise
  obtain ⟨hi, rfl⟩ := List.getElem?_eq_some_iff.1 hc
  obtain ⟨hj, rfl⟩ := List.getElem?_eq_some_iff.1 hd
  exact List.pairwise_iff_getElem.1 hpairwise i j hi hj hij hcCode hdCode

namespace Place

variable {root : Node} {p q : Place}

/-- A place around another one that is no comment is none, and its range is around the other. -/
theorem In.encloses (h : root.All Node.Ordered) (hp : p.In root) (hq : q.In root)
    (hcode : q.node.isCode = true) (hsuffix : p.position <:+ q.position) :
    p.node.isCode = true ∧ p.node.span.Encloses q.node.span := by
  induction hq with
  | root =>
    obtain rfl := In.root.ext hp (List.suffix_nil.1 hsuffix).symm
    exact ⟨hcode, .refl _⟩
  | child hq hc ih =>
    rcases List.suffix_cons_iff.1 hsuffix with hsuffix | hsuffix
    · obtain rfl := (hq.child hc).ext hp hsuffix.symm
      exact ⟨hcode, .refl _⟩
    · have hparent := (h.places _ (Node.mem_places_iff.2 hq)).here
      have hmem := List.mem_of_getElem? hc
      obtain ⟨hpCode, hencloses⟩ := ih (hparent.isCode_of_mem hmem hcode) hsuffix
      exact ⟨hpCode, hencloses.trans (hparent.inside _ (Node.mem_parts hmem hcode))⟩

/-- Of two places that are no comments, one is around the other, or their ranges follow each
    other. -/
theorem In.nested_or_apart (h : root.All Node.Ordered) (hp : p.In root) (hq : q.In root)
    (hpCode : p.node.isCode = true) (hqCode : q.node.isCode = true) :
    p.position <:+ q.position ∨ q.position <:+ p.position ∨
      p.node.span.stop ≤ q.node.span.start ∨ q.node.span.stop ≤ p.node.span.start := by
  induction hp with
  | root => exact .inl (List.nil_suffix)
  | @child n c above position i hp hc ih =>
    have hn := (h.places _ (Node.mem_places_iff.2 hp)).here
    have hmem := List.mem_of_getElem? hc
    have hencloses := hn.inside _ (Node.mem_parts hmem hpCode)
    rcases ih (hn.isCode_of_mem hmem hpCode) with hsuffix | hsuffix | hapart | hapart
    · rcases hp.exists_child hq hsuffix with rfl | ⟨j, d, hd, hj⟩
      · exact .inr (.inl (List.suffix_cons _ _))
      · obtain ⟨hdCode, hdq⟩ := In.encloses h (hp.child hd) hq hqCode hj
        rcases Nat.lt_trichotomy i j with hij | rfl | hij
        · exact .inr (.inr (.inl ((hn.stop_le hij hc hd hpCode hdCode).trans hdq.start)))
        · exact .inl hj
        · exact .inr (.inr (.inr (hdq.stop.trans (hn.stop_le hij hd hc hdCode hpCode))))
    · exact .inr (.inl (hsuffix.trans (List.suffix_cons _ _)))
    · exact .inr (.inr (.inl (hencloses.stop.trans hapart)))
    · exact .inr (.inr (.inr (hapart.trans hencloses.start)))

end Place

section Starts

variable {root : Node} (h : root.All Node.Ordered)
include h

mutual

/-- Places that are no comments start one after the other in document order. -/
theorem pairwise_start_placesBelow {above : List Node} {position : List Nat} :
    ∀ n : Node, Place.In root ⟨n, above, position⟩ →
      (n.placesBelow above position).Pairwise fun p q =>
        p.node.isCode = true → q.node.isCode = true → p.node.span.start ≤ q.node.span.start
  | .mk k r s cs, hn => by
    rw [Node.placesBelow]
    refine List.pairwise_cons.2 ⟨fun q hq _ hcode => ?_, pairwise_start_placesBelowAll hn cs 0 rfl⟩
    have hmem : q ∈ (Node.mk k r s cs).placesBelow above position := by
      rw [Node.placesBelow]
      exact List.mem_cons_of_mem _ hq
    exact (Place.In.encloses h hn (Place.In.placesBelow _ hn q hmem) hcode
      (suffix_of_mem_placesBelow _ hmem)).2.start

theorem pairwise_start_placesBelowAll {n : Node} {above : List Node} {position : List Nat}
    (hn : Place.In root ⟨n, above, position⟩) :
    ∀ (ns : List Node) (i : Nat), n.children.drop i = ns →
      (Node.placesBelowAll (n :: above) position i ns).Pairwise fun p q =>
        p.node.isCode = true → q.node.isCode = true → p.node.span.start ≤ q.node.span.start
  | [], _, _ => by simp [Node.placesBelowAll]
  | c :: cs, i, hns => by
    have hchild : ∀ j d, (c :: cs)[j]? = some d → n.children[i + j]? = some d := by
      intro j d hd
      rw [← hns, List.getElem?_drop] at hd
      exact hd
    have hc : n.children[i]? = some c := hchild 0 c rfl
    have hrest : n.children.drop (i + 1) = cs := by
      rw [← List.drop_drop, hns, List.drop_one, List.tail_cons]
    have hin : ∀ q ∈ Node.placesBelowAll (n :: above) position (i + 1) cs, q.In root := by
      refine Place.In.placesBelowAll cs fun j d hd => hn.child ?_
      rw [Nat.add_assoc, Nat.add_comm 1 j]
      exact hchild (j + 1) d hd
    rw [Node.placesBelowAll]
    refine List.pairwise_append.2 ⟨pairwise_start_placesBelow c (hn.child hc),
      pairwise_start_placesBelowAll hn cs (i + 1) hrest, fun p hp q hq hpCode hqCode => ?_⟩
    -- the first place is in this child and the second one in a later child
    have hpIn := Place.In.placesBelow c (hn.child hc) p hp
    obtain ⟨hcCode, hcp⟩ := Place.In.encloses h (hn.child hc) hpIn hpCode
      (suffix_of_mem_placesBelow c hp)
    obtain ⟨j, hij, hlt, hsuffix⟩ := suffix_of_mem_placesBelowAll cs hq
    have hlength := congrArg List.length hns
    rw [List.length_drop, List.length_cons] at hlength
    obtain ⟨d, hd⟩ : ∃ d, n.children[j]? = some d :=
      ⟨_, List.getElem?_eq_getElem (by omega)⟩
    obtain ⟨hdCode, hdq⟩ := Place.In.encloses h (hn.child hd) (hin q hq) hqCode hsuffix
    have hordered := (h.places _ (Node.mem_places_iff.2 hn)).here
    have hpForward := (h.places p (Node.mem_places_iff.2 hpIn)).here.forward
    calc p.node.span.start ≤ p.node.span.stop := hpForward
      _ ≤ c.span.stop := hcp.stop
      _ ≤ d.span.start := hordered.stop_le hij hc hd hcCode hdCode
      _ ≤ q.node.span.start := hdq.start

end

theorem Node.pairwise_start_places :
    root.places.Pairwise fun p q =>
      p.node.isCode = true → q.node.isCode = true → p.node.span.start ≤ q.node.span.start :=
  pairwise_start_placesBelow h root .root

end Starts

end Tracepoint.Java
