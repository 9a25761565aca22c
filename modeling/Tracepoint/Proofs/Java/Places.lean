import Mathlib.Tactic.Common
import Tracepoint.Java.Tree

/-!
# Places of a tree

A place of a tree is the place of its root, or that of a child of a node which has one.
So the places are closed under going outwards, a position belongs to one place, and the
index of a child in its parent is the first part of its position.

Results:

* `Node.mem_places_iff`: the listed places are those that can be reached.
* `Place.In.ext`: places of one tree with the same position are the same.
* `Place.In.outward`: what is around a place is a place.
-/

namespace Tracepoint.Java

/-- A place can be reached in a tree by going from nodes to their children. -/
inductive Place.In (root : Node) : Place → Prop
  | root : Place.In root ⟨root, [], []⟩
  | child {n c : Node} {above : List Node} {position : List Nat} {i : Nat} :
      Place.In root ⟨n, above, position⟩ → n.children[i]? = some c →
        Place.In root ⟨c, n :: above, i :: position⟩

/-! ## Listed places -/

mutual

theorem Place.In.placesBelow {root : Node} {above : List Node} {position : List Nat} :
    ∀ n : Node, Place.In root ⟨n, above, position⟩ →
      ∀ p ∈ n.placesBelow above position, p.In root
  | .mk k r s cs, h => by
    intro p hp
    rw [Node.placesBelow] at hp
    rcases List.mem_cons.1 hp with rfl | hp
    · exact h
    · refine Place.In.placesBelowAll cs (fun j c hc => ?_) p hp
      rw [Nat.zero_add]
      exact h.child hc

theorem Place.In.placesBelowAll {root : Node} {above : List Node} {position : List Nat} {i : Nat} :
    ∀ ns : List Node,
      (∀ j c, ns[j]? = some c → Place.In root ⟨c, above, (i + j) :: position⟩) →
        ∀ p ∈ Node.placesBelowAll above position i ns, p.In root
  | [], _ => by simp [Node.placesBelowAll]
  | n :: ns, h => by
    intro p hp
    rw [Node.placesBelowAll] at hp
    rcases List.mem_append.1 hp with hp | hp
    · exact Place.In.placesBelow n (h 0 n rfl) p hp
    · refine Place.In.placesBelowAll ns (fun j c hc => ?_) p hp
      rw [Nat.add_assoc, Nat.add_comm 1 j]
      exact h (j + 1) c hc

end

theorem mem_placesBelow_self (above : List Node) (position : List Nat) (n : Node) :
    ⟨n, above, position⟩ ∈ n.placesBelow above position := by
  cases n
  rw [Node.placesBelow]
  exact List.mem_cons_self

theorem mem_placesBelowAll {above : List Node} {position : List Nat} {n : Node} {ns : List Node} :
    ∀ {i j : Nat}, ns[j]? = some n → ∀ p ∈ n.placesBelow above ((i + j) :: position),
      p ∈ Node.placesBelowAll above position i ns := by
  induction ns with
  | nil => intro i j h; simp at h
  | cons m ns ih =>
    intro i j h p hp
    rw [Node.placesBelowAll, List.mem_append]
    cases j with
    | zero =>
      rw [List.getElem?_cons_zero, Option.some.injEq] at h
      subst h
      exact .inl hp
    | succ j =>
      rw [List.getElem?_cons_succ] at h
      refine .inr (ih h p ?_)
      rwa [Nat.add_assoc, Nat.add_comm 1 j]

mutual

/-- With a place, the places of its children are listed. -/
theorem child_mem_placesBelow {above : List Node} {position : List Nat} {q : Place} {i : Nat}
    {c : Node} (hc : q.node.children[i]? = some c) :
    ∀ n : Node, q ∈ n.placesBelow above position →
      ⟨c, q.node :: q.ancestors, i :: q.position⟩ ∈ n.placesBelow above position
  | .mk k r s cs, hq => by
    rw [Node.placesBelow] at hq ⊢
    refine List.mem_cons_of_mem _ ?_
    rcases List.mem_cons.1 hq with rfl | hq
    · refine mem_placesBelowAll hc _ ?_
      rw [Nat.zero_add]
      exact mem_placesBelow_self _ _ c
    · exact child_mem_placesBelowAll hc cs hq

theorem child_mem_placesBelowAll {above : List Node} {position : List Nat} {q : Place}
    {i j : Nat} {c : Node} (hc : q.node.children[i]? = some c) :
    ∀ ns : List Node, q ∈ Node.placesBelowAll above position j ns →
      ⟨c, q.node :: q.ancestors, i :: q.position⟩ ∈ Node.placesBelowAll above position j ns
  | [], hq => by simp [Node.placesBelowAll] at hq
  | n :: ns, hq => by
    rw [Node.placesBelowAll] at hq ⊢
    rcases List.mem_append.1 hq with hq | hq
    · exact List.mem_append_left _ (child_mem_placesBelow hc n hq)
    · exact List.mem_append_right _ (child_mem_placesBelowAll hc ns hq)

end

/-- The listed places of a tree are those that can be reached. -/
theorem Node.mem_places_iff {root : Node} {p : Place} : p ∈ root.places ↔ p.In root := by
  constructor
  · exact Place.In.placesBelow root .root p
  · intro h
    induction h with
    | root => exact mem_placesBelow_self [] [] root
    | child _ hc ih => exact child_mem_placesBelow hc root ih

/-! ## Positions and ancestors -/

namespace Place

/-- Places of one tree with the same position are the same. -/
theorem In.ext {root : Node} {p q : Place} (hp : p.In root) (hq : q.In root)
    (h : p.position = q.position) : p = q := by
  induction hp generalizing q with
  | root =>
    cases hq with
    | root => rfl
    | child => cases h
  | child _ hc ih =>
    cases hq with
    | root => cases h
    | child hq hd =>
      injection h with hi hposition
      subst hi
      cases ih hq hposition
      rw [hc] at hd
      cases hd
      rfl

theorem outward_child (n c : Node) (above : List Node) (position : List Nat) (i : Nat) :
    outward ⟨c, n :: above, i :: position⟩ =
      ⟨n, above, position⟩ :: outward ⟨n, above, position⟩ := rfl

/-- What is around a place is a place. -/
theorem In.outward {root : Node} {p q : Place} (hp : p.In root) (hq : q ∈ p.outward) :
    q.In root := by
  induction hp with
  | root => cases hq
  | child hp _ ih =>
    rw [outward_child] at hq
    rcases List.mem_cons.1 hq with rfl | hq
    · exact hp
    · exact ih hq

/-- The first place around another one is that of its parent. -/
theorem In.parent {root : Node} {p q : Place} {outer : List Place} (hp : p.In root)
    (hq : p.outward = q :: outer) :
    ∃ i, q.node.children[i]? = some p.node ∧ p.position = i :: q.position := by
  cases hp with
  | root => cases hq
  | child hp hc =>
    rw [outward_child, List.cons.injEq] at hq
    rw [← hq.1]
    exact ⟨_, hc, rfl⟩

/-- Around a place that is around another one is what is further out. -/
theorem outward_eq_of_append {p q : Place} {inner outer : List Place}
    (h : p.outward = inner ++ q :: outer) : q.outward = outer := by
  obtain ⟨n, ancestors, position⟩ := p
  rw [Place.outward] at h
  generalize position.tail = position at h
  simp only at h
  induction ancestors generalizing inner position with
  | nil => cases inner <;> cases h
  | cons m above ih =>
    rw [ofAncestors] at h
    cases inner with
    | nil =>
      cases h
      rfl
    | cons r inner =>
      injection h with _ h
      exact ih _ h

end Place

end Tracepoint.Java
