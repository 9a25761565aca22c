import Tracepoint.Java.Tree

/-!
# Searching a tree

Where only the kinds of nodes matter, a tree is a shape: kinds by their names, whatever a grammar
calls its nodes. A shape is searched with a cursor, which stands at a node and can move to its
first child, to its next sibling and to its parent. It comes past every node in document order,
and ends when there is no way on.

Results:

* `Shape.Cursor.left_firstChild?`, `Shape.Cursor.left_onward?`: with every move there is less left
  to come past.
-/

namespace Tracepoint.Java

/-- A tree of which only the kinds of nodes are known. -/
inductive Shape where
  | mk (kind : String) (children : List Shape)
deriving Repr, Inhabited

namespace Shape

def kind : Shape → String
  | mk k _ => k

def children : Shape → List Shape
  | mk _ cs => cs

mutual

/-- The number of nodes. -/
def size : Shape → Nat
  | mk _ cs => 1 + sizeAll cs

/-- The number of nodes of some trees. -/
def sizeAll : List Shape → Nat
  | [] => 0
  | n :: ns => n.size + sizeAll ns

end

/-! ## Cursors -/

/-- A node with what a cursor can move to from there. -/
structure Cursor where
  node : Shape
  /-- The siblings after the node. -/
  after : List Shape
  /-- The ancestors, innermost first, each with the siblings after it. -/
  above : List (Shape × List Shape)
deriving Repr, Inhabited

namespace Cursor

variable (c : Cursor)

def ofRoot (root : Shape) : Cursor := ⟨root, [], []⟩

def firstChild? : Option Cursor :=
  match c.node.children with
  | [] => none
  | n :: ns => some ⟨n, ns, (c.node, c.after) :: c.above⟩

def nextSibling? : Option Cursor :=
  match c.after with
  | [] => none
  | n :: ns => some ⟨n, ns, c.above⟩

def parent? : Option Cursor :=
  match c.above with
  | [] => none
  | (n, after) :: above => some ⟨n, after, above⟩

theorem length_parent? {c p : Cursor} (h : c.parent? = some p) :
    p.above.length < c.above.length := by
  obtain ⟨node, after, _ | ⟨⟨n, ns⟩, above⟩⟩ := c
  · cases h
  · cases h
    exact Nat.lt_succ_self _

/-- The next sibling of the node, or of the innermost ancestor that has one. -/
def onward? (c : Cursor) : Option Cursor :=
  match c.nextSibling? with
  | some next => some next
  | none =>
    match _hparent : c.parent? with
    | some p => p.onward?
    | none => none
  termination_by c.above.length
  decreasing_by exact length_parent? _hparent

/-! ## Searching -/

/-- The number of nodes after the ancestors' own trees. -/
def restAbove : List (Shape × List Shape) → Nat
  | [] => 0
  | (_, after) :: above => sizeAll after + restAbove above

/-- The number of nodes after a cursor's own tree. -/
def rest : Nat := sizeAll c.after + restAbove c.above

/-- The number of nodes from a cursor on. -/
def left : Nat := c.node.size + c.rest

theorem left_firstChild? {c child : Cursor} (h : c.firstChild? = some child) :
    child.left < c.left := by
  obtain ⟨⟨k, _ | ⟨n, ns⟩⟩, after, above⟩ := c
  · cases h
  · cases h
    simp only [left, rest, restAbove, size, sizeAll]
    omega

theorem left_onward?_le {c next : Cursor} (h : c.onward? = some next) : next.left ≤ c.rest := by
  fun_induction onward? c with
  | case1 c found hnext =>
    cases h
    obtain ⟨node, _ | ⟨n, ns⟩, above⟩ := c
    · cases hnext
    · cases hnext
      simp only [left, rest, sizeAll]
      omega
  | case2 c hnone p hp ih =>
    refine Nat.le_trans (ih h) ?_
    obtain ⟨node, after, _ | ⟨⟨m, ms⟩, above⟩⟩ := c
    · cases hp
    · cases hp
      exact Nat.le_add_left _ _
  | case3 => cases h

theorem left_onward? {c next : Cursor} (h : c.onward? = some next) : next.left < c.left := by
  have hle := left_onward?_le h
  have hnode : 0 < c.node.size := by
    obtain ⟨⟨k, cs⟩, after, above⟩ := c
    exact Nat.lt_of_lt_of_le Nat.zero_lt_one (Nat.le_add_right _ _)
  exact Nat.lt_of_le_of_lt hle (Nat.lt_add_of_pos_left hnode)

/-- The first node from a cursor on that a test accepts. -/
def find? (test : Shape → Bool) (c : Cursor) : Option Shape :=
  if test c.node then some c.node
  else
    match _hchild : c.firstChild? with
    | some child => find? test child
    | none =>
      match _honward : c.onward? with
      | some next => find? test next
      | none => none
  termination_by c.left
  decreasing_by
    · exact left_firstChild? _hchild
    · exact left_onward? _honward

end Cursor

/-- The first node of a tree that a test accepts. -/
def find? (test : Shape → Bool) (root : Shape) : Option Shape := (Cursor.ofRoot root).find? test

end Shape

/-! ## The shape of a syntax tree -/

mutual

/-- The shape of a syntax tree. -/
def Node.shape : Node → Shape
  | .mk k _ _ cs => .mk k.label (Node.shapes cs)

/-- The shapes of syntax trees. -/
def Node.shapes : List Node → List Shape
  | [] => []
  | n :: ns => n.shape :: Node.shapes ns

end

end Tracepoint.Java
