import Mathlib.Tactic.Common
import Tracepoint.Model.Build

/-!
# What a language level refuses

The search for a construct above the level comes past every node of a tree once, in document
order, and ends. So a tree is accepted exactly if it has no construct that the table bars at the
level, and otherwise the first one is named, with the first entry of the table that bars it.

Results:

* `Shape.Cursor.find?_eq`, `Shape.find?_eq`: searching a tree is searching the list of its nodes.
* `map_kind_shape`: the nodes of a shape are the places of its syntax tree.
* `firstAbove?_eq_some_iff`: what is found.
* `checkLevel_eq_ok_iff`: the units that are accepted.
* `checkGates_exact`: what is refused, for every table, every tree and every level.
-/

namespace Tracepoint.Java

/-! ## Document order -/

namespace Shape

mutual

/-- All nodes of a tree in document order. -/
def preorder : Shape → List Shape
  | mk k cs => mk k cs :: preorderAll cs

/-- All nodes of some trees in document order. -/
def preorderAll : List Shape → List Shape
  | [] => []
  | n :: ns => n.preorder ++ preorderAll ns

end

theorem preorder_eq (n : Shape) : n.preorder = n :: preorderAll n.children := by
  cases n
  rfl

namespace Cursor

/-- The nodes after the ancestors' own trees. -/
def comingAbove : List (Shape × List Shape) → List Shape
  | [] => []
  | (_, after) :: above => preorderAll after ++ comingAbove above

/-- The nodes after a cursor's own tree. -/
def later (c : Cursor) : List Shape := preorderAll c.after ++ comingAbove c.above

/-- The nodes from a cursor on. -/
def coming (c : Cursor) : List Shape := c.node.preorder ++ c.later

theorem coming_of_firstChild? {c child : Cursor} (h : c.firstChild? = some child) :
    c.coming = c.node :: child.coming := by
  obtain ⟨⟨k, _ | ⟨n, ns⟩⟩, after, above⟩ := c
  · cases h
  · cases h
    simp [coming, later, comingAbove, preorder, preorderAll]

theorem coming_of_leaf {c : Cursor} (h : c.firstChild? = none) : c.coming = c.node :: c.later := by
  obtain ⟨⟨k, _ | ⟨n, ns⟩⟩, after, above⟩ := c
  · rfl
  · cases h

/-- The way on leads to what comes later. -/
theorem later_eq (c : Cursor) : c.later = c.onward?.elim [] coming := by
  fun_induction onward? c with
  | case1 c next hnext =>
    obtain ⟨node, _ | ⟨n, ns⟩, above⟩ := c
    · cases hnext
    · cases hnext
      simp [coming, later, preorderAll]
  | case2 c hnone p hparent ih =>
    rw [← ih]
    obtain ⟨node, _ | ⟨n, ns⟩, _ | ⟨⟨m, ms⟩, above⟩⟩ := c
    · cases hparent
    · cases hparent
      rfl
    · cases hparent
    · cases hnone
  | case3 c hnone hparent =>
    obtain ⟨node, _ | ⟨n, ns⟩, _ | ⟨⟨m, ms⟩, above⟩⟩ := c
    · rfl
    · cases hparent
    · cases hnone
    · cases hparent

/-- Searching from a cursor on is searching the list of the nodes that come. -/
theorem find?_eq (test : Shape → Bool) (c : Cursor) : c.find? test = c.coming.find? test := by
  fun_induction find? test c with
  | case1 c h => rw [coming, preorder_eq, List.cons_append, List.find?_cons_of_pos h]
  | case2 c h child hchild ih =>
    rw [coming_of_firstChild? hchild, List.find?_cons_of_neg h, ih]
  | case3 c h hleaf next honward ih =>
    rw [coming_of_leaf hleaf, List.find?_cons_of_neg h, later_eq, honward, ih]
    rfl
  | case4 c h hleaf honward =>
    rw [coming_of_leaf hleaf, List.find?_cons_of_neg h, later_eq, honward]
    rfl

end Cursor

/-- Searching a tree is searching the list of its nodes. -/
theorem find?_eq (test : Shape → Bool) (root : Shape) :
    root.find? test = root.preorder.find? test := by
  rw [find?, Cursor.find?_eq]
  simp [Cursor.coming, Cursor.later, Cursor.ofRoot, Cursor.comingAbove, preorderAll]

end Shape

/-! ## Syntax trees -/

mutual

theorem map_kind_placesBelow (above : List Node) (position : List Nat) :
    ∀ n : Node, n.shape.preorder.map (·.kind) =
      (n.placesBelow above position).map (·.node.kind.label)
  | .mk k r s cs => by
    rw [Node.shape, Shape.preorder, Node.placesBelow, List.map_cons, List.map_cons,
      map_kind_placesBelowAll (.mk k r s cs :: above) position 0 cs]
    rfl

theorem map_kind_placesBelowAll (above : List Node) (position : List Nat) (i : Nat) :
    ∀ ns : List Node, (Shape.preorderAll (Node.shapes ns)).map (·.kind) =
      (Node.placesBelowAll above position i ns).map (·.node.kind.label)
  | [] => rfl
  | n :: ns => by
    rw [Node.shapes, Shape.preorderAll, Node.placesBelowAll, List.map_append, List.map_append,
      map_kind_placesBelow above (i :: position) n,
      map_kind_placesBelowAll above position (i + 1) ns]

end

/-- The nodes of a shape are the places of its syntax tree, in the same order. -/
theorem map_kind_shape (root : Node) :
    root.shape.preorder.map (·.kind) = root.places.map (·.node.kind.label) :=
  map_kind_placesBelow [] [] root

end Tracepoint.Java

namespace Tracepoint.Model

open Java

/-! ## What is barred -/

/-- An entry bars a kind at a level. -/
def Gate.Bars (level : UInt32) (kind : String) (g : Gate) : Prop := g.kind = kind ∧ level < g.level

/-- A table bars a node at a level. -/
def Barred (gates : List Gate) (level : UInt32) (n : Shape) : Prop :=
  ∃ g ∈ gates, g.Bars level n.kind

/-- The first in a list with a property. -/
def IsFirst {α : Type} (P : α → Prop) (xs : List α) (x : α) : Prop :=
  ∃ before after, xs = before ++ x :: after ∧ P x ∧ ∀ y ∈ before, ¬ P y

theorem find?_eq_some_iff_isFirst {α : Type} {test : α → Bool} {P : α → Prop}
    (hP : ∀ x, test x = true ↔ P x) {xs : List α} {x : α} :
    xs.find? test = some x ↔ IsFirst P xs x := by
  rw [List.find?_eq_some_iff_append, IsFirst, hP]
  constructor
  · rintro ⟨hx, before, after, rfl, hbefore⟩
    exact ⟨before, after, rfl, hx, fun y hy => by rw [← hP]; simpa using hbefore y hy⟩
  · rintro ⟨before, after, rfl, hx, hbefore⟩
    exact ⟨hx, before, after, rfl, fun y hy => by simpa [← hP] using hbefore y hy⟩

variable {gates : List Gate} {root : Shape} {level : UInt32}

theorem barred_iff (n : Shape) :
    (gatesAbove gates level).any (·.kind = n.kind) = true ↔ Barred gates level n := by
  rw [gatesAbove, List.any_filter, List.any_eq_true, Barred]
  refine exists_congr fun g => and_congr_right fun _ => ?_
  rw [Bool.and_eq_true, decide_eq_true_eq, decide_eq_true_eq, and_comm]
  rfl

/-- Both lookups are in the same entries: what is barred has a first entry that bars it. -/
theorem find?_gatesAbove {kind : String} {g : Gate} :
    (gatesAbove gates level).find? (·.kind = kind) = some g ↔ IsFirst (·.Bars level kind) gates g := by
  rw [gatesAbove, List.find?_filter]
  refine find?_eq_some_iff_isFirst fun g => ?_
  rw [decide_eq_true_eq, decide_eq_true_eq, decide_eq_true_eq, and_comm]
  rfl

/-- An empty table needs no search, and a search with it would find nothing. -/
theorem firstAbove?_eq (gates : List Gate) (root : Shape) (level : UInt32) :
    firstAbove? gates root level =
      (root.preorder.find? fun n => (gatesAbove gates level).any (·.kind = n.kind)).map fun n =>
        ((gatesAbove gates level).find? (·.kind = n.kind)).getD (.unnamed (level + 1)) := by
  unfold firstAbove?
  simp only [Shape.find?_eq]
  split_ifs with hempty
  · rw [List.isEmpty_iff.1 hempty, List.find?_eq_none.2 (by simp)]
    rfl
  · rfl

/-- What is found is the first node that is barred, with the first entry that bars it. -/
theorem firstAbove?_eq_some_iff {g : Gate} :
    firstAbove? gates root level = some g ↔
      ∃ n, IsFirst (Barred gates level) root.preorder n ∧ IsFirst (·.Bars level n.kind) gates g := by
  rw [firstAbove?_eq, Option.map_eq_some_iff]
  refine exists_congr fun n => ?_
  rw [find?_eq_some_iff_isFirst barred_iff]
  refine and_congr_right fun hn => ?_
  rw [← find?_gatesAbove]
  -- the entry is there, for otherwise the node would not have been found
  obtain ⟨-, -, -, hbarred, -⟩ := hn
  obtain ⟨g', hg'⟩ : ∃ g', (gatesAbove gates level).find? (·.kind = n.kind) = some g' := by
    rw [← Option.isSome_iff_exists, List.find?_isSome]
    simpa using (barred_iff n).2 hbarred
  rw [hg', Option.getD_some, Option.some.injEq]

theorem firstAbove?_eq_none_iff :
    firstAbove? gates root level = none ↔ ∀ n ∈ root.preorder, ¬ Barred gates level n := by
  rw [firstAbove?_eq, Option.map_eq_none_iff, List.find?_eq_none]
  exact forall₂_congr fun n _ => not_congr (barred_iff n)

/-! ## What is refused -/

theorem checkGates_eq_ok_iff {path : Path} :
    checkGates gates root path level = .ok () ↔ ∀ n ∈ root.preorder, ¬ Barred gates level n := by
  rw [← firstAbove?_eq_none_iff, checkGates]
  split <;> rename_i h <;> simp [h]

theorem checkGates_eq_error_iff {path : Path} {e : Error} :
    checkGates gates root path level = .error e ↔
      ∃ g, firstAbove? gates root level = some g ∧
        e = .compliance path g.label g.level.toNat level.toNat := by
  rw [checkGates]
  split <;> rename_i h <;> simp [h, eq_comm]

/-- A unit is accepted exactly if it has no construct above the level, anywhere in its tree. -/
theorem checkLevel_eq_ok_iff {u : Source.CompilationUnit} {level : Nat} (hlevel : level < UInt32.size)
    (hfeatures : ∀ f ∈ u.language.features, f.level < UInt32.size) :
    checkLevel u level = .ok () ↔
      ∀ p ∈ u.parsed.root.places, ∀ f ∈ u.language.features,
        f.kind.label = p.node.kind.label → f.level ≤ level := by
  have hkinds : ∀ P : String → Prop, (∀ n ∈ u.parsed.root.shape.preorder, P n.kind) ↔
      ∀ p ∈ u.parsed.root.places, P p.node.kind.label := by
    intro P
    rw [← List.forall_mem_map, map_kind_shape, List.forall_mem_map]
  rw [checkLevel, checkGates_eq_ok_iff]
  simp only [Barred, Gate.Bars, not_exists, not_and, UInt32.not_lt, List.forall_mem_map]
  rw [hkinds fun kind => ∀ f ∈ u.language.features, (Gate.ofFeature f).kind = kind →
    (Gate.ofFeature f).level ≤ level.toUInt32]
  refine forall₂_congr fun p _ => forall₂_congr fun f hf => imp_congr_right fun _ => ?_
  show UInt32.ofNat f.level ≤ UInt32.ofNat level ↔ f.level ≤ level
  rw [UInt32.le_iff_toNat_le, UInt32.toNat_ofNat_of_lt' (hfeatures f hf),
    UInt32.toNat_ofNat_of_lt' hlevel]

/-- What is barred at a level is barred at every lower one. -/
theorem Barred.mono {level' : UInt32} {n : Shape} (h : Barred gates level' n)
    (hle : level ≤ level') : Barred gates level n := by
  obtain ⟨g, hg, hkind, hlevel⟩ := h
  exact ⟨g, hg, hkind, UInt32.lt_of_le_of_lt hle hlevel⟩

/-- A tree is accepted exactly if the table bars none of its nodes at the level. Otherwise the
    error names the first node that it bars, in document order, by the first entry that bars it,
    and there is a level after the one that is asked for. What is accepted at a level is accepted
    at every higher one. -/
theorem checkGates_exact (gates : List Gate) (root : Shape) (path : Path) (level : UInt32) :
    (checkGates gates root path level = .ok () ↔
      ∀ n ∈ root.preorder, ∀ g ∈ gates, g.kind = n.kind → g.level ≤ level) ∧
    (∀ e, checkGates gates root path level = .error e ↔
      ∃ n g, IsFirst (Barred gates level) root.preorder n ∧ IsFirst (·.Bars level n.kind) gates g ∧
        e = .compliance path g.label g.level.toNat level.toNat) ∧
    (∀ e, checkGates gates root path level = .error e →
      (level + 1).toNat = level.toNat + 1) ∧
    ∀ level', level ≤ level' → checkGates gates root path level = .ok () →
      checkGates gates root path level' = .ok () := by
  refine ⟨?_, fun e => ?_, fun e he => ?_, fun level' hle hok => ?_⟩
  · rw [checkGates_eq_ok_iff]
    refine forall₂_congr fun n _ => ?_
    simp only [Barred, Gate.Bars, not_exists, not_and, UInt32.not_lt]
  · rw [checkGates_eq_error_iff]
    constructor
    · rintro ⟨g, hg, he⟩
      obtain ⟨n, hn, hfirst⟩ := firstAbove?_eq_some_iff.1 hg
      exact ⟨n, g, hn, hfirst, he⟩
    · rintro ⟨n, g, hn, hfirst, he⟩
      exact ⟨g, firstAbove?_eq_some_iff.2 ⟨n, hn, hfirst⟩, he⟩
  · obtain ⟨g, hg, -⟩ := checkGates_eq_error_iff.1 he
    obtain ⟨n, -, -, -, -, ⟨-, hlevel⟩, -⟩ := firstAbove?_eq_some_iff.1 hg
    -- the level of the entry is a 32-bit number above the level that is asked for
    have hlt := UInt32.lt_iff_toNat_lt.1 hlevel
    have hbound := g.level.toNat_lt
    rw [UInt32.toNat_add, Nat.mod_eq_of_lt]
    · rfl
    · simp
      omega
  · rw [checkGates_eq_ok_iff] at hok ⊢
    exact fun n hn hbarred => hok n hn (hbarred.mono hle)

end Tracepoint.Model
