import Tracepoint.Proofs.Java.Sequence
import Tracepoint.Proofs.Source.Positions
import Tracepoint.Source.Naming

/-!
# Numbers of anonymous classes

The number of an anonymous class is found by a search through its scope that leaves out nodes which
start after it. In a tree in order the search comes to the creation of the class nevertheless:
everything in front of the creation in document order ends before it or is around it. So what the
search has counted by then are the creations of the scope in front of it, and the creations of a
scope are numbered from 1 in document order.

Results:

* `searchBelow_passed`, `searchBelow_reached`: the search through a tree that is in front of a
  creation, and through one that it stands in.
* `searchFor_eq`: where the search for a creation ends.
* `anonymousOrdinal_numbers`: the numbers of the anonymous classes of a scope.
-/

namespace Tracepoint

/-! ## Counting along a list -/

section

variable {α β : Type} [DecidableEq β] {f : α → β}

/-- What is taken up to an element stays the same when the list goes on. -/
theorem takeWhile_append_of_mem {p : α → Bool} {x : α} {xs : List α} (hx : x ∈ xs)
    (hp : p x = false) (ys : List α) : (xs ++ ys).takeWhile p = xs.takeWhile p := by
  induction xs with
  | nil => cases hx
  | cons y xs ih =>
    rw [List.cons_append, List.takeWhile_cons, List.takeWhile_cons]
    split_ifs with hy
    · rcases List.mem_cons.1 hx with rfl | hx
      · rw [hp] at hy
        cases hy
      · rw [ih hx]
    · rfl

/-- Elements that count are numbered by how many of them stand in front. -/
theorem map_count_takeWhile (counts : α → Bool) {xs : List α}
    (h : xs.Pairwise fun x y => f x ≠ f y) :
    (xs.filter counts).map (fun x => ((xs.takeWhile (f · ≠ f x)).filter counts).length + 1) =
      List.range' 1 (xs.filter counts).length := by
  -- the elements after a start of the list are numbered on from those in it
  have hfrom : ∀ rest before : List α, xs = before ++ rest →
      (rest.filter counts).map
          (fun x => ((xs.takeWhile (f · ≠ f x)).filter counts).length + 1) =
        List.range' ((before.filter counts).length + 1) (rest.filter counts).length := by
    intro rest
    induction rest with
    | nil => exact fun _ _ => rfl
    | cons x rest ih =>
      intro before hxs
      have hrest := ih (before ++ [x]) (by simpa using hxs)
      rw [List.filter_cons]
      split_ifs with hx
      · have hbefore : ∀ y ∈ before, decide (f y ≠ f x) = true := by
          rw [hxs] at h
          exact fun y hy => decide_eq_true ((List.pairwise_append.1 h).2.2 y hy x (by simp))
        have htake : xs.takeWhile (f · ≠ f x) = before := by
          rw [hxs, List.takeWhile_append_of_pos hbefore, List.takeWhile_cons_of_neg (by simp),
            List.append_nil]
        rw [List.map_cons, hrest, htake, List.length_cons, List.range'_succ]
        simp [hx]
      · rw [hrest]
        simp [hx]
  simpa using hfrom xs [] rfl

end

namespace Source

open Java

/-! ## What is in front of a creation -/

section

variable {root n : Node} {c p : Place} {above : List Node} {position : List Nat}

theorem isCode_of_isAnonymousCreation (h : isAnonymousCreation n = true) : n.isCode = true := by
  rw [isAnonymousCreation, Bool.and_eq_true, beq_iff_eq] at h
  exact decide_eq_true (by rw [h.1]; decide)

theorem isCode_of_isCounted (h : isCounted c p = true) : p.node.isCode = true := by
  rw [isCounted, Bool.and_eq_true] at h
  exact isCode_of_isAnonymousCreation h.1

/-- A place that a creation does not stand in and that ends before it. -/
structure Precedes (root : Node) (c p : Place) : Prop where
  isIn : p.In root
  outside : ¬ p.position <:+ c.position
  stop : p.node.isCode = true → p.node.span.stop ≤ c.node.span.start

/-- What precedes a creation does so with all that stands in it. -/
theorem Precedes.child (h : root.All Node.Ordered) (hn : Precedes root c ⟨n, above, position⟩)
    {m : Node} {i : Nat} (hm : n.children[i]? = some m) :
    Precedes root c ⟨m, n :: above, i :: position⟩ := by
  have hordered := (h.places _ (Node.mem_places_iff.2 hn.isIn)).here
  refine ⟨hn.isIn.child hm, fun hsuffix => ?_, fun hcode => ?_⟩
  · exact hn.outside ((List.suffix_cons i position).trans hsuffix)
  · have hmem := List.mem_of_getElem? hm
    exact (hordered.inside _ (Node.mem_parts hmem hcode)).stop.trans
      (hn.stop (hordered.isCode_of_mem hmem hcode))

/-- Children in front of the one that a creation stands in precede the creation. -/
theorem precedes_of_lt (h : root.All Node.Ordered) (hn : Place.In root ⟨n, above, position⟩)
    (hc : c.In root) (hcode : c.node.isCode = true) {m x : Node} {i j : Nat}
    (hm : n.children[j]? = some m) (hj : j :: position <:+ c.position) (hij : i < j)
    (hx : n.children[i]? = some x) : Precedes root c ⟨x, n :: above, i :: position⟩ := by
  have hordered := (h.places _ (Node.mem_places_iff.2 hn)).here
  refine ⟨hn.child hx, fun hi => ?_, fun hxCode => ?_⟩
  · have heq := index_eq_of_suffix hi hj
    omega
  · obtain ⟨hmCode, hencloses⟩ := Place.In.encloses h (hn.child hm) hc hcode hj
    exact (hordered.stop_le hij hx hm hxCode hmCode).trans hencloses.start

/-- Nothing at and below a comment is counted. -/
theorem countP_placesBelow_comment (h : root.All Node.Ordered)
    (hn : Place.In root ⟨n, above, position⟩) (hcode : n.isCode = false) :
    (n.placesBelow above position).countP (isCounted c) = 0 := by
  rw [List.countP_eq_zero]
  intro p hp hcounted
  have hencloses := Place.In.encloses h hn (hn.placesBelow n p hp) (isCode_of_isCounted hcounted)
    (suffix_of_mem_placesBelow n hp)
  simp [hcode] at hencloses

end

/-! ## Searching -/

section

variable {root : Node} {c : Place}

mutual

/-- Searching what precedes a creation counts the creations in it. -/
theorem searchBelow_passed (h : root.All Node.Ordered) {above : List Node} {position : List Nat} :
    ∀ (n : Node) (count : Nat), Precedes root c ⟨n, above, position⟩ →
      searchBelow c above position count n =
        .passed (count + (n.placesBelow above position).countP (isCounted c))
  | .mk k r s cs, count, hn => by
    have hne : position ≠ c.position := by
      rintro rfl
      exact hn.outside (List.suffix_refl _)
    rw [searchBelow]
    simp only [hne, decide_false, Bool.and_false, Bool.false_eq_true, if_false]
    by_cases hstart : s.start ≤ c.node.span.start
    · rw [if_pos hstart, searchBelowAll_passed h cs, Node.placesBelow, List.countP_cons]
      · split_ifs <;> simp [Nat.add_assoc, Nat.add_comm]
      · intro j m hm
        rw [Nat.zero_add]
        exact hn.child h hm
    · -- only a comment can start after the creation
      have hcode : Node.isCode (.mk k r s cs) = false := by
        by_contra hcode
        have hforward := (h.places _ (Node.mem_places_iff.2 hn.isIn)).here.forward
        exact hstart (hforward.trans (hn.stop (by simpa using hcode)))
      have hself : isCounted c ⟨.mk k r s cs, above, position⟩ = false := by
        by_contra hcounted
        have hself := isCode_of_isCounted (by simpa using hcounted)
        simp [hcode] at hself
      rw [if_neg hstart, countP_placesBelow_comment h hn.isIn hcode]
      simp [hself]

theorem searchBelowAll_passed (h : root.All Node.Ordered) {above : List Node}
    {position : List Nat} :
    ∀ (ns : List Node) {i count : Nat},
      (∀ j m, ns[j]? = some m → Precedes root c ⟨m, above, (i + j) :: position⟩) →
        searchBelowAll c above position i count ns =
          .passed (count + (Node.placesBelowAll above position i ns).countP (isCounted c))
  | [], i, count, _ => by simp [searchBelowAll, Node.placesBelowAll]
  | n :: ns, i, count, hns => by
    have hn : Precedes root c ⟨n, above, i :: position⟩ := hns 0 n rfl
    rw [searchBelowAll, searchBelow_passed h n count hn, Node.placesBelowAll,
      List.countP_append, ← Nat.add_assoc]
    refine searchBelowAll_passed h ns fun j m hm => ?_
    rw [Nat.add_assoc, Nat.add_comm 1]
    exact hns (j + 1) m hm

end

/-- How many of some places in front of a creation are counted. -/
def countUpTo (c : Place) (ps : List Place) : Nat :=
  (ps.takeWhile (·.position ≠ c.position)).countP (isCounted c)

theorem countUpTo_of_eq {p : Place} (h : p.position = c.position) (ps : List Place) :
    countUpTo c (p :: ps) = 0 := by
  simp [countUpTo, h]

theorem countUpTo_of_ne {p : Place} (h : p.position ≠ c.position) (ps : List Place) :
    countUpTo c (p :: ps) = (if isCounted c p then 1 else 0) + countUpTo c ps := by
  rw [countUpTo, List.takeWhile_cons_of_pos (by simpa using h), List.countP_cons, Nat.add_comm]
  rfl

theorem countUpTo_append_of_mem {ps : List Place} (h : c ∈ ps) (qs : List Place) :
    countUpTo c (ps ++ qs) = countUpTo c ps := by
  rw [countUpTo, takeWhile_append_of_mem h (by simp)]
  rfl

theorem countUpTo_append_of_ne {ps : List Place} (h : ∀ p ∈ ps, p.position ≠ c.position)
    (qs : List Place) : countUpTo c (ps ++ qs) = ps.countP (isCounted c) + countUpTo c qs := by
  rw [countUpTo, List.takeWhile_append_of_pos fun p hp => decide_eq_true (h p hp),
    List.countP_append]
  rfl

/-- What precedes a creation has other positions. -/
theorem Precedes.position_ne {n : Node} {above : List Node} {position : List Nat}
    (hn : Precedes root c ⟨n, above, position⟩) :
    ∀ p ∈ n.placesBelow above position, p.position ≠ c.position := by
  intro p hp heq
  refine hn.outside ?_
  rw [← heq]
  exact suffix_of_mem_placesBelow n hp

mutual

/-- Searching what a creation stands in comes to it and counts the creations in front of it. -/
theorem searchBelow_reached (h : root.All Node.Ordered) (hc : c.In root)
    (ha : isAnonymousCreation c.node = true) {above : List Node} {position : List Nat} :
    ∀ (n : Node) (count : Nat), Place.In root ⟨n, above, position⟩ → position <:+ c.position →
      searchBelow c above position count n =
        .reached (count + countUpTo c (n.placesBelow above position) + 1)
  | .mk k r s cs, count, hn, hsuffix => by
    rw [searchBelow, Node.placesBelow]
    rcases hn.exists_child hc hsuffix with heq | ⟨j, m, hm, hj⟩
    · have hcounted : isCounted c ⟨.mk k r s cs, above, position⟩ = true := by
        rw [← heq, isCounted, ha]
        simp
      have hposition : position = c.position := by rw [heq]
      rw [countUpTo_of_eq hposition, hcounted, decide_eq_true hposition]
      rfl
    · have hne : position ≠ c.position := by
        rintro rfl
        exact not_suffix_self j _ hj
      have hstart : s.start ≤ c.node.span.start :=
        (Place.In.encloses h hn hc (isCode_of_isAnonymousCreation ha) hsuffix).2.start
      have hreached : ∀ count, searchBelowAll c (.mk k r s cs :: above) position 0 count cs =
          .reached (count + countUpTo c
            (Node.placesBelowAll (.mk k r s cs :: above) position 0 cs) + 1) := by
        intro count
        refine searchBelowAll_reached h hc ha cs hm ?_ ?_ fun i hi x hx => ?_
        · rw [Nat.zero_add]
          exact hn.child hm
        · rwa [Nat.zero_add]
        · rw [Nat.zero_add]
          exact precedes_of_lt h hn hc (isCode_of_isAnonymousCreation ha) hm hj hi hx
      rw [countUpTo_of_ne hne, if_neg (by simp [hne]), if_pos hstart, hreached]
      split_ifs <;> simp [Nat.add_assoc, Nat.add_comm]

theorem searchBelowAll_reached (h : root.All Node.Ordered) (hc : c.In root)
    (ha : isAnonymousCreation c.node = true) {above : List Node} {position : List Nat} :
    ∀ (ns : List Node) {i count j : Nat} {m : Node}, ns[j]? = some m →
      Place.In root ⟨m, above, (i + j) :: position⟩ → (i + j) :: position <:+ c.position →
      (∀ k < j, ∀ x, ns[k]? = some x → Precedes root c ⟨x, above, (i + k) :: position⟩) →
        searchBelowAll c above position i count ns =
          .reached (count + countUpTo c (Node.placesBelowAll above position i ns) + 1)
  | [], _, _, _, _, hm, _, _, _ => by simp at hm
  | n :: ns, i, count, 0, m, hm, hin, hsuffix, _ => by
    cases hm
    rw [Nat.add_zero] at hin hsuffix
    have hmem := (hin.mem_placesBelow_iff hc).2 hsuffix
    rw [searchBelowAll, searchBelow_reached h hc ha n count hin hsuffix, Node.placesBelowAll]
    rw [countUpTo_append_of_mem hmem]
  | n :: ns, i, count, j + 1, m, hm, hin, hsuffix, hbefore => by
    have hn : Precedes root c ⟨n, above, i :: position⟩ := hbefore 0 (Nat.succ_pos j) n rfl
    rw [searchBelowAll, searchBelow_passed h n count hn, Node.placesBelowAll,
      countUpTo_append_of_ne hn.position_ne, ← Nat.add_assoc]
    have hindex : ∀ k, i + (k + 1) = i + 1 + k := by omega
    rw [hindex] at hin hsuffix
    refine searchBelowAll_reached h hc ha ns hm hin hsuffix fun k hk x hx => ?_
    rw [← hindex]
    exact hbefore (k + 1) (Nat.succ_lt_succ hk) x hx

end

/-- The scope of a place is the place that its position names. -/
theorem suffix_of_typeScope? {p : Place} {scope : List Nat} (hp : p.In root)
    (h : typeScope? p = some scope) : scope <:+ p.position := by
  obtain ⟨s, hs, rfl⟩ := Option.map_eq_some_iff.1 h
  exact hp.suffix_of_mem_outward (List.mem_of_find?_eq_some hs)

/-- The search for a creation reaches it after the creations of its scope in front of it. -/
theorem searchFor_eq (h : root.All Node.Ordered) (hc : c.In root)
    (ha : isAnonymousCreation c.node = true) :
    searchFor root c = .reached (countUpTo c root.places + 1) := by
  cases hs : c.outward.find? isTypeScope with
  | none =>
    rw [searchFor, hs, Option.getD_none,
      searchBelow_reached h hc ha root 0 .root (List.nil_suffix), Nat.zero_add]
    rfl
  | some s =>
    have hmem := List.mem_of_find?_eq_some hs
    have hin := hc.outward hmem
    have hsuffix := hc.suffix_of_mem_outward hmem
    obtain ⟨before, after, hplaces, hbefore⟩ := hin.exists_places_eq
    -- in front of the scope there is nothing that is counted
    have hnone : before.countP (isCounted c) = 0 := by
      rw [List.countP_eq_zero]
      intro q hq hcounted
      have hqIn : q.In root := by
        rw [← Node.mem_places_iff, hplaces]
        simp [hq]
      have hscope : typeScope? q = some s.position := by
        simp only [isCounted, Bool.and_eq_true, decide_eq_true_eq] at hcounted
        rw [hcounted.2, typeScope?, hs]
        rfl
      exact hbefore q hq (suffix_of_typeScope? hqIn hscope)
    have hother : ∀ q ∈ before, q.position ≠ c.position := by
      intro q hq heq
      exact hbefore q hq (heq ▸ hsuffix)
    rw [searchFor, hs, Option.getD_some, searchBelow_reached h hc ha s.node 0 hin hsuffix,
      hplaces, List.append_assoc, countUpTo_append_of_ne hother, hnone,
      countUpTo_append_of_mem ((hin.mem_placesBelow_iff hc).2 hsuffix)]

/-- The number of an anonymous class is the one with which it is reached. -/
theorem searchFor_eq_reached (h : root.All Node.Ordered) (hc : c.In root)
    (ha : isAnonymousCreation c.node = true) :
    searchFor root c = .reached (anonymousOrdinal root c) := by
  rw [anonymousOrdinal, searchFor_eq h hc ha]

/-- The number of an anonymous class tells how many of its scope stand in front of it. -/
theorem anonymousOrdinal_eq (h : root.All Node.Ordered) (hc : c.In root)
    (ha : isAnonymousCreation c.node = true) :
    anonymousOrdinal root c =
      ((root.places.takeWhile (·.position ≠ c.position)).filter (isCounted c)).length + 1 := by
  rw [anonymousOrdinal, searchFor_eq h hc ha, ← List.countP_eq_length_filter]
  rfl

end

/-! ## Numbers -/

/-- The creations of anonymous classes in a scope, in document order. The scope is the position of
    a type body, or none for the file. -/
def creationsIn (root : Node) (scope : Option (List Nat)) : List Place :=
  root.places.filter fun p => isAnonymousCreation p.node && typeScope? p = scope

theorem mem_creationsIn {root : Node} {scope : Option (List Nat)} {c : Place} :
    c ∈ creationsIn root scope ↔
      c.In root ∧ isAnonymousCreation c.node = true ∧ typeScope? c = scope := by
  rw [creationsIn, List.mem_filter, Node.mem_places_iff, Bool.and_eq_true, decide_eq_true_eq]

/-- In a tree in order, the anonymous classes of each scope have the numbers from 1 on in document
    order, and the search for each of them reaches it. -/
theorem anonymousOrdinal_numbers {root : Node} (h : root.All Node.Ordered)
    (scope : Option (List Nat)) :
    let creations := creationsIn root scope
    creations.map (anonymousOrdinal root) = List.range' 1 creations.length ∧
      creations.map (searchFor root) = (List.range' 1 creations.length).map .reached := by
  intro creations
  have hnumbers : creations.map (anonymousOrdinal root) = List.range' 1 creations.length := by
    refine (List.map_congr_left fun c hc => ?_).trans (map_count_takeWhile
      (fun p => isAnonymousCreation p.node && typeScope? p = scope) root.pairwise_places)
    obtain ⟨hin, ha, rfl⟩ := mem_creationsIn.1 hc
    exact anonymousOrdinal_eq h hin ha
  refine ⟨hnumbers, ?_⟩
  rw [← hnumbers, List.map_map]
  refine List.map_congr_left fun c hc => ?_
  obtain ⟨hin, ha, -⟩ := mem_creationsIn.1 hc
  exact searchFor_eq_reached h hin ha

/-- Three anonymous classes of a class, one of them in the arguments of another one and one in a
    lambda, around one that is not of that class. -/
theorem anonymousOrdinal_numbers_three :
    let source := ("class A\x7bObject a=new B(new C()\x7b\x7d)\x7bObject d=new D()\x7b\x7d;\x7d;" ++
      "E e=()->new F()\x7b\x7d;\x7d").toList
    ∃ root, parse source = .ok root ∧
      (creationsIn root (some [0])).map (anonymousOrdinal root) = [1, 2, 3] := by
  intro source
  obtain ⟨root, hroot, hlength⟩ := exists_ok_of_any (x := parse source)
    (f := fun root => (creationsIn root (some [0])).length == 3) (by decide +kernel)
  have hordered : root.All Node.Ordered := (parse_ranged hroot).imp fun _ hn => hn.toOrdered
  refine ⟨root, hroot, ?_⟩
  rw [(anonymousOrdinal_numbers hordered (some [0])).1, beq_iff_eq.1 hlength]
  rfl

end Source

end Tracepoint
