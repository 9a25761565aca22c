import Mathlib.Data.List.Pairwise
import Mathlib.Tactic.Common
import Tracepoint.PathSet

/-!
# Sets of paths as lists

A set of paths that was made by inserting and erasing stands in strict order, so a path
that is in it is found and not inserted again. Such a set holds the paths of a list, each
once.

Results:

* `componentsBefore_trans`, `componentsBefore_total`: paths are strictly ordered by their
  components.
* `Holds.insert`, `Holds.insert_of_mem`, `Holds.erase`: what a set holds.
-/

namespace Tracepoint

namespace Path

/-! ## The order of paths -/

namespace Component

theorem rank_injective {a b : Component} (h : a.rank = b.rank) : a = b := by
  cases a <;> cases b <;> simp_all [rank]

theorem before_irrefl (a : Component) : a.before a = false := by simp [before]

theorem before_trans {a b c : Component} (h : a.before b = true) (h' : b.before c = true) :
    a.before c = true := by
  simp only [before, Bool.or_eq_true, Bool.and_eq_true, decide_eq_true_eq] at h h' ⊢
  rcases h with h | ⟨h, hs⟩ <;> rcases h' with h' | ⟨h', hs'⟩
  · left; omega
  · left; omega
  · left; omega
  · exact .inr ⟨by omega, String.lt_trans hs hs'⟩

theorem before_total {a b : Component} (h : a ≠ b) : a.before b = true ∨ b.before a = true := by
  simp only [before, Bool.or_eq_true, Bool.and_eq_true, decide_eq_true_eq]
  rcases Nat.lt_trichotomy a.rank.1 b.rank.1 with hlt | heq | hlt
  · exact .inl (.inl hlt)
  · have hne : a.rank.2 ≠ b.rank.2 := fun hs => h (rank_injective (Prod.ext heq hs))
    rcases String.le_total a.rank.2 b.rank.2 with hle | hle
    · refine .inl (.inr ⟨heq, ?_⟩)
      by_contra hnot
      exact hne (String.le_antisymm hle (String.not_lt.1 hnot))
    · refine .inr (.inr ⟨heq.symm, ?_⟩)
      by_contra hnot
      exact hne (String.le_antisymm (String.not_lt.1 hnot) hle)
  · exact .inr (.inl hlt)

end Component

theorem componentsBefore_irrefl (as : List Component) : componentsBefore as as = false := by
  induction as with
  | nil => rfl
  | cons a as ih => simp [componentsBefore, ih]

theorem componentsBefore_trans {as bs cs : List Component}
    (h : componentsBefore as bs = true) (h' : componentsBefore bs cs = true) :
    componentsBefore as cs = true := by
  induction as generalizing bs cs with
  | nil =>
    cases cs with
    | nil => cases bs <;> simp [componentsBefore] at h'
    | cons c cs => rfl
  | cons a as ih =>
    cases bs with
    | nil => simp [componentsBefore] at h
    | cons b bs =>
      cases cs with
      | nil => simp [componentsBefore] at h'
      | cons c cs =>
        simp only [componentsBefore] at h h' ⊢
        by_cases hab : a = b
        · subst hab
          by_cases hac : a = c
          · rw [if_pos rfl] at h
            rw [if_pos hac] at h' ⊢
            exact ih h h'
          · rwa [if_neg hac] at h' ⊢
        · rw [if_neg hab] at h
          by_cases hbc : b = c
          · subst hbc
            rwa [if_neg hab]
          · rw [if_neg hbc] at h'
            have hac := Component.before_trans h h'
            have hne : a ≠ c := by
              rintro rfl
              rw [Component.before_irrefl] at hac
              cases hac
            rwa [if_neg hne]

theorem componentsBefore_total {as bs : List Component} (h : as ≠ bs) :
    componentsBefore as bs = true ∨ componentsBefore bs as = true := by
  induction as generalizing bs with
  | nil =>
    cases bs with
    | nil => exact absurd rfl h
    | cons b bs => exact .inl rfl
  | cons a as ih =>
    cases bs with
    | nil => exact .inr rfl
    | cons b bs =>
      simp only [componentsBefore]
      by_cases hab : a = b
      · subst hab
        simpa using ih fun hs => h (by rw [hs])
      · simpa [hab, Ne.symm hab] using Component.before_total hab

theorem before_asymm {p q : Path} (h : p.before q = true) : q.before p = false := by
  cases hqp : q.before p with
  | false => rfl
  | true =>
    have := componentsBefore_trans h hqp
    rw [componentsBefore_irrefl] at this
    cases this

end Path

namespace PathSet

/-! ## Sets in order -/

/-- The paths of a set stand in strict order. -/
def InOrder (s : PathSet) : Prop := s.paths.Pairwise fun p q => p.before q = true

theorem inOrder_empty : InOrder {} := List.Pairwise.nil

theorem mem_place {p r : Path} {ps : List Path} (h : r ∈ place p ps) : r = p ∨ r ∈ ps := by
  induction ps with
  | nil => simpa [place] using h
  | cons q qs ih =>
    simp only [place] at h
    split_ifs at h
    · exact .inr h
    · simpa using h
    · rcases List.mem_cons.1 h with rfl | h
      · exact .inr List.mem_cons_self
      · exact (ih h).imp_right (List.mem_cons_of_mem _)

theorem InOrder.insert {s : PathSet} (h : s.InOrder) (p : Path) : (s.insert p).InOrder := by
  obtain ⟨ps⟩ := s
  show (place p ps).Pairwise _
  change ps.Pairwise _ at h
  induction ps with
  | nil => simp [place]
  | cons q qs ih =>
    obtain ⟨hq, hqs⟩ := List.pairwise_cons.1 h
    simp only [place]
    split_ifs with hsame hbefore
    · exact h
    · refine List.pairwise_cons.2 ⟨fun r hr => ?_, h⟩
      rcases List.mem_cons.1 hr with rfl | hr
      · exact hbefore
      · exact Path.componentsBefore_trans hbefore (hq r hr)
    · refine List.pairwise_cons.2 ⟨fun r hr => ?_, ih hqs⟩
      rcases mem_place hr with rfl | hr
      · have hne : q.components ≠ r.components := by simpa [Path.same] using hsame
        exact (Path.componentsBefore_total hne).resolve_right hbefore
      · exact hq r hr

theorem InOrder.erase {s : PathSet} (h : s.InOrder) (p : Path) : (s.erase p).InOrder :=
  h.sublist List.filter_sublist

/-! ## The paths that a set holds -/

/-- A set in order holds exactly the paths of a list. -/
structure Holds (s : PathSet) (ps : List Path) : Prop where
  inOrder : s.InOrder
  perm : s.paths.Perm ps

/-- Paths that are all different. -/
def Distinct (ps : List Path) : Prop := ps.Pairwise fun p q => p.same q = false

theorem same_eq_false_symm {p q : Path} (h : p.same q = false) : q.same p = false := by
  cases hqp : q.same p with
  | false => rfl
  | true => rw [Path.same_symm hqp] at h; cases h

instance : Std.Symm fun p q : Path => p.same q = false := ⟨fun _ _ => same_eq_false_symm⟩

theorem Distinct.eq_of_same {ps : List Path} (hd : Distinct ps) {p q : Path} (hp : p ∈ ps)
    (hq : q ∈ ps) (h : q.same p = true) : q = p := by
  by_contra hne
  rw [List.Pairwise.forall hd hq hp hne] at h
  cases h

theorem holds_empty : Holds {} [] := ⟨inOrder_empty, List.Perm.refl _⟩

theorem perm_place {p : Path} {ps : List Path} (h : ∀ q ∈ ps, q.same p = false) :
    (place p ps).Perm (p :: ps) := by
  induction ps with
  | nil => simp [place]
  | cons q qs ih =>
    simp only [place, h q List.mem_cons_self, Bool.false_eq_true, if_false]
    split_ifs
    · exact List.Perm.refl _
    · exact ((ih fun r hr => h r (List.mem_cons_of_mem _ hr)).cons q).trans (List.Perm.swap p q qs)

theorem Holds.insert {s : PathSet} {ps : List Path} (h : s.Holds ps) {p : Path}
    (hp : ∀ q ∈ ps, q.same p = false) : (s.insert p).Holds (p :: ps) :=
  ⟨h.inOrder.insert p, (perm_place fun q hq => hp q (h.perm.mem_iff.1 hq)).trans (h.perm.cons p)⟩

/-- Inserting a path that is there changes nothing. -/
theorem place_of_mem {p : Path} {ps : List Path}
    (hs : ps.Pairwise fun p q => p.before q = true) (hp : p ∈ ps) : place p ps = ps := by
  induction ps with
  | nil => simp at hp
  | cons q qs ih =>
    obtain ⟨hq, hqs⟩ := List.pairwise_cons.1 hs
    simp only [place]
    rcases List.mem_cons.1 hp with rfl | hp
    · rw [Path.same_refl, if_pos rfl]
    · rw [Path.before_asymm (hq p hp), ih hqs hp]
      simp

theorem Holds.insert_of_mem {s : PathSet} {ps : List Path} (h : s.Holds ps) {p : Path}
    (hp : p ∈ ps) : (s.insert p).Holds ps := by
  have hplace : s.insert p = s := by
    unfold PathSet.insert
    rw [place_of_mem h.inOrder (h.perm.mem_iff.2 hp)]
  rwa [hplace]

theorem Holds.erase {s : PathSet} {ps : List Path} (h : s.Holds ps) (p : Path) :
    (s.erase p).Holds (ps.filter (!·.same p)) :=
  ⟨h.inOrder.erase p, h.perm.filter _⟩

theorem Holds.contains {s : PathSet} {ps : List Path} (h : s.Holds ps) (p : Path) :
    s.contains p = ps.any (·.same p) := by
  rw [PathSet.contains, Bool.eq_iff_iff, List.any_eq_true, List.any_eq_true]
  simp only [h.perm.mem_iff]

/-! ## Paths that are tried -/

/-- A set of what failed, after some paths were tried: those that succeed are erased, and the
    others are inserted. -/
def tried (ok : Path → Bool) (s : PathSet) (ps : List Path) : PathSet :=
  ps.foldl (fun s p => if ok p then s.erase p else s.insert p) s

theorem filter_not_same {p : Path} {qs ps : List Path} (h : Distinct (qs ++ p :: ps)) :
    (qs ++ p :: ps).filter (!·.same p) = qs ++ ps := by
  obtain ⟨-, hp, hqs⟩ := List.pairwise_append.1 h
  rw [List.filter_append, List.filter_cons]
  simp only [Path.same_refl, Bool.not_true, Bool.false_eq_true, if_false]
  congr 1
  · exact List.filter_eq_self.2 fun q hq => by simp [hqs q hq p List.mem_cons_self]
  · exact List.filter_eq_self.2 fun q hq => by
      simp [same_eq_false_symm ((List.pairwise_cons.1 hp).1 q hq)]

/-- Those that fail are added to a set that holds none of the paths. -/
theorem holds_tried_fresh (ok : Path → Bool) (ps : List Path) :
    ∀ (qs : List Path) (s : PathSet), s.Holds qs → Distinct (qs ++ ps) →
      (tried ok s ps).Holds (qs ++ ps.filter (!ok ·)) := by
  induction ps with
  | nil => intro qs s h _; simpa [tried] using h
  | cons p ps ih =>
    intro qs s h hd
    have hqs : ∀ q ∈ qs, q.same p = false :=
      fun q hq => (List.pairwise_append.1 hd).2.2 q hq p List.mem_cons_self
    show (tried ok (if ok p then s.erase p else s.insert p) ps).Holds _
    rw [List.filter_cons]
    cases hok : ok p with
    | true =>
      have herase := h.erase p
      rw [List.filter_eq_self.2 fun q hq => by simp [hqs q hq]] at herase
      have hd' : Distinct (qs ++ ps) :=
        hd.sublist (List.Sublist.append_left (List.sublist_cons_self p ps) qs)
      simpa using ih qs _ herase hd'
    | false =>
      have hinsert : (s.insert p).Holds (qs ++ [p]) :=
        ⟨(h.insert hqs).inOrder, (h.insert hqs).perm.trans (List.perm_append_singleton p qs).symm⟩
      simpa using ih (qs ++ [p]) _ hinsert (by simpa using hd)

/-- Those that succeed are taken out of a set that holds all of the paths. -/
theorem holds_tried_again (ok : Path → Bool) (ps : List Path) :
    ∀ (qs : List Path) (s : PathSet), s.Holds (qs ++ ps) → Distinct (qs ++ ps) →
      (tried ok s ps).Holds (qs ++ ps.filter (!ok ·)) := by
  induction ps with
  | nil => intro qs s h _; simpa [tried] using h
  | cons p ps ih =>
    intro qs s h hd
    show (tried ok (if ok p then s.erase p else s.insert p) ps).Holds _
    rw [List.filter_cons]
    cases hok : ok p with
    | true =>
      have herase := h.erase p
      rw [filter_not_same hd] at herase
      have hd' : Distinct (qs ++ ps) :=
        hd.sublist (List.Sublist.append_left (List.sublist_cons_self p ps) qs)
      simpa using ih qs _ herase hd'
    | false =>
      have hinsert := h.insert_of_mem (p := p) (by simp)
      rw [List.append_cons] at hinsert hd
      simpa using ih (qs ++ [p]) _ hinsert hd

theorem any_same_filter {f : Path → Bool} {ps : List Path} (hd : Distinct ps) {p : Path}
    (hp : p ∈ ps) : (ps.filter f).any (·.same p) = f p := by
  rw [Bool.eq_iff_iff, List.any_eq_true]
  constructor
  · rintro ⟨q, hq, hsame⟩
    obtain ⟨hq, hf⟩ := List.mem_filter.1 hq
    rwa [hd.eq_of_same hp hq hsame] at hf
  · intro hf
    exact ⟨p, List.mem_filter.2 ⟨hp, hf⟩, Path.same_refl p⟩

/-- What is in one set and not among those that failed has succeeded. -/
theorem Holds.difference {s t : PathSet} {ok : Path → Bool} {ps : List Path} (hd : Distinct ps)
    (hs : s.Holds ps) (ht : t.Holds (ps.filter (!ok ·))) :
    (s.difference t).Holds (ps.filter ok) := by
  refine ⟨hs.inOrder.sublist List.filter_sublist, ?_⟩
  have hfilter : ps.filter (!t.contains ·) = ps.filter ok := by
    refine List.filter_congr fun p hp => ?_
    rw [ht.contains, any_same_filter hd hp, Bool.not_not]
  rw [← hfilter]
  exact hs.perm.filter _

end PathSet

end Tracepoint
