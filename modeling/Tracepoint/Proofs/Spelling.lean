import Mathlib.Data.List.Infix
import Tracepoint.Proofs.Path

/-!
# Where paths are written to lie

A path that is written from the root has a location that can be read off it: a name leads
down, and `..` leads up again. Whether one path lies below another one is asked in two ways:
of the components, as they are written, or of the locations. The answers can differ, since a
path with `..` is never normalised. They are the same for everything that can lie below a
path exactly if that path and the other one are written alike.

Results:

* `located_of_components`: where a path lies that goes on with names.
* `prefix_append_iff_cases`: what starts a list that has two parts.
* `writtenAlike_iff`: which paths can be compared as they are written.
* `WrittenAlike.of_names`: paths without `..` after a common start can.
-/

namespace Tracepoint.Path

/-! ## Locations -/

/-- Where a component leads. -/
def Component.follow (loc : Location) : Component → Location
  | .root => []
  | .here => loc
  | .up => loc.dropLast
  | .name n => loc ++ [n]

/-- Where a path lies that is written from the root, if no link is on the way. -/
def located (p : Path) : Location := p.components.foldl Component.follow []

theorem foldl_follow_names (loc : Location) (ns : List String) :
    (ns.map Component.name).foldl Component.follow loc = loc ++ ns := by
  induction ns generalizing loc with
  | nil => rw [List.append_nil]; rfl
  | cons n ns ih => exact (ih (loc ++ [n])).trans (List.append_cons ..).symm

theorem located_of_components {p q : Path} {ns : List String}
    (h : q.components = p.components ++ ns.map .name) : q.located = p.located ++ ns := by
  rw [located, h, List.foldl_append, foldl_follow_names]
  rfl

theorem isName_of_located {p : Path} : ∀ n ∈ p.located, IsName n := by
  have hfollow : ∀ (cs : List Component) (loc : Location), (∀ n ∈ loc, IsName n) →
      (∀ n, .name n ∈ cs → IsName n) → ∀ n ∈ cs.foldl Component.follow loc, IsName n := by
    intro cs
    induction cs with
    | nil => exact fun _ hloc _ => hloc
    | cons c cs ih =>
      intro loc hloc hcs
      refine ih _ ?_ fun n hn => hcs n (List.mem_cons_of_mem _ hn)
      cases c with
      | root => simp [Component.follow]
      | here => exact hloc
      | up => exact fun n hn => hloc n (List.dropLast_subset loc hn)
      | name m =>
        intro n hn
        rcases List.mem_append.1 hn with hn | hn
        · exact hloc n hn
        · rw [List.mem_singleton.1 hn]
          exact hcs m List.mem_cons_self
  exact hfollow _ [] (by simp) fun n => isName_of_component

/-! ## Paths that are written alike -/

theorem prefix_append_iff_cases {α : Type} {xs ys zs : List α} :
    xs <+: ys ++ zs ↔ xs <+: ys ∨ ∃ rest, xs = ys ++ rest ∧ rest <+: zs := by
  constructor
  · intro h
    rcases List.prefix_or_prefix_of_prefix h (List.prefix_append ys zs) with hxs | ⟨rest, rfl⟩
    · exact .inl hxs
    · exact .inr ⟨rest, rfl, (List.prefix_append_right_inj ys).1 h⟩
  · rintro (h | ⟨rest, rfl, h⟩)
    · exact h.trans (List.prefix_append ys zs)
    · exact (List.prefix_append_right_inj ys).2 h

/-- What starts a list whatever comes at its end, starts it without that end. -/
theorem prefix_of_prefix_append {α : Type} {xs ys : List α} {a b : α} (hab : a ≠ b)
    (ha : xs <+: ys ++ [a]) (hb : xs <+: ys ++ [b]) : xs <+: ys := by
  rcases List.prefix_concat_iff.1 ha with rfl | h
  · exact absurd (List.append_inj_right' (hb.eq_of_length (by simp)) rfl) (by simpa using hab)
  · exact h

/-- One path lies at or above another one as written if it does so by location, and a path
    that lies below that other one is written with names after it. -/
structure WrittenAlike (p base : Path) : Prop where
  above : base.components <+: p.components ↔ base.located <+: p.located
  below : ∀ ns, base.located = p.located ++ ns →
    base.components <+: p.components ∨ base.components = p.components ++ ns.map .name

/-- Whether something lies below a path can then be read off how it is written. -/
theorem WrittenAlike.prefix_iff {p base : Path} (h : WrittenAlike p base) (ns : List String) :
    base.components <+: p.components ++ ns.map .name ↔ base.located <+: p.located ++ ns := by
  constructor
  · intro hns
    rcases prefix_append_iff_cases.1 hns with hp | ⟨rest, heq, hrest⟩
    · exact (h.above.1 hp).trans (List.prefix_append ..)
    · obtain ⟨ms, hms, rfl⟩ := List.prefix_map_iff.1 hrest
      rw [located_of_components heq]
      exact (List.prefix_append_right_inj _).2 hms
  · intro hns
    rcases prefix_append_iff_cases.1 hns with hp | ⟨ms, heq, hms⟩
    · exact (h.above.2 hp).trans (List.prefix_append ..)
    · rcases h.below ms heq with hp | hp
      · exact hp.trans (List.prefix_append ..)
      · rw [hp]
        exact (List.prefix_append_right_inj _).2 (hms.map _)

/-- Of two paths that are written alike, and only of these, one can be compared with whatever
    may lie below the other as it is written. -/
theorem writtenAlike_iff {p base : Path} :
    WrittenAlike p base ↔ ∀ ns, ns ≠ [] → (∀ n ∈ ns, IsName n) →
      (base.components <+: p.components ++ ns.map .name ↔ base.located <+: p.located ++ ns) := by
  constructor
  · exact fun h ns _ _ => h.prefix_iff ns
  · intro h
    -- Two names tell what holds whatever the name is.
    have hone : ∀ n ∈ ["a", "b"], (base.components <+: p.components ++ [.name n] ↔
        base.located <+: p.located ++ [n]) := by
      intro n hn
      refine h [n] (by simp) ?_
      rw [List.forall_mem_singleton]
      revert n
      decide
    have ha := hone "a" (by simp)
    have hb := hone "b" (by simp)
    have habove : base.components <+: p.components ↔ base.located <+: p.located := by
      constructor
      · intro hp
        exact prefix_of_prefix_append (by decide) (ha.1 (hp.trans (List.prefix_append ..)))
          (hb.1 (hp.trans (List.prefix_append ..)))
      · intro hp
        exact prefix_of_prefix_append (by decide) (ha.2 (hp.trans (List.prefix_append ..)))
          (hb.2 (hp.trans (List.prefix_append ..)))
    refine ⟨habove, fun ns hns => ?_⟩
    by_cases hnil : ns = []
    · exact .inl (habove.2 (by rw [hns, hnil, List.append_nil]))
    · have hnames : ∀ n ∈ ns, IsName n := fun n hn =>
        isName_of_located n (hns ▸ List.mem_append_right _ hn)
      have hbelow := (h ns hnil hnames).2 (by rw [hns])
      refine (prefix_append_iff_cases.1 hbelow).imp_right ?_
      rintro ⟨rest, heq, hrest⟩
      obtain ⟨ms, -, rfl⟩ := List.prefix_map_iff.1 hrest
      have hms := located_of_components heq
      rw [hns, List.append_cancel_left_eq] at hms
      rw [heq, hms]

/-- Paths that have a start in common and go on with names are written alike. -/
theorem WrittenAlike.of_names {p base : Path} {start : List Component} {ns ms : List String}
    (hp : p.components = start ++ ns.map .name) (hbase : base.components = start ++ ms.map .name) :
    WrittenAlike p base := by
  have hnames : ∀ ks ls : List String,
      ks.map Component.name <+: ls.map Component.name ↔ ks <+: ls := by
    intro ks ls
    refine ⟨fun h => ?_, fun h => h.map _⟩
    obtain ⟨init, hinit, heq⟩ := List.prefix_map_iff.1 h
    rwa [List.map_injective_iff.2 (fun _ _ => Component.name.inj) heq]
  have hlocated : ∀ {q : Path} {ks : List String}, q.components = start ++ ks.map .name →
      q.located = start.foldl Component.follow [] ++ ks := by
    intro q ks hq
    rw [located, hq, List.foldl_append, foldl_follow_names]
  refine writtenAlike_iff.2 fun ks _ _ => ?_
  rw [hp, hbase, hlocated hp, hlocated hbase, List.append_assoc, List.append_assoc,
    List.prefix_append_right_inj, List.prefix_append_right_inj, ← List.map_append, hnames]

end Tracepoint.Path
