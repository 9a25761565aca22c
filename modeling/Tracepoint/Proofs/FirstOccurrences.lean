import Mathlib.Data.List.Basic
import Mathlib.Tactic.Common

/-!
# First occurrences

Elements are added to a list one after the other, each at the end, unless one like it is there. What
comes of it is each element where one like it is met for the first time.

Results:

* `foldl_addNew`: adding the elements of a list.
* `pairwise_eraseDupsBy`, `mem_of_mem_eraseDupsBy`: first occurrences are all different, and come
  from the list.
-/

namespace Tracepoint

variable {α : Type} {alike : α → α → Bool}

/-- A list with an element at the end, unless it holds one like it. -/
def addNew (alike : α → α → Bool) (xs : List α) (x : α) : List α :=
  if xs.any (alike · x) then xs else xs ++ [x]

theorem any_addNew (xs : List α) (x y : α) (h : xs.any (alike · x) = false) :
    (addNew alike xs x).any (alike · y) = (xs.any (alike · y) || alike x y) := by
  simp [addNew, h]

/-- Each element is added where one like it is met for the first time. -/
theorem foldl_addNew (hsymm : ∀ a b, alike a b = alike b a) (xs : List α) :
    ∀ acc : List α, xs.foldl (addNew alike) acc =
      acc ++ List.eraseDupsBy alike (xs.filter fun x => !acc.any (alike · x)) := by
  induction xs with
  | nil => simp
  | cons x xs ih =>
    intro acc
    rw [List.foldl_cons, ih]
    cases h : acc.any (alike · x) with
    | true => rw [addNew, if_pos h, List.filter_cons_of_neg (by simp [h])]
    | false =>
      rw [List.filter_cons_of_pos (by simp [h]), List.eraseDupsBy_cons, List.filter_filter]
      simp only [any_addNew _ _ _ h]
      rw [addNew, if_neg (by simp [h]), List.append_assoc, List.singleton_append]
      congr 4
      funext y
      rw [hsymm y x, Bool.not_or, Bool.and_comm]
      simp

theorem mem_of_mem_eraseDupsBy {x : α} (xs : List α) (h : x ∈ List.eraseDupsBy alike xs) :
    x ∈ xs := by
  match xs with
  | [] => simp at h
  | y :: ys =>
    rw [List.eraseDupsBy_cons, List.mem_cons] at h
    obtain rfl | h := h
    · exact List.mem_cons_self
    · have hx := mem_of_mem_eraseDupsBy _ h
      exact List.mem_cons_of_mem _ (List.mem_of_mem_filter hx)
termination_by xs.length
decreasing_by simpa using Nat.lt_succ_of_le (List.length_filter_le _ _)

/-- Of elements that are alike, only the one that came first is left. -/
theorem pairwise_eraseDupsBy (hsymm : ∀ a b, alike a b = alike b a) (xs : List α) :
    (List.eraseDupsBy alike xs).Pairwise fun a b => alike a b = false := by
  match xs with
  | [] => simp
  | x :: xs =>
    rw [List.eraseDupsBy_cons, List.pairwise_cons]
    refine ⟨fun y hy => ?_, pairwise_eraseDupsBy hsymm _⟩
    have hy := mem_of_mem_eraseDupsBy _ hy
    rw [hsymm]
    simpa using (List.mem_filter.1 hy).2
termination_by xs.length
decreasing_by simpa using Nat.lt_succ_of_le (List.length_filter_le _ _)

end Tracepoint
