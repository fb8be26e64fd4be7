import Mathlib.Algebra.BigOperators.Group.Finset.Piecewise
import Mathlib.Data.Fintype.Card

/-!
# Counting threads by the place they are at

`count P f` is the number of threads whose place has the property. One thread moves at a time, so
there is one rule, for a function that is updated at one thread (`count_update`).
-/

namespace SeL4Kernel

open Function Finset

variable {Thread α : Type*} [Fintype Thread] {P : α → Bool} {f : Thread → α} {t u : Thread} {v : α}

/-- The number of threads at a place with the property. -/
def count (P : α → Bool) (f : Thread → α) : ℕ := (Finset.univ.filter fun t => P (f t)).card

theorem count_eq_sum : count P f = ∑ t, if P (f t) then 1 else 0 := by
  unfold count
  rw [card_filter]

/-- One thread moves. -/
theorem count_update [DecidableEq Thread] (P : α → Bool) (f : Thread → α) (t : Thread) (v : α) :
    count P (update f t v) + (if P (f t) then 1 else 0) =
      count P f + (if P v then 1 else 0) := by
  have hrest : ∑ x ∈ Finset.univ.erase t, (if P (update f t v x) then 1 else 0) =
      ∑ x ∈ Finset.univ.erase t, (if P (f x) then 1 else 0) := by
    refine sum_congr rfl fun x hx => ?_
    rw [update_of_ne (ne_of_mem_erase hx)]
  rw [count_eq_sum, count_eq_sum, ← add_sum_erase _ _ (mem_univ t),
    ← add_sum_erase Finset.univ (fun x => if P (f x) then 1 else 0) (mem_univ t),
    hrest, update_self]
  omega

theorem count_pos (h : P (f t) = true) : 0 < count P f :=
  card_pos.2 ⟨t, mem_filter.2 ⟨mem_univ t, h⟩⟩

theorem exists_of_count_pos (h : 0 < count P f) : ∃ t, P (f t) = true := by
  obtain ⟨t, ht⟩ := card_pos.1 h
  exact ⟨t, (mem_filter.1 ht).2⟩

theorem eq_of_count_le_one (h : count P f ≤ 1) (ht : P (f t) = true) (hu : P (f u) = true) :
    t = u :=
  card_le_one.1 h t (mem_filter.2 ⟨mem_univ t, ht⟩) u
    (mem_filter.2 ⟨mem_univ u, hu⟩)

theorem count_const_false (h : P v = false) : count P (fun _ : Thread => v) = 0 := by
  unfold count
  simp [h]

end SeL4Kernel
