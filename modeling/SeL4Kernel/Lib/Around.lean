import Mathlib.Data.List.Nodup
import SeL4Kernel.Lib.Scatter

/-!
# A stream in a circular store

A store of `n` cells keeps the end of a stream: item `i` is in cell `i % n`. `Window n cells
xs r` says that the items of `xs` from number `r` on are there. Items are added behind the
last one as long as they do not reach the cells of the first (`Window.write`), and are read
from the first one on (`Window.read`).

`around n pos len` are the cells of `len` items from number `pos` on. They are one run of
cells, or two when the run goes past the last cell (`around_eq_append`).
-/

namespace SeL4Kernel

open List

universe u

variable {α : Type u} {n pos len : Nat}

/-! ### Cells -/

/-- The cells of `len` items from number `pos` on. -/
def around (n pos len : Nat) : List Nat := (List.range len).map fun i => (pos + i) % n

@[simp] theorem length_around : (around n pos len).length = len := by simp [around]

theorem mem_around {c : Nat} : c ∈ around n pos len ↔ ∃ i < len, (pos + i) % n = c := by
  simp [around]

theorem getElem?_around {j : Nat} (hj : j < len) :
    (around n pos len)[j]? = some ((pos + j) % n) := by
  simp [around, hj]

/-- Items that are less than `n` apart are in different cells. -/
theorem mod_ne_of_lt {a b : Nat} (hab : a < b) (hba : b < a + n) : a % n ≠ b % n := by
  intro h
  have hdvd : n ∣ b - a := Nat.dvd_of_mod_eq_zero (Nat.sub_mod_eq_zero_of_mod_eq h.symm)
  have hle := Nat.le_of_dvd (by omega) hdvd
  omega

theorem nodup_around (hlen : len ≤ n) : (around n pos len).Nodup := by
  refine List.Nodup.map_on ?_ nodup_range
  intro i hi j hj h
  have hi' := mem_range.mp hi
  have hj' := mem_range.mp hj
  by_contra hne
  rcases Nat.lt_or_gt_of_ne hne with hlt | hlt
  · exact mod_ne_of_lt (by omega) (by omega) h
  · exact mod_ne_of_lt (by omega) (by omega) h.symm

/-- A run of cells that does not go past the last one. -/
theorem around_eq_range' (h : pos % n + len ≤ n) : around n pos len = range' (pos % n) len := by
  rw [range'_eq_map_range]
  refine map_congr_left fun i hi => ?_
  have hi' := mem_range.mp hi
  rw [← Nat.mod_add_mod, Nat.mod_eq_of_lt (by omega)]

/-- A run of cells that goes past the last one. -/
theorem around_eq_append {m : Nat} (h : pos % n + len = n) (hm : m ≤ n) :
    around n pos (len + m) = range' (pos % n) len ++ range' 0 m := by
  have hnext : (pos + len) % n = 0 := by rw [← Nat.mod_add_mod, h, Nat.mod_self]
  have hsplit : around n pos (len + m) = around n pos len ++ around n (pos + len) m := by
    simp only [around, range_add, map_append, map_map]
    congr 1
    refine map_congr_left fun i _ => ?_
    simp [Nat.add_assoc]
  rw [hsplit, around_eq_range' (by omega), around_eq_range' (by omega), hnext]

/-! ### Windows -/

/-- The items of `xs` from number `r` on are in their cells. -/
structure Window (n : Nat) (cells : Nat → α) (xs : List α) (r : Nat) : Prop where
  le : r ≤ xs.length
  room : xs.length ≤ r + n
  holds : ∀ i x, r ≤ i → xs[i]? = some x → cells (i % n) = x

namespace Window

variable {cells : Nat → α} {xs ys : List α} {r : Nat}

/-- New items do not touch those that are still to be read. -/
theorem write (h : Window n cells xs r) (hroom : xs.length + ys.length ≤ r + n) :
    Window n (scatter cells (around n xs.length ys.length) ys) (xs ++ ys) r := by
  have hlen : ys.length ≤ n := by have := h.le; omega
  refine ⟨?_, ?_, fun i x hi hx => ?_⟩
  · rw [length_append]
    exact Nat.le_add_right_of_le h.le
  · rwa [length_append]
  rcases Nat.lt_or_ge i xs.length with hold | hnew
  · rw [getElem?_append_left hold] at hx
    rw [scatter_of_notMem]
    · exact h.holds i x hi hx
    · intro hmem
      obtain ⟨j, hj, heq⟩ := mem_around.mp hmem
      exact mod_ne_of_lt (by omega) (by omega) heq.symm
  · rw [getElem?_append_right hnew] at hx
    obtain ⟨hj, -⟩ := List.getElem?_eq_some_iff.mp hx
    have hread := @map_scatter _ _ _ cells (around n xs.length ys.length) ys
      (nodup_around hlen) length_around
    have hitem := congrArg (fun l => l[i - xs.length]?) hread
    simp only [getElem?_map, getElem?_around hj, hx, Option.map_some, Option.some.injEq,
      Nat.add_sub_cancel' hnew] at hitem
    exact hitem

/-- Items are read in order. -/
theorem read (h : Window n cells xs r) (hlen : r + len ≤ xs.length) :
    (around n r len).map cells = (xs.drop r).take len ∧ Window n cells xs (r + len) := by
  refine ⟨ext_getElem? fun j => ?_, hlen, ?_, fun i x hi hx => h.holds i x (by omega) hx⟩
  · rw [getElem?_map, getElem?_take, getElem?_drop]
    by_cases hj : j < len
    · have hx := getElem?_eq_getElem (l := xs) (i := r + j) (by omega)
      rw [getElem?_around hj, if_pos hj, hx, Option.map_some, h.holds _ _ (by omega) hx]
    · rw [if_neg hj, getElem?_eq_none (by rw [length_around]; omega), Option.map_none]
  · have := h.room
    omega

end Window

end SeL4Kernel
