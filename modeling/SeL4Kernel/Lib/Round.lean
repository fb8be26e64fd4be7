import Mathlib.Algebra.Group.Nat.Defs

/-!
# Rounding up

The least multiple of a positive number that is not below another one.
-/

namespace SeL4Kernel

/-- The least multiple of `b` that is not below `n`. -/
def roundUp (n b : Nat) : Nat := n + if n % b = 0 then 0 else b - n % b

variable {n m b : Nat}

theorem le_roundUp (n b : Nat) : n ≤ roundUp n b := Nat.le_add_right ..

theorem roundUp_of_dvd (h : b ∣ n) : roundUp n b = n := by
  rw [roundUp, if_pos (Nat.mod_eq_zero_of_dvd h), Nat.add_zero]

variable (hb : 0 < b)

include hb

theorem roundUp_lt : roundUp n b < n + b := by
  have hlt := Nat.mod_lt n hb
  rw [roundUp]
  split <;> omega

theorem dvd_roundUp : b ∣ roundUp n b := by
  rw [roundUp]
  split
  next hzero => exact Nat.dvd_of_mod_eq_zero hzero
  next hpos =>
    have hlt := Nat.mod_lt n hb
    have hdiv := Nat.div_add_mod n b
    refine ⟨n / b + 1, ?_⟩
    rw [Nat.mul_add]
    omega

/-- Rounding up stays below a multiple. -/
theorem roundUp_le (hle : n ≤ m) (hm : b ∣ m) : roundUp n b ≤ m := by
  obtain ⟨k, rfl⟩ := hm
  obtain ⟨j, hj⟩ := @dvd_roundUp n b hb
  have hlt := @roundUp_lt n b hb
  rw [hj] at hlt ⊢
  -- Two multiples that are less than `b` apart are in order.
  have hjk : b * j < b * (k + 1) := by
    rw [Nat.mul_add]
    omega
  exact Nat.mul_le_mul_left b (Nat.le_of_lt_succ (Nat.lt_of_mul_lt_mul_left hjk))

/-- Rounding up by a division. -/
theorem roundUp_eq_div : roundUp n b = (n + (b - 1)) / b * b := by
  have hmod := Nat.mod_lt (n + (b - 1)) hb
  have hdiv := Nat.div_add_mod' (n + (b - 1)) b
  refine Nat.le_antisymm (roundUp_le hb (by omega) (Nat.dvd_mul_left ..)) ?_
  obtain ⟨j, hj⟩ := @dvd_roundUp n b hb
  have hlt : (n + (b - 1)) / b < j + 1 := by
    have hle := le_roundUp n b
    rw [hj] at hle
    rw [Nat.div_lt_iff_lt_mul hb, Nat.add_mul, Nat.mul_comm j]
    omega
  rw [hj, Nat.mul_comm b]
  exact Nat.mul_le_mul_right b (Nat.le_of_lt_succ hlt)

end SeL4Kernel
