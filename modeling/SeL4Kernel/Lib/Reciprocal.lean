import Mathlib.Algebra.Group.Nat.Defs
import Mathlib.Tactic.Common

/-!
# Division by a multiplication

A quotient by `d` is computed with a number `m` in place of `P / d`, where `m * d` exceeds `P` by
an `excess`. `mul_div_eq_iff` says for which dividends the result is right, and
`mul_div_eq_of_le` that it is right up to a bound if the excess is small for the last number below
the bound that has the remainder `d - 1`.
-/

namespace SeL4Kernel

variable {P d m excess : Nat}

/-- A dividend gives the right quotient exactly if what it accumulates of the excess does not
carry it to the next multiple of `d`. -/
theorem mul_div_eq_iff (hP : 0 < P) (hd : 0 < d) (hm : m * d = P + excess) (n : Nat) :
    n * m / P = n / d ↔ n * excess < (d - n % d) * P := by
  have hn : n / d * d + n % d = n := Nat.div_add_mod' n d
  have hr : n % d + (d - n % d) = d := Nat.add_sub_cancel' (Nat.le_of_lt (Nat.mod_lt n hd))
  have hprod : n * m * d = n / d * P * d + (n % d * P + n * excess) := by
    calc n * m * d = n * P + n * excess := by rw [Nat.mul_assoc, hm, Nat.mul_add]
      _ = (n / d * d + n % d) * P + n * excess := by rw [hn]
      _ = n / d * P * d + (n % d * P + n * excess) := by
        rw [Nat.add_mul, Nat.mul_right_comm, Nat.add_assoc]
  have hnext : (n / d + 1) * P * d = n / d * P * d + (n % d * P + (d - n % d) * P) := by
    rw [← Nat.add_mul, hr, Nat.add_mul, Nat.one_mul, Nat.add_mul, Nat.mul_comm P d]
  have hle : n / d * P ≤ n * m := Nat.le_of_mul_le_mul_right (by omega) hd
  calc n * m / P = n / d ↔ n * m / P < n / d + 1 := by
        have := (Nat.le_div_iff_mul_le hP).2 hle
        omega
    _ ↔ n * m * d < (n / d + 1) * P * d := by rw [Nat.div_lt_iff_lt_mul hP, Nat.mul_lt_mul_right hd]
    _ ↔ n * excess < (d - n % d) * P := by omega

/-- `last` is the last number up to `bound` whose remainder is `d - 1`. -/
theorem mul_div_eq_of_le {bound last : Nat} (hP : 0 < P) (hd : 0 < d) (hm : m * d = P + excess)
    (hdb : d ≤ bound) (hlast : last + 1 = (bound + 1) / d * d) (hsmall : last * excess < P)
    {n : Nat} (hn : n ≤ bound) : n * m / P = n / d := by
  refine (mul_div_eq_iff hP hd hm n).2 ?_
  have hr := Nat.mod_lt n hd
  have hdiv := Nat.div_add_mod' n d
  have hbound := Nat.div_add_mod' (bound + 1) d
  by_cases hle : n ≤ last
  · calc n * excess ≤ last * excess := Nat.mul_le_mul_right _ hle
      _ < P := hsmall
      _ ≤ (d - n % d) * P := Nat.le_mul_of_pos_left _ (by omega)
  · -- the dividends behind the last multiple of `d`, whose remainders are below `d - 1`
    have hq : n / d = (bound + 1) / d := by
      refine Nat.le_antisymm (Nat.div_le_div_right (by omega)) ?_
      exact (Nat.le_div_iff_mul_le hd).2 (by omega)
    have hmod := Nat.mod_lt (bound + 1) hd
    have hpos : d ≤ (bound + 1) / d * d := Nat.le_mul_of_pos_left _ (Nat.div_pos (by omega) hd)
    rw [hq] at hdiv
    calc n * excess ≤ (last + last) * excess := Nat.mul_le_mul_right _ (by omega)
      _ < 2 * P := by rw [Nat.add_mul]; omega
      _ ≤ (d - n % d) * P := Nat.mul_le_mul_right _ (by omega)

end SeL4Kernel
