import Mathlib.Algebra.Group.Nat.Defs
import Mathlib.Tactic.Common

/-!
# Fields and highest bits of words

* `toNat_field`: a shift to the left and one to the right cut a field out of a word.
* `lowBits`: the bits of a word as a list, which `ofBits` puts together again.
* `highestBit`: the position of the most significant bit that is set, as code finds
  it by counting leading zeros.
-/

namespace SeL4Kernel

variable {n : Nat} {w : BitVec n} (x : BitVec n)

/-- The `g` bits of a word behind its first `b` bits. -/
theorem toNat_field {b g : Nat} (h : b + g ≤ n) :
    ((x <<< b) >>> (n - g)).toNat = x.toNat / 2 ^ (n - (b + g)) % 2 ^ g := by
  rw [BitVec.toNat_ushiftRight, BitVec.toNat_shiftLeft, Nat.shiftLeft_eq, Nat.shiftRight_eq_div_pow]
  have hn : 2 ^ n = 2 ^ (n - b) * 2 ^ b := by
    rw [← Nat.pow_add]
    congr 1
    omega
  have hfield : 2 ^ (n - g) = 2 ^ b * 2 ^ (n - (b + g)) := by
    rw [← Nat.pow_add]
    congr 1
    omega
  have hrest : 2 ^ (n - b) = 2 ^ (n - (b + g)) * 2 ^ g := by
    rw [← Nat.pow_add]
    congr 1
    omega
  rw [hn, Nat.mul_mod_mul_right, hfield, ← Nat.div_div_eq_div_mul,
    Nat.mul_div_cancel _ (Nat.two_pow_pos b), hrest, Nat.mod_mul_right_div_self]

/-! ### Lists of bits -/

/-- The `k` least significant bits of a word, from the most significant one. -/
def lowBits (x : BitVec n) : Nat → List Bool
  | 0 => []
  | k + 1 => x.getLsbD k :: lowBits x k

def ofBits (bits : List Bool) : Nat := bits.foldl (fun v b => 2 * v + b.toNat) 0

@[simp] theorem length_lowBits (k : Nat) : (lowBits x k).length = k := by
  induction k with
  | zero => rfl
  | succ k ih => rw [lowBits, List.length_cons, ih]

theorem drop_lowBits (k g : Nat) : (lowBits x k).drop g = lowBits x (k - g) := by
  induction g generalizing k with
  | zero => rfl
  | succ g ih =>
    cases k with
    | zero => rw [Nat.zero_sub, lowBits, List.drop_nil]
    | succ k => rw [lowBits, List.drop_succ_cons, ih, Nat.add_sub_add_right]

/-- The first `g` of `k` bits are a field of the word. -/
theorem ofBits_take_lowBits {k g : Nat} (h : g ≤ k) :
    ofBits ((lowBits x k).take g) = x.toNat / 2 ^ (k - g) % 2 ^ g := by
  induction g with
  | zero => rw [Nat.pow_zero, Nat.mod_one]; rfl
  | succ g ih =>
    obtain ⟨j, rfl⟩ := Nat.exists_eq_add_of_le h
    have hbit : (lowBits x (g + 1 + j))[g]? = some (x.getLsbD j) := by
      rw [← List.head?_drop, drop_lowBits, show g + 1 + j - g = j + 1 by omega]
      rfl
    have hfield := Nat.mod_mul (x := x.toNat / 2 ^ j) (a := 2) (b := 2 ^ g)
    rw [List.take_add_one, hbit, ofBits, List.foldl_append, ← ofBits, ih (by omega),
      show g + 1 + j - g = j + 1 by omega, Nat.add_sub_cancel_left, Nat.pow_succ' (n := g),
      hfield, Nat.div_div_eq_div_mul, ← Nat.pow_succ, ← Nat.toNat_testBit]
    exact Nat.add_comm _ _

/-! ### The highest bit -/

def highestBit (w : BitVec n) : Nat := n - 1 - w.clz.toNat

theorem getLsbD_highestBit (hw : w ≠ 0) : w.getLsbD (highestBit w) = true := by
  have hn : 0 < n := by
    by_contra hn
    obtain rfl : n = 0 := by omega
    exact hw (BitVec.of_length_zero)
  exact BitVec.getLsbD_true_clz_of_ne_zero hn hw

theorem le_highestBit {i : Nat} (h : w.getLsbD i = true) : i ≤ highestBit w := by
  by_contra hi
  have hlt : w.toNat < 2 ^ i := by
    refine Nat.lt_of_lt_of_le BitVec.toNat_lt_two_pow_sub_clz (Nat.pow_le_pow_right (by decide) ?_)
    unfold highestBit at hi
    omega
  rw [← BitVec.testBit_toNat, Nat.testBit_lt_two_pow hlt] at h
  cases h

theorem highestBit_eq {i : Nat} (h : w.getLsbD i = true) (hle : ∀ j, w.getLsbD j = true → j ≤ i) :
    highestBit w = i := by
  have hw : w ≠ 0 := by
    rintro rfl
    simp at h
  exact Nat.le_antisymm (hle _ (getLsbD_highestBit hw)) (le_highestBit h)

end SeL4Kernel
