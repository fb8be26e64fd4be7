import Mathlib.Algebra.Group.Nat.Defs
import Mathlib.Tactic.Common

/-!
# Division of 64-bit numbers

`div64` of `32/mode/util.h`: binary long division on kernels with 32-bit words. The denominator
is aligned to the numerator and then halved until the counter wraps around. `div64_exact`: the
loop ends, the shifts are defined and lose no bit, and the result is the quotient.
-/

namespace SeL4Kernel.Mode32

/-- The variables of the loop. -/
structure Division where
  numerator : BitVec 64
  quotient : BitVec 64
  longDenom : BitVec 64
  c : BitVec 64

/-- `x << c`, which is undefined from the width of the type on. -/
def shiftLeft (x c : BitVec 64) : Option (BitVec 64) :=
  if c.toNat < 64 then some (x <<< c.toNat) else none

/-- The body of the loop. -/
def divide (s : Division) : Option Division := do
  let s ← if s.longDenom ≤ s.numerator then do
      let bit ← shiftLeft 1#64 s.c
      pure { s with numerator := s.numerator - s.longDenom, quotient := s.quotient ||| bit }
    else pure s
  pure { s with c := s.c - 1, longDenom := s.longDenom >>> 1 }

/-- The loop, with a bound for its rounds. -/
def divideLoop : ℕ → Division → Option (BitVec 64)
  | 0, _ => none
  | fuel + 1, s =>
    if s.c < 0xFFFFFFFFFFFFFFFF then (divide s).bind (divideLoop fuel) else some s.quotient

/-- `((uint64_t) 32u + clzl(denominator)) - clzll(numerator)`. -/
def alignment (numerator : BitVec 64) (denominator : BitVec 32) : BitVec 64 :=
  32 + denominator.clz.setWidth 64 - numerator.clz

/-- There is no result where an assertion fails, a shift is undefined or the loop goes on. -/
def div64 (fuel : ℕ) (numerator : BitVec 64) (denominator : BitVec 32) : Option (BitVec 64) :=
  let longDenom := denominator.setWidth 64
  if longDenom > numerator then some 0
  else if numerator = 0 ∨ denominator = 0 then none
  else do
    let c := alignment numerator denominator
    divideLoop fuel ⟨numerator, 0, ← shiftLeft longDenom c, c⟩

variable {N D k fuel : ℕ} {s : Division} {n : BitVec 64} {d : BitVec 32}

/-- `k` bits of the quotient are missing. The counter is one less, and wraps at the end. -/
structure Dividing (N D k : ℕ) (s : Division) : Prop where
  count : (s.c + 1).toNat = k
  sum : s.numerator.toNat + s.quotient.toNat * D = N
  lt : s.numerator.toNat < D * 2 ^ k
  low : 2 ^ k ∣ s.quotient.toNat
  denom : s.longDenom.toNat = D * 2 ^ k / 2

/-- One round finds one bit. -/
theorem Dividing.divide (h : Dividing N D (k + 1) s) (hk : k < 64) :
    ∃ s', divide s = some s' ∧ Dividing N D k s' := by
  have hcount := h.count
  have hlt := h.lt
  have hpow : D * 2 ^ (k + 1) = D * 2 ^ k * 2 := by rw [Nat.pow_succ, Nat.mul_assoc]
  have hlong : s.longDenom.toNat = D * 2 ^ k := by
    rw [h.denom, hpow, Nat.mul_div_cancel _ (by decide)]
  have hc : s.c.toNat = k := by bv_omega
  have hnext : (s.longDenom >>> 1).toNat = D * 2 ^ k / 2 := by
    rw [BitVec.toNat_ushiftRight, hlong, Nat.shiftRight_one]
  have hdvd : 2 ^ k ∣ s.quotient.toNat :=
    Nat.dvd_trans (Nat.pow_dvd_pow 2 (Nat.le_succ k)) h.low
  unfold Mode32.divide shiftLeft
  by_cases hle : s.longDenom ≤ s.numerator
  · have hsub : (s.numerator - s.longDenom).toNat = s.numerator.toNat - D * 2 ^ k := by
      rw [BitVec.toNat_sub_of_le hle, hlong]
    have hge : D * 2 ^ k ≤ s.numerator.toNat := hlong ▸ hle
    -- the bits of the quotient so far are above the new one
    have hor : (s.quotient ||| 1#64 <<< s.c.toNat).toNat = s.quotient.toNat + 2 ^ k := by
      obtain ⟨q, hq⟩ := h.low
      have hbit : 2 ^ k < 2 ^ (k + 1) := Nat.pow_lt_pow_succ (by decide)
      have hfits : 2 ^ k < 2 ^ 64 := Nat.pow_lt_pow_right (by decide) hk
      rw [BitVec.toNat_or, hc, BitVec.toNat_shiftLeft, Nat.shiftLeft_eq, hq,
        Nat.two_pow_add_eq_or_of_lt hbit]
      congr 1
      rw [BitVec.toNat_one (by decide), Nat.one_mul, Nat.mod_eq_of_lt hfits]
    rw [if_pos hle, if_pos (hc ▸ hk)]
    refine ⟨_, rfl, by bv_omega, ?_, ?_, ?_, hnext⟩
    all_goals dsimp only
    · rw [hsub, hor, Nat.add_mul, Nat.mul_comm (2 ^ k)]
      have := h.sum
      omega
    · rw [hsub]
      omega
    · rw [hor]
      exact Nat.dvd_add hdvd (Nat.dvd_refl _)
  · rw [if_neg hle]
    exact ⟨_, rfl, by bv_omega, h.sum, by bv_omega, hdvd, hnext⟩

/-- The loop ends when all bits are found. -/
theorem Dividing.divideLoop (h : Dividing N D k s) (hk : k ≤ 64) (hfuel : k < fuel) :
    ∃ q, divideLoop fuel s = some q ∧ q.toNat = N / D := by
  induction k generalizing s fuel with
  | zero =>
    obtain ⟨fuel, rfl⟩ := Nat.exists_eq_add_of_lt hfuel
    have hcount := h.count
    have hlt := h.lt
    rw [Nat.pow_zero, Nat.mul_one] at hlt
    refine ⟨s.quotient, if_neg (by bv_omega), ?_⟩
    rw [← h.sum, Nat.add_mul_div_right _ _ (Nat.zero_lt_of_lt hlt), Nat.div_eq_of_lt hlt,
      Nat.zero_add]
  | succ k ih =>
    obtain ⟨fuel, rfl⟩ := Nat.exists_eq_add_of_lt hfuel
    have hcount := h.count
    obtain ⟨s', heq, hs'⟩ := h.divide hk
    obtain ⟨q, hq, hval⟩ := ih hs' (Nat.le_of_lt hk) (by omega : k < k + 1 + fuel)
    refine ⟨q, ?_, hval⟩
    rw [Mode32.divideLoop, if_pos (by bv_omega), heq]
    exact hq

/-- The highest bit of the aligned denominator is that of the numerator. -/
theorem alignment_spec (hd : d ≠ 0) (hle : d.setWidth 64 ≤ n) :
    (alignment n d).toNat < 64 ∧ d.toNat * 2 ^ (alignment n d).toNat < 2 ^ 64 ∧
      n.toNat < d.toNat * 2 ^ ((alignment n d).toNat + 1) := by
  have hd1 := d.toNat_lt_two_pow_sub_clz
  have hd2 := BitVec.two_pow_sub_clz_le_toNat_of_ne_zero (by decide) hd
  have hn := n.toNat_lt_two_pow_sub_clz
  have hlt : 2 ^ (32 - 1 - d.clz.toNat) < 2 ^ (64 - n.clz.toNat) := by
    exact Nat.lt_of_le_of_lt (Nat.le_trans hd2 (by bv_omega)) hn
  have hbits := (Nat.pow_lt_pow_iff_right (by decide)).1 hlt
  have ha : d.clz.toNat < 32 := BitVec.clz_lt_iff_ne_zero.2 hd
  have hb : n.clz.toNat ≤ 64 := BitVec.clz_le
  have hc : (alignment n d).toNat = 32 + d.clz.toNat - n.clz.toNat := by
    unfold alignment
    bv_omega
  rw [hc]
  generalize d.clz.toNat = a at *
  generalize n.clz.toNat = b at *
  refine ⟨by omega, ?_, ?_⟩
  · calc d.toNat * 2 ^ (32 + a - b) < 2 ^ (32 - a) * 2 ^ (32 + a - b) :=
        Nat.mul_lt_mul_of_pos_right hd1 (Nat.two_pow_pos _)
      _ ≤ 2 ^ 64 := by
        rw [← Nat.pow_add]
        exact Nat.pow_le_pow_right (by decide) (by omega)
  · calc n.toNat < 2 ^ (64 - b) := hn
      _ = 2 ^ (32 - 1 - a) * 2 ^ (32 + a - b + 1) := by
        rw [← Nat.pow_add]
        congr 1
        omega
      _ ≤ _ := Nat.mul_le_mul_right _ hd2

/-- Where the denominator is not the larger one, it is shifted by less than the width and loses
no bit. The rounds of the loop are bounded, all their shifts are defined, and the result is the
quotient. -/
theorem div64_exact (n : BitVec 64) (d : BitVec 32) (hd : d ≠ 0) :
    (d.setWidth 64 ≤ n → (alignment n d).toNat < 64 ∧
      (d.setWidth 64 <<< (alignment n d).toNat).toNat = d.toNat * 2 ^ (alignment n d).toNat) ∧
    ∀ fuel > 64, ∃ q, div64 fuel n d = some q ∧ q.toNat = n.toNat / d.toNat := by
  have hwide : (d.setWidth 64).toNat = d.toNat := BitVec.toNat_setWidth_of_le (by decide)
  have halign (hle : d.setWidth 64 ≤ n) : (d.setWidth 64 <<< (alignment n d).toNat).toNat =
      d.toNat * 2 ^ (alignment n d).toNat := by
    rw [BitVec.toNat_shiftLeft, hwide, Nat.shiftLeft_eq,
      Nat.mod_eq_of_lt (alignment_spec hd hle).2.1]
  refine ⟨fun hle => ⟨(alignment_spec hd hle).1, halign hle⟩, fun fuel hfuel => ?_⟩
  unfold div64 shiftLeft
  by_cases hle : d.setWidth 64 ≤ n
  · obtain ⟨hlt, -, hnum⟩ := alignment_spec hd hle
    have hne : ¬(n = 0 ∨ d = 0) := by bv_omega
    dsimp only
    rw [if_neg (BitVec.not_lt.2 hle), if_neg hne, if_pos hlt]
    refine Dividing.divideLoop ⟨?_, ?_, hnum, Nat.dvd_zero _, ?_⟩ hlt (by omega)
    · dsimp only
      bv_omega
    · exact Nat.add_eq_left.2 (Nat.zero_mul _)
    · rw [halign hle, Nat.pow_succ, ← Nat.mul_assoc, Nat.mul_div_cancel _ (by decide)]
  · rw [if_pos (BitVec.not_le.1 hle)]
    refine ⟨0, rfl, (Nat.div_eq_of_lt ?_).symm⟩
    bv_omega

theorem div64_all_ones :
    ∃ q, div64 65 (BitVec.allOnes 64) 3 = some q ∧ q.toNat = (BitVec.allOnes 64).toNat / 3 :=
  (div64_exact _ 3 (by decide)).2 65 (by decide)

end SeL4Kernel.Mode32
