import Mathlib.Algebra.Group.Nat.Defs
import Mathlib.Data.Nat.Log
import Mathlib.Tactic.Common

/-!
# Aligned blocks whose size is a power of two

A range of numbers is cut into blocks from its start: each time the largest block that is
aligned, fits and is not larger than `2 ^ M` (`Largest`). However small a block is, it does not
begin inside an aligned block of size `2 ^ m` that lies in the rest of the range as a whole
(`Largest.le_or_le`). So a block smaller than `2 ^ m` takes nothing of these, and the blocks from
`2 ^ m` on cover the numbers whose aligned block lies in the range (`InWholeBlock`), and no others.

The largest block can be computed from the number of trailing zeros (`trailingZeros`) of the
start and from the highest bit of the length (`largest_of_log`).
-/

namespace SeL4Kernel

/-- `2 ^ k` is the largest aligned block at `p` that fits into `n`. -/
structure Largest (M p n k : ℕ) : Prop where
  le_max : k ≤ M
  dvd : 2 ^ k ∣ p
  fits : 2 ^ k ≤ n
  greatest : ∀ m ≤ M, 2 ^ m ∣ p → 2 ^ m ≤ n → m ≤ k

/-- An aligned block of size `2 ^ m` from `b` on that lies between `s` and `e`. -/
structure WholeBlock (m s e b : ℕ) : Prop where
  dvd : 2 ^ m ∣ b
  start_le : s ≤ b
  le_stop : b + 2 ^ m ≤ e

variable {M m p e b k : ℕ}

/-- Multiples that are less than one step apart are equal. -/
theorem eq_of_dvd_of_lt {d : ℕ} (hp : d ∣ p) (hb : d ∣ b) (hle : p ≤ b) (hlt : b < p + d) :
    b = p := by
  obtain ⟨c, rfl⟩ : ∃ c, b = p + c := ⟨b - p, by omega⟩
  have hc : d ∣ c := (Nat.dvd_add_right hp).1 hb
  rw [Nat.eq_zero_of_dvd_of_lt hc (by omega), Nat.add_zero]

/-- The largest block is a union of whole blocks, or it ends before the next of them. -/
theorem Largest.le_or_le (h : Largest M p (e - p) k) (hm : m ≤ M) (hb : WholeBlock m p e b) :
    p + 2 ^ k ≤ b ∨ m ≤ k ∧ b + 2 ^ m ≤ p + 2 ^ k := by
  by_cases hlt : b < p + 2 ^ k
  · right
    rcases le_total m k with hle | hle
    · refine ⟨hle, ?_⟩
      have hpm : 2 ^ m ∣ p + 2 ^ k :=
        Nat.dvd_add (Nat.dvd_trans (Nat.pow_dvd_pow 2 hle) h.dvd) (Nat.pow_dvd_pow 2 hle)
      by_contra hc
      -- the end of the largest block would be strictly inside a whole block
      have heq := eq_of_dvd_of_lt hb.dvd hpm hlt.le (by omega)
      omega
    · have heq : b = p := eq_of_dvd_of_lt h.dvd
        (Nat.dvd_trans (Nat.pow_dvd_pow 2 hle) hb.dvd) hb.start_le hlt
      have hfit := hb.le_stop
      have hmk := h.greatest m hm (heq ▸ hb.dvd) (by omega)
      obtain rfl : k = m := le_antisymm hle hmk
      exact ⟨le_refl _, by omega⟩
  · exact .inl (not_lt.1 hlt)

/-- The aligned block of size `2 ^ m` that `x` is in lies between `s` and `e`. -/
def InWholeBlock (m s e x : ℕ) : Prop := WholeBlock m s e (x / 2 ^ m * 2 ^ m)

theorem InWholeBlock.mem {s x : ℕ} (h : InWholeBlock m s e x) : s ≤ x ∧ x < e := by
  have hlt : x < x / 2 ^ m * 2 ^ m + 2 ^ m := Nat.lt_div_mul_add (Nat.two_pow_pos m)
  exact ⟨h.start_le.trans (Nat.div_mul_le_self x _), lt_of_lt_of_le hlt h.le_stop⟩

theorem InWholeBlock.mono {s s' x : ℕ} (h : InWholeBlock m s e x) (hle : s' ≤ s) :
    InWholeBlock m s' e x :=
  ⟨h.dvd, hle.trans h.start_le, h.le_stop⟩

/-- Numbers in an aligned block are in smaller aligned blocks inside of it. -/
theorem inWholeBlock_of_dvd {s x : ℕ} (hs : 2 ^ m ∣ s) (he : 2 ^ m ∣ e) (hle : s ≤ x)
    (hlt : x < e) : InWholeBlock m s e x := by
  obtain ⟨c, rfl⟩ := hs
  obtain ⟨d, rfl⟩ := he
  have hc : c ≤ x / 2 ^ m := (Nat.le_div_iff_mul_le (Nat.two_pow_pos m)).2 (by rwa [Nat.mul_comm])
  have hd : x / 2 ^ m + 1 ≤ d := Nat.div_lt_of_lt_mul hlt
  refine ⟨Nat.dvd_mul_left _ _, ?_, ?_⟩
  · rw [Nat.mul_comm]
    exact Nat.mul_le_mul_right _ hc
  · rw [← Nat.succ_mul, Nat.mul_comm _ d]
    exact Nat.mul_le_mul_right _ hd

theorem Largest.inWholeBlock_iff {x : ℕ} (h : Largest M p (e - p) k) (hm : m ≤ M) :
    InWholeBlock m p e x ↔ m ≤ k ∧ p ≤ x ∧ x < p + 2 ^ k ∨ InWholeBlock m (p + 2 ^ k) e x := by
  have hfits := h.fits
  have hpos := Nat.two_pow_pos k
  constructor
  · intro hx
    rcases h.le_or_le hm hx with hafter | ⟨hle, hin⟩
    · exact .inr ⟨hx.dvd, hafter, hx.le_stop⟩
    · refine .inl ⟨hle, hx.mem.1, ?_⟩
      exact lt_of_lt_of_le (Nat.lt_div_mul_add (Nat.two_pow_pos m)) hin
  · rintro (⟨hle, hstart, hstop⟩ | hx)
    · have hdvd := Nat.dvd_trans (Nat.pow_dvd_pow 2 hle) h.dvd
      have hin := inWholeBlock_of_dvd hdvd (Nat.dvd_add hdvd (Nat.pow_dvd_pow 2 hle)) hstart hstop
      exact ⟨hin.dvd, hin.start_le, hin.le_stop.trans (by omega)⟩
    · exact hx.mono (Nat.le_add_right p _)

/-! ### Computing the size -/

/-- The number of zeros at the end, for numbers of at most `w` bits. -/
def trailingZeros : ℕ → ℕ → ℕ
  | 0, _ => 0
  | w + 1, n => if n % 2 = 1 then 0 else trailingZeros w (n / 2) + 1

theorem pow_trailingZeros_dvd (w n : ℕ) : 2 ^ trailingZeros w n ∣ n := by
  induction w generalizing n with
  | zero => exact ⟨n, by simp [trailingZeros]⟩
  | succ w ih =>
    rw [trailingZeros]
    split
    · exact ⟨n, by simp⟩
    obtain ⟨c, hc⟩ := ih (n / 2)
    refine ⟨c, ?_⟩
    rw [Nat.pow_succ, Nat.mul_right_comm]
    omega

theorem le_trailingZeros {w n : ℕ} (hn : n ≠ 0) (hlt : n < 2 ^ w) (hm : 2 ^ m ∣ n) :
    m ≤ trailingZeros w n := by
  induction w generalizing n m with
  | zero => omega
  | succ w ih =>
    cases m with
    | zero => exact Nat.zero_le _
    | succ m =>
      have heven : n % 2 = 0 := by
        refine Nat.mod_eq_zero_of_dvd (Nat.dvd_trans ?_ hm)
        exact ⟨2 ^ m, by rw [Nat.pow_succ, Nat.mul_comm]⟩
      rw [trailingZeros, if_neg (by omega)]
      refine Nat.succ_le_succ (ih (by omega) ?_ ?_)
      · omega
      · obtain ⟨c, hc⟩ := hm
        refine ⟨c, ?_⟩
        rw [hc, Nat.pow_succ, Nat.mul_right_comm, Nat.mul_div_cancel _ (by decide)]

/-- The size that code finds with two bit counts is that of the largest block. -/
theorem largest_of_log {n a : ℕ} (hn : n ≠ 0) (ha : 2 ^ min a M ∣ p)
    (hgreatest : ∀ m ≤ M, 2 ^ m ∣ p → m ≤ a) (hk : k = min (min (Nat.log2 n) a) M) :
    Largest M p n k := by
  subst hk
  refine ⟨min_le_right _ _, ?_, ?_, ?_⟩
  · refine Nat.dvd_trans (Nat.pow_dvd_pow 2 ?_) ha
    exact le_min ((min_le_left _ _).trans (min_le_right _ _)) (min_le_right _ _)
  · refine le_trans (Nat.pow_le_pow_right (by decide) ?_) (Nat.log2_self_le hn)
    exact (min_le_left _ _).trans (min_le_left _ _)
  · intro m hm hdvd hle
    exact le_min (le_min ((Nat.le_log2 hn).2 hle) (hgreatest m hm hdvd)) hm

end SeL4Kernel
