import SeL4Kernel.Kernel.TimeUnits
import SeL4Kernel.Lib.Reciprocal

/-!
# Exact conversions

`magicgu` of `reciprocal.py` computes the constants with which ARM in 32 bits divides.
`magicgu_exact`: it always finds a pair, and with it every dividend up to `nmax` is divided
exactly.

With it `conversions_iff` says when the conversions of `TimeUnits` are what the frequency of the
timer makes of them. Three ports accept arguments for which they are not: `getMaxUsToTicks` of
RISC-V lets products wrap, ARM in 64 bits scales by kHz where it should divide by it, and
ARM in 32 bits takes dividends that are longer than the 32 bits `magicgu` was asked for.
-/

namespace SeL4Kernel

/-! ### The constants -/

/-- `d - 1 - (2**p - 1) % d`. -/
def excess (d p : Nat) : Nat := d - 1 - (2 ^ p - 1) % d

/-- `nmax.log2 + 1` is `len(bin(nmax)) - 2`. There is no result where the script exits. -/
def magicgu (nmax d : Nat) : Option (Nat × Nat) :=
  let nc := (nmax + 1) / d * d - 1
  let nbits := nmax.log2 + 1
  ((List.range (2 * nbits + 1)).find? fun p => nc * excess d p < 2 ^ p).map
    fun p => ((2 ^ p + d - 1 - (2 ^ p - 1) % d) / d, p)

variable {nmax d m p : Nat}

/-- The multiplier times the divisor is a power of two and the excess. -/
theorem magicgu_mul (hd : 0 < d) (h : magicgu nmax d = some (m, p)) :
    m * d = 2 ^ p + excess d p := by
  obtain ⟨p, _, hp⟩ := Option.map_eq_some_iff.1 h
  obtain ⟨rfl, rfl⟩ := Prod.mk.inj hp
  have hpow := Nat.two_pow_pos p
  have hdiv := Nat.div_add_mod' (2 ^ p - 1) d
  have hmod := Nat.mod_lt (2 ^ p - 1) hd
  have hnum : 2 ^ p + d - 1 - (2 ^ p - 1) % d = ((2 ^ p - 1) / d + 1) * d := by
    rw [Nat.add_mul]
    omega
  rw [hnum, Nat.mul_div_cancel _ hd]
  unfold excess
  omega

/-- The search ends: `2 * nbits` is large enough. -/
theorem magicgu_found (hd : 0 < d) (hdn : d ≤ nmax) : ∃ m p, magicgu nmax d = some (m, p) := by
  have hlog : nmax < 2 ^ (nmax.log2 + 1) := Nat.lt_log2_self
  have hnc : (nmax + 1) / d * d ≤ nmax + 1 := Nat.div_mul_le_self _ _
  have hexcess : excess d (2 * (nmax.log2 + 1)) ≤ nmax := by
    unfold excess
    omega
  have hlast : ((nmax + 1) / d * d - 1) * excess d (2 * (nmax.log2 + 1)) <
      2 ^ (2 * (nmax.log2 + 1)) := by
    calc ((nmax + 1) / d * d - 1) * excess d (2 * (nmax.log2 + 1))
        ≤ nmax * nmax := Nat.mul_le_mul (by omega) hexcess
      _ < 2 ^ (nmax.log2 + 1) * 2 ^ (nmax.log2 + 1) :=
        Nat.mul_lt_mul_of_le_of_lt (Nat.le_of_lt hlog) hlog (by omega)
      _ = 2 ^ (2 * (nmax.log2 + 1)) := by rw [← Nat.pow_add, Nat.two_mul]
  have hsome : ((List.range (2 * (nmax.log2 + 1) + 1)).find? fun p =>
      ((nmax + 1) / d * d - 1) * excess d p < 2 ^ p).isSome :=
    List.find?_isSome.2 ⟨_, List.mem_range.2 (Nat.lt_succ_self _), decide_eq_true hlast⟩
  obtain ⟨p, hp⟩ := Option.isSome_iff_exists.1 hsome
  exact ⟨_, p, Option.map_eq_some_iff.2 ⟨p, hp, rfl⟩⟩

/-- Whatever it finds divides exactly. -/
theorem magicgu_div {n : Nat} (hd : 0 < d) (hdn : d ≤ nmax) (h : magicgu nmax d = some (m, p))
    (hn : n ≤ nmax) : n * m / 2 ^ p = n / d := by
  have hm := magicgu_mul hd h
  obtain ⟨p, hp, hmp⟩ := Option.map_eq_some_iff.1 h
  obtain ⟨-, rfl⟩ := Prod.mk.inj hmp
  have hsmall : ((nmax + 1) / d * d - 1) * excess d p < 2 ^ p := by simpa using List.find?_some hp
  have hpos : 0 < (nmax + 1) / d * d := Nat.mul_pos (Nat.div_pos (by omega) hd) hd
  exact mul_div_eq_of_le (Nat.two_pow_pos p) hd hm hdn (by omega) hsmall hn

/-- **Reciprocals.** The script finds a pair for every divisor, which divides every dividend up
to `nmax` exactly. -/
theorem magicgu_exact {nmax d : Nat} (hd : 1 ≤ d) (hdn : d ≤ nmax) :
    ∃ m p, magicgu nmax d = some (m, p) ∧ ∀ n ≤ nmax, (n * m) >>> p = n / d := by
  obtain ⟨m, p, h⟩ := magicgu_found hd hdn
  refine ⟨m, p, h, fun n hn => ?_⟩
  rw [Nat.shiftRight_eq_div_pow]
  exact magicgu_div hd hdn h hn

/-- Division by 7 in eight bits. -/
theorem magicgu_exact_seven :
    1 ≤ 7 ∧ 7 ≤ 255 ∧ ∃ m p, magicgu 255 7 = some (m, p) ∧ ∀ n ≤ 255, (n * m) >>> p = n / 7 :=
  ⟨by decide, by decide, magicgu_exact (by decide) (by decide)⟩

/-! ### The conversions -/

namespace Clock

/-- The unit in which the port counts. -/
def unit (t : Clock) : Nat := if t.useKhz then 1000 else 1000000

/-- The frequency in that unit, by which ARM in 32 bits has to divide. -/
def divisor (t : Clock) : Nat := if t.useKhz then t.khz else t.mhz

/-- The frequency is a multiple of its unit, and the constants are those of `reciprocal.py`. -/
structure Regular (t : Clock) : Prop where
  dvd : t.unit ∣ t.clockHz
  magic : ∀ m p, t.port = .arm32 m p → magicgu (2 ^ 32 - 1) t.divisor = some (m, p)

/-- The numbers of ticks that a port converts exactly. -/
def Exact (t : Clock) (ticks : Nat) : Prop :=
  match t.port with
  | .riscv | .x86 => True
  | .arm32 _ p =>
    t.dividend ticks * excess t.divisor p < (t.divisor - t.dividend ticks % t.divisor) * 2 ^ p
  | .arm64 => t.useKhz = true → ticks = 0

variable {t : Clock}

theorem mhz_pos (t : Clock) : 0 < t.mhz := Nat.div_pos t.mhz_le (by decide)

theorem divisor_pos (t : Clock) : 0 < t.divisor := by
  unfold divisor
  split
  · exact Nat.div_pos (Nat.le_trans (by decide) t.mhz_le) (by decide)
  · exact t.mhz_pos

variable (h : t.Regular)

include h

theorem Regular.divisor_mul : t.divisor * t.unit = t.clockHz := by
  have hdvd := h.dvd
  unfold unit at hdvd
  unfold divisor unit
  split at hdvd
  next hkhz =>
    rw [if_pos hkhz, if_pos hkhz]
    exact Nat.div_mul_cancel hdvd
  next hkhz =>
    rw [if_neg hkhz, if_neg hkhz]
    exact Nat.div_mul_cancel hdvd

/-- The ticks of a number of microseconds by the frequency. -/
theorem Regular.ticks_eq (us : Nat) : t.ticks us = us * t.clockHz / 1000000 := by
  rw [← h.divisor_mul, ← Nat.mul_assoc]
  unfold ticks product divisor unit
  split
  · exact (Nat.mul_div_mul_right _ 1000 (by decide : 0 < 1000)).symm
  · exact (Nat.mul_div_cancel _ (by decide)).symm

/-- The microseconds of a number of ticks by the frequency. -/
theorem Regular.dividend_div (k : Nat) : t.dividend k / t.divisor = k * 1000000 / t.clockHz := by
  rw [← h.divisor_mul]
  unfold dividend unit
  split
  · rw [show k * 1000000 = k * 1000 * 1000 by omega]
    exact (Nat.mul_div_mul_right _ _ (by decide)).symm
  · exact (Nat.mul_div_mul_right _ _ (by decide)).symm

/-- In kHz ARM in 64 bits is right for no ticks only: it multiplies by a frequency of more than
1000 kHz and divides by MHz, where it should multiply by 1000 and divide by kHz. -/
theorem Regular.khz_iff (hkhz : t.useKhz = true) (k : Nat) :
    k * t.khz / t.mhz = k * 1000 / t.khz ↔ k = 0 := by
  have hunit : t.khz * 1000 = t.clockHz := by
    have hmul := h.divisor_mul
    rwa [divisor, unit, if_pos hkhz, if_pos hkhz] at hmul
  refine ⟨fun he => ?_, fun he => ?_⟩
  swap
  · rw [he, Nat.zero_mul, Nat.zero_div, Nat.zero_div]
  by_contra hk
  have hkhz_pos : 1000 ≤ t.khz := by
    have := t.mhz_le
    omega
  have hmul : 1000 * t.mhz ≤ t.khz := by
    unfold mhz
    omega
  have hleft : k * 1000 ≤ k * t.khz / t.mhz := by
    refine (Nat.le_div_iff_mul_le t.mhz_pos).2 ?_
    rw [Nat.mul_assoc]
    exact Nat.mul_le_mul_left k hmul
  have hright : k * 1000 / t.khz ≤ k :=
    Nat.div_le_of_le_mul (Nat.mul_comm k 1000 ▸ Nat.mul_le_mul_right k hkhz_pos)
  omega

/-- Below the limit the conversion is exact for the numbers of `Exact` and for no others. -/
theorem Regular.ticksToUs_eq_iff {k : Nat} (hk : k ≤ t.getMaxTicksToUs) :
    t.ticksToUs k = k * 1000000 / t.clockHz ↔ t.Exact k := by
  rw [ticksToUs_eq hk, ← h.dividend_div]
  unfold microseconds Exact
  cases hport : t.port with
  | riscv => simp [dividend, divisor, useKhz, hport]
  | x86 => simp [dividend, divisor, useKhz, hport]
  | arm32 m p =>
    exact mul_div_eq_iff (Nat.two_pow_pos p) t.divisor_pos
      (magicgu_mul t.divisor_pos (h.magic m p hport)) _
  | arm64 =>
    unfold dividend divisor
    by_cases hkhz : t.useKhz = true
    · simp only [hkhz, if_true, forall_const]
      exact h.khz_iff hkhz k
    · simp [hkhz]

/-- The constants are good for dividends of 32 bits. -/
theorem Regular.exact_of_lt {k : Nat} (hport : t.port = .arm32 m p) (hd : t.divisor < 2 ^ 32)
    (hk : t.dividend k < 2 ^ 32) : t.Exact k := by
  have hmagic := h.magic m p hport
  unfold Exact
  rw [hport]
  exact (mul_div_eq_iff (Nat.two_pow_pos p) t.divisor_pos (magicgu_mul t.divisor_pos hmagic) _).1
    (magicgu_div t.divisor_pos (Nat.le_sub_one_of_lt hd) hmagic (Nat.le_sub_one_of_lt hk))

end Clock

/-- **Conversions.** Microseconds are converted exactly if their product fits into a word, which
the limit ensures except on RISC-V. Ticks are converted without a wrap, and exactly on RISC-V and
x86 and, in MHz, on ARM in 64 bits; in kHz that port is right for no ticks only, and ARM
in 32 bits for dividends of 32 bits and those where the excess does not show. -/
theorem conversions_iff {t : Clock} (h : t.Regular) :
    (∀ us ≤ t.getMaxUsToTicks,
      (t.usToTicks us = us * t.clockHz / 1000000 ↔ t.product us < 2 ^ 64) ∧
        (t.port ≠ .riscv → t.product us < 2 ^ 64)) ∧
      ∀ k ≤ t.getMaxTicksToUs, t.ticksProduct k < 2 ^ 64 ∧
        (t.ticksToUs k = k * 1000000 / t.clockHz ↔ t.Exact k) ∧
        ∀ m p, t.port = .arm32 m p → t.divisor < 2 ^ 32 → t.dividend k < 2 ^ 32 → t.Exact k := by
  refine ⟨fun us hus => ⟨?_, fun hport => t.noWrap_of_le hport hus⟩, fun k hk =>
    ⟨t.ticksProduct_lt hk, h.ticksToUs_eq_iff hk, fun m p hport => h.exact_of_lt hport⟩⟩
  rw [← h.ticks_eq]
  exact t.usToTicks_eq_iff us

/-- The timers of two ARM platforms. -/
def omap3Clock : Clock := ⟨.arm32 1321528399 34, 13000000, by decide⟩

def bcm2837Clock : Clock := ⟨.arm64, 19200000, by decide⟩

theorem omap3Clock_regular : omap3Clock.Regular where
  dvd := by decide
  magic := by
    rintro m p ⟨⟩
    decide +kernel

theorem bcm2837Clock_regular : bcm2837Clock.Regular where
  dvd := by decide
  magic := fun _ _ h => nomatch h

theorem tenMhz_regular : tenMhz.Regular where
  dvd := by decide
  magic := fun _ _ h => nomatch h

/-- One second on a timer of 13 MHz. -/
theorem conversions_iff_second :
    omap3Clock.Regular ∧ omap3Clock.usToTicks 1000000 = 1000000 * 13000000 / 1000000 ∧
      omap3Clock.ticksToUs 13000000 = 13000000 * 1000000 / 13000000 := by
  obtain ⟨hus, hticks⟩ := conversions_iff omap3Clock_regular
  obtain ⟨hiff, hfits⟩ := hus 1000000 (by decide)
  obtain ⟨-, hexact, hshort⟩ := hticks 13000000 (by decide)
  exact ⟨omap3Clock_regular, hiff.2 (hfits (by decide)),
    hexact.2 (hshort _ _ rfl (by decide) (by decide))⟩

/-- A product that wraps on RISC-V, one tick that becomes 1010 microseconds on ARM in 64 bits, and
a number of ticks behind 32 bits on ARM in 32 bits. -/
theorem conversions_inexact :
    (tenMhz.Regular ∧ 1844674407370955162 ≤ tenMhz.getMaxUsToTicks ∧
      tenMhz.usToTicks 1844674407370955162 = 4 ∧
      1844674407370955162 * tenMhz.clockHz / 1000000 ≠ 4) ∧
    (bcm2837Clock.Regular ∧ 1 ≤ bcm2837Clock.getMaxTicksToUs ∧
      bcm2837Clock.ticksToUs 1 = 1010 ∧ 1 * 1000000 / bcm2837Clock.clockHz = 0) ∧
    omap3Clock.Regular ∧ 5726623070 ≤ omap3Clock.getMaxTicksToUs ∧
      omap3Clock.ticksToUs 5726623070 = 440509467 ∧
      5726623070 * 1000000 / omap3Clock.clockHz = 440509466 :=
  ⟨⟨tenMhz_regular, by decide, by decide, by decide⟩,
    ⟨bcm2837Clock_regular, by decide, by decide, by decide⟩,
    omap3Clock_regular, by decide, by decide, by decide⟩

end SeL4Kernel
