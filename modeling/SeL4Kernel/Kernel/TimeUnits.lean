import Mathlib.Algebra.GroupWithZero.Nat
import SeL4Kernel.Kernel.Binding

/-!
# Ticks and microseconds

The conversions between timer ticks and microseconds of the ports, and the two places of the MCS
kernel that rest on them: `decodeSchedControl_Configure`, which takes a budget and a period in
microseconds, and `schedContext_updateConsumed`, which reports the time a scheduling context has
used. All products are taken modulo `2 ^ 64`.

* `configured_iff`: what an accepted configuration has to satisfy to be right. `getMaxUsToTicks`
  keeps products from wrapping on ARM and x86 (`noWrap_of_le`); on RISC-V it is the product itself.
* `consumed_accounted`: no tick is lost or reported twice, and a report below the limit
  is the conversion of the ticks it takes away. At the limit the number of ticks is returned
  as microseconds.
-/

namespace SeL4Kernel

open Function Sporadic

/-! ### The timers -/

/-- The ports. ARM in 32 bits divides by a multiplication with `CLK_MAGIC` and a shift. -/
inductive Port where
  | riscv
  | x86
  | arm32 (clkMagic clkShift : Nat)
  | arm64
  deriving DecidableEq

/-- A port with its `TIMER_CLOCK_HZ`, which is at least one MHz. -/
structure Clock where
  port : Port
  clockHz : Nat
  mhz_le : 1000000 ≤ clockHz

namespace Clock

/-- `TIMER_CLOCK_MHZ`, `TICKS_IN_US` on RISC-V and `x86KStscMhz` on x86. -/
def mhz (t : Clock) : Nat := t.clockHz / 1000000

/-- `TIMER_CLOCK_KHZ`. -/
def khz (t : Clock) : Nat := t.clockHz / 1000

/-- `USE_KHZ`, of the ARM ports only. -/
def useKhz (t : Clock) : Bool :=
  match t.port with
  | .riscv | .x86 => false
  | .arm32 _ _ | .arm64 => 0 < t.clockHz % 1000000

def usToTicks (t : Clock) (us : Nat) : Nat :=
  if t.useKhz then us * t.khz % 2 ^ 64 / 1000 else us * t.mhz % 2 ^ 64

def getMaxTicksToUs (t : Clock) : Nat :=
  match t.port with
  | .riscv => (2 ^ 64 - 1) / t.mhz
  | .x86 => 2 ^ 64 - 1
  | .arm32 clkMagic _ =>
    if t.useKhz then (2 ^ 64 - 1) / 1000 / clkMagic else (2 ^ 64 - 1) / clkMagic
  | .arm64 => if t.useKhz then (2 ^ 64 - 1) / t.khz else 2 ^ 64 - 1

def getMaxUsToTicks (t : Clock) : Nat :=
  match t.port with
  | .riscv => t.usToTicks t.getMaxTicksToUs
  | .x86 | .arm32 _ _ | .arm64 => (2 ^ 64 - 1) / if t.useKhz then t.khz else t.mhz

def ticksToUs (t : Clock) (ticks : Nat) : Nat :=
  match t.port with
  | .riscv | .x86 => ticks / t.mhz
  | .arm32 clkMagic clkShift =>
    (if t.useKhz then ticks * 1000 % 2 ^ 64 else ticks) * clkMagic % 2 ^ 64 / 2 ^ clkShift
  | .arm64 => if t.useKhz then ticks * t.khz % 2 ^ 64 / t.mhz else ticks / t.mhz

variable {t : Clock}

/-! ### Budgets -/

/-- The product that `usToTicks` forms. -/
def product (t : Clock) (us : Nat) : Nat := us * if t.useKhz then t.khz else t.mhz

/-- What `usToTicks` computes if the product fits into a word. -/
def ticks (t : Clock) (us : Nat) : Nat :=
  if t.useKhz then t.product us / 1000 else t.product us

/-- What `ticks` leaves out, in millionths of a tick: the constants in MHz and in kHz are rounded
down. -/
def lost (t : Clock) (us : Nat) : Nat :=
  if t.useKhz then t.product us % 1000 * 1000 + us * (t.clockHz % 1000)
  else us * (t.clockHz % 1000000)

/-- The wrap is the only difference between `usToTicks` and `ticks`. -/
theorem usToTicks_eq_iff (us : Nat) : t.usToTicks us = t.ticks us ↔ t.product us < 2 ^ 64 := by
  unfold usToTicks ticks product
  by_cases hkhz : t.useKhz = true
  · simp only [hkhz, if_true]
    omega
  · simp only [hkhz, if_false, Bool.false_eq_true]
    omega

theorem usToTicks_le (us : Nat) : t.usToTicks us ≤ t.ticks us := by
  unfold usToTicks ticks product
  by_cases hkhz : t.useKhz = true
  · simp only [hkhz, if_true]
    omega
  · simp only [hkhz, if_false, Bool.false_eq_true]
    omega

theorem ticks_add_lost (us : Nat) : us * t.clockHz = t.ticks us * 1000000 + t.lost us := by
  unfold ticks lost product
  by_cases hkhz : t.useKhz = true
  · have hhz : us * t.clockHz = us * t.khz * 1000 + us * (t.clockHz % 1000) := by
      rw [Nat.mul_assoc, ← Nat.mul_add, khz, Nat.div_add_mod']
    simp only [hkhz, if_true]
    rw [hhz]
    generalize us * t.khz = p
    omega
  · have hhz : us * t.clockHz = us * t.mhz * 1000000 + us * (t.clockHz % 1000000) := by
      rw [Nat.mul_assoc, ← Nat.mul_add, mhz, Nat.div_add_mod']
    simp only [hkhz, if_false, Bool.false_eq_true]
    exact hhz

/-- The conversion gives the ticks of the frequency, rounded down, exactly if its product fits
into a word and less than one tick is left out. -/
theorem usToTicks_exact_iff (us : Nat) :
    t.usToTicks us = us * t.clockHz / 1000000 ↔
      t.product us < 2 ^ 64 ∧ t.lost us < 1000000 := by
  have hle := t.usToTicks_le us
  rw [← usToTicks_eq_iff, ticks_add_lost]
  omega

/-- `getMaxUsToTicks` does what it is for, except on RISC-V. -/
theorem noWrap_of_le (hport : t.port ≠ .riscv) {us : Nat} (h : us ≤ t.getMaxUsToTicks) :
    t.product us < 2 ^ 64 := by
  have hmax : t.getMaxUsToTicks = (2 ^ 64 - 1) / if t.useKhz then t.khz else t.mhz := by
    unfold getMaxUsToTicks
    cases he : t.port with
    | riscv => exact absurd he hport
    | x86 => rfl
    | arm32 _ _ => rfl
    | arm64 => rfl
  have hle := Nat.mul_le_of_le_div _ _ _ (hmax ▸ h)
  unfold product
  omega

end Clock

/-- What the budget, the period and the number of refills of a configuration should be: budget and
period are converted by the frequency of the timer, rounded down. The last part is what
`refill_new` asserts. -/
structure Configured (cfg : Config) (t : Clock) (a : ConfigureArgs) (sizeBits : Nat) : Prop where
  budget_eq : cfg.usToTicks a.budgetUs = a.budgetUs * t.clockHz / 1000000
  period_eq : cfg.usToTicks a.periodUs = a.periodUs * t.clockHz / 1000000
  minBudget_le : cfg.timer.minBudget ≤ cfg.usToTicks a.budgetUs
  budget_le : cfg.usToTicks a.budgetUs ≤ cfg.usToTicks a.periodUs
  minRefills_le : minRefills ≤ tickAdd a.extraRefills minRefills
  maxRefills_le : tickAdd a.extraRefills minRefills ≤ refillAbsoluteMax sizeBits
  refillNew : cfg.timer.minBudget < cfg.usToTicks a.budgetUs

theorem minRefills_le_iff {extra : Nat} (h : extra < 2 ^ 64) :
    minRefills ≤ tickAdd extra minRefills ↔ extra < 2 ^ 64 - 2 := by
  unfold tickAdd minRefills
  omega

/-- What the tests let through. -/
theorem decodeSchedControlConfigure_accepted {cfg : Config} {length : Nat} {extraCap : Option Cap}
    {a : ConfigureArgs} {s : Kernel}
    (h : ∀ e, decodeSchedControlConfigure cfg length extraCap a s ≠ .ok (.error e)) :
    ∃ target sizeBits, extraCap = some (.schedContext target sizeBits) ∧
      (a.budgetUs ≤ cfg.maxBudgetUs ∧ a.periodUs ≤ cfg.maxBudgetUs) ∧
      cfg.timer.minBudget ≤ cfg.usToTicks a.budgetUs ∧
      cfg.usToTicks a.budgetUs ≤ cfg.usToTicks a.periodUs ∧
      tickAdd a.extraRefills minRefills ≤ refillAbsoluteMax sizeBits ∧
      decodeSchedControlConfigure cfg length extraCap a s =
        invoke cfg (invokeSchedControlConfigure cfg target (cfg.usToTicks a.budgetUs)
          (cfg.usToTicks a.periodUs) (tickAdd a.extraRefills minRefills)
          a.badge) s := by
  unfold decodeSchedControlConfigure at h ⊢
  cases extraCap with
  | none => exact absurd rfl (h _)
  | some cap =>
    dsimp only at h ⊢
    split at h
    · exact absurd rfl (h _)
    rename_i hlength
    rw [if_neg hlength]
    split at h
    · rename_i target sizeBits
      split at h
      · exact absurd rfl (h _)
      rename_i hbudget
      split at h
      · exact absurd rfl (h _)
      rename_i hperiod
      split at h
      · exact absurd rfl (h _)
      rename_i hle
      split at h
      · exact absurd rfl (h _)
      rename_i hrefills
      rw [if_neg hbudget, if_neg hperiod, if_neg hle, if_neg hrefills]
      refine ⟨target, sizeBits, rfl, ?_, ?_, Nat.not_lt.1 hle, Nat.not_lt.1 hrefills, rfl⟩
      · omega
      · omega
    · exact absurd rfl (h _)

/-- **Budgets.** An accepted configuration is right exactly if the products of both
conversions fit into a word and leave out less than one tick, the number of refills does not wrap,
and the budget is not the smallest one. -/
theorem configured_iff {cfg : Config} {t : Clock} {length : Nat} {extraCap : Option Cap}
    {a : ConfigureArgs} {s : Kernel} (ht : cfg.usToTicks = t.usToTicks)
    (hword : a.extraRefills < 2 ^ 64)
    (h : ∀ e, decodeSchedControlConfigure cfg length extraCap a s ≠ .ok (.error e)) :
    ∃ target sizeBits, extraCap = some (.schedContext target sizeBits) ∧
      decodeSchedControlConfigure cfg length extraCap a s =
        invoke cfg (invokeSchedControlConfigure cfg target (cfg.usToTicks a.budgetUs)
          (cfg.usToTicks a.periodUs) (tickAdd a.extraRefills minRefills)
          a.badge) s ∧
      (Configured cfg t a sizeBits ↔
        (t.product a.budgetUs < 2 ^ 64 ∧ t.lost a.budgetUs < 1000000) ∧
          (t.product a.periodUs < 2 ^ 64 ∧ t.lost a.periodUs < 1000000) ∧
          a.extraRefills < 2 ^ 64 - 2 ∧ cfg.usToTicks a.budgetUs ≠ cfg.timer.minBudget) ∧
      (t.port ≠ .riscv → cfg.maxBudgetUs = t.getMaxUsToTicks →
        t.product a.budgetUs < 2 ^ 64 ∧ t.product a.periodUs < 2 ^ 64) := by
  obtain ⟨target, sizeBits, hcap, ⟨hb, hp⟩, hmin, hle, hmax, hinvoke⟩ :=
    decodeSchedControlConfigure_accepted h
  refine ⟨target, sizeBits, hcap, hinvoke, ⟨fun hc => ?_, ?_⟩, fun hport hlimit => ?_⟩
  · obtain ⟨hbudget, hperiod, _, _, hrefills, _, hnew⟩ := hc
    rw [ht] at hbudget hperiod
    exact ⟨(t.usToTicks_exact_iff _).1 hbudget, (t.usToTicks_exact_iff _).1 hperiod,
      (minRefills_le_iff hword).1 hrefills, Nat.ne_of_gt hnew⟩
  · rintro ⟨hbudget, hperiod, hextra, hne⟩
    refine ⟨?_, ?_, hmin, hle, (minRefills_le_iff hword).2 hextra, hmax, by omega⟩
    · rw [ht]
      exact (t.usToTicks_exact_iff _).2 hbudget
    · rw [ht]
      exact (t.usToTicks_exact_iff _).2 hperiod
  · rw [hlimit] at hb hp
    exact ⟨t.noWrap_of_le hport hb, t.noWrap_of_le hport hp⟩

/-! ### Consumed time -/

/-- The microseconds of a number of ticks, without a wrap. -/
def Clock.microseconds (t : Clock) (ticks : Nat) : Nat :=
  match t.port with
  | .riscv | .x86 => ticks / t.mhz
  | .arm32 clkMagic clkShift =>
    (if t.useKhz then ticks * 1000 else ticks) * clkMagic / 2 ^ clkShift
  | .arm64 => if t.useKhz then ticks * t.khz / t.mhz else ticks / t.mhz

/-- What ARM in 32 bits divides. -/
def Clock.dividend (t : Clock) (ticks : Nat) : Nat := if t.useKhz then ticks * 1000 else ticks

/-- The largest number that `ticksToUs` forms. -/
def Clock.ticksProduct (t : Clock) (ticks : Nat) : Nat :=
  match t.port with
  | .riscv | .x86 => ticks
  | .arm32 clkMagic _ => t.dividend ticks * clkMagic
  | .arm64 => if t.useKhz then ticks * t.khz else ticks

/-- Nothing that is formed below the limit wraps. -/
theorem Clock.ticksProduct_lt {t : Clock} {k : Nat} (hk : k ≤ t.getMaxTicksToUs) :
    t.ticksProduct k < 2 ^ 64 := by
  unfold getMaxTicksToUs at hk
  unfold ticksProduct dividend
  cases hport : t.port with
  | riscv =>
    rw [hport] at hk
    dsimp only at hk ⊢
    have hle := Nat.div_le_self (2 ^ 64 - 1) t.mhz
    omega
  | x86 =>
    rw [hport] at hk
    dsimp only at hk ⊢
    omega
  | arm32 m p =>
    rw [hport] at hk
    dsimp only at hk ⊢
    split at hk
    · rename_i hkhz
      have hle := Nat.mul_le_of_le_div _ _ _ (Nat.mul_le_of_le_div _ _ _ hk)
      rw [if_pos hkhz, Nat.mul_right_comm]
      omega
    · rename_i hkhz
      have hle := Nat.mul_le_of_le_div _ _ _ hk
      rw [if_neg hkhz]
      omega
  | arm64 =>
    rw [hport] at hk
    dsimp only at hk ⊢
    split at hk
    · rename_i hkhz
      have hle := Nat.mul_le_of_le_div _ _ _ hk
      rw [if_pos hkhz]
      omega
    · rename_i hkhz
      rw [if_neg hkhz]
      omega

/-- The conversion does not wrap up to the limit. -/
theorem Clock.ticksToUs_eq {t : Clock} {ticks : Nat} (h : ticks ≤ t.getMaxTicksToUs) :
    t.ticksToUs ticks = t.microseconds ticks := by
  have hlt := ticksProduct_lt h
  unfold ticksProduct dividend at hlt
  unfold ticksToUs microseconds
  cases hport : t.port with
  | riscv => rfl
  | x86 => rfl
  | arm32 clkMagic clkShift =>
    rw [hport] at hlt
    dsimp only at hlt ⊢
    split at hlt
    · rename_i hkhz
      rw [if_pos hkhz, if_pos hkhz, Nat.mod_mul_mod, Nat.mod_eq_of_lt hlt]
    · rename_i hkhz
      rw [if_neg hkhz, if_neg hkhz, Nat.mod_eq_of_lt hlt]
  | arm64 =>
    rw [hport] at hlt
    dsimp only at hlt ⊢
    split at hlt
    · rename_i hkhz
      rw [if_pos hkhz, if_pos hkhz, Nat.mod_eq_of_lt hlt]
    · rename_i hkhz
      rw [if_neg hkhz, if_neg hkhz]

/-- A call of `schedContext_updateConsumed`: `scConsumed` before it, the ticks that it removes,
and what it returns. -/
structure Report where
  consumed : Nat
  removed : Nat
  returned : Nat

/-- `scConsumed += ticks`. -/
def charge (sc : Ptr) (ticks : Nat) (s : Kernel) : Kernel :=
  { s with
    scConsumed := update s.scConsumed sc (tickAdd (s.scConsumed sc) ticks) }

def report (cfg : Config) (sc : Ptr) (s : Kernel) : Report :=
  let (returned, s') := schedContextUpdateConsumed cfg sc s
  { consumed := s.scConsumed sc
    removed := s.scConsumed sc - s'.scConsumed sc
    returned }

/-- Charges and calls in any order, with the total that was charged and the calls. The time that
is waiting to be reported fits into a word. -/
inductive Accounted (cfg : Config) (sc : Ptr) (s : Kernel) : Nat → List Report → Kernel → Prop
  | start : Accounted cfg sc s 0 [] s
  | charge {charged : Nat} {reports : List Report} {s' : Kernel}
      (h : Accounted cfg sc s charged reports s') {ticks : Nat}
      (hfits : s'.scConsumed sc + ticks < 2 ^ 64) :
      Accounted cfg sc s (charged + ticks) reports (charge sc ticks s')
  | report {charged : Nat} {reports : List Report} {s' : Kernel}
      (h : Accounted cfg sc s charged reports s') :
      Accounted cfg sc s charged (report cfg sc s' :: reports)
        (schedContextUpdateConsumed cfg sc s').2

/-- The call is below the limit of the conversion, or ticks are microseconds there. -/
def Report.Below (cfg : Config) (r : Report) : Prop :=
  r.consumed < cfg.maxTicksToUs ∨ cfg.ticksToUs cfg.maxTicksToUs = cfg.maxTicksToUs

/-- One call. -/
theorem report_spec (cfg : Config) (sc : Ptr) (s : Kernel) :
    (report cfg sc s).removed + (schedContextUpdateConsumed cfg sc s).2.scConsumed sc =
        s.scConsumed sc ∧
      (report cfg sc s).removed ≤ cfg.maxTicksToUs ∧
      ((report cfg sc s).returned = cfg.ticksToUs (report cfg sc s).removed ↔
        (report cfg sc s).Below cfg) := by
  unfold report schedContextUpdateConsumed Report.Below
  by_cases hlimit : cfg.maxTicksToUs ≤ s.scConsumed sc
  · simp only [if_pos hlimit, update_self]
    have hremoved : s.scConsumed sc - (s.scConsumed sc - cfg.maxTicksToUs) = cfg.maxTicksToUs := by
      omega
    rw [hremoved, or_iff_right (Nat.not_lt.2 hlimit)]
    exact ⟨by omega, Nat.le_refl _, eq_comm⟩
  · simp only [if_neg hlimit, update_self, Nat.sub_zero, Nat.add_zero, true_and, true_iff]
    omega

/-- **Consumed time.** What was charged is what the calls removed and what remains, and a call
returns the conversion of what it removed exactly if it is below the limit. -/
theorem consumed_accounted {cfg : Config} {t : Clock} {sc : Ptr} {s s' : Kernel} {charged : Nat}
    {reports : List Report} (hus : cfg.ticksToUs = t.ticksToUs)
    (hmax : cfg.maxTicksToUs = t.getMaxTicksToUs) (h : Accounted cfg sc s charged reports s') :
    s.scConsumed sc + charged = (reports.map Report.removed).sum + s'.scConsumed sc ∧
      ∀ r ∈ reports, (r.returned = t.ticksToUs r.removed ↔ r.Below cfg) ∧
        t.ticksToUs r.removed = t.microseconds r.removed := by
  induction h with
  | start => simp
  | @charge charged reports s' h ticks hfits ih =>
    obtain ⟨hsum, hreports⟩ := ih
    refine ⟨?_, hreports⟩
    show _ = _ + update s'.scConsumed sc ((s'.scConsumed sc + ticks) % 2 ^ 64) sc
    rw [update_self]
    omega
  | @report charged reports s' h ih =>
    obtain ⟨hsum, hreports⟩ := ih
    obtain ⟨hremoved, hle, hright⟩ := report_spec cfg sc s'
    rw [hus] at hright
    rw [hmax] at hle
    refine ⟨?_, List.forall_mem_cons.2 ⟨⟨hright, Clock.ticksToUs_eq hle⟩, hreports⟩⟩
    rw [List.map_cons, List.sum_cons]
    omega

/-! ### Timers of ten MHz and of 1.5 MHz -/

/-- The kernel for a timer; ten microseconds are `getKernelWcetUs()`. -/
def clockConfig (t : Clock) : Config :=
  { tickConfig with
    timer := { kernelWcetTicks := 10 * t.mhz, kernelWcetScale := 1,
               wcet_pos := Nat.mul_pos (by decide) (Nat.div_pos t.mhz_le (by decide)),
               scale_pos := Nat.one_pos }
    maxTicksToUs := t.getMaxTicksToUs
    ticksToUs := t.ticksToUs
    usToTicks := t.usToTicks
    minBudgetUs := 20
    maxBudgetUs := t.getMaxUsToTicks }

/-- RISC-V with a clock of ten MHz. -/
def tenMhz : Clock := ⟨.riscv, 10000000, by decide⟩

def tenMhzConfig : Config := clockConfig tenMhz

/-- RISC-V with a clock of 1.5 MHz, for which `TICKS_IN_US` is 1. -/
def slowClock : Clock := ⟨.riscv, 1500000, by decide⟩

theorem invoke_ne_rejected (cfg : Config) (f : Kernel → Except Stuck Kernel) (s : Kernel)
    (e : SyscallError) : invoke cfg f s ≠ .ok (.error e) := by
  unfold invoke
  cases f (setThreadState cfg s.ksCurThread .restart s) with
  | error stuck => exact fun h => nomatch h
  | ok s' => exact fun h => nomatch h

/-- One millisecond out of two. -/
theorem configured_iff_millisecond :
    ∃ target sizeBits, some (Cap.schedContext 1 8) = some (.schedContext target sizeBits) ∧
      Configured tenMhzConfig tenMhz ⟨1000, 2000, 0, 0⟩ sizeBits := by
  obtain ⟨target, sizeBits, hcap, _, hiff, _⟩ := @configured_iff tenMhzConfig tenMhz 4
    (some (.schedContext 1 8)) ⟨1000, 2000, 0, 0⟩ Kernel.cleared rfl (by decide)
    (fun e => invoke_ne_rejected _ _ _ e)
  exact ⟨target, sizeBits, hcap, hiff.2 ⟨by decide, by decide, by decide, by decide⟩⟩

/-- A budget whose conversion wraps to 204 ticks, one refill instead of `2 ^ 64 + 1`, the
smallest budget, and 1000 ticks of 1.5 MHz for a millisecond: all four are accepted. -/
theorem configured_wrong :
    [(tenMhz, (⟨1844674407370955182, 1844674407370955182, 0, 0⟩ : ConfigureArgs)),
        (tenMhz, ⟨1000, 2000, 2 ^ 64 - 1, 0⟩), (tenMhz, ⟨20, 2000, 0, 0⟩),
        (slowClock, ⟨1000, 2000, 0, 0⟩)].Forall fun (t, a) =>
      (∀ e, decodeSchedControlConfigure (clockConfig t) 4 (some (.schedContext 1 8)) a
        Kernel.cleared ≠ .ok (.error e)) ∧ ¬Configured (clockConfig t) t a 8 := by
  refine ⟨⟨fun e => invoke_ne_rejected _ _ _ e, fun h => ?_⟩,
    ⟨fun e => invoke_ne_rejected _ _ _ e, fun h => ?_⟩,
    ⟨fun e => invoke_ne_rejected _ _ _ e, fun h => ?_⟩,
    fun e => invoke_ne_rejected _ _ _ e, fun h => ?_⟩
  · exact absurd h.budget_eq (by decide)
  · exact absurd h.minRefills_le (by decide)
  · exact absurd h.refillNew (by decide)
  · exact absurd h.budget_eq (by decide)

/-- 200 ticks are reported as 20 microseconds. -/
theorem consumed_accounted_short :
    ∃ s', Accounted tenMhzConfig 1 Kernel.cleared (0 + 200) [⟨200, 200, 20⟩] s' ∧
      (20 = tenMhz.ticksToUs 200 ↔ Report.Below tenMhzConfig ⟨200, 200, 20⟩) := by
  have hrun : Accounted tenMhzConfig 1 Kernel.cleared (0 + 200) [⟨200, 200, 20⟩] _ :=
    .report (.charge .start (by decide))
  exact ⟨_, hrun, ((@consumed_accounted _ tenMhz _ _ _ _ _ rfl rfl hrun).2 _ List.mem_cons_self).1⟩

/-- At the limit ticks are returned as if they were microseconds. -/
theorem limit_misreported :
    ∃ s', Accounted tenMhzConfig 1 Kernel.cleared (0 + 1844674407370955161)
        [⟨1844674407370955161, 1844674407370955161, 1844674407370955161⟩] s' ∧
      1844674407370955161 ≠ tenMhz.ticksToUs 1844674407370955161 :=
  ⟨_, .report (.charge .start (by decide)), by decide⟩

end SeL4Kernel
