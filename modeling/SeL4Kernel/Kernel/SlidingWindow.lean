import SeL4Kernel.Kernel.RefillRuns
import SeL4Kernel.Kernel.Supply
import SeL4Kernel.Lib.Span

/-!
# The sliding window of a sporadic server

What a thread can use of the processor: it runs in segments, on a head refill
that is ready, for no longer than the head's amount, and each segment is charged
where it ends, by `commitTime` or by `chargeBudget`. A segment that does not
follow directly on the previous one starts with `refill_unblock_check`.

Refills are usable `getKernelWcetTicks()` before their time, so the bound is on
windows that are shorter than a period by as much: none holds more execution
than the budget (`execution_window_le`). A window that opens inside a block of
segments without a pause is compared with the one that opens where the block
started, from which on all refills come (`Since`).

The refill times are words: once the clock is within a period of `2 ^ 64`, used
budget is scheduled for a time that is long past (`execution_window_wraps`).
-/

namespace SeL4Kernel.Sporadic

open Queue SeL4Kernel.Span

/-! ### Charging a segment -/

/-- `commitTime`, what it does to the scheduling context. -/
def commitTime (cfg : TimerConfig) (sc : SchedContext) (consumed : Nat) : Option SchedContext :=
  if sc.scRefillMax ≠ 0 ∧ 0 < consumed then
    if isRoundRobin sc then
      let sc := setRefillHead sc
        { refillHead sc with rAmount := tickSub (refillHead sc).rAmount consumed }
      some (setRefillTail sc
        { refillTail sc with rAmount := tickAdd (refillTail sc).rAmount consumed })
    else refillSplitCheck cfg sc consumed
  else some sc

/-- `chargeBudget`, what it does to the scheduling context. -/
def chargeBudget (cfg : TimerConfig) (now : Nat) (sc : SchedContext) (consumed : Nat) :
    Option SchedContext :=
  if isRoundRobin sc then
    let sc := setRefillHead sc
      { refillHead sc with rAmount := tickAdd (refillHead sc).rAmount (refillTail sc).rAmount }
    some (setRefillTail sc { refillTail sc with rAmount := 0 })
  else refillBudgetCheck cfg now sc consumed

/-- The function that charges a segment. -/
inductive Charging
  | commitTime
  | chargeBudget
  deriving DecidableEq

/-- A segment of execution: when it runs, whether the context is unblocked at its
start, and how it is charged at its end. -/
structure Segment where
  span : Span
  unblocked : Bool
  charging : Charging

variable (cfg : TimerConfig)

def Segment.usage (seg : Segment) : Nat := seg.span.stop - seg.span.start

def Segment.resume (seg : Segment) (sc : SchedContext) : Option SchedContext :=
  if seg.unblocked then refillUnblockCheck cfg seg.span.start sc else some sc

def Segment.charge (seg : Segment) (sc : SchedContext) : Option SchedContext :=
  match seg.charging with
  | .commitTime => Sporadic.commitTime cfg sc seg.usage
  | .chargeBudget => Sporadic.chargeBudget cfg seg.span.stop sc seg.usage

/-- A segment that may run after time `t`: the head is ready at its start, it
resumes unless it follows directly, it uses at most the head, and `commitTime`
is for heads that stay sufficient. -/
def Segment.Fits (t : Nat) (sc : SchedContext) (seg : Segment) : Prop :=
  (seg.unblocked = false → seg.span.start = t) ∧
    refillReady cfg seg.span.start sc = true ∧
    match seg.resume cfg sc with
    | some sc =>
      seg.usage ≤ (refillHead sc).rAmount ∧
        (seg.charging = .commitTime → refillSufficient cfg sc seg.usage = true)
    | none => True

/-- A run of segments from time `t` on. -/
def Runs (t : Nat) (sc : SchedContext) : List Segment → Prop
  | [] => True
  | seg :: segs =>
    seg.Fits cfg t sc ∧
      match (seg.resume cfg sc).bind (seg.charge cfg) with
      | some sc' => Runs seg.span.stop sc' segs
      | none => True

/-- The execution time of a run in a window. -/
def execution (segs : List Segment) (a b : Nat) : Nat := spent (segs.map Segment.span) a b

instance decidableFits (t : Nat) (sc : SchedContext) (seg : Segment) :
    Decidable (seg.Fits cfg t sc) :=
  match h : seg.resume cfg sc with
  | some sc' =>
    decidable_of_iff ((seg.unblocked = false → seg.span.start = t) ∧
        refillReady cfg seg.span.start sc = true ∧ seg.usage ≤ (refillHead sc').rAmount ∧
        (seg.charging = .commitTime → refillSufficient cfg sc' seg.usage = true))
      (by simp only [Segment.Fits, h])
  | none =>
    decidable_of_iff ((seg.unblocked = false → seg.span.start = t) ∧
        refillReady cfg seg.span.start sc = true ∧ True)
      (by simp only [Segment.Fits, h])

instance decidableRuns : ∀ (t : Nat) (sc : SchedContext) (segs : List Segment),
    Decidable (Runs cfg t sc segs)
  | _, _, [] => inferInstanceAs (Decidable True)
  | t, sc, seg :: segs =>
    match h : (seg.resume cfg sc).bind (seg.charge cfg) with
    | some sc' =>
      have := decidableRuns seg.span.stop sc' segs
      decidable_of_iff (seg.Fits cfg t sc ∧ Runs cfg seg.span.stop sc' segs)
        (by simp only [Runs, h])
    | none => decidable_of_iff (seg.Fits cfg t sc ∧ True) (by simp only [Runs, h])

variable {cfg} {sc : SchedContext} {seg : Segment} {P M B S t : Nat} {l : List Refill}

/-! ### One segment -/

/-- The parameters of a sporadic context that the bound rests on. -/
structure Params (cfg : TimerConfig) (P M B : Nat) : Prop where
  minBudget_le : cfg.minBudget ≤ B
  budget_lt : B < P
  two_le : 2 ≤ M

theorem Params.wcet_lt (hp : Params cfg P M B) : cfg.kernelWcetTicks < P := by
  have h1 := hp.minBudget_le
  have h2 := hp.budget_lt
  have h3 := cfg.scale_pos
  have h4 : cfg.kernelWcetTicks ≤ cfg.kernelWcetTicks * cfg.kernelWcetScale :=
    Nat.le_mul_of_pos_right _ h3
  unfold TimerConfig.minBudget at h1
  rw [Nat.mul_assoc] at h1
  omega

/-- The queue of a context at time `t`, with all refills from `S` on. -/
structure Running (cfg : TimerConfig) (P M B S t : Nat) (sc : SchedContext) (l : List Refill) :
    Prop where
  holds : Holds sc P M l
  since : Since cfg.minBudget P M cfg.kernelWcetTicks B S t l

theorem Running.ready (h : Running cfg P M B S t sc l) {now : Nat}
    (hn : now + cfg.kernelWcetTicks < 2 ^ 64) (hr : refillReady cfg now sc = true) :
    headTime l ≤ now + cfg.kernelWcetTicks := by
  rw [h.holds.refillReady_eq cfg hn] at hr
  simpa using hr

variable (hp : Params cfg P M B)

include hp

/-- Where a segment starts, the refills still come from `S` on and supply no more;
after a pause they come from the start of the segment on. -/
theorem Running.resume (h : Running cfg P M B S t sc l) (ht : t ≤ seg.span.start)
    (hf : seg.Fits cfg t sc) (hclk : seg.span.start + 2 * P < 2 ^ 64) :
    ∃ sc' l', seg.resume cfg sc = some sc' ∧
      Running cfg P M B S seg.span.start sc' l' ∧
      supply (S + P) cfg.kernelWcetTicks seg.span.start l' ≤
        supply (S + P) cfg.kernelWcetTicks t l ∧
      headTime l' ≤ seg.span.start + cfg.kernelWcetTicks ∧
      (seg.unblocked = true → Running cfg P M B seg.span.start seg.span.start sc' l') ∧
      (seg.unblocked = false → seg.span.start = t ∧ l' = l) := by
  have hW := hp.wcet_lt
  have hBP := hp.budget_lt
  have hr := h.ready (by omega) hf.2.1
  cases hu : seg.unblocked with
  | false =>
    have hst := hf.1 hu
    refine ⟨sc, l, by simp [Segment.resume, hu], ?_, ?_, hr, by simp, fun _ => ⟨hst, rfl⟩⟩
    · rw [hst]; exact h
    · rw [hst]
  | true =>
    obtain ⟨sc', h1, h2⟩ := h.holds.refillUnblockCheck cfg (by omega)
      (show seg.span.start + cfg.kernelWcetTicks < 2 ^ 64 by omega)
      (by rw [h.since.good.sum]; omega)
    obtain ⟨hs, hnow⟩ := since_unblock h.since.good h.since.near ht hr
    have hS := h.since.started
    refine ⟨sc', _, by simp [Segment.resume, hu, h1], ⟨h2, hs.mono (by omega)⟩, ?_, ?_,
      fun _ => ⟨h2, hs⟩, by simp⟩
    · exact le_trans (supply_unblock_le l) (supply_mono ht l)
    · omega

/-- A segment is paid for out of the supply, whichever time before it the supply is counted
from. -/
def Segment.Paid (cfg : TimerConfig) (P M B : Nat) (seg : Segment) (l l' : List Refill) : Prop :=
  ∀ S, Since cfg.minBudget P M cfg.kernelWcetTicks B S seg.span.start l →
    Since cfg.minBudget P M cfg.kernelWcetTicks B S seg.span.stop l' ∧
      supply (S + P) cfg.kernelWcetTicks seg.span.stop l' +
          min seg.usage (S + P - (seg.span.start + cfg.kernelWcetTicks))
        ≤ supply (S + P) cfg.kernelWcetTicks seg.span.start l

/-- Where a segment ends, it has been paid for. -/
theorem Running.charge (h : Running cfg P M B S seg.span.start sc l)
    (hspan : seg.span.start ≤ seg.span.stop) (hclk : seg.span.stop + 9 * P < 2 ^ 64)
    (hr : headTime l ≤ seg.span.start + cfg.kernelWcetTicks)
    (hu : seg.usage ≤ (refillHead sc).rAmount)
    (hc : seg.charging = .commitTime → refillSufficient cfg sc seg.usage = true) :
    ∃ sc' l', seg.charge cfg sc = some sc' ∧ Holds sc' P M l' ∧ seg.Paid cfg P M B l l' := by
  have hW := hp.wcet_lt
  have hBP := hp.budget_lt
  have hm := cfg.minBudget_pos
  have hstop : seg.span.stop = seg.span.start + seg.usage := by unfold Segment.usage; omega
  have hgood := h.since.good
  have hhead : (refillHead sc).rAmount = headAmount l := by
    obtain ⟨r, l, rfl⟩ := List.exists_cons_of_ne_nil hgood.ne_nil
    rw [h.holds.refillHead_eq, headAmount_cons]
  have hsum : amount l < 2 ^ 64 := by rw [hgood.sum]; omega
  have hrr : isRoundRobin sc = false := by
    simp only [isRoundRobin, h.holds.period, decide_eq_false_iff_not]
    omega
  have hmax : sc.scRefillMax ≠ 0 := by
    rw [h.holds.maxRefills]
    have := hp.two_le
    omega
  rw [hhead] at hu
  unfold Segment.charge
  cases hch : seg.charging with
  | commitTime =>
    simp only [commitTime, hrr]
    by_cases h0 : 0 < seg.usage
    · rw [if_pos ⟨hmax, h0⟩]
      have hsuf := hc hch
      rw [refillSufficient, h.holds.refillCapacity_eq hsum, decide_eq_true_eq] at hsuf
      obtain ⟨sc', h1, h2⟩ := h.holds.refillSplitCheck cfg hp.two_le
        (by rw [hgood.sum]; exact hp.minBudget_le) hsum hu (by omega)
      refine ⟨sc', _, h1, h2, fun S' hS' => ?_⟩
      rw [hstop]
      exact hS'.split hp.two_le hm hr (by omega)
    · have h0 : seg.usage = 0 := by omega
      rw [if_neg (by omega)]
      refine ⟨sc, l, rfl, h.holds, fun S' hS' => ?_⟩
      rw [hstop, h0]
      exact ⟨hS', by simp⟩
  | chargeBudget =>
    simp only [chargeBudget, hrr]
    have hle : headAmount l ≤ B := by
      obtain ⟨r, l, rfl⟩ := List.exists_cons_of_ne_nil hgood.ne_nil
      have := hgood.sum
      rw [amount_cons] at this
      rw [headAmount_cons]
      omega
    have hB : seg.usage / B ≤ 1 := Nat.div_le_of_le_mul (by omega)
    have hT : seg.span.start + cfg.kernelWcetTicks + 2 * P + (seg.usage / B + 5) * P < 2 ^ 64 := by
      have : (seg.usage / B + 5) * P ≤ 6 * P := Nat.mul_le_mul_right P (by omega)
      omega
    obtain ⟨sc', l', h1, h2, h3⟩ := h.holds.refillBudgetCheck cfg hp.two_le
      (show seg.span.stop + cfg.kernelWcetTicks < 2 ^ 64 by omega) hgood hBP h.since.near.le
      (show seg.usage < 2 ^ 64 by omega) hT (by
        rcases Nat.lt_or_eq_of_le hu with hu | hu
        · exact Or.inr hu
        · exact Or.inl (Or.inr (Or.inl hu)))
    refine ⟨sc', l', h1, h3, fun S' hS' => ?_⟩
    obtain ⟨l'', h4, h5⟩ := hS'.budget hp.two_le hm hp.minBudget_le hr hu
    rw [← hstop, h2] at h4
    cases h4
    rw [← hstop] at h5
    exact h5

/-- **One segment** returns, and is paid for. -/
theorem Running.segment (h : Running cfg P M B S t sc l) (ht : t ≤ seg.span.start)
    (hspan : seg.span.start ≤ seg.span.stop) (hf : seg.Fits cfg t sc)
    (hclk : seg.span.stop + 9 * P < 2 ^ 64) :
    ∃ sc' l1 l', (seg.resume cfg sc).bind (seg.charge cfg) = some sc' ∧ Holds sc' P M l' ∧
      supply (S + P) cfg.kernelWcetTicks seg.span.start l1 ≤
        supply (S + P) cfg.kernelWcetTicks t l ∧
      Since cfg.minBudget P M cfg.kernelWcetTicks B
        (if seg.unblocked then seg.span.start else S) seg.span.start l1 ∧
      (seg.unblocked = false → seg.span.start = t) ∧ seg.Paid cfg P M B l1 l' := by
  obtain ⟨sc1, l1, h1, h2, h3, h4, h5, h6⟩ := h.resume hp ht hf (by omega)
  have hfit := hf.2.2
  rw [h1] at hfit
  obtain ⟨sc', l', h7, h8, h9⟩ := h2.charge hp hspan hclk h4 hfit.1 hfit.2
  refine ⟨sc', l1, l', by rw [h1]; exact h7, h8, h3, ?_, fun hu => (h6 hu).1, h9⟩
  cases hu : seg.unblocked with
  | false => simpa using h2.since
  | true => simpa using (h5 hu).since

/-! ### Runs -/

/-- The clock stays clear of the end of its range. -/
def ClockClear (P : Nat) (segs : List Segment) : Prop :=
  ∀ seg ∈ segs, seg.span.stop + 9 * P < 2 ^ 64

/-- Execution before `S + P - W` is within the supply. -/
theorem Running.execution_le : ∀ {segs : List Segment} {sc : SchedContext}
    {t : Nat} {l : List Refill}, Running cfg P M B S t sc l → Runs cfg t sc segs →
    InOrder t (segs.map Segment.span) → ClockClear P segs →
    execution segs t (S + (P - cfg.kernelWcetTicks)) ≤ supply (S + P) cfg.kernelWcetTicks t l := by
  intro segs
  induction segs with
  | nil => intro sc t l _ _ _ _; exact Nat.zero_le _
  | cons seg segs ih =>
    rintro sc t l h ⟨hf, hrun⟩ ⟨ht, hspan, hord⟩ hclk
    obtain ⟨sc', l1, l', h1, h2, h3, h4, -, h6⟩ := h.segment hp ht hspan hf
      (hclk seg List.mem_cons_self)
    rw [h1] at hrun
    have hS := h.since.started
    obtain ⟨h7, h8⟩ := h6 S (h4.mono (by split_ifs <;> omega))
    have hrest := ih ⟨h2, h7⟩ hrun hord (fun s hs => hclk s (List.mem_cons_of_mem _ hs))
    have hcongr := spent_congr (a := t) (c := seg.span.stop)
      (b := S + (P - cfg.kernelWcetTicks)) hord (by omega) le_rfl
    simp only [execution, List.map_cons, spent, overlap] at hrest ⊢
    unfold Segment.usage at h8
    omega

/-- **Windows** that open in the block of segments since `S`, or later. -/
theorem Running.window_le : ∀ {segs : List Segment} {sc : SchedContext}
    {S t : Nat} {l : List Refill}, Running cfg P M B S t sc l →
    min (t - S) (P - cfg.kernelWcetTicks) + supply (S + P) cfg.kernelWcetTicks t l ≤ B →
    Runs cfg t sc segs → InOrder t (segs.map Segment.span) → ClockClear P segs →
    ∀ x, t ≤ x → execution segs x (x + (P - cfg.kernelWcetTicks)) ≤ B := by
  intro segs
  induction segs with
  | nil => intro sc S t l _ _ _ _ _ x _; exact Nat.zero_le _
  | cons seg segs ih =>
    rintro sc S0 t l h hpaid ⟨hf, hrun⟩ ⟨ht, hspan, hord⟩ hclk x hx
    obtain ⟨sc', l1, l', h1, h2, h3, h4, h5, h6⟩ := h.segment hp ht hspan hf
      (hclk seg List.mem_cons_self)
    rw [h1] at hrun
    -- the block that the segment belongs to, and what was used in it before
    obtain ⟨S, hS⟩ : ∃ S, (if seg.unblocked then seg.span.start else S0) = S := ⟨_, rfl⟩
    rw [hS] at h4
    have hpaid1 : min (seg.span.start - S) (P - cfg.kernelWcetTicks) +
        supply (S + P) cfg.kernelWcetTicks seg.span.start l1 ≤ B := by
      cases hu : seg.unblocked with
      | false =>
        have hst := h5 hu
        rw [hu] at hS
        simp only [Bool.false_eq_true, if_false] at hS
        subst hS
        omega
      | true =>
        rw [hu] at hS
        simp only [if_true] at hS
        subst hS
        have hsup := supply_le_amount (D := seg.span.start + P) (W := cfg.kernelWcetTicks)
          (t := seg.span.start) l1
        rw [h4.good.sum] at hsup
        omega
    obtain ⟨h7, h8⟩ := h6 S h4
    have hstart := h4.started
    have hpaid' : min (seg.span.stop - S) (P - cfg.kernelWcetTicks) +
        supply (S + P) cfg.kernelWcetTicks seg.span.stop l' ≤ B := by
      unfold Segment.usage at h8
      omega
    have hclk' : ClockClear P segs := fun s hs => hclk s (List.mem_cons_of_mem _ hs)
    have hlater : ∀ y, seg.span.stop ≤ y →
        execution segs y (y + (P - cfg.kernelWcetTicks)) ≤ B :=
      ih ⟨h2, h7⟩ hpaid' hrun hord hclk'
    have hsupply := Running.execution_le hp ⟨h2, h7⟩ hrun hord hclk'
    -- a window that opens during the segment: what it holds beyond `S + P - W` is no
    -- more than what it misses of the block
    have hinside : ∀ y, seg.span.start ≤ y → y ≤ seg.span.stop →
        execution (seg :: segs) y (y + (P - cfg.kernelWcetTicks)) ≤ B := by
      intro y hy hy'
      have hcongr := spent_congr (a := y) (c := seg.span.stop)
        (b := y + (P - cfg.kernelWcetTicks)) hord hy' le_rfl
      have hext := spent_extend (a := seg.span.stop) (b := S + (P - cfg.kernelWcetTicks))
        (d := y - S) hord
      rw [show S + (P - cfg.kernelWcetTicks) + (y - S) = y + (P - cfg.kernelWcetTicks) by omega]
        at hext
      have hle := spent_le (a := seg.span.stop) (b := y + (P - cfg.kernelWcetTicks)) hord
      simp only [execution, List.map_cons, spent, overlap] at hsupply ⊢
      omega
    by_cases hxs : seg.span.stop ≤ x
    · have := hlater x hxs
      simp only [execution, List.map_cons, spent, overlap] at this ⊢
      omega
    · by_cases hxt : seg.span.start ≤ x
      · exact hinside x hxt (by omega)
      · have hord' : InOrder seg.span.start ((seg :: segs).map Segment.span) :=
          ⟨le_rfl, hspan, hord⟩
        refine le_trans ?_ (hinside seg.span.start le_rfl hspan)
        unfold execution
        rw [spent_congr (a := x) (c := seg.span.start) hord' (by omega) le_rfl]
        exact spent_mono (by omega)

omit hp

/-- **Sliding windows.** A context created with budget `B` and period `P` executes at
most `B` in every window of length `P - getKernelWcetTicks()`, as long as the
clock stays nine periods clear of `2 ^ 64`. -/
theorem execution_window_le (cfg : TimerConfig) (sc : SchedContext)
    (now maxRefills budget period : Nat) (segs : List Segment)
    (hB : cfg.minBudget ≤ budget) (hP : budget < period) (hM : minRefills ≤ maxRefills)
    (hord : InOrder now (segs.map Segment.span))
    (hrun : Runs cfg now (refillNew now sc maxRefills budget period) segs)
    (hclk : ∀ seg ∈ segs, seg.span.stop + 9 * period < 2 ^ 64) (x : Nat) :
    execution segs x (x + (period - cfg.kernelWcetTicks)) ≤ budget := by
  have hM' : 2 ≤ maxRefills := hM
  have hp : Params cfg period maxRefills budget := ⟨hB, hP, hM⟩
  have hgood : Good cfg.minBudget budget maxRefills [⟨now, budget⟩] :=
    ⟨by simp, by simp; omega, by simp, by simp [Ordered], by simpa using hB⟩
  have hrunning : Running cfg period maxRefills budget now now
      (refillNew now sc maxRefills budget period) [⟨now, budget⟩] := by
    refine ⟨Holds.refillNew sc (by omega) (by omega), hgood, le_rfl, by simp, ?_⟩
    exact Near.cons (l := []) ⟨by simp, by simp⟩ (by simp only; omega)
  have hpaid := supply_le_amount (D := now + period) (W := cfg.kernelWcetTicks) (t := now)
    [⟨now, budget⟩]
  rw [hgood.sum] at hpaid
  have hwin := hrunning.window_le hp (by omega) hrun hord hclk
  by_cases hx : now ≤ x
  · exact hwin x hx
  refine le_trans ?_ (hwin now le_rfl)
  unfold execution
  rw [spent_congr (a := x) (c := now) hord (by omega) le_rfl]
  exact spent_mono (by omega)

/-- A run with a budget of 6 every 20 ticks: two segments in a row, one after a
pause, and one on the first refill that comes back. -/
def fourSegments : List Segment :=
  [⟨⟨0, 2⟩, false, .commitTime⟩, ⟨⟨2, 4⟩, false, .commitTime⟩, ⟨⟨7, 9⟩, true, .chargeBudget⟩,
    ⟨⟨22, 24⟩, true, .chargeBudget⟩]

theorem execution_window_le_four :
    execution fourSegments 4 23 ≤ 6 :=
  execution_window_le unitTimer zeroContext 0 4 6 20 fourSegments (by decide) (by decide)
    (by decide) (by decide) (by decide) (by decide) 4

/-- **Wrapping around.** Twenty ticks before the end of the clock, a budget of 5
every 20 ticks is used up, scheduled for time 0 and used up again at once. -/
theorem execution_window_wraps :
    ¬ ∀ (cfg : TimerConfig) (sc : SchedContext) (now maxRefills budget period : Nat)
        (segs : List Segment), cfg.minBudget ≤ budget → budget < period →
      minRefills ≤ maxRefills → InOrder now (segs.map Segment.span) →
      Runs cfg now (refillNew now sc maxRefills budget period) segs →
      ∀ x, execution segs x (x + (period - cfg.kernelWcetTicks)) ≤ budget := by
  intro h
  have := h unitTimer zeroContext (2 ^ 64 - 20) 4 5 20
    [⟨⟨2 ^ 64 - 20, 2 ^ 64 - 15⟩, false, .chargeBudget⟩,
      ⟨⟨2 ^ 64 - 15, 2 ^ 64 - 10⟩, false, .chargeBudget⟩]
    (by decide) (by decide) (by decide) (by decide) (by decide) (2 ^ 64 - 20)
  exact absurd this (by decide)

end SeL4Kernel.Sporadic
