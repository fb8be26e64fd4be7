import SeL4Kernel.Kernel.RefillBuffer

/-!
# Runs of refill operations

A sporadic scheduling context is created by `refill_new` and then charged,
unblocked and reconfigured in any order, under a clock that never goes back.
`Called` says that each call is one the kernel makes; `QueueInv` is what the
debug checks of `sporadic.c` and the header comment promise of the buffer in
between.

The promise is broken by an overrun: `refill_budget_check` moves the head past
its successor and merges the two, without looking at the refill behind them
(`refill_overrun_disorders`). `Settles` is the condition under which an overrun
leaves the queue in order; with it every state of a run satisfies `QueueInv`
(`refill_run_queueInv`).
-/

namespace SeL4Kernel.Sporadic

open Queue

/-- The refills of a scheduling context, from head to tail. -/
def SchedContext.queue (sc : SchedContext) : List Refill := sc.ring.toList

/-- A call of one of the refill functions. -/
inductive RefillOp
  | budgetCheck (usage : Nat)
  | splitCheck (usage : Nat)
  | unblockCheck
  | update (newPeriod newBudget newMaxRefills : Nat)

/-- A sporadic scheduling context at a point of a run: the buffer, the budget it
was last configured with, and the clock. -/
structure Server where
  sc : SchedContext
  budget : Nat
  now : Nat

variable (cfg : TimerConfig)

/-- The function that a call runs. -/
def RefillOp.apply (now : Nat) (sc : SchedContext) : RefillOp → Option SchedContext
  | budgetCheck usage => refillBudgetCheck cfg now sc usage
  | splitCheck usage => refillSplitCheck cfg sc usage
  | unblockCheck => refillUnblockCheck cfg now sc
  | update newPeriod newBudget newMaxRefills =>
    some (refillUpdate cfg now sc newPeriod newBudget newMaxRefills)

/-- The configured budget after a call. -/
def RefillOp.budget (budget : Nat) : RefillOp → Nat
  | update _ newBudget _ => newBudget
  | _ => budget

def Server.step (s : Server) (now : Nat) (op : RefillOp) : Option Server :=
  (op.apply cfg now s.sc).map fun sc => ⟨sc, op.budget s.budget, now⟩

def Server.run (s : Server) : List (Nat × RefillOp) → Option Server
  | [] => some s
  | (now, op) :: ops => (s.step cfg now op).bind fun s => s.run ops

/-- When the kernel makes a call: budget checks when the head cannot pay or the
buffer is full, split checks when it can, updates with parameters that
`decodeSchedControl_Configure` lets through. -/
def RefillOp.Callable (sc : SchedContext) : RefillOp → Prop
  | budgetCheck usage =>
    usage < 2 ^ 64 ∧ (refillCapacity sc usage < cfg.minBudget ∨ refillFull sc = true)
  | splitCheck usage => 0 < usage ∧ refillSufficient cfg sc usage = true
  | unblockCheck => True
  | update newPeriod newBudget newMaxRefills =>
    cfg.minBudget ≤ newBudget ∧ newBudget < newPeriod ∧ minRefills ≤ newMaxRefills

/-- Every call of a run is made under its condition, and the clock does not go
back. -/
def Called (s : Server) : List (Nat × RefillOp) → Prop
  | [] => True
  | (now, op) :: ops =>
    (s.now ≤ now ∧ op.Callable cfg s.sc) ∧
      match s.step cfg now op with
      | some s' => Called s' ops
      | none => True

/-- A call keeps the queue in order: a budget check charges no more than the
head, or finds at most two refills, or uses up whole refills, or its overrun
fits between the refill it stops in and the second one behind. -/
def RefillOp.Settles (sc : SchedContext) : RefillOp → Prop
  | budgetCheck usage =>
    usage ≤ (refillHead sc).rAmount ∨ refillSize sc ≤ 2 ∨
      OverrunFits ((refillHead sc).rTime + sc.scPeriod) sc.queue usage
  | _ => True

/-- The clock and the refill times are clear of the end of the 64-bit range by
as many periods as a call can add to them. -/
def RefillOp.ClockFits (s : Server) (now : Nat) : RefillOp → Prop
  | budgetCheck usage =>
    now + cfg.kernelWcetTicks < 2 ^ 64 ∧
      (refillTail s.sc).rTime + (usage / s.budget + 5) * s.sc.scPeriod < 2 ^ 64
  | splitCheck _ => (refillHead s.sc).rTime + s.sc.scPeriod < 2 ^ 64
  | unblockCheck => now + cfg.kernelWcetTicks + s.budget < 2 ^ 64
  | update newPeriod _ _ =>
    now + cfg.kernelWcetTicks + newPeriod < 2 ^ 64 ∧
      (refillHead s.sc).rTime + newPeriod < 2 ^ 64

/-- Every call of a run settles, away from the end of the clock. -/
def Settled (s : Server) : List (Nat × RefillOp) → Prop
  | [] => True
  | (now, op) :: ops =>
    (op.Settles s.sc ∧ op.ClockFits cfg s now) ∧
      match s.step cfg now op with
      | some s' => Settled s' ops
      | none => True

instance (sc : SchedContext) : ∀ op : RefillOp, Decidable (op.Callable cfg sc)
  | .budgetCheck usage => inferInstanceAs (Decidable
      (usage < 2 ^ 64 ∧ (refillCapacity sc usage < cfg.minBudget ∨ refillFull sc = true)))
  | .splitCheck usage =>
    inferInstanceAs (Decidable (0 < usage ∧ refillSufficient cfg sc usage = true))
  | .unblockCheck => inferInstanceAs (Decidable True)
  | .update newPeriod newBudget newMaxRefills => inferInstanceAs (Decidable
      (cfg.minBudget ≤ newBudget ∧ newBudget < newPeriod ∧ minRefills ≤ newMaxRefills))

instance (sc : SchedContext) : ∀ op : RefillOp, Decidable (op.Settles sc)
  | .budgetCheck usage => inferInstanceAs (Decidable
      (usage ≤ (refillHead sc).rAmount ∨ refillSize sc ≤ 2 ∨
        OverrunFits ((refillHead sc).rTime + sc.scPeriod) sc.queue usage))
  | .splitCheck _ => inferInstanceAs (Decidable True)
  | .unblockCheck => inferInstanceAs (Decidable True)
  | .update _ _ _ => inferInstanceAs (Decidable True)

instance (s : Server) (now : Nat) : ∀ op : RefillOp, Decidable (op.ClockFits cfg s now)
  | .budgetCheck usage => inferInstanceAs (Decidable
      (now + cfg.kernelWcetTicks < 2 ^ 64 ∧
        (refillTail s.sc).rTime + (usage / s.budget + 5) * s.sc.scPeriod < 2 ^ 64))
  | .splitCheck _ =>
    inferInstanceAs (Decidable ((refillHead s.sc).rTime + s.sc.scPeriod < 2 ^ 64))
  | .unblockCheck => inferInstanceAs (Decidable (now + cfg.kernelWcetTicks + s.budget < 2 ^ 64))
  | .update newPeriod _ _ => inferInstanceAs (Decidable
      (now + cfg.kernelWcetTicks + newPeriod < 2 ^ 64 ∧
        (refillHead s.sc).rTime + newPeriod < 2 ^ 64))

instance decidableCalled : ∀ (s : Server) (ops : List (Nat × RefillOp)),
    Decidable (Called cfg s ops)
  | _, [] => inferInstanceAs (Decidable True)
  | s, (now, op) :: ops =>
    match h : s.step cfg now op with
    | some s' =>
      have := decidableCalled s' ops
      decidable_of_iff ((s.now ≤ now ∧ op.Callable cfg s.sc) ∧ Called cfg s' ops)
        (by simp only [Called, h])
    | none =>
      decidable_of_iff ((s.now ≤ now ∧ op.Callable cfg s.sc) ∧ True) (by simp only [Called, h])

instance decidableSettled : ∀ (s : Server) (ops : List (Nat × RefillOp)),
    Decidable (Settled cfg s ops)
  | _, [] => inferInstanceAs (Decidable True)
  | s, (now, op) :: ops =>
    match h : s.step cfg now op with
    | some s' =>
      have := decidableSettled s' ops
      decidable_of_iff ((op.Settles s.sc ∧ op.ClockFits cfg s now) ∧ Settled cfg s' ops)
        (by simp only [Settled, h])
    | none =>
      decidable_of_iff ((op.Settles s.sc ∧ op.ClockFits cfg s now) ∧ True)
        (by simp only [Settled, h])

/-- The promise about the buffer. -/
structure QueueInv (s : Server) : Prop where
  head_lt : s.sc.scRefillHead < s.sc.scRefillMax
  tail_lt : s.sc.scRefillTail < s.sc.scRefillMax
  size_pos : 1 ≤ refillSize s.sc
  size_le : refillSize s.sc ≤ s.sc.scRefillMax
  sum : amount s.sc.queue = s.budget
  ordered : Ordered s.sc.queue
  head_sufficient : cfg.minBudget ≤ (refillHead s.sc).rAmount

variable {cfg} {s : Server}

/-! ### One call -/

/-- What a run keeps: the promise, and parameters that a sporadic context is
configured with. -/
structure Serving (cfg : TimerConfig) (s : Server) : Prop where
  holds : Holds s.sc s.sc.scPeriod s.sc.scRefillMax s.sc.queue
  good : Good cfg.minBudget s.budget s.sc.scRefillMax s.sc.queue
  budget_lt : s.budget < s.sc.scPeriod
  two_le : 2 ≤ s.sc.scRefillMax

theorem serving_of_holds {sc : SchedContext} {P M B now : Nat} {l : List Refill}
    (h : Holds sc P M l) (hg : Good cfg.minBudget B M l) (hB : B < P) (hM : 2 ≤ M) :
    Serving cfg ⟨sc, B, now⟩ := by
  obtain ⟨hwf, rfl, rfl, rfl⟩ := h
  exact ⟨⟨hwf, rfl, rfl, rfl⟩, hg, hB, hM⟩

variable (h : Serving cfg s)

include h

theorem Serving.refillHead_eq :
    (refillHead s.sc).rAmount = headAmount s.sc.queue ∧
      (refillHead s.sc).rTime = headTime s.sc.queue := by
  obtain ⟨r, l, hl⟩ := List.exists_cons_of_ne_nil h.good.ne_nil
  have hh := h.holds
  rw [hl] at hh ⊢
  rw [hh.refillHead_eq]
  exact ⟨rfl, rfl⟩

theorem Serving.refillTail_le : ∀ r ∈ s.sc.queue, r.rTime ≤ (refillTail s.sc).rTime := by
  have hl := List.dropLast_append_getLast h.good.ne_nil
  have hh := h.holds
  have ho := h.good.ordered
  rw [← hl] at hh ho ⊢
  rw [hh.refillTail_eq]
  rw [ordered_concat] at ho
  intro r hr
  rcases List.mem_append.mp hr with hr | hr
  · exact ho.2 r hr
  · rw [List.mem_singleton.mp hr]

theorem Serving.queueInv :
    QueueInv cfg s where
  head_lt := h.holds.wf.head_lt
  tail_lt := h.holds.wf.tail_lt
  size_pos := s.sc.ring.size_pos
  size_le := h.holds.wf.size_le
  sum := h.good.sum
  ordered := h.good.ordered
  head_sufficient := by rw [h.refillHead_eq.1]; exact h.good.head_le

theorem Serving.minBudget_le : cfg.minBudget ≤ s.budget := by
  have h1 := h.good.head_le
  have h2 := h.good.sum
  obtain ⟨r, l, hl⟩ := List.exists_cons_of_ne_nil h.good.ne_nil
  rw [hl] at h1 h2
  simp only [amount_cons, headAmount_cons] at h1 h2
  omega

omit h

theorem TimerConfig.minBudget_pos (cfg : TimerConfig) : 0 < cfg.minBudget :=
  Nat.mul_pos (Nat.mul_pos (by omega) cfg.wcet_pos) cfg.scale_pos

/-- **One call** returns and keeps the invariant. -/
theorem Serving.step (h : Serving cfg s) {now : Nat} {op : RefillOp}
    (hc : op.Callable cfg s.sc) (hs : op.Settles s.sc) (ht : op.ClockFits cfg s now) :
    ∃ s', s.step cfg now op = some s' ∧ Serving cfg s' := by
  have hmB := h.minBudget_le
  have hm := cfg.minBudget_pos
  have hBP := h.budget_lt
  obtain ⟨hamt, htime⟩ := h.refillHead_eq
  unfold Server.step
  cases op with
  | budgetCheck usage =>
    obtain ⟨hn, ht⟩ := ht
    have hd : DelayFits (headTime s.sc.queue + s.sc.scPeriod) s.sc.queue usage ∨
        usage < headAmount s.sc.queue := by
      rcases hs with hs | hs | hs
      · rw [hamt] at hs
        rcases Nat.lt_or_eq_of_le hs with hs | hs
        · exact Or.inr hs
        · exact Or.inl (Or.inr (Or.inl hs))
      · rw [h.holds.refillSize_eq] at hs
        exact Or.inl (Or.inr (Or.inr (Or.inl hs)))
      · rw [htime] at hs
        exact Or.inl (Or.inr (Or.inr (Or.inr hs)))
    obtain ⟨sc', l', h1, h2, h3⟩ := h.holds.refillBudgetCheck cfg h.two_le hn h.good hBP
      h.refillTail_le hc.1 ht hd
    obtain ⟨l'', h4, h5⟩ := good_budget (P := s.sc.scPeriod) (now + cfg.kernelWcetTicks)
      h.two_le hm hmB h.good hd
    rw [h2] at h4
    cases h4
    exact ⟨_, by simp only [RefillOp.apply, h1, Option.map_some]; rfl,
      serving_of_holds h3 h5 hBP h.two_le⟩
  | splitCheck usage =>
    have ht' : headTime s.sc.queue + s.sc.scPeriod < 2 ^ 64 := by rw [← htime]; exact ht
    have hsum : amount s.sc.queue < 2 ^ 64 := by rw [h.good.sum]; omega
    have hsuf := hc.2
    rw [refillSufficient, h.holds.refillCapacity_eq hsum, decide_eq_true_eq] at hsuf
    obtain ⟨sc', h1, h2⟩ := h.holds.refillSplitCheck cfg h.two_le
      (by rw [h.good.sum]; exact hmB) hsum (show usage ≤ _ by omega) ht'
    have h3 := good_split (P := s.sc.scPeriod) h.two_le h.good
      (show usage + cfg.minBudget ≤ _ by omega)
    exact ⟨_, by simp only [RefillOp.apply, h1, Option.map_some]; rfl,
      serving_of_holds h2 h3 hBP h.two_le⟩
  | unblockCheck =>
    have ht' : now + cfg.kernelWcetTicks + s.budget < 2 ^ 64 := ht
    obtain ⟨sc', h1, h2⟩ := h.holds.refillUnblockCheck cfg (by omega)
      (show now + _ < 2 ^ 64 by omega) (by rw [h.good.sum]; omega)
    exact ⟨_, by simp only [RefillOp.apply, h1, Option.map_some]; rfl,
      serving_of_holds h2 (good_unblock h.good) hBP h.two_le⟩
  | update newPeriod newBudget newMax =>
    obtain ⟨hn, ht⟩ := ht
    obtain ⟨c1, c2, c3⟩ := hc
    have h1 := h.holds.refillUpdate cfg now newPeriod newBudget newMax (by omega) c3 (by omega)
      hn (by rw [← htime]; exact ht)
    exact ⟨_, rfl, serving_of_holds h1 (good_update h.good c1 c3) c2 c3⟩

/-! ### Runs -/

theorem Serving.run : ∀ {ops : List (Nat × RefillOp)} {s : Server}, Serving cfg s →
    Called cfg s ops → Settled cfg s ops → ∃ s', s.run cfg ops = some s' ∧ Serving cfg s' := by
  intro ops
  induction ops with
  | nil => intro s h _ _; exact ⟨s, rfl, h⟩
  | cons o ops ih =>
    rintro s h ⟨⟨-, hc⟩, hcs⟩ ⟨⟨hs, ht⟩, hss⟩
    obtain ⟨s', h1, h2⟩ := h.step hc hs ht
    rw [h1] at hcs hss
    obtain ⟨s'', h3, h4⟩ := ih h2 hcs hss
    exact ⟨s'', by simp only [Server.run, h1, Option.bind_some, h3], h4⟩

/-- The context that `refill_new` sets up. -/
def Server.new (sc : SchedContext) (now maxRefills budget period : Nat) : Server :=
  ⟨refillNew now sc maxRefills budget period, budget, now⟩

theorem serving_new (sc : SchedContext) {now maxRefills budget period : Nat}
    (hB : cfg.minBudget ≤ budget) (hP : budget < period) (hM : minRefills ≤ maxRefills) :
    Serving cfg (Server.new sc now maxRefills budget period) := by
  have hM' : 2 ≤ maxRefills := hM
  refine serving_of_holds (Holds.refillNew sc (by omega) (by omega)) ?_ hP hM
  exact ⟨by simp, by simp; omega, by simp, by simp [Ordered], by simpa using hB⟩

/-- **Refill queues.** In every run whose budget checks settle, each call returns
and the buffer is a queue of one to `scRefillMax` refills that hold exactly the
configured budget, in order, with a head of at least `MIN_BUDGET`. -/
theorem refill_run_queueInv (cfg : TimerConfig) (sc : SchedContext)
    (now maxRefills budget period : Nat) (ops : List (Nat × RefillOp))
    (hB : cfg.minBudget ≤ budget) (hP : budget < period) (hM : minRefills ≤ maxRefills)
    (hc : Called cfg (Server.new sc now maxRefills budget period) ops)
    (hs : Settled cfg (Server.new sc now maxRefills budget period) ops) :
    ∃ s, (Server.new sc now maxRefills budget period).run cfg ops = some s ∧ QueueInv cfg s := by
  obtain ⟨s, h1, h2⟩ := (serving_new sc hB hP hM).run hc hs
  exact ⟨s, h1, h2.queueInv⟩

/-- A platform where the kernel's WCET is one tick. -/
def unitTimer : TimerConfig := ⟨1, 1, by decide, by decide⟩

/-- A buffer of zeroes, as retyping leaves it. -/
def zeroContext : SchedContext := ⟨0, 0, 0, 0, fun _ => ⟨0, 0⟩⟩

/-- A context with a budget of 22 every 38 ticks runs twice and is blocked in
between; its refills come at 13, 38 and 40. -/
def threeRefills : List (Nat × RefillOp) :=
  [(0, .splitCheck 15), (2, .unblockCheck), (5, .splitCheck 3), (13, .unblockCheck)]

/-- From there, the overrun of a charge of 8 at time 16 fits: the refill at 38
moves to 42. -/
theorem refill_run_queueInv_overrun :
    ∃ s, (Server.new zeroContext 0 4 22 38).run unitTimer (threeRefills ++ [(16, .budgetCheck 8)])
      = some s ∧ QueueInv unitTimer s := by
  exact refill_run_queueInv unitTimer zeroContext 0 4 22 38 _ (by decide) (by decide) (by decide)
    (by decide) (by decide)

/-- **The promise is broken**: a charge of 18 at time 16 stops in the refill at 38
with 14 ticks left. It moves to 52, is merged with the refill at 40 and stands
before the one at 51. -/
theorem refill_overrun_disorders :
    ¬ ∀ (cfg : TimerConfig) (sc : SchedContext) (now maxRefills budget period : Nat)
        (ops : List (Nat × RefillOp)), cfg.minBudget ≤ budget → budget < period →
      minRefills ≤ maxRefills →
      Called cfg (Server.new sc now maxRefills budget period) ops →
      ∃ s, (Server.new sc now maxRefills budget period).run cfg ops = some s ∧
        QueueInv cfg s := by
  intro h
  obtain ⟨s, hs, hinv⟩ := h unitTimer zeroContext 0 4 22 38
    (threeRefills ++ [(16, .budgetCheck 18)]) (by decide) (by decide) (by decide) (by decide)
  have hq : s.sc.queue = [⟨52, 18⟩, ⟨51, 4⟩] := by
    have : some s.sc.queue = some [⟨52, 18⟩, ⟨51, 4⟩] := by
      rw [show some s.sc.queue = (some s).map fun s => s.sc.queue from rfl, ← hs]
      rfl
    exact Option.some.inj this
  have ho := hinv.ordered
  rw [hq, ordered_cons] at ho
  exact absurd (ho.1 ⟨51, 4⟩ (by simp)) (by decide)

end SeL4Kernel.Sporadic
