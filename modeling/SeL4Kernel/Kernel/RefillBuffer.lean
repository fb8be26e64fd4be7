import SeL4Kernel.Kernel.RefillQueue

/-!
# The buffer refines the queue

`Holds sc P M l` says that the buffer of `sc` holds the queue `l`. Every
function of `Sporadic.lean` then does to the buffer what the operation of the
same name in `RefillQueue.lean` does to the list, as long as no sum of ticks it
forms reaches `2 ^ 64`. The bounds that exclude a wrap are hypotheses of the
lemmas; they are stated on the queue before the call.
-/

namespace SeL4Kernel.Sporadic

open List SeL4Kernel.Ring

theorem tickAdd_eq {a b : Nat} (h : a + b < 2 ^ 64) : tickAdd a b = a + b := Nat.mod_eq_of_lt h

theorem tickSub_eq {a b : Nat} (hb : b ≤ a) (ha : a < 2 ^ 64) : tickSub a b = a - b := by
  unfold tickSub
  omega

/-- The circular buffer of a scheduling context. -/
def SchedContext.ring (sc : SchedContext) : Ring Refill :=
  ⟨sc.refills, sc.scRefillMax, sc.scRefillHead, sc.scRefillTail⟩

/-- The buffer of `sc` holds the queue `l`, for the period `P` and at most `M`
refills. -/
structure Holds (sc : SchedContext) (P M : Nat) (l : List Refill) : Prop where
  wf : sc.ring.Wf
  period : sc.scPeriod = P
  maxRefills : sc.scRefillMax = M
  queue : sc.ring.toList = l

namespace Holds

open Queue

variable (cfg : TimerConfig) {sc : SchedContext} {P M now usage : Nat} {l : List Refill}
  {r s : Refill}

/-! ### Reading the buffer -/

theorem refillHead_eq (h : Holds sc P M (r :: l)) : refillHead sc = r := by
  obtain ⟨l', hl⟩ := toList_cons h.wf
  rw [h.queue] at hl
  injection hl with h1 _
  exact h1.symm

theorem refillTail_eq (h : Holds sc P M (l ++ [r])) : refillTail sc = r := by
  have hlast := getLast_toList h.wf
  have hgoal : sc.ring.toList.getLast sc.ring.toList_ne_nil = r := by simp [h.queue]
  rw [hgoal] at hlast
  exact hlast.symm

section

variable (h : Holds sc P M l)

include h

theorem ne_nil : l ≠ [] := h.queue ▸ sc.ring.toList_ne_nil

theorem refillSize_eq : refillSize sc = l.length := by
  rw [← h.queue, length_toList]
  rfl

theorem length_le : l.length ≤ M := by
  rw [← h.queue, length_toList, ← h.maxRefills]
  exact h.wf.size_le

theorem refillFull_eq : refillFull sc = decide (l.length = M) := by
  rw [refillFull, h.refillSize_eq, h.maxRefills]

theorem refillSingle_eq : refillSingle sc = decide (l.length = 1) := by
  have hs := size_eq_one_iff h.wf
  rw [← length_toList, h.queue] at hs
  rw [refillSingle]
  congr 1
  exact propext hs.symm

end

theorem single_singleton (h : Holds sc P M [r]) : refillSingle sc = true := by
  rw [h.refillSingle_eq]; simp

section

variable (h : Holds sc P M (r :: s :: l))

include h

theorem single_cons_cons : refillSingle sc = false := by rw [h.refillSingle_eq]; simp

theorem head_ne_tail : sc.ring.head ≠ sc.ring.tail := by
  have := h.single_cons_cons
  simpa [refillSingle, SchedContext.ring] using this

theorem refillNext_eq : refillIndex sc (refillNext sc sc.scRefillHead) = s := by
  have hl := toList_pop h.wf h.head_ne_tail
  obtain ⟨l', hl'⟩ := toList_cons h.wf.pop
  rw [h.queue, hl'] at hl
  injection hl with _ h2
  injection h2 with h3 _
  exact h3.symm

end

/-! ### Writing the buffer -/

theorem setHead (h : Holds sc P M (r :: l)) (x : Refill) :
    Holds (setRefillHead sc x) P M (x :: l) where
  wf := h.wf.setHead x
  period := h.period
  maxRefills := h.maxRefills
  queue := by
    have := toList_setHead h.wf x
    rw [h.queue] at this
    exact this

theorem setTail (h : Holds sc P M (l ++ [r])) (x : Refill) :
    Holds (setRefillTail sc x) P M (l ++ [x]) where
  wf := h.wf.setTail x
  period := h.period
  maxRefills := h.maxRefills
  queue := by
    have := toList_setTail h.wf x
    rw [h.queue, dropLast_concat] at this
    exact this

theorem popHead (h : Holds sc P M (r :: s :: l)) : Holds (refillPopHead sc).2 P M (s :: l) where
  wf := h.wf.pop
  period := h.period
  maxRefills := h.maxRefills
  queue := by
    have := toList_pop h.wf h.head_ne_tail
    rw [h.queue] at this
    injection this with _ h2
    exact h2.symm

theorem addTail (h : Holds sc P M l) (hlt : l.length < M) (x : Refill) :
    Holds (refillAddTail sc x) P M (l ++ [x]) where
  wf := h.wf.push x
  period := h.period
  maxRefills := h.maxRefills
  queue := by
    have hsz : sc.ring.size < sc.ring.cap := by
      rw [← length_toList, h.queue]
      exact lt_of_lt_of_eq hlt h.maxRefills.symm
    have := toList_push h.wf hsz x
    rw [h.queue] at this
    exact this

/-! ### Charging -/

theorem scheduleUsed (h : Holds sc P M l) (hlt : l.length < M) (new : Refill)
    (hs : amount l + new.rAmount < 2 ^ 64) :
    Holds (scheduleUsed cfg sc new) P M (schedule cfg.minBudget l new) := by
  have hne := h.ne_nil
  have hsingle := h.refillSingle_eq
  have hsplit := dropLast_append_getLast hne
  unfold Sporadic.scheduleUsed schedule
  rw [List.getLast?_eq_some_getLast hne]
  generalize l.getLast hne = t at hsplit ⊢
  generalize l.dropLast = init at hsplit ⊢
  subst hsplit
  have ht := h.refillTail_eq
  simp only [amount_append, amount_cons, amount_nil] at hs
  have hadd : tickAdd t.rAmount new.rAmount = t.rAmount + new.rAmount := tickAdd_eq (by omega)
  simp only [hsingle, decide_eq_false_iff_not]
  split_ifs with h1 h2 h3
  · have h' := h.setTail ⟨t.rTime, t.rAmount + new.rAmount⟩
    have h'' := h'.setTail ⟨max new.rTime t.rTime, t.rAmount + new.rAmount⟩
    simpa only [ht, hadd, h'.refillTail_eq] using h''
  · simpa only [ht, hadd] using h.setTail ⟨t.rTime, t.rAmount + new.rAmount⟩
  · rw [ht] at h2; exact absurd h2 h3
  · rw [ht] at h2; exact absurd ‹_› h2
  · exact h.addTail hlt new

theorem mergeHead (h : Holds sc P M (r :: s :: l)) (hs : s.rAmount + r.rAmount < 2 ^ 64) :
    Holds (mergeHead sc) P M (⟨s.rTime, s.rAmount + r.rAmount⟩ :: l) := by
  have hp := h.popHead
  have h' := hp.setHead ⟨s.rTime, s.rAmount + r.rAmount⟩
  unfold Sporadic.mergeHead
  have hr : (refillPopHead sc).1 = r := h.refillHead_eq
  simp only
  rw [hr, hp.refillHead_eq, tickAdd_eq hs]
  exact h'

/-- The merge loop, for a queue of no more refills than there are rounds. -/
theorem ensureLoop (hM : 2 ≤ M) : ∀ (n : Nat) {sc : SchedContext} {l : List Refill},
    Holds sc P M l → cfg.minBudget ≤ amount l → amount l < 2 ^ 64 → l.length ≤ n →
    ∃ sc', whileLoop (fun sc => decide ((refillHead sc).rAmount < cfg.minBudget) || refillFull sc)
      Sporadic.mergeHead n sc = some sc' ∧ Holds sc' P M (sufficient cfg.minBudget M l) := by
  intro n
  induction n with
  | zero =>
    intro sc l h _ _ hn
    exact absurd (length_eq_zero_iff.mp (Nat.le_zero.mp hn)) h.ne_nil
  | succ n ih =>
    intro sc l h hm hs hn
    match l, h.ne_nil with
    | [r], _ =>
      rw [show sufficient cfg.minBudget M [r] = [r] by simp [sufficient]]
      refine ⟨sc, whileLoop_done ?_, h⟩
      simp only [amount_cons, amount_nil] at hm
      have h2 : ¬ (1 = M) := by omega
      rw [h.refillHead_eq, h.refillFull_eq]
      simp [h2]
      omega
    | r :: s :: l, _ =>
      rw [sufficient]
      simp only [amount_cons, length_cons] at hm hs hn
      have hcond : (decide ((refillHead sc).rAmount < cfg.minBudget) || refillFull sc)
          = decide (r.rAmount < cfg.minBudget ∨ l.length + 2 = M) := by
        rw [h.refillHead_eq, h.refillFull_eq, ← Bool.decide_or]
        rfl
      split_ifs with hc
      · obtain ⟨sc', h1, h2⟩ := ih (h.mergeHead (by omega)) (by simp; omega) (by simp; omega)
          (by simp; omega)
        exact ⟨sc', by rw [whileLoop_round (by rw [hcond]; simpa using hc), h1], h2⟩
      · exact ⟨sc, whileLoop_done (by rw [hcond]; simpa using hc), h⟩

theorem exhaustHead (h : Holds sc P M (r :: l)) (hu : r.rAmount ≤ usage) (hmax : usage < 2 ^ 64)
    (hs : amount (r :: l) < 2 ^ 64) (ht : r.rTime + P < 2 ^ 64) :
    Holds (exhaustHead cfg (sc, usage)).1 P M
        (Queue.exhaustHead cfg.minBudget P (r :: l, usage)).1 ∧
      (exhaustHead cfg (sc, usage)).2 =
        (Queue.exhaustHead cfg.minBudget P (r :: l, usage)).2 := by
  have hlen := h.length_le
  have hsub : tickSub usage r.rAmount = usage - r.rAmount := tickSub_eq hu hmax
  unfold Sporadic.exhaustHead
  match l with
  | [] =>
    simp only [h.single_singleton, h.refillHead_eq, h.period, tickAdd_eq ht, hsub, if_true]
    exact ⟨h.setHead _, rfl⟩
  | s :: l =>
    have hp := h.popHead
    have hr : (refillPopHead sc).1 = r := h.refillHead_eq
    simp only [amount_cons, length_cons] at hs hlen
    simp only [h.single_cons_cons, h.refillHead_eq, hsub, Bool.false_eq_true, if_false, hp.period,
      hr, tickAdd_eq ht]
    exact ⟨hp.scheduleUsed cfg (by simp; omega) _ (by simp; omega), rfl⟩

section

variable (hM : 2 ≤ M) (h : Holds sc P M l) (hm : cfg.minBudget ≤ amount l)
  (hs : amount l < 2 ^ 64) (hn : now + cfg.kernelWcetTicks < 2 ^ 64)

include h

include hn in
theorem refillReady_eq :
    refillReady cfg now sc = decide (headTime l ≤ now + cfg.kernelWcetTicks) := by
  obtain ⟨r, l, rfl⟩ := exists_cons_of_ne_nil h.ne_nil
  rw [refillReady, h.refillHead_eq, tickAdd_eq hn, headTime_cons]

/-- The exhaustion loop on the buffer follows the one on the queue. -/
theorem exhaustLoop {T B u : Nat} {l' : List Refill} (hB : 0 < B) (hBmax : B < 2 ^ 64)
    (hu : usage < 2 ^ 64) (hT : T + (usage / B + 2) * P < 2 ^ 64)
    (hI : Exhausting T P B M usage l (l, usage))
    (he : exhaust cfg.minBudget P M l usage = some (l', u)) :
    ∃ sc', exhaustLoop cfg sc usage = some (sc', u) ∧ Holds sc' P M l' := by
  unfold Sporadic.exhaustLoop
  have hcond : ∀ (s : SchedContext × Nat) t,
      (Holds s.1 P M t.1 ∧ s.2 = t.2 ∧ Exhausting T P B M usage l t) →
      decide ((refillHead s.1).rAmount ≤ s.2) = headCovered t := by
    rintro ⟨sc, v⟩ ⟨q, w⟩ ⟨hq, hv, -⟩
    obtain ⟨r, q, rfl⟩ := exists_cons_of_ne_nil hq.ne_nil
    simp only at hv hq
    simp only [hq.refillHead_eq, headCovered, hv]
  have hbody : ∀ (s : SchedContext × Nat) t,
      (Holds s.1 P M t.1 ∧ s.2 = t.2 ∧ Exhausting T P B M usage l t) →
      decide ((refillHead s.1).rAmount ≤ s.2) = true →
      (Holds (Sporadic.exhaustHead cfg s).1 P M (Queue.exhaustHead cfg.minBudget P t).1 ∧
        (Sporadic.exhaustHead cfg s).2 = (Queue.exhaustHead cfg.minBudget P t).2 ∧
        Exhausting T P B M usage l (Queue.exhaustHead cfg.minBudget P t)) := by
    rintro ⟨sc, v⟩ ⟨q, w⟩ ⟨hq, hv, hE⟩ hc
    obtain ⟨r, q, rfl⟩ := exists_cons_of_ne_nil hq.ne_nil
    subst hv
    have hcov : r.rAmount ≤ v := by simpa only [hq.refillHead_eq, decide_eq_true_eq] using hc
    have htime := hE.head_time_le hB hcov
    have hrest := hE.rest_le
    have hmul : (usage / B + 2) * P = (usage / B + 1) * P + P := by
      rw [Nat.add_mul (usage / B + 1) 1, Nat.one_mul]
    obtain ⟨h1, h2⟩ := hq.exhaustHead cfg hcov (by omega) (by rw [hE.sum]; exact hBmax)
      (by omega)
    exact ⟨h1, h2, hE.step (by simpa [headCovered] using hcov)⟩
  obtain ⟨⟨sc', v⟩, hw, hq, hv, -⟩ := whileLoop_sim
    (R := fun (s : SchedContext × Nat) t =>
      Holds s.1 P M t.1 ∧ s.2 = t.2 ∧ Exhausting T P B M usage l t)
    hcond hbody (s := (sc, usage)) ⟨h, rfl, hI⟩ he
  subst hv
  rw [h.maxRefills]
  exact ⟨sc', hw, hq⟩

include hs

theorem refillCapacity_eq (usage : Nat) : refillCapacity sc usage = headAmount l - usage := by
  obtain ⟨r, l, rfl⟩ := exists_cons_of_ne_nil h.ne_nil
  rw [amount_cons] at hs
  rw [refillCapacity, h.refillHead_eq, headAmount_cons]
  split_ifs with hc
  · omega
  · exact tickSub_eq (by omega) (by omega)

theorem delayHead (usage : Nat) (ht : headTime l + usage + headAmount l < 2 ^ 64) :
    Holds (delayHead sc usage) P M (delay l usage) := by
  unfold Sporadic.delayHead delay
  by_cases h0 : usage = 0
  · subst h0; simpa using h
  rw [if_pos (by omega), if_neg h0]
  match l, h.ne_nil with
  | [r], _ =>
    simp only [headTime_cons, headAmount_cons] at ht
    have h' := h.setHead ⟨r.rTime + usage, r.rAmount⟩
    simp only [h.refillHead_eq, tickAdd_eq (show r.rTime + usage < 2 ^ 64 by omega)]
    rw [if_neg (by simp [h'.single_singleton])]
    exact h'
  | r :: s :: l, _ =>
    simp only [headTime_cons, headAmount_cons, amount_cons] at ht hs
    have h' := h.setHead ⟨r.rTime + usage, r.rAmount⟩
    simp only [h.refillHead_eq, tickAdd_eq (show r.rTime + usage < 2 ^ 64 by omega),
      h'.refillHead_eq, h'.single_cons_cons, h'.refillNext_eq, tickAdd_eq ht, true_and]
    split_ifs with hc
    · have hp := h'.popHead
      have hr : (refillPopHead (setRefillHead sc ⟨r.rTime + usage, r.rAmount⟩)).1
          = ⟨r.rTime + usage, r.rAmount⟩ := h'.refillHead_eq
      have hq := hp.setHead ⟨s.rTime, s.rAmount + r.rAmount⟩
      simp only [hr, hp.refillHead_eq, tickAdd_eq (show s.rAmount + r.rAmount < 2 ^ 64 by omega),
        hq.refillHead_eq]
      exact hq.setHead _
    · exact h'

include hM hm

theorem ensureSufficientHead :
    ∃ sc', ensureSufficientHead cfg sc = some sc' ∧
      Holds sc' P M (sufficient cfg.minBudget M l) := by
  unfold Sporadic.ensureSufficientHead
  rw [h.maxRefills]
  exact ensureLoop cfg hM M h hm hs h.length_le

theorem refillSplitCheck (hu : usage ≤ headAmount l) (ht : headTime l + P < 2 ^ 64) :
    ∃ sc', refillSplitCheck cfg sc usage = some sc' ∧
      Holds sc' P M (split cfg.minBudget P M l usage) := by
  have hlen := h.length_le
  have hsize := h.refillSize_eq
  unfold Sporadic.refillSplitCheck
  match l, h.ne_nil with
  | [r], _ =>
    simp only [amount_cons, amount_nil, headAmount_cons, headTime_cons] at hm hs hu ht
    have hrem : tickSub r.rAmount usage = r.rAmount - usage := tickSub_eq hu (by omega)
    simp only [hsize, h.refillHead_eq, h.period, h.maxRefills, h.single_singleton, hrem,
      tickAdd_eq ht, if_true, split, length_cons, length_nil, Nat.zero_add]
    split_ifs with hc
    · refine ⟨_, rfl, ?_⟩
      rw [tickAdd_eq (by omega)]
      exact h.setHead _
    · refine ⟨_, rfl, (h.setHead _).scheduleUsed cfg (by simp; omega) _ (by simp; omega)⟩
  | r :: s :: l, _ =>
    simp only [amount_cons, headAmount_cons, headTime_cons, length_cons] at hm hs hu ht hlen
    have hrem : tickSub r.rAmount usage = r.rAmount - usage := tickSub_eq hu (by omega)
    simp only [hsize, h.refillHead_eq, h.period, h.maxRefills, h.single_cons_cons, hrem,
      tickAdd_eq ht, split, length_cons, Bool.false_eq_true, if_false]
    split_ifs with hc
    · have hp := h.popHead
      have hadd : tickAdd s.rAmount (r.rAmount - usage) = s.rAmount + (r.rAmount - usage) :=
        tickAdd_eq (by omega)
      rw [hp.refillHead_eq, hadd]
      have hq := (hp.setHead ⟨s.rTime, s.rAmount + (r.rAmount - usage)⟩).scheduleUsed cfg
        (by simp; omega) ⟨r.rTime + P, usage⟩ (by simp; omega)
      refine hq.ensureSufficientHead cfg hM ?_ ?_ <;> rw [amount_schedule (cons_ne_nil _ _)] <;>
        simp <;> omega
    · push Not at hc
      exact ⟨_, rfl, (h.setHead _).scheduleUsed cfg (by simp; omega) _ (by simp; omega)⟩

include hn

/-- The second half of a budget check on the buffer. -/
theorem settle (usage : Nat) (ho : Ordered l) (ht : headTime l + P < 2 ^ 64) :
    ∃ sc', settle cfg now sc usage = some sc' ∧
      Holds sc' P M (Queue.settle cfg.minBudget P M (now + cfg.kernelWcetTicks) l usage) := by
  unfold Sporadic.settle Queue.settle
  simp only [h.refillCapacity_eq hs, h.refillReady_eq cfg hn, decide_eq_true_eq]
  have hiff : (0 < headAmount l - usage ∧ headTime l ≤ now + cfg.kernelWcetTicks) ↔
      (usage < headAmount l ∧ headTime l ≤ now + cfg.kernelWcetTicks) := by omega
  simp only [hiff]
  split_ifs with hc
  · obtain ⟨sc', h1, h2⟩ := h.refillSplitCheck cfg hM hm hs (le_of_lt hc.1) ht
    have ha := (Kept.split (m := cfg.minBudget) (P := P) hM
      ⟨h.ne_nil, ho, rfl, h.length_le⟩ (le_of_lt hc.1)).sum
    rw [h1]
    exact h2.ensureSufficientHead cfg hM (by omega) (by omega)
  · exact h.ensureSufficientHead cfg hM hm hs

omit hm hs

/-- **Budget check.** `T` bounds the times of the queue; the clock stays clear of
the end of the 64-bit range by the periods that the charge can add. -/
theorem refillBudgetCheck {T B : Nat} (hg : Good cfg.minBudget B M l) (hBP : B < P)
    (hT : ∀ r ∈ l, r.rTime ≤ T) (hu : usage < 2 ^ 64) (ht : T + (usage / B + 5) * P < 2 ^ 64)
    (hd : DelayFits (headTime l + P) l usage ∨ usage < headAmount l) :
    ∃ sc' l', refillBudgetCheck cfg now sc usage = some sc' ∧
      budget cfg.minBudget P M (now + cfg.kernelWcetTicks) l usage = some l' ∧
      Holds sc' P M l' := by
  have hm : 0 < cfg.minBudget := Nat.mul_pos (Nat.mul_pos (by omega) cfg.wcet_pos) cfg.scale_pos
  have hmB : cfg.minBudget ≤ B := by
    obtain ⟨r, q, rfl⟩ := exists_cons_of_ne_nil h.ne_nil
    have h1 := hg.sum
    have h2 := hg.head_le
    simp only [amount_cons, headAmount_cons] at h1 h2
    omega
  have hmul : (usage / B + 5) * P = (usage / B + 2) * P + 3 * P := by ring
  have hs : amount l < 2 ^ 64 := by rw [hg.sum]; omega
  unfold Sporadic.refillBudgetCheck budget
  rw [h.refillCapacity_eq hs]
  by_cases hc : headAmount l ≤ usage
  · rw [if_pos (by omega), if_pos hc]
    have hd' : DelayFits (headTime l + P) l usage := by
      rcases hd with hd | hd
      · exact hd
      · omega
    have hI := exhausting_start (T := T) h.ne_nil hg.ordered hg.sum h.length_le hT hd'
    obtain ⟨l', u, he, hI', hlt⟩ := exhaust_exists hm (by omega : 0 < B) hI
    obtain ⟨sc', hw, hh⟩ := h.exhaustLoop cfg (by omega) (by omega) hu (by omega) hI he
    obtain ⟨hd, -, d6⟩ := delay_spec hI'.kept hlt hI'.fits
    obtain ⟨r, q, rfl⟩ := exists_cons_of_ne_nil hI'.ne_nil
    have hr := hI'.time_le (by omega) (mem_cons_self (a := r))
    have ha := hI'.sum
    simp only [amount_cons, headAmount_cons] at ha hlt
    have hh' := hh.delayHead (by rw [hI'.sum]; omega) u (by simp; omega)
    simp only [headTime_cons] at d6
    have hsum' : amount (delay (r :: q) u) = B := hd.sum
    obtain ⟨sc'', h1, h2⟩ := hh'.settle cfg hM (by omega) (by omega) hn u hd.ordered (by omega)
    refine ⟨sc'', _, ?_, by rw [he]; rfl, h2⟩
    rw [hw]
    exact h1
  · rw [if_neg (by omega), if_neg hc]
    obtain ⟨r, q, rfl⟩ := exists_cons_of_ne_nil h.ne_nil
    have hr := hT r mem_cons_self
    obtain ⟨sc'', h1, h2⟩ := h.settle cfg hM (by rw [hg.sum]; exact hmB) hs hn usage
      hg.ordered (by rw [headTime_cons]; omega)
    exact ⟨sc'', _, h1, rfl, h2⟩

end

/-! ### Unblocking and configuration -/

theorem mergeLoop :
    ∀ (n : Nat) {sc : SchedContext} {l : List Refill},
    Holds sc P M l → headTime l = now → now + amount l < 2 ^ 64 → l.length ≤ n →
    ∃ sc', whileLoop refillHeadOverlapping (mergeAvailable now) n sc = some sc' ∧
      Holds sc' P M (Queue.mergeAvailable now l) := by
  intro n
  induction n with
  | zero =>
    intro sc l h _ _ hn
    exact absurd (length_eq_zero_iff.mp (Nat.le_zero.mp hn)) h.ne_nil
  | succ n ih =>
    intro sc l h ht hs hn
    match l, h.ne_nil with
    | [r], _ =>
      rw [show Queue.mergeAvailable now [r] = [r] by simp [Queue.mergeAvailable]]
      exact ⟨sc, whileLoop_done (by simp [refillHeadOverlapping, h.single_singleton]), h⟩
    | r :: s :: l, _ =>
      rw [Queue.mergeAvailable]
      simp only [amount_cons, length_cons, headTime_cons] at ht hs hn
      have hcond : refillHeadOverlapping sc = decide (s.rTime ≤ r.rTime + r.rAmount) := by
        simp only [refillHeadOverlapping, h.single_cons_cons, Bool.false_eq_true, if_false,
          h.refillHead_eq, h.refillNext_eq,
          tickAdd_eq (show r.rTime + r.rAmount < 2 ^ 64 by omega)]
      split_ifs with hc
      · have hp := h.popHead
        have hq := hp.setHead ⟨s.rTime, s.rAmount + r.rAmount⟩
        have hbody : mergeAvailable now sc =
            setRefillHead (setRefillHead (refillPopHead sc).2 ⟨s.rTime, s.rAmount + r.rAmount⟩)
              ⟨now, s.rAmount + r.rAmount⟩ := by
          simp only [mergeAvailable, h.refillHead_eq, hp.refillHead_eq,
            tickAdd_eq (show s.rAmount + r.rAmount < 2 ^ 64 by omega), hq.refillHead_eq]
        obtain ⟨sc', h1, h2⟩ := ih (hq.setHead ⟨now, s.rAmount + r.rAmount⟩) rfl
          (by simp; omega) (by simp; omega)
        refine ⟨sc', ?_, h2⟩
        rw [whileLoop_round (by rw [hcond]; simpa using hc), hbody, h1]
      · exact ⟨sc, whileLoop_done (by rw [hcond]; simpa using hc), h⟩

theorem refillUnblockCheck (h : Holds sc P M l) (hP : 0 < P)
    (hn : now + cfg.kernelWcetTicks < 2 ^ 64) (hs : now + amount l < 2 ^ 64) :
    ∃ sc', refillUnblockCheck cfg now sc = some sc' ∧
      Holds sc' P M (unblock (now + cfg.kernelWcetTicks) now l) := by
  obtain ⟨r, l, rfl⟩ := exists_cons_of_ne_nil h.ne_nil
  unfold refillUnblockCheck
  have hrr : isRoundRobin sc = false := by simp [isRoundRobin, h.period]; omega
  rw [hrr, h.refillReady_eq cfg hn, headTime_cons]
  simp only [Bool.false_eq_true, if_false, decide_eq_true_eq, unblock]
  split_ifs with hc
  · rw [h.refillHead_eq, h.maxRefills]
    exact mergeLoop M (h.setHead ⟨now, r.rAmount⟩) rfl (by simpa using hs) h.length_le
  · exact ⟨sc, rfl, h⟩

theorem maybeAddEmptyTail_eq (hP : 0 < P) (hsc : sc.scPeriod = P) :
    maybeAddEmptyTail now sc = sc := by
  unfold maybeAddEmptyTail
  rw [if_neg (by simp [isRoundRobin, hsc]; omega)]

theorem refillNew (sc : SchedContext) {maxRefills budget period : Nat} (hP : 0 < period)
    (hM : 0 < maxRefills) :
    Holds (refillNew now sc maxRefills budget period) period maxRefills [⟨now, budget⟩] := by
  unfold Sporadic.refillNew
  rw [maybeAddEmptyTail_eq hP rfl]
  refine ⟨⟨hM, hM⟩, rfl, rfl, ?_⟩
  rw [toList_single ⟨hM, hM⟩ rfl]
  simp [SchedContext.ring, setRefillHead, setRefillIndex, refillHead, refillIndex]

theorem refillUpdate (h : Holds sc P M l) (now newPeriod newBudget newMax : Nat)
    (hP : 0 < newPeriod) (hM : 2 ≤ newMax) (hB : newBudget < 2 ^ 64)
    (hn : now + cfg.kernelWcetTicks + newPeriod < 2 ^ 64) (ht : headTime l + newPeriod < 2 ^ 64) :
    Holds (refillUpdate cfg now sc newPeriod newBudget newMax) newPeriod newMax
      (update (now + cfg.kernelWcetTicks) now newPeriod newBudget l) := by
  obtain ⟨r, l, rfl⟩ := exists_cons_of_ne_nil h.ne_nil
  -- the queue cut down to its head, in the first cell
  have hcut : Holds { setRefillIndex sc 0 (refillHead sc) with
      scRefillHead := 0, scRefillTail := 0, scRefillMax := newMax, scPeriod := newPeriod }
      newPeriod newMax [r] := by
    refine ⟨⟨by show 0 < newMax; omega, by show 0 < newMax; omega⟩, rfl, rfl, ?_⟩
    rw [toList_single ⟨by show 0 < newMax; omega, by show 0 < newMax; omega⟩ rfl]
    simp [SchedContext.ring, setRefillIndex, h.refillHead_eq]
  unfold refillUpdate
  simp only
  rw [hcut.refillReady_eq cfg (by omega), headTime_cons]
  simp only [decide_eq_true_eq, update]
  have hfinish : ∀ {sc : SchedContext} {t : Nat}, Holds sc newPeriod newMax [⟨t, r.rAmount⟩] →
      t + newPeriod < 2 ^ 64 →
      Holds (if newBudget ≤ (refillHead sc).rAmount then
          maybeAddEmptyTail now (setRefillHead sc { refillHead sc with rAmount := newBudget })
        else refillAddTail sc
          { rAmount := tickSub newBudget (refillHead sc).rAmount
            rTime := tickAdd (refillHead sc).rTime newPeriod }) newPeriod newMax
        (if newBudget ≤ r.rAmount then [⟨t, newBudget⟩]
        else [⟨t, r.rAmount⟩, ⟨t + newPeriod, newBudget - r.rAmount⟩]) := by
    intro sc t hsc ht
    rw [hsc.refillHead_eq]
    split_ifs with hb
    · rw [maybeAddEmptyTail_eq hP (by exact hsc.period)]
      exact hsc.setHead _
    · rw [tickSub_eq (by omega) hB, tickAdd_eq ht]
      exact hsc.addTail (by simp; omega) _
  by_cases hready : r.rTime ≤ now + cfg.kernelWcetTicks
  · simp only [if_pos hready, hcut.refillHead_eq]
    exact hfinish (hcut.setHead ⟨now, r.rAmount⟩) (by omega)
  · simp only [if_neg hready]
    exact hfinish hcut ht

end Holds

end SeL4Kernel.Sporadic
