import SeL4Kernel.Kernel.Sporadic
import Mathlib.Algebra.Order.BigOperators.Group.List
import Mathlib.Tactic.Linarith
import Mathlib.Tactic.Ring

/-!
# Refill queues as lists

What the refill functions are for, without the buffer and without machine words:
a queue is the list of its refills from head to tail, times and amounts are
natural numbers. `schedule` puts used budget at the end, `sufficient` merges
the head until it is worth running on, `split` charges a usage the head can pay,
`exhaust` and `delay` charge one it cannot, `unblock` moves the head to the
present.

The queue keeps its sum and its order under all of them but `delay`
(`Kept.schedule`, `Kept.split`, ...); what `delay` needs is
`OverrunFits`.
-/

namespace SeL4Kernel.Sporadic

open List

/-- The budget held by a queue. -/
def amount (l : List Refill) : Nat := (l.map Refill.rAmount).sum

@[simp] theorem amount_nil : amount [] = 0 := rfl

@[simp] theorem amount_cons (r : Refill) (l : List Refill) :
    amount (r :: l) = r.rAmount + amount l := by simp [amount]

@[simp] theorem amount_append (l1 l2 : List Refill) :
    amount (l1 ++ l2) = amount l1 + amount l2 := by simp [amount]

/-- Refill times do not decrease from head to tail. -/
def Ordered (l : List Refill) : Prop := l.Pairwise fun r s => r.rTime ≤ s.rTime

variable {l : List Refill} {r new : Refill} {u x : Nat}

theorem ordered_cons :
    Ordered (r :: l) ↔ (∀ s ∈ l, r.rTime ≤ s.rTime) ∧ Ordered l := pairwise_cons

theorem ordered_concat {t : Refill} :
    Ordered (l ++ [t]) ↔ Ordered l ∧ ∀ r ∈ l, r.rTime ≤ t.rTime := by
  simp [Ordered, pairwise_append]

namespace Queue

variable (m P M : Nat)

/-! ### The operations -/

/-- Put used budget back at the end of a queue. -/
def schedule (l : List Refill) (new : Refill) : List Refill :=
  match l.getLast? with
  | none => [new]
  | some t =>
    if new.rAmount < m ∧ l.length ≠ 1 then
      l.dropLast ++ [⟨max new.rTime t.rTime, t.rAmount + new.rAmount⟩]
    else if new.rTime ≤ t.rTime then l.dropLast ++ [⟨t.rTime, t.rAmount + new.rAmount⟩]
    else l ++ [new]

/-- Merge the head into its successor while it is too small or the queue is
full. -/
def sufficient : List Refill → List Refill
  | r :: s :: l =>
    if r.rAmount < m ∨ l.length + 2 = M then
      sufficient (⟨s.rTime, s.rAmount + r.rAmount⟩ :: l)
    else r :: s :: l
  | l => l
termination_by l => l.length

/-- Charge `usage` to a head that covers it. -/
def split (l : List Refill) (usage : Nat) : List Refill :=
  match l with
  | [] => []
  | r :: l =>
    if l.length + 1 = M ∨ r.rAmount - usage < m then
      match l with
      | [] => [⟨r.rTime + P, usage + (r.rAmount - usage)⟩]
      | s :: l =>
        sufficient m M
          (schedule m (⟨s.rTime, s.rAmount + (r.rAmount - usage)⟩ :: l) ⟨r.rTime + P, usage⟩)
    else schedule m (⟨r.rTime, r.rAmount - usage⟩ :: l) ⟨r.rTime + P, usage⟩

/-- Use up the head. -/
def exhaustHead : List Refill × Nat → List Refill × Nat
  | ([], usage) => ([], usage)
  | ([r], usage) => ([⟨r.rTime + P, r.rAmount⟩], usage - r.rAmount)
  | (r :: s :: l, usage) =>
    (schedule m (s :: l) ⟨r.rTime + P, r.rAmount⟩, usage - r.rAmount)

/-- The head is covered by the usage. -/
def headCovered (s : List Refill × Nat) : Bool :=
  match s.1 with
  | [] => false
  | r :: _ => r.rAmount ≤ s.2

/-- Use up refills while the usage covers them. -/
def exhaust (l : List Refill) (usage : Nat) : Option (List Refill × Nat) :=
  whileLoop headCovered (exhaustHead m P) ((usage + 1) * (M + 1)) (l, usage)

/-- Delay the head by an overrun. -/
def delay (l : List Refill) (usage : Nat) : List Refill :=
  if usage = 0 then l
  else
    match l with
    | [] => []
    | [r] => [⟨r.rTime + usage, r.rAmount⟩]
    | r :: s :: l =>
      if s.rTime ≤ r.rTime + usage + r.rAmount then
        ⟨r.rTime + usage, s.rAmount + r.rAmount⟩ :: l
      else ⟨r.rTime + usage, r.rAmount⟩ :: s :: l

/-- The budget of the head. -/
def headAmount (l : List Refill) : Nat := (l.head?.map Refill.rAmount).getD 0

/-- The time of the head. -/
def headTime (l : List Refill) : Nat := (l.head?.map Refill.rTime).getD 0

@[simp] theorem headAmount_cons :
    headAmount (r :: l) = r.rAmount := rfl

@[simp] theorem headTime_cons : headTime (r :: l) = r.rTime := rfl

/-- Second half of a budget check: charge what is left of the usage when the
head may already be used. -/
def settle (horizon : Nat) (l : List Refill) (usage : Nat) : List Refill :=
  sufficient m M
    (if usage < headAmount l ∧ headTime l ≤ horizon then split m P M l usage else l)

/-- Charge `usage` at a time whose refills up to `horizon` may be used. -/
def budget (horizon : Nat) (l : List Refill) (usage : Nat) : Option (List Refill) :=
  if headAmount l ≤ usage then
    (exhaust m P M l usage).map fun s => settle m P M horizon (delay s.1 s.2) s.2
  else some (settle m P M horizon l usage)

/-- Merge the head with the refills that become available while it is used. -/
def mergeAvailable (now : Nat) : List Refill → List Refill
  | r :: s :: l =>
    if s.rTime ≤ r.rTime + r.rAmount then mergeAvailable now (⟨now, s.rAmount + r.rAmount⟩ :: l)
    else r :: s :: l
  | l => l
termination_by l => l.length

/-- Start using a queue at time `now`. -/
def unblock (horizon now : Nat) (l : List Refill) : List Refill :=
  match l with
  | [] => []
  | r :: l => if r.rTime ≤ horizon then mergeAvailable now (⟨now, r.rAmount⟩ :: l) else r :: l

/-- Reconfigure a queue to a new period and budget. -/
def update (horizon now newPeriod newBudget : Nat) (l : List Refill) : List Refill :=
  match l with
  | [] => []
  | r :: _ =>
    let t := if r.rTime ≤ horizon then now else r.rTime
    if newBudget ≤ r.rAmount then [⟨t, newBudget⟩]
    else [⟨t, r.rAmount⟩, ⟨t + newPeriod, newBudget - r.rAmount⟩]

variable {m P M} {B n usage : Nat}

/-! ### Scheduling used budget -/

/-- **What `schedule` can do** to a queue with last refill `t`. -/
theorem schedule_cases (hl : l ≠ []) (new : Refill) :
    ∃ init t, l = init ++ [t] ∧
      ((new.rAmount < m ∧ init ≠ [] ∧ schedule m l new =
          init ++ [⟨max new.rTime t.rTime, t.rAmount + new.rAmount⟩]) ∨
        (new.rTime ≤ t.rTime ∧ schedule m l new = init ++ [⟨t.rTime, t.rAmount + new.rAmount⟩]) ∨
        (t.rTime < new.rTime ∧ schedule m l new = init ++ [t, new])) := by
  refine ⟨l.dropLast, l.getLast hl, (dropLast_append_getLast hl).symm, ?_⟩
  have hlast : l.getLast? = some (l.getLast hl) := List.getLast?_eq_some_getLast hl
  have hlen : l.dropLast ≠ [] ↔ l.length ≠ 1 := by
    have hpos := length_pos_of_ne_nil hl
    rw [← length_pos_iff, length_dropLast]
    omega
  unfold schedule
  rw [hlast]
  simp only
  split_ifs with h1 h2
  · exact Or.inl ⟨h1.1, hlen.mpr h1.2, rfl⟩
  · exact Or.inr (Or.inl ⟨h2, rfl⟩)
  · refine Or.inr (Or.inr ⟨by omega, ?_⟩)
    conv_lhs => rw [← dropLast_append_getLast hl]
    simp

theorem schedule_ne_nil (hl : l ≠ []) (new : Refill) : schedule m l new ≠ [] := by
  obtain ⟨init, t, -, ⟨-, -, h⟩ | ⟨-, h⟩ | ⟨-, h⟩⟩ := schedule_cases (m := m) hl new <;>
    simp [h]

theorem amount_schedule (hl : l ≠ []) (new : Refill) :
    amount (schedule m l new) = amount l + new.rAmount := by
  obtain ⟨init, t, rfl, ⟨-, -, h⟩ | ⟨-, h⟩ | ⟨-, h⟩⟩ := schedule_cases (m := m) hl new <;>
    simp [h] <;> omega

/-- A queue of at most `n` refills that holds the budget `B`, in order. -/
structure Kept (B n : Nat) (l : List Refill) : Prop where
  ne_nil : l ≠ []
  ordered : Ordered l
  sum : amount l = B
  length_le : l.length ≤ n

theorem Kept.mono {B' n' : Nat} (h : Kept B n l) (hB : B = B') (hn : n ≤ n') : Kept B' n' l :=
  ⟨h.ne_nil, h.ordered, h.sum.trans hB, le_trans h.length_le hn⟩

theorem Kept.head_le (h : Kept B n (r :: l)) : r.rAmount ≤ B ∧ l.length < n :=
  ⟨by rw [← h.sum]; simp, h.length_le⟩

theorem Kept.pop {s : Refill} (h : Kept B n (r :: s :: l)) :
    Kept (B - r.rAmount) (n - 1) (s :: l) :=
  ⟨by simp, (ordered_cons.mp h.ordered).2, by rw [← h.sum]; simp, Nat.le_sub_one_of_lt h.head_le.2⟩

theorem Kept.setHead (h : Kept B n (r :: l)) (a : Nat) :
    Kept (B - r.rAmount + a) n (⟨r.rTime, a⟩ :: l) := by
  obtain ⟨-, ho, rfl, hlen⟩ := h
  have ho := ordered_cons.mp ho
  exact ⟨by simp, ordered_cons.mpr ho, by simp [Nat.add_comm], hlen⟩

/-- Scheduling keeps the order whatever is scheduled: a refill that would come
too early is merged into the last one. -/
theorem Kept.schedule (h : Kept B n l) (new : Refill) :
    Kept (B + new.rAmount) (n + 1) (schedule m l new) := by
  obtain ⟨hl, ho, rfl, hlen⟩ := h
  have hne := schedule_ne_nil (m := m) hl new
  have hsum := amount_schedule (m := m) hl new
  obtain ⟨init, t, rfl, ⟨-, -, h⟩ | ⟨-, h⟩ | ⟨ht, h⟩⟩ := schedule_cases (m := m) hl new
  all_goals
    rw [h] at hne hsum ⊢
    rw [length_append, length_singleton] at hlen
    refine ⟨hne, ?_, hsum, by simp; omega⟩
    have ho' := ordered_concat.mp ho
  · exact ordered_concat.mpr ⟨ho'.1, fun r hr => le_trans (ho'.2 r hr) (le_max_right _ _)⟩
  · exact ordered_concat.mpr ho'
  rw [show init ++ [t, new] = (init ++ [t]) ++ [new] by simp, ordered_concat]
  refine ⟨ho, fun r hr => ?_⟩
  rcases mem_append.mp hr with hr | hr
  · exact le_trans (ho'.2 r hr) (le_of_lt ht)
  · rw [mem_singleton.mp hr]; exact le_of_lt ht

/-- Scheduling behind a longer queue leaves its head alone. -/
theorem schedule_cons {r s : Refill} (new : Refill) :
    ∃ l', schedule m (r :: s :: l) new = r :: l' := by
  obtain ⟨init, t, hl, h⟩ := schedule_cases (m := m) (l := r :: s :: l) (by simp) new
  cases init with
  | nil => simp at hl
  | cons r' init =>
    injection hl with h1 h2
    subst h1
    rcases h with ⟨-, -, h⟩ | ⟨-, h⟩ | ⟨-, h⟩ <;> exact ⟨_, h⟩

/-- Later refills of a queue only move back and grow when a refill is scheduled
behind it. -/
theorem schedule_head_le (new : Refill) :
    ∃ r' l', schedule m (r :: l) new = r' :: l' ∧ r.rTime ≤ r'.rTime ∧
      r.rAmount ≤ r'.rAmount := by
  obtain ⟨init, t, hl, h⟩ := schedule_cases (m := m) (l := r :: l) (by simp) new
  cases init with
  | nil =>
    injection hl with h1 h2
    subst h1
    rcases h with ⟨-, h, -⟩ | ⟨-, h⟩ | ⟨-, h⟩
    · exact absurd rfl h
    · exact ⟨_, _, h, le_rfl, by simp⟩
    · exact ⟨_, _, h, le_rfl, le_rfl⟩
  | cons r' init =>
    injection hl with h1 h2
    subst h1
    rcases h with ⟨-, -, h⟩ | ⟨-, h⟩ | ⟨-, h⟩ <;> exact ⟨_, _, h, le_rfl, le_rfl⟩

/-! ### A sufficient head -/

/-- Merging keeps the budget and the order and never adds a refill. -/
theorem Kept.sufficient (h : Kept B n l) : Kept B n (sufficient m M l) := by
  fun_induction Queue.sufficient m M l with
  | case1 r s l hc ih =>
    have hr := h.head_le
    have hs := h.pop.head_le
    exact ih ((h.pop.setHead _).mono (by omega) (by omega))
  | case2 | case3 => exact h

/-- A queue with enough budget and room for two ends with a sufficient head and
a free cell. -/
theorem sufficient_exit (hM : 2 ≤ M) (hl : l ≠ []) (hm : m ≤ amount l) (hlen : l.length ≤ M) :
    m ≤ headAmount (sufficient m M l) ∧ (sufficient m M l).length < M := by
  fun_induction sufficient m M l with
  | case1 r s l hc ih =>
    simp only [amount_cons, length_cons] at hm hlen ih
    exact ih (by simp) (by omega) (by omega)
  | case2 r s l hc =>
    rw [length_cons, length_cons] at hlen ⊢
    exact ⟨by rw [headAmount_cons]; omega, by omega⟩
  | case3 l hc =>
    match l, hl with
    | [r], _ => exact ⟨by simpa using hm, hM⟩
    | r :: s :: l, _ => exact (hc r s l rfl).elim

/-! ### Splitting the head -/

theorem Kept.split (hM : 2 ≤ M) (h : Kept B M l) (hu : u ≤ headAmount l) :
    Kept B M (split m P M l u) := by
  obtain ⟨r, l, rfl⟩ := exists_cons_of_ne_nil h.ne_nil
  have hr := h.head_le
  rw [headAmount_cons] at hu
  simp only [Queue.split]
  split_ifs with hc
  · cases l with
    | nil =>
      have hsum := h.sum
      exact ⟨by simp, by simp [Ordered], by simp at hsum ⊢; omega, h.length_le⟩
    | cons s l =>
      have hs := h.pop.head_le
      refine ((h.pop.setHead _).schedule _).sufficient.mono ?_ (by omega)
      simp only
      omega
  · have hk := h.setHead (r.rAmount - u)
    refine (Kept.schedule ⟨hk.ne_nil, hk.ordered, hk.sum, le_rfl⟩ _).mono ?_ ?_
    · simp only
      omega
    · rw [length_cons]
      omega

/-- Every time in the queue stays above a bound that the new refill meets. -/
theorem schedule_time_ge {lo : Nat} (hl : l ≠ []) (h : ∀ r ∈ l, lo ≤ r.rTime)
    (hn : lo ≤ new.rTime) : ∀ r ∈ schedule m l new, lo ≤ r.rTime := by
  intro r hr
  obtain ⟨init, t, rfl, hc⟩ := schedule_cases (m := m) hl new
  have ht := h t (by simp)
  rcases hc with ⟨-, -, hc⟩ | ⟨-, hc⟩ | ⟨-, hc⟩
  all_goals
    rw [hc, mem_append] at hr
    rcases hr with hr | hr
    · exact h r (by simp [hr])
  · rw [mem_singleton.mp hr]; exact le_trans ht (le_max_right _ _)
  · rw [mem_singleton.mp hr]; exact ht
  simp only [mem_cons, not_mem_nil, or_false] at hr
  rcases hr with rfl | rfl
  · exact ht
  · exact hn

/-! ### Using up refills -/

@[simp] theorem exhaustHead_singleton :
    exhaustHead m P ([r], usage) = ([⟨r.rTime + P, r.rAmount⟩], usage - r.rAmount) := rfl

@[simp] theorem exhaustHead_cons_cons (r s : Refill) :
    exhaustHead m P (r :: s :: l, usage) =
      (schedule m (s :: l) ⟨r.rTime + P, r.rAmount⟩, usage - r.rAmount) := rfl

/-- An empty refill behind two others is merged into the last one. -/
theorem length_schedule_empty (hm : 0 < m) (r s : Refill) (l : List Refill) (t : Nat) :
    (schedule m (r :: s :: l) ⟨t, 0⟩).length = (r :: s :: l).length := by
  have hne : r :: s :: l ≠ [] := by simp
  unfold schedule
  rw [List.getLast?_eq_some_getLast hne]
  simp only
  rw [if_pos ⟨hm, by simp⟩]
  simp

@[simp] theorem exhaustHead_rest : (exhaustHead m P (l, usage)).2 = usage - headAmount l := by
  match l with
  | [] | [_] | _ :: _ :: _ => rfl

theorem Kept.exhaustHead (h : Kept B M l) (usage : Nat) :
    Kept B M (exhaustHead m P (l, usage)).1 := by
  match l, h.ne_nil with
  | [r], _ => exact ⟨by simp, by simp [Ordered], by rw [← h.sum]; simp, h.length_le⟩
  | r :: s :: l, _ =>
    have hr := h.head_le
    exact (h.pop.schedule _).mono (Nat.sub_add_cancel hr.1) (by omega)

/-- What the rounds of the loop have to go through: the usage that is left, and
heads that hold no budget. -/
def rounds (M : Nat) (s : List Refill × Nat) : Nat :=
  s.2 * (M + 1) + if headAmount s.1 = 0 then s.1.length else 0

theorem rounds_exhaustHead (hm : 0 < m) (hB : 0 < B) (h : Kept B M l) (hc : headAmount l ≤ usage) :
    rounds M (exhaustHead m P (l, usage)) < rounds M (l, usage) := by
  have hlen := (h.exhaustHead (m := m) (P := P) usage).length_le
  by_cases h0 : headAmount l = 0
  · simp only [rounds, h0, if_true, exhaustHead_rest, Nat.sub_zero]
    rw [← h.sum] at hB
    match l, h.ne_nil with
    | [r], _ => simp at h0 hB; omega
    | [r, s], _ =>
      -- the queue comes down to one refill, which holds the whole budget
      obtain ⟨r', l', he, -, ha⟩ := schedule_head_le (m := m) (r := s) (l := [])
        ⟨r.rTime + P, r.rAmount⟩
      simp only [amount_cons, amount_nil, headAmount_cons] at hB h0
      rw [exhaustHead_cons_cons, he, headAmount_cons, if_neg (by omega)]
      simp
    | r :: s :: s' :: l, _ =>
      rw [headAmount_cons] at h0
      rw [exhaustHead_cons_cons, h0]
      simp only [length_schedule_empty hm, length_cons]
      split_ifs <;> omega
  · simp only [rounds, h0, if_false, exhaustHead_rest]
    have hmul : (usage - headAmount l) * (M + 1) + (M + 1) ≤ usage * (M + 1) := by
      have : usage - headAmount l + 1 ≤ usage := by omega
      calc (usage - headAmount l) * (M + 1) + (M + 1)
          = (usage - headAmount l + 1) * (M + 1) := by ring
        _ ≤ usage * (M + 1) := Nat.mul_le_mul_right _ this
    split_ifs <;> omega

/-- A bound on refill times by the budget in front of them: the refill that
holds the tick number `x` of the charge comes at most `x / B` periods after
`T`. -/
def Within (T P B : Nat) : Nat → List Refill → Prop
  | _, [] => True
  | x, r :: l => r.rTime * B ≤ T * B + P * (x + r.rAmount) ∧ Within T P B (x + r.rAmount) l

variable {T B : Nat}

theorem within_append {l1 l2 : List Refill} :
    Within T P B x (l1 ++ l2) ↔ Within T P B x l1 ∧ Within T P B (x + amount l1) l2 := by
  induction l1 generalizing x with
  | nil => simp [Within]
  | cons r l ih => simp [Within, ih, and_assoc, Nat.add_assoc]

theorem within_of_le (h : ∀ r ∈ l, r.rTime ≤ T) : Within T P B x l := by
  induction l generalizing x with
  | nil => trivial
  | cons r l ih =>
    refine ⟨?_, ih fun s hs => h s (mem_cons_of_mem _ hs)⟩
    have := Nat.mul_le_mul_right B (h r mem_cons_self)
    omega

theorem Within.le_of_mem (h : Within T P B x l) (hr : r ∈ l) :
    r.rTime * B ≤ T * B + P * (x + amount l) := by
  induction l generalizing x with
  | nil => simp at hr
  | cons s l ih =>
    rcases mem_cons.mp hr with rfl | hr
    · have := h.1
      have hmono : P * (x + r.rAmount) ≤ P * (x + amount (r :: l)) :=
        Nat.mul_le_mul_left _ (by simp)
      omega
    · have := ih h.2 hr
      rw [amount_cons]
      rwa [← Nat.add_assoc]

theorem within_schedule (hl : l ≠ []) (h : Within T P B x l)
    (hn : new.rTime * B ≤ T * B + P * (x + amount l + new.rAmount)) :
    Within T P B x (schedule m l new) := by
  obtain ⟨init, t, rfl, hc⟩ := schedule_cases (m := m) hl new
  rw [within_append] at h
  obtain ⟨h1, h2, -⟩ := h
  simp only [amount_append, amount_cons, amount_nil] at hn
  have hgrow : P * (x + amount init + t.rAmount)
      ≤ P * (x + amount init + (t.rAmount + new.rAmount)) := Nat.mul_le_mul_left _ (by omega)
  have hsum : x + (amount init + (t.rAmount + 0)) + new.rAmount
      = x + amount init + (t.rAmount + new.rAmount) := by omega
  rw [hsum] at hn
  rcases hc with ⟨-, -, hc⟩ | ⟨-, hc⟩ | ⟨-, hc⟩
  · rw [hc, within_append]
    refine ⟨h1, ?_, trivial⟩
    rcases le_total new.rTime t.rTime with hle | hle
    · simp only [max_eq_right hle]; omega
    · simp only [max_eq_left hle]; omega
  · rw [hc, within_append]
    refine ⟨h1, ?_, trivial⟩
    simp only
    omega
  · rw [hc, within_append]
    refine ⟨h1, h2, ?_, trivial⟩
    rw [show x + amount init + t.rAmount + new.rAmount
      = x + amount init + (t.rAmount + new.rAmount) by omega]
    exact hn

/-- The overrun of a charge leaves the order intact: it ends with a whole
refill, or stops in some refill short of the last one, and delaying that refill
by what is left does not take it past the second refill behind it. Behind the
end of the queue stands the refill that the head turns into, at time `bound`. -/
def OverrunFits (bound : Nat) : List Refill → Nat → Prop
  | r :: s :: l, usage =>
    if r.rAmount ≤ usage then OverrunFits bound (s :: l) (usage - r.rAmount)
    else usage = 0 ∨ r.rTime + usage ≤ (l.head?.map Refill.rTime).getD bound
  | [_], usage => usage = 0
  | [], _ => False

instance decidableOverrunFits (bound : Nat) :
    ∀ (l : List Refill) (usage : Nat), Decidable (OverrunFits bound l usage)
  | r :: s :: l, usage =>
    have := decidableOverrunFits bound (s :: l) (usage - r.rAmount)
    inferInstanceAs (Decidable (if r.rAmount ≤ usage then
      OverrunFits bound (s :: l) (usage - r.rAmount)
      else usage = 0 ∨ r.rTime + usage ≤ (l.head?.map Refill.rTime).getD bound))
  | [_], usage => inferInstanceAs (Decidable (usage = 0))
  | [], _ => inferInstanceAs (Decidable False)

theorem overrunFits_zero (bound : Nat) : ∀ {l : List Refill}, l ≠ [] → OverrunFits bound l 0 := by
  intro l
  induction l with
  | nil => intro h; exact absurd rfl h
  | cons r l ih =>
    intro _
    cases l with
    | nil => rfl
    | cons s l =>
      rw [OverrunFits, Nat.zero_sub]
      split_ifs
      · exact ih (by simp)
      · exact Or.inl rfl

variable {bound : Nat} {l₀ : List Refill}

/-- The end of the queue may be delayed, and refills from `bound` on may follow it. -/
theorem overrunFits_tail {t t' : Refill} {tail : List Refill} (ht : t.rTime ≤ t'.rTime)
    (htail : bound ≤ (tail.head?.map Refill.rTime).getD bound) :
    ∀ {init : List Refill} {usage : Nat}, OverrunFits bound (init ++ [t]) usage →
      OverrunFits bound (init ++ t' :: tail) usage := by
  intro init
  induction init with
  | nil =>
    intro usage h
    rw [show usage = 0 from h]
    exact overrunFits_zero bound (by simp)
  | cons r init ih =>
    intro usage h
    match init with
    | [] | [s] | s :: s' :: init =>
      simp only [cons_append, nil_append] at h ih ⊢
      rw [OverrunFits] at h ⊢
      split_ifs at h ⊢
      · exact ih h
      · simp only [List.head?_nil, Option.map_none, Option.getD_none, List.head?_cons,
          Option.map_some, Option.getD_some] at h ⊢
        omega

theorem overrunFits_schedule (hn : bound ≤ new.rTime) (h : OverrunFits bound l usage) :
    OverrunFits bound (schedule m l new) usage := by
  have hl : l ≠ [] := by rintro rfl; exact h.elim
  obtain ⟨init, t, rfl, ⟨-, -, hc⟩ | ⟨-, hc⟩ | ⟨-, hc⟩⟩ := schedule_cases (m := m) hl new
  · rw [hc]; exact overrunFits_tail (by simp) (by simp) h
  · rw [hc]; exact overrunFits_tail (by simp) (by simp) h
  · rw [hc]; exact overrunFits_tail le_rfl hn h

/-- A charge that `delay` can finish without breaking the order. -/
def DelayFits (bound : Nat) (l : List Refill) (usage : Nat) : Prop :=
  usage = 0 ∨ usage = headAmount l ∨ l.length ≤ 2 ∨ OverrunFits bound l usage

theorem delayFits_exhaustHead (hk : Kept B n l) (hb : bound ≤ headTime l + P)
    (hc : headAmount l ≤ usage) (h : DelayFits bound l usage) :
    DelayFits bound (exhaustHead m P (l, usage)).1 (exhaustHead m P (l, usage)).2 := by
  rw [exhaustHead_rest]
  rcases h with h | h | h | h
  · left; omega
  · left; omega
  · right; right; left
    exact (Kept.exhaustHead ⟨hk.ne_nil, hk.ordered, hk.sum, h⟩ usage).length_le
  match l, hk.ne_nil with
  | [r], _ => right; right; left; simp
  | r :: s :: l, _ =>
    rw [OverrunFits, if_pos (by simpa using hc)] at h
    right; right; right
    exact overrunFits_schedule (by simpa using hb) h

/-- The times that `Within` allows for the tick number `x`. -/
theorem time_le_of_within {t usage k : Nat} (hB : 0 < B) (h : t * B ≤ T * B + P * x)
    (hx : x ≤ usage + k * B) : t ≤ T + (usage / B + 1 + k) * P := by
  have hu : usage ≤ (usage / B + 1) * B := by
    have := Nat.div_add_mod usage B
    have := Nat.mod_lt usage hB
    rw [Nat.add_mul, Nat.mul_comm (usage / B) B]
    omega
  have hx' : x ≤ (usage / B + 1 + k) * B := by
    rw [Nat.add_mul _ k]
    omega
  refine Nat.le_of_mul_le_mul_right ?_ hB
  calc t * B ≤ T * B + P * x := h
    _ ≤ T * B + P * ((usage / B + 1 + k) * B) := by
      exact Nat.add_le_add_left (Nat.mul_le_mul_left P hx') _
    _ = (T + (usage / B + 1 + k) * P) * B := by ring

/-- What holds in every round of the loop that charges `usage` to the queue
`l₀`. -/
structure Exhausting (T P B M usage : Nat) (l₀ : List Refill) (s : List Refill × Nat) : Prop where
  ne_nil : s.1 ≠ []
  ordered : Ordered s.1
  sum : amount s.1 = B
  length_le : s.1.length ≤ M
  rest_le : s.2 ≤ usage
  within : Within T P B (usage - s.2) s.1
  fits : DelayFits (headTime l₀ + P) s.1 s.2
  later : ∀ r ∈ s.1, headTime l₀ ≤ r.rTime

theorem Exhausting.kept {s : List Refill × Nat} (h : Exhausting T P B M usage l₀ s) :
    Kept B M s.1 := ⟨h.ne_nil, h.ordered, h.sum, h.length_le⟩

theorem Exhausting.head_time_le {usage : Nat} (hB : 0 < B)
    (h : Exhausting T P B M usage l₀ (r :: l, u)) (hc : r.rAmount ≤ u) :
    r.rTime ≤ T + (usage / B + 1) * P := by
  have hrest := h.rest_le
  exact time_le_of_within (k := 0) hB h.within.1 (by simp only at hrest ⊢; omega)

theorem Exhausting.time_le {usage : Nat} (hB : 0 < B) (h : Exhausting T P B M usage l₀ (l, u))
    (hr : r ∈ l) : r.rTime ≤ T + (usage / B + 2) * P := by
  have hw := h.within.le_of_mem hr
  rw [h.sum] at hw
  exact time_le_of_within (k := 1) hB hw (by simp only; omega)

theorem Exhausting.step {s : List Refill × Nat} (h : Exhausting T P B M usage l₀ s)
    (hc : headCovered s = true) : Exhausting T P B M usage l₀ (exhaustHead m P s) := by
  have hk := h.kept
  obtain ⟨q, u⟩ := s
  obtain ⟨h1, h2, h3, h4, h5, h6, h7, h8⟩ := h
  obtain ⟨r, q', rfl⟩ := exists_cons_of_ne_nil h1
  have hcov : r.rAmount ≤ u := by simpa [headCovered] using hc
  have hrt := h8 r (by simp)
  obtain ⟨e1, e2, e3, e4⟩ := hk.exhaustHead (m := m) (P := P) u
  have hx : usage - u + r.rAmount = usage - (u - r.rAmount) := by omega
  -- the head comes back behind the whole budget, one period later
  have hnew : (r.rTime + P) * B ≤ T * B + P * (usage - (u - r.rAmount) + B) := by
    have := h6.1
    rw [hx] at this
    calc (r.rTime + P) * B = r.rTime * B + P * B := by ring
      _ ≤ T * B + P * (usage - (u - r.rAmount)) + P * B := by omega
      _ = T * B + P * (usage - (u - r.rAmount) + B) := by ring
  refine ⟨e1, e2, e3, e4, by rw [exhaustHead_rest]; omega, ?_,
    delayFits_exhaustHead hk (Nat.add_le_add_right hrt P) (by simpa using hcov) h7, ?_⟩
  · match q' with
    | [] =>
      simp only [amount_cons, amount_nil, Nat.add_zero] at h3
      simp only [exhaustHead, Within, and_true, h3]
      rw [h3] at hnew
      exact hnew
    | s :: q' =>
      have hw := h6.2
      rw [hx] at hw
      refine within_schedule (cons_ne_nil _ _) hw ?_
      have hB' : amount (s :: q') + r.rAmount = B := by rw [← h3, amount_cons r]; omega
      rw [Nat.add_assoc, hB']
      exact hnew
  · match q' with
    | [] =>
      intro x hx'
      rw [exhaustHead_singleton, mem_singleton] at hx'
      rw [hx']
      exact le_trans hrt (Nat.le_add_right _ _)
    | s :: q' =>
      exact schedule_time_ge (cons_ne_nil _ _)
        (fun y hy => h8 y (mem_cons_of_mem _ hy)) (le_trans hrt (Nat.le_add_right _ _))

theorem headTime_le (ho : Ordered l) : ∀ r ∈ l, headTime l ≤ r.rTime := by
  intro r hr
  obtain ⟨x, q, rfl⟩ := exists_cons_of_ne_nil (ne_nil_of_mem hr)
  rcases mem_cons.mp hr with rfl | hr
  · exact le_rfl
  · exact (ordered_cons.mp ho).1 r hr

theorem exhausting_start (hl : l ≠ []) (ho : Ordered l)
    (hsum : amount l = B) (hlen : l.length ≤ M) (hT : ∀ r ∈ l, r.rTime ≤ T)
    (hd : DelayFits (headTime l + P) l usage) : Exhausting T P B M usage l (l, usage) :=
  ⟨hl, ho, hsum, hlen, le_rfl, within_of_le hT, hd, headTime_le ho⟩

/-- **The loop returns**, with a head that the rest of the usage does not
cover. -/
theorem exhaust_exists (hm : 0 < m) (hB : 0 < B) (h : Exhausting T P B M usage l (l, usage)) :
    ∃ l' u, exhaust m P M l usage = some (l', u) ∧ Exhausting T P B M usage l (l', u) ∧
      u < headAmount l' := by
  have hstep : ∀ s, Exhausting T P B M usage l s → headCovered s = true →
      Exhausting T P B M usage l (exhaustHead m P s) ∧
        rounds M (exhaustHead m P s) < rounds M s := by
    intro s hs hc
    refine ⟨hs.step hc, ?_⟩
    obtain ⟨q, u⟩ := s
    obtain ⟨r, q', rfl⟩ := exists_cons_of_ne_nil hs.ne_nil
    exact rounds_exhaustHead hm hB hs.kept (by simpa [headCovered] using hc)
  have hfuel : rounds M (l, usage) ≤ (usage + 1) * (M + 1) := by
    have := h.length_le
    simp only [rounds, Nat.add_mul, Nat.one_mul] at this ⊢
    split_ifs <;> omega
  obtain ⟨⟨l', u⟩, he, hI, hc⟩ := whileLoop_exists (rounds M) hstep h hfuel
  refine ⟨l', u, he, hI, ?_⟩
  obtain ⟨r, q', rfl⟩ := exists_cons_of_ne_nil hI.ne_nil
  simpa [headCovered] using hc

/-! ### Overruns -/

theorem delay_spec (hk : Kept B n l) (hu : usage < headAmount l) (h : DelayFits bound l usage) :
    Kept B n (delay l usage) ∧ headAmount l ≤ headAmount (delay l usage) ∧
      headTime (delay l usage) = headTime l + usage := by
  unfold delay
  split_ifs with h0
  · subst h0; exact ⟨hk, le_rfl, rfl⟩
  obtain ⟨hl, ho, rfl, hlen⟩ := hk
  match l, hl with
  | [r], _ => exact ⟨⟨by simp, by simp [Ordered], by simp, hlen⟩, by simp, rfl⟩
  | r :: s :: l, _ =>
    obtain ⟨h1, h2⟩ := ordered_cons.mp ho
    obtain ⟨h3, h4⟩ := ordered_cons.mp h2
    rw [headAmount_cons] at hu
    simp only
    split_ifs with hm
    · refine ⟨⟨by simp, ordered_cons.mpr ⟨?_, h4⟩, by simp; omega, Nat.le_of_succ_le hlen⟩, by simp,
        rfl⟩
      rcases h with h | h | h | h
      · omega
      · rw [headAmount_cons] at h; omega
      · have : l = [] := by simpa using h
        subst this
        simp
      · rw [OverrunFits, if_neg (by omega)] at h
        rcases h with h | h
        · omega
        cases l with
        | nil => simp
        | cons t l =>
          obtain ⟨h5, -⟩ := ordered_cons.mp h4
          intro x hx
          rcases mem_cons.mp hx with rfl | hx
          · exact h
          · exact le_trans h (h5 x hx)
    · push Not at hm
      refine ⟨⟨by simp, ordered_cons.mpr ⟨?_, h2⟩, by simp, hlen⟩, by simp, rfl⟩
      intro x hx
      simp only
      rcases mem_cons.mp hx with rfl | hx
      · omega
      · have := h3 x hx
        omega

/-! ### The invariant of a queue -/

/-- A queue of at most `M` refills that holds the budget `B`, in order, with a
head of at least `m`. -/
structure Good (m B M : Nat) (l : List Refill) : Prop where
  ne_nil : l ≠ []
  length_le : l.length ≤ M
  sum : amount l = B
  ordered : Ordered l
  head_le : m ≤ headAmount l

theorem Good.kept (h : Good m B M l) : Kept B M l := ⟨h.ne_nil, h.ordered, h.sum, h.length_le⟩

theorem good_sufficient (hM : 2 ≤ M) (h : Kept B M l) (hm : m ≤ B) :
    Good m B M (sufficient m M l) := by
  obtain ⟨h1, h2, h3, h4⟩ := h.sufficient (m := m) (M := M)
  exact ⟨h1, h4, h3, h2, (sufficient_exit hM h.ne_nil (by rwa [h.sum]) h.length_le).1⟩

variable {horizon now : Nat}

theorem good_settle (hM : 2 ≤ M) {usage : Nat} (h : Kept B M l) (hm : m ≤ B) :
    Good m B M (settle m P M horizon l usage) := by
  unfold settle
  split_ifs with hc
  · exact good_sufficient hM (h.split hM (le_of_lt hc.1)) hm
  · exact good_sufficient hM h hm

theorem good_budget (horizon : Nat) (hM : 2 ≤ M) (hm : 0 < m) (hmB : m ≤ B) (hg : Good m B M l)
    (hd : DelayFits (headTime l + P) l usage ∨ usage < headAmount l) :
    ∃ l', budget m P M horizon l usage = some l' ∧ Good m B M l' := by
  unfold budget
  split_ifs with h
  · have hd' : DelayFits (headTime l + P) l usage := by
      rcases hd with hd | hd
      · exact hd
      · omega
    obtain ⟨T, hT⟩ : ∃ T, ∀ r ∈ l, r.rTime ≤ T :=
      ⟨(l.map Refill.rTime).sum, fun r hr => single_le_sum (by simp) _
        (mem_map_of_mem hr)⟩
    obtain ⟨l', u, he, hI, hu⟩ := exhaust_exists hm (by omega : 0 < B)
      (exhausting_start hg.ne_nil hg.ordered hg.sum hg.length_le hT hd')
    rw [he]
    exact ⟨_, rfl, good_settle hM (delay_spec hI.kept hu hI.fits).1 hmB⟩
  · exact ⟨_, rfl, good_settle hM hg.kept hmB⟩

theorem good_split (hM : 2 ≤ M) (hg : Good m B M l)
    (hu : usage + m ≤ headAmount l) : Good m B M (split m P M l usage) := by
  obtain ⟨h1, h2, h3, h4⟩ := hg.kept.split (m := m) (P := P) (u := usage) hM (by omega)
  refine ⟨h1, h4, h3, h2, ?_⟩
  match l, hg.ne_nil with
  | [r], _ =>
    rw [headAmount_cons] at hu
    simp only [split, length_nil]
    split_ifs with h
    · simp; omega
    obtain ⟨r', l', he, -, ha⟩ := schedule_head_le (m := m)
      (r := ⟨r.rTime, r.rAmount - usage⟩) (l := []) ⟨r.rTime + P, usage⟩
    rw [he, headAmount_cons]
    simp only at ha
    omega
  | r :: s :: l, _ =>
    rw [headAmount_cons] at hu
    simp only [split]
    split_ifs with h
    · have hr := hg.kept.head_le
      have hs := hg.kept.pop.head_le
      obtain ⟨k1, -, k3, k4⟩ := (hg.kept.pop.setHead (s.rAmount + (r.rAmount - usage))).schedule
        (m := m) ⟨r.rTime + P, usage⟩
      refine (sufficient_exit hM k1 ?_ (le_trans k4 (by omega))).1
      rw [k3]
      simp only
      omega
    · obtain ⟨l', he⟩ := schedule_cons (m := m) (r := ⟨r.rTime, r.rAmount - usage⟩) (s := s)
        (l := l) ⟨r.rTime + P, usage⟩
      rw [he, headAmount_cons]
      simp only
      omega

/-! ### Unblocking -/

theorem mergeAvailable_spec (hr : r.rTime = now) (ho : Ordered l) :
    Kept (amount (r :: l)) (l.length + 1) (mergeAvailable now (r :: l)) ∧
      r.rAmount ≤ headAmount (mergeAvailable now (r :: l)) ∧
      headTime (mergeAvailable now (r :: l)) = now := by
  induction l generalizing r with
  | nil =>
    rw [show mergeAvailable now [r] = [r] by simp [mergeAvailable]]
    exact ⟨⟨by simp, by simp [Ordered], rfl, le_rfl⟩, le_rfl, hr⟩
  | cons s l ih =>
    rw [mergeAvailable]
    obtain ⟨h1, h2⟩ := ordered_cons.mp ho
    split_ifs with h
    · obtain ⟨i1, i2, i3⟩ := ih (r := ⟨now, s.rAmount + r.rAmount⟩) rfl h2
      exact ⟨i1.mono (by simp; omega) (by simp), by simp only at i2; omega, i3⟩
    · refine ⟨⟨by simp, ordered_cons.mpr ⟨fun x hx => ?_, ho⟩, rfl, le_rfl⟩, le_rfl, hr⟩
      rcases mem_cons.mp hx with rfl | hx
      · omega
      · have := h1 x hx
        omega

theorem good_unblock (hg : Good m B M l) : Good m B M (unblock horizon now l) := by
  obtain ⟨r, l', rfl⟩ := exists_cons_of_ne_nil hg.ne_nil
  simp only [unblock]
  split_ifs with h
  · obtain ⟨⟨h1, h2, h3, h4⟩, h5, -⟩ := mergeAvailable_spec
      (r := ⟨now, r.rAmount⟩) rfl (ordered_cons.mp hg.ordered).2
    exact ⟨h1, le_trans h4 hg.length_le, h3.trans hg.sum, h2, le_trans hg.head_le h5⟩
  · exact hg

/-! ### Reconfiguration -/

theorem good_update {newPeriod newBudget newMax : Nat} (hg : Good m B M l) (hm : m ≤ newBudget)
    (hM : 2 ≤ newMax) : Good m newBudget newMax (update horizon now newPeriod newBudget l) := by
  obtain ⟨r, l', rfl⟩ := exists_cons_of_ne_nil hg.ne_nil
  have hh := hg.head_le
  simp only [update]
  generalize (if r.rTime ≤ horizon then now else r.rTime) = t
  split_ifs with h
  · exact ⟨by simp, by simp; omega, by simp, by simp [Ordered], by simpa using hm⟩
  · exact ⟨by simp, by simpa using hM, by simp; omega, by simp [Ordered], by simpa using hh⟩

end Queue

end SeL4Kernel.Sporadic
