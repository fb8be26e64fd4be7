import SeL4Kernel.Kernel.RefillQueue

/-!
# How much a refill queue can supply before a deadline

Fix a time `D` from which used budget comes back, and let refills be usable `W`
ticks early. `supply D W t l` bounds the budget that a thread can use from `t`
on, before `D - W`: each refill counts with the ticks that fit between its time
and `D`, and the head also with those that fit between now and `D - W`.

The point of the bound is that no operation of the queue raises it
(`supply_schedule_le`, `supply_sufficient_le`, `supply_unblock_le`), and that
running pays for itself (`supply_split_le`, `supply_exhaustHead_le`): budget that is
used goes to times from `D` on, where it counts for nothing. Merging two
refills that overlap is no gain either, since the ticks of the later one still
come after those of the earlier one.
-/

namespace SeL4Kernel.Sporadic.Queue

open List

variable {m P M D W t u v now K B S c X : Nat} {l : List Refill} {r : Refill}

/-- The ticks of refills that are not yet in use. -/
def later (D : Nat) : List Refill → Nat
  | [] => 0
  | r :: l => min r.rAmount (D - r.rTime) + later D l

/-- The ticks that can be used before `D - W` from time `t` on. -/
def supply (D W t : Nat) : List Refill → Nat
  | [] => 0
  | r :: l => min r.rAmount (min (D - (t + W)) (D - r.rTime)) + later D l

@[simp] theorem later_nil : later D [] = 0 := rfl

@[simp] theorem later_cons :
    later D (r :: l) = min r.rAmount (D - r.rTime) + later D l := rfl

@[simp] theorem supply_cons :
    supply D W t (r :: l) = min r.rAmount (min (D - (t + W)) (D - r.rTime)) + later D l := rfl

theorem later_append (l1 l2 : List Refill) : later D (l1 ++ l2) = later D l1 + later D l2 := by
  induction l1 with
  | nil => simp
  | cons r l ih => simp [ih, Nat.add_assoc]

theorem later_le_amount (l : List Refill) : later D l ≤ amount l := by
  induction l with
  | nil => simp
  | cons r l ih =>
    simp only [later_cons, amount_cons]
    omega

theorem supply_le_later (l : List Refill) : supply D W t l ≤ later D l := by
  cases l with
  | nil => exact le_rfl
  | cons r l =>
    simp only [supply_cons, later_cons]
    omega

theorem supply_le_amount (l : List Refill) : supply D W t l ≤ amount l :=
  le_trans (supply_le_later l) (later_le_amount l)

/-- Waiting does not help. -/
theorem supply_mono {t' : Nat} (h : t ≤ t') (l : List Refill) :
    supply D W t' l ≤ supply D W t l := by
  cases l with
  | nil => exact le_rfl
  | cons r l =>
    simp only [supply_cons]
    omega

/-! ### Scheduling and merging -/

/-- Budget that comes back from `D` on counts for nothing. -/
theorem supply_schedule_le (hl : l ≠ []) (hr : D ≤ r.rTime) :
    supply D W t (schedule m l r) ≤ supply D W t l := by
  obtain ⟨init, x, rfl, hc⟩ := schedule_cases (m := m) hl r
  cases init with
  | nil =>
    rcases hc with ⟨-, h, -⟩ | ⟨h, hc⟩ | ⟨-, hc⟩
    · exact absurd rfl h
    all_goals
      rw [hc]
      simp only [nil_append, supply_cons, later_nil, later_cons]
      omega
  | cons y init =>
    rcases hc with ⟨-, -, hc⟩ | ⟨h, hc⟩ | ⟨-, hc⟩
    all_goals
      rw [hc]
      simp only [cons_append, supply_cons, later_append, later_cons, later_nil]
      omega

/-- Merging the head into a later refill delays it. -/
theorem supply_merge_le {r s : Refill} (h : r.rTime ≤ s.rTime) :
    supply D W t (⟨s.rTime, s.rAmount + r.rAmount⟩ :: l) ≤ supply D W t (r :: s :: l) := by
  simp only [supply_cons, later_cons]
  omega

theorem supply_sufficient_le {B n : Nat} (h : Kept B n l) :
    supply D W t (sufficient m M l) ≤ supply D W t l := by
  fun_induction sufficient m M l generalizing B n with
  | case1 r s l hc ih =>
    exact le_trans (ih (h.pop.setHead _))
      (supply_merge_le ((ordered_cons.mp h.ordered).1 s mem_cons_self))
  | case2 | case3 => exact le_rfl

/-! ### Running -/

/-- Running for `u` ticks on a head that was usable at `t` pays for itself. -/
theorem supply_split_le {B n : Nat} (h : Kept B n (r :: l))
    (hr : r.rTime ≤ t + W) (hD : D ≤ r.rTime + P) (hu : u ≤ r.rAmount) :
    supply D W (t + u) (split m P M (r :: l) u) + min u (D - (t + W))
      ≤ supply D W t (r :: l) := by
  simp only [split]
  split_ifs with hc
  · cases l with
    | nil =>
      simp only [supply_cons, later_nil]
      omega
    | cons s l =>
      have h1 := (ordered_cons.mp h.ordered).1
      have hs := supply_sufficient_le (D := D) (W := W) (t := t + u) (m := m) (M := M)
        ((h.pop.setHead (s.rAmount + (r.rAmount - u))).schedule (m := m) ⟨r.rTime + P, u⟩)
      have hs' := supply_schedule_le (D := D) (W := W) (t := t + u) (m := m)
        (l := ⟨s.rTime, s.rAmount + (r.rAmount - u)⟩ :: l) (r := ⟨r.rTime + P, u⟩)
        (cons_ne_nil _ _) hD
      refine le_trans (Nat.add_le_add_right (le_trans hs hs') _) ?_
      simp only [supply_cons, later_cons]
      omega
  · have hs' := supply_schedule_le (D := D) (W := W) (t := t + u) (m := m)
      (l := ⟨r.rTime, r.rAmount - u⟩ :: l) (r := ⟨r.rTime + P, u⟩) (cons_ne_nil _ _) hD
    refine le_trans (Nat.add_le_add_right hs' _) ?_
    simp only [supply_cons]
    omega

/-- Using up the whole head pays for itself too. -/
theorem supply_exhaustHead_le (hr : r.rTime ≤ t + W) (hD : D ≤ r.rTime + P) (hu : u = r.rAmount) :
    supply D W (t + u) (exhaustHead m P (r :: l, v)).1 + min u (D - (t + W))
      ≤ supply D W t (r :: l) := by
  cases l with
  | nil =>
    simp only [exhaustHead_singleton, supply_cons, later_nil]
    omega
  | cons s l =>
    have hs' := supply_schedule_le (D := D) (W := W) (t := t + u) (m := m) (l := s :: l)
      (r := ⟨r.rTime + P, r.rAmount⟩) (cons_ne_nil _ _) hD
    refine le_trans (Nat.add_le_add_right (le_trans hs' (supply_le_later _)) _) ?_
    simp only [supply_cons, later_cons]
    omega

/-- Removing a head without budget costs nothing. -/
theorem supply_exhaustHead_empty_le (hD : D ≤ r.rTime + P) (h0 : r.rAmount = 0) :
    supply D W t (exhaustHead m P (r :: l, v)).1 ≤ supply D W t (r :: l) := by
  cases l with
  | nil =>
    simp only [exhaustHead_singleton, supply_cons, later_nil]
    omega
  | cons s l =>
    refine le_trans (supply_schedule_le (cons_ne_nil _ _) hD) ?_
    refine le_trans (supply_le_later _) ?_
    simp only [supply_cons]
    omega

/-! ### Unblocking -/

/-- Refills that become available while the head is used may be merged into it. -/
theorem supply_mergeAvailable_le (hr : r.rTime = now) :
    supply D W now (mergeAvailable now (r :: l)) ≤ supply D W now (r :: l) := by
  induction l generalizing r with
  | nil => simp [mergeAvailable]
  | cons s l ih =>
    rw [mergeAvailable]
    split_ifs with h
    · refine le_trans (ih (r := ⟨now, s.rAmount + r.rAmount⟩) rfl) ?_
      simp only [supply_cons, later_cons]
      omega
    · exact le_rfl

theorem supply_unblock_le (l : List Refill) :
    supply D W now (unblock (now + W) now l) ≤ supply D W now l := by
  cases l with
  | nil => exact le_rfl
  | cons r l =>
    simp only [unblock]
    split_ifs with h
    · refine le_trans (supply_mergeAvailable_le rfl) ?_
      simp only [supply_cons]
      omega
    · exact le_rfl

/-! ### What merging leaves of a queue -/

/-- Merging drops refills from the front and gives their budget to the new
head. -/
theorem sufficient_suffix (hl : l ≠ []) :
    ∃ r l' a, sufficient m M l = ⟨r.rTime, a⟩ :: l' ∧ r :: l' <:+ l ∧ r.rAmount ≤ a := by
  fun_induction sufficient m M l with
  | case1 r s l hc ih =>
    obtain ⟨r', l', a, h1, h2, h3⟩ := ih (cons_ne_nil _ _)
    rcases suffix_cons_iff.mp h2 with h2 | h2
    · injection h2 with h4 h5
      subst h4 h5
      exact ⟨s, l', a, h1, suffix_cons _ _, by simp only at h3; omega⟩
    · exact ⟨r', l', a, h1, (h2.trans (suffix_cons _ _)).trans (suffix_cons _ _), h3⟩
  | case2 | case3 =>
    obtain ⟨x, q, h⟩ := exists_cons_of_ne_nil hl
    exact ⟨x, q, x.rAmount, h, h ▸ suffix_rfl, le_rfl⟩

theorem mergeAvailable_suffix (hr : r.rTime = now) :
    ∃ l' a, mergeAvailable now (r :: l) = ⟨now, a⟩ :: l' ∧ l' <:+ l := by
  subst hr
  induction l generalizing r with
  | nil => exact ⟨[], r.rAmount, by simp [mergeAvailable], suffix_rfl⟩
  | cons s l ih =>
    rw [mergeAvailable]
    split_ifs with h
    · obtain ⟨l', a, h1, h2⟩ := ih (r := ⟨r.rTime, s.rAmount + r.rAmount⟩)
      exact ⟨l', a, h1, h2.trans (suffix_cons _ _)⟩
    · exact ⟨s :: l, r.rAmount, rfl, suffix_rfl⟩

/-! ### How far ahead refills lie -/

/-- Refills lie at most two periods ahead of `K`, and those that hold no budget
and are not the last at most one. The budget of a head that is removed without
being used is delayed by a period once more, which is what the second period is
for. -/
structure Near (K P : Nat) (l : List Refill) : Prop where
  le : ∀ r ∈ l, r.rTime ≤ K + 2 * P
  empty_le : ∀ r ∈ l.dropLast, r.rAmount = 0 → r.rTime ≤ K + P

theorem Near.mono {K' : Nat} (h : Near K P l) (hK : K ≤ K') : Near K' P l :=
  ⟨fun r hr => by have := h.le r hr; omega, fun r hr h0 => by have := h.empty_le r hr h0; omega⟩

theorem Near.suffix {l l' : List Refill} (h : Near K P l) (hs : l' <:+ l) : Near K P l' := by
  obtain ⟨pre, rfl⟩ := hs
  refine ⟨fun r hr => h.le r (mem_append_right _ hr), fun r hr => h.empty_le r ?_⟩
  rw [dropLast_append_of_ne_nil (by rintro rfl; simp at hr)]
  exact mem_append_right _ hr

/-- The head may be replaced by one that is usable soon. -/
theorem Near.cons (h : Near K P l) (hr : r.rTime ≤ K + P) : Near K P (r :: l) := by
  refine ⟨fun x hx => ?_, fun x hx h0 => ?_⟩
  · rcases mem_cons.mp hx with rfl | hx
    · omega
    · exact h.le x hx
  · cases l with
    | nil => simp at hx
    | cons s l =>
      rcases mem_cons.mp hx with rfl | hx
      · exact hr
      · exact h.empty_le x hx h0

theorem Near.grow {a : Nat} (h : Near K P (r :: l))
    (ha : r.rAmount ≤ a) : Near K P (⟨r.rTime, a⟩ :: l) := by
  have hr := h.le r mem_cons_self
  refine ⟨fun x hx => ?_, fun x hx h0 => ?_⟩
  · rcases mem_cons.mp hx with rfl | hx
    · exact hr
    · exact h.le x (mem_cons_of_mem _ hx)
  · cases l with
    | nil => simp at hx
    | cons s l =>
      rcases mem_cons.mp hx with rfl | hx
      · exact h.empty_le r mem_cons_self (by simp only at h0; omega)
      · exact h.empty_le x (mem_cons_of_mem _ hx) h0

theorem near_sufficient (hl : l ≠ []) (h : Near K P l) : Near K P (sufficient m M l) := by
  obtain ⟨r, l', a, h1, h2, h3⟩ := sufficient_suffix (m := m) (M := M) hl
  rw [h1]
  exact (h.suffix h2).grow h3

theorem near_concat {x : Refill} : Near K P (l ++ [x]) ↔
    (∀ r ∈ l, r.rTime ≤ K + 2 * P ∧ (r.rAmount = 0 → r.rTime ≤ K + P)) ∧
      x.rTime ≤ K + 2 * P := by
  constructor
  · intro h
    refine ⟨fun r hr => ⟨h.le r (by simp [hr]), h.empty_le r (by simpa using hr)⟩,
      h.le x (by simp)⟩
  · rintro ⟨h1, h2⟩
    refine ⟨fun r hr => ?_, fun r hr h0 => (h1 r (by simpa using hr)).2 h0⟩
    rcases mem_append.mp hr with hr | hr
    · exact (h1 r hr).1
    · rw [mem_singleton.mp hr]; exact h2

/-- What is scheduled is either at most one period ahead, or holds no budget:
then it only starts a new refill behind the whole budget. -/
theorem near_schedule (hm : 0 < m) {new : Refill} (hl : l ≠ [])
    (h : Near K P l)
    (hn : new.rTime ≤ K + P ∨ (new.rAmount = 0 ∧ 0 < amount l ∧ new.rTime ≤ K + 2 * P)) :
    Near K P (schedule m l new) := by
  have hlen : new.rAmount = 0 → l.length ≠ 1 → (schedule m l new).length = l.length := by
    intro h0 h1
    match l, hl with
    | [x], _ => simp at h1
    | r :: s :: l, _ =>
      have : new = ⟨new.rTime, 0⟩ := by rw [← h0]
      rw [this]
      exact length_schedule_empty hm r s l _
  obtain ⟨init, x, rfl, ⟨-, -, hc⟩ | ⟨-, hc⟩ | ⟨ht, hc⟩⟩ := schedule_cases (m := m) hl new
  · rw [near_concat] at h
    rw [hc, near_concat]
    exact ⟨h.1, by simp only; omega⟩
  · rw [near_concat] at h
    rw [hc, near_concat]
    exact ⟨h.1, h.2⟩
  · rw [near_concat] at h
    rw [hc, show init ++ [x, new] = (init ++ [x]) ++ [new] by simp, near_concat]
    refine ⟨fun r hr => ?_, by omega⟩
    rcases mem_append.mp hr with hr | hr
    · exact h.1 r hr
    rw [mem_singleton.mp hr]
    refine ⟨h.2, fun hx => ?_⟩
    rcases hn with hn | ⟨h0, hB, -⟩
    · omega
    -- behind a longer queue it would have been merged
    have h1 : (init ++ [x]).length = 1 := by
      by_contra h1
      have := hlen h0 h1
      rw [hc] at this
      simp at this
    have : init = [] := by simpa using h1
    subst this
    simp [hx] at hB

theorem near_split (hm : 0 < m) (h : Near K P (r :: l))
    (hr : r.rTime ≤ K) : Near K P (split m P M (r :: l) u) := by
  have hl := h.suffix (suffix_cons r l)
  simp only [split]
  split_ifs with hc
  · cases l with
    | nil => exact hl.cons (by simp only; omega)
    | cons s l =>
      exact near_sufficient (schedule_ne_nil (cons_ne_nil _ _) _)
        (near_schedule hm (cons_ne_nil _ _)
          (hl.grow (Nat.le_add_right _ _)) (Or.inl (by simp only; omega)))
  · exact near_schedule hm (cons_ne_nil _ _)
      (hl.cons (by simp only; omega)) (Or.inl (by simp only; omega))

theorem near_exhaustHead (hm : 0 < m) (h : Near K P (r :: l)) (hB : 0 < amount (r :: l))
    (hr : r.rTime ≤ K ∨ r.rAmount = 0) : Near K P (exhaustHead m P (r :: l, v)).1 := by
  have hl := h.suffix (suffix_cons r l)
  cases l with
  | nil =>
    refine hl.cons ?_
    rcases hr with hr | hr
    · simp only; omega
    · simp [hr] at hB
  | cons s l =>
    refine near_schedule hm (cons_ne_nil _ _) hl ?_
    rcases hr with hr | hr
    · exact Or.inl (by simp only; omega)
    · have := h.empty_le r mem_cons_self hr
      exact Or.inr ⟨hr, by simpa [hr] using hB, by simp only; omega⟩

/-! ### Refills that come from a time on -/

theorem sufficient_time_ge (hl : l ≠ []) (h : ∀ r ∈ l, S ≤ r.rTime) :
    ∀ r ∈ sufficient m M l, S ≤ r.rTime := by
  obtain ⟨x, l', a, h1, h2, -⟩ := sufficient_suffix (m := m) (M := M) hl
  rw [h1]
  exact forall_mem_cons.mpr (forall_mem_cons.mp fun r hr => h r (h2.mem hr))

theorem split_time_ge (h : ∀ x ∈ r :: l, S ≤ x.rTime) :
    ∀ x ∈ split m P M (r :: l) u, S ≤ x.rTime := by
  have hr := h r mem_cons_self
  have hl := (forall_mem_cons.mp h).2
  simp only [split]
  split_ifs with hc
  · cases l with
    | nil => intro x hx; rw [mem_singleton.mp hx]; simp only; omega
    | cons s l =>
      exact sufficient_time_ge (schedule_ne_nil (cons_ne_nil _ _) _)
        (schedule_time_ge (cons_ne_nil _ _) (forall_mem_cons.mpr (forall_mem_cons.mp hl))
          (by simp only; omega))
  · exact schedule_time_ge (cons_ne_nil _ _) (forall_mem_cons.mpr ⟨hr, hl⟩) (by simp only; omega)

theorem exhaustHead_time_ge (h : ∀ x ∈ r :: l, S ≤ x.rTime) :
    ∀ x ∈ (exhaustHead m P (r :: l, v)).1, S ≤ x.rTime := by
  have hr := h r mem_cons_self
  cases l with
  | nil => intro x hx; rw [mem_singleton.mp hx]; simp only; omega
  | cons s l =>
    exact schedule_time_ge (cons_ne_nil _ _)
      (fun x hx => h x (mem_cons_of_mem _ hx)) (by simp only; omega)

/-! ### One segment of execution -/

/-- A queue at time `t` whose refills come from `S` on. -/
structure Since (m P M W B S t : Nat) (l : List Refill) : Prop where
  good : Good m B M l
  started : S ≤ t
  later : ∀ r ∈ l, S ≤ r.rTime
  near : Near (t + W) P l

/-- A thread that resumes at `now` has all its refills from `now` on. -/
theorem since_unblock (hg : Good m B M l) (hn : Near (t + W) P l) (ht : t ≤ now)
    (hr : headTime l ≤ now + W) :
    Since m P M W B now now (unblock (now + W) now l) ∧
      headTime (unblock (now + W) now l) = now := by
  have hg' : Good m B M (unblock (now + W) now l) := good_unblock hg
  obtain ⟨r, l, rfl⟩ := exists_cons_of_ne_nil hg.ne_nil
  have hu : unblock (now + W) now (r :: l) = mergeAvailable now (⟨now, r.rAmount⟩ :: l) := by
    exact if_pos hr
  obtain ⟨l', a, h1, h2⟩ := mergeAvailable_suffix (l := l) (r := ⟨now, r.rAmount⟩) rfl
  rw [hu, h1] at hg' ⊢
  have hnear := (hn.mono (Nat.add_le_add_right ht W)).suffix (h2.trans (suffix_cons r l))
  exact ⟨⟨hg', le_rfl, headTime_le hg'.ordered, hnear.cons (by simp only; omega)⟩, rfl⟩

theorem Since.mono {S' : Nat} (h : Since m P M W B S t l) (hS : S' ≤ S) : Since m P M W B S' t l :=
  ⟨h.good, le_trans hS h.started, fun r hr => le_trans hS (h.later r hr), h.near⟩

/-- A charge that leaves a sufficient head. -/
theorem Since.split (h : Since m P M W B S t l) (hM : 2 ≤ M)
    (hm : 0 < m) (hr : headTime l ≤ t + W) (hu : u + m ≤ headAmount l) :
    Since m P M W B S (t + u) (Queue.split m P M l u) ∧
      supply (S + P) W (t + u) (Queue.split m P M l u) + min u (S + P - (t + W))
        ≤ supply (S + P) W t l := by
  have hg := good_split (P := P) hM h.good hu
  have hstart := h.started
  obtain ⟨r, l, rfl⟩ := exists_cons_of_ne_nil h.good.ne_nil
  rw [headTime_cons] at hr
  rw [headAmount_cons] at hu
  have hS := h.later r mem_cons_self
  exact ⟨⟨hg, by omega, split_time_ge h.later, near_split hm (h.near.mono (by omega)) (by omega)⟩,
    supply_split_le h.good.kept hr (by omega) (by omega)⟩

/-- What settling keeps: a usage below the head's amount is charged when the head
may be used. -/
theorem settle_le (hM : 2 ≤ M) (hm : 0 < m) (hmB : m ≤ B)
    (hk : Kept B M l) (hlater : ∀ r ∈ l, S ≤ r.rTime) (hnear : Near (t + u + W) P l)
    (hr : u = 0 ∨ (headTime l ≤ t + W ∧ u < headAmount l)) :
    let l' := settle m P M (t + u + W) l u
    Good m B M l' ∧ (∀ r ∈ l', S ≤ r.rTime) ∧ Near (t + u + W) P l' ∧
      supply (S + P) W (t + u) l' + min u (S + P - (t + W)) ≤ supply (S + P) W t l := by
  intro l'
  have hg : Good m B M l' := good_settle hM hk hmB
  obtain ⟨r, l, rfl⟩ := exists_cons_of_ne_nil hk.ne_nil
  have hS := hlater r mem_cons_self
  simp only [headTime_cons, headAmount_cons] at hr
  by_cases hc : u < r.rAmount ∧ r.rTime ≤ t + u + W
  · have hl' : l' = sufficient m M (split m P M (r :: l) u) := congrArg (sufficient m M) (if_pos hc)
    have hs := hk.split (m := m) (P := P) (u := u) hM (le_of_lt hc.1)
    rw [hl'] at hg ⊢
    refine ⟨hg, sufficient_time_ge hs.ne_nil (split_time_ge hlater),
      near_sufficient hs.ne_nil (near_split hm hnear hc.2), ?_⟩
    refine le_trans (Nat.add_le_add_right (supply_sufficient_le hs) _) ?_
    exact supply_split_le hk (by omega) (by omega) (le_of_lt hc.1)
  · have hu : u = 0 := by omega
    have hl' : l' = sufficient m M (r :: l) := congrArg (sufficient m M) (if_neg hc)
    subst hu
    rw [hl'] at hg ⊢
    refine ⟨hg, sufficient_time_ge hk.ne_nil hlater, near_sufficient hk.ne_nil hnear, ?_⟩
    have := supply_sufficient_le (D := S + P) (W := W) (t := t + 0) (m := m) (M := M) hk
    simp only [Nat.add_zero] at this ⊢
    omega

/-- The rounds of a loop that has used up the whole usage and only removes heads
without budget: `c` ticks were paid for out of a supply of `X`. -/
structure Draining (P M W B S t c X : Nat) (s : List Refill × Nat) : Prop where
  ne_nil : s.1 ≠ []
  rest : s.2 = 0
  ordered : Ordered s.1
  sum : amount s.1 = B
  length_le : s.1.length ≤ M
  later : ∀ r ∈ s.1, S ≤ r.rTime
  near : Near (t + W) P s.1
  supply_le : supply (S + P) W t s.1 + c ≤ X

theorem Draining.kept {s : List Refill × Nat} (h : Draining P M W B S t c X s) : Kept B M s.1 :=
  ⟨h.ne_nil, h.ordered, h.sum, h.length_le⟩

theorem Draining.step (hm : 0 < m) (hB : 0 < B) {s : List Refill × Nat}
    (h : Draining P M W B S t c X s) (hc : headCovered s = true) :
    Draining P M W B S t c X (exhaustHead m P s) := by
  have hk := h.kept
  obtain ⟨q, v⟩ := s
  obtain ⟨h1, h2, h3, h4, h5, h6, h7, h8⟩ := h
  simp only at h1 h2 h3 h4 h5 h6 h7 h8 hk
  obtain ⟨r, q', rfl⟩ := exists_cons_of_ne_nil h1
  have hcov : r.rAmount ≤ v := by simpa [headCovered] using hc
  have hr0 : r.rAmount = 0 := by omega
  have hS := h6 r mem_cons_self
  obtain ⟨e1, e2, e3, e4⟩ := hk.exhaustHead (m := m) (P := P) v
  refine ⟨e1, by rw [exhaustHead_rest]; omega, e2, e3, e4, exhaustHead_time_ge h6,
    near_exhaustHead hm h7 (by omega) (Or.inr hr0), ?_⟩
  exact le_trans (Nat.add_le_add_right (supply_exhaustHead_empty_le (by omega) hr0) c) h8

/-- The first round uses up the head that the thread ran on. -/
theorem Since.exhaustHead (h : Since m P M W B S t l) (hm : 0 < m)
    (hB : 0 < B) (hr : headTime l ≤ t + W) (hu : u = headAmount l) :
    Draining P M W B S (t + u) (min u (S + P - (t + W))) (supply (S + P) W t l)
      (exhaustHead m P (l, u)) := by
  obtain ⟨r, l, rfl⟩ := exists_cons_of_ne_nil h.good.ne_nil
  rw [headAmount_cons] at hu
  rw [headTime_cons] at hr
  have hS := h.later r mem_cons_self
  obtain ⟨e1, e2, e3, e4⟩ := h.good.kept.exhaustHead (m := m) (P := P) u
  refine ⟨e1, by rw [exhaustHead_rest, headAmount_cons]; omega, e2, e3, e4,
    exhaustHead_time_ge h.later,
    near_exhaustHead hm (h.near.mono (by omega)) ?_ (Or.inl (by omega)),
    supply_exhaustHead_le hr (by omega) hu⟩
  rw [h.good.sum]
  exact hB

/-- A budget check that charges at most the head. -/
theorem Since.budget (h : Since m P M W B S t l) (hM : 2 ≤ M)
    (hm : 0 < m) (hmB : m ≤ B) (hr : headTime l ≤ t + W) (hu : u ≤ headAmount l) :
    ∃ l', budget m P M (t + u + W) l u = some l' ∧ Since m P M W B S (t + u) l' ∧
      supply (S + P) W (t + u) l' + min u (S + P - (t + W)) ≤ supply (S + P) W t l := by
  have hstart := h.started
  unfold Queue.budget
  by_cases hc : headAmount l ≤ u
  · have hu' : u = headAmount l := by omega
    rw [if_pos hc]
    obtain ⟨T, hT⟩ : ∃ T, ∀ r ∈ l, r.rTime ≤ T := ⟨_, h.near.le⟩
    obtain ⟨q, v, he, hI, hv⟩ := exhaust_exists hm (by omega : 0 < B)
      (exhausting_start (P := P) h.good.ne_nil h.good.ordered h.good.sum h.good.length_le hT
        (Or.inr (Or.inl hu')))
    have hfirst := h.exhaustHead hm (by omega) hr hu'
    -- the invariant starts after the first round
    obtain ⟨hJ, hcov⟩ := whileLoop_inv
      (I := fun s => s = (l, u) ∨ Draining P M W B S (t + u) (min u (S + P - (t + W)))
        (supply (S + P) W t l) s)
      (fun s hs hc' => Or.inr (by
        rcases hs with rfl | hs
        · exact hfirst
        · exact hs.step hm (by omega) hc'))
      (Or.inl rfl) he
    have hJ : Draining P M W B S (t + u) (min u (S + P - (t + W))) (supply (S + P) W t l)
        (q, v) := by
      rcases hJ with hJ | hJ
      · rw [hJ] at hcov
        obtain ⟨r, l, rfl⟩ := exists_cons_of_ne_nil h.good.ne_nil
        simp [headCovered] at hcov
        simp at hc
        omega
      · exact hJ
    obtain rfl : v = 0 := hJ.rest
    obtain ⟨g1, g2, g3, g4⟩ :=
      settle_le (u := 0) (P := P) hM hm hmB hJ.kept hJ.later hJ.near (Or.inl rfl)
    refine ⟨_, by rw [he]; rfl, ⟨g1, by omega, g2, g3⟩, ?_⟩
    exact le_trans (Nat.add_le_add_right g4 _) hJ.supply_le
  · rw [if_neg hc]
    obtain ⟨g1, g2, g3, g4⟩ := settle_le (u := u) (P := P) hM hm hmB h.good.kept h.later
      (h.near.mono (by omega)) (Or.inr ⟨hr, by omega⟩)
    exact ⟨_, rfl, ⟨g1, by omega, g2, g3⟩, g4⟩

end SeL4Kernel.Sporadic.Queue
