import SeL4Kernel.Lib.Count
import SeL4Kernel.Lib.Notification

/-!
# The binary semaphore

`bin_sem_bare.h` of `libsel4sync`: a counter, and a notification for the threads that find it at
zero or below. Every access of the counter and every system call is a step, and the steps of any
number of threads interleave. The loop around the weak compare and exchange is one step, the last
round of it.

The lock is in one place (`Inv.one`): with a thread, in the hands of a thread that is going to
signal, in the notification, or free when the counter is one.
-/

namespace SeL4Kernel.BinSem

open Function Notification

variable {Thread : Type*} [DecidableEq Thread]

/-- `INT_MIN`. -/
def intMin : ℤ := -2 ^ 31

/-- Where a thread is. -/
inductive Pc where
  /-- outside, without the lock -/
  | outside
  /-- the counter was not positive; before `seL4_Wait` -/
  | decremented
  /-- in `seL4_Wait` -/
  | blocked
  /-- behind `seL4_Wait` -/
  | woken
  /-- `sync_bin_sem_bare_wait` has returned 0 -/
  | holding
  /-- behind the increment, with its result -/
  | posted (val : ℤ)
  /-- before `seL4_Signal` -/
  | signalling
  /-- an assertion failed -/
  | aborted
  deriving DecidableEq, Repr

/-- The semaphore and the threads. -/
structure Sem (Thread : Type*) where
  value : ℤ
  ntfn : Notification Thread
  pc : Thread → Pc

/-- One step of a thread. Only a thread that has the lock posts. -/
inductive Step (t : Thread) (s : Sem Thread) : Sem Thread → Prop where
  /-- `sync_atomic_decrement_safe` fails and -1 is returned -/
  | refuse : s.pc t = .outside → s.value = intMin → Step t s s
  | decrement : s.pc t = .outside → s.value ≠ intMin →
      Step t s { s with
        value := s.value - 1
        pc := update s.pc t (if s.value ≤ 0 then .decremented else .holding) }
  | take : s.pc t = .decremented → s.ntfn.token = true →
      Step t s { s with ntfn := s.ntfn.take, pc := update s.pc t .woken }
  | block : s.pc t = .decremented → s.ntfn.token = false →
      Step t s { s with ntfn := s.ntfn.enqueue t, pc := update s.pc t .blocked }
  | acquire : s.pc t = .woken → Step t s { s with pc := update s.pc t .holding }
  | increment : s.pc t = .holding →
      Step t s { s with
        value := s.value + 1, pc := update s.pc t (.posted (s.value + 1)) }
  /-- `assert(*value <= 1)` and the test of the result -/
  | check (val : ℤ) : s.pc t = .posted val →
      Step t s { s with
        pc := update s.pc t
          (if s.value ≤ 1 then if val ≤ 0 then .signalling else .outside else .aborted) }
  | signal (n : Notification Thread) : s.pc t = .signalling → s.ntfn.Signal none n →
      Step t s { s with ntfn := n, pc := update s.pc t .outside }
  | wake (u : Thread) (n : Notification Thread) : s.pc t = .signalling →
      s.ntfn.Signal (some u) n →
      Step t s { s with
        ntfn := n, pc := update (update s.pc t .outside) u .woken }

/-- The start: the counter is one and nobody is there. -/
def Sem.start : Sem Thread where
  value := 1
  ntfn := ⟨false, ∅⟩
  pc := fun _ => .outside

/-- The states of all interleavings. -/
inductive Reaches : Sem Thread → Prop where
  | start : Reaches .start
  | step {s s' : Sem Thread} (t : Thread) : Reaches s → Step t s s' → Reaches s'

/-! ### Places -/

/-- The thread has the lock. -/
@[simp] def Pc.holds : Pc → Bool
  | .woken | .holding => true
  | _ => false

/-- The thread has decremented the counter and does not have the lock yet. -/
@[simp] def Pc.queues : Pc → Bool
  | .decremented | .blocked => true
  | _ => false

/-- The thread is about to signal. -/
@[simp] def Pc.signals : Pc → Bool
  | .posted val => val ≤ 0
  | .signalling => true
  | _ => false

variable [Fintype Thread] {s s' : Sem Thread} {t : Thread} {n : Notification Thread}

/-- The invariant. -/
structure Inv (s : Sem Thread) : Prop where
  value : s.value = 1 - (count Pc.holds s.pc + count Pc.queues s.pc)
  /-- the lock is in one place -/
  one : count Pc.holds s.pc + count Pc.signals s.pc + s.ntfn.token.toNat +
    (if s.value = 1 then 1 else 0) = 1
  waiting : ∀ t, t ∈ s.ntfn.waiting ↔ s.pc t = .blocked
  valid : s.ntfn.Valid
  alive : ∀ t, s.pc t ≠ .aborted

omit [DecidableEq Thread] in
theorem inv_start : Inv (Sem.start : Sem Thread) where
  value := by
    unfold Sem.start
    rw [count_const_false rfl, count_const_false rfl]
    rfl
  one := by
    unfold Sem.start
    rw [count_const_false rfl, count_const_false rfl]
    rfl
  waiting := by simp [Sem.start]
  valid := fun _ => rfl
  alive := by simp [Sem.start]

omit [Fintype Thread] in
theorem alive_update {f : Thread → Pc} {p : Pc} (h : ∀ u, f u ≠ .aborted) (hp : p ≠ .aborted)
    (u : Thread) : update f t p u ≠ .aborted := by
  by_cases hu : u = t
  · rw [hu, update_self]
    exact hp
  · rw [update_of_ne hu]
    exact h u

/-- How the counts change when one thread moves. -/
theorem counts_update (s : Sem Thread) (t : Thread) (p : Pc) :
    (count Pc.holds (update s.pc t p) + (s.pc t).holds.toNat =
        count Pc.holds s.pc + p.holds.toNat) ∧
      (count Pc.queues (update s.pc t p) + (s.pc t).queues.toNat =
        count Pc.queues s.pc + p.queues.toNat) ∧
      count Pc.signals (update s.pc t p) + (s.pc t).signals.toNat =
        count Pc.signals s.pc + p.signals.toNat := by
  simp only [Bool.toNat, Bool.cond_eq_ite]
  exact ⟨count_update _ _ _ _, count_update _ _ _ _, count_update _ _ _ _⟩

variable (h : Inv s)

include h

/-- A thread moves between places where it is not blocked. What remains to be shown is about
the counts after the step. -/
theorem Inv.move {p q : Pc} (ht : s.pc t = q) (hq : q ≠ .blocked)
    (hp : p ≠ .blocked ∧ p ≠ .aborted) {v : ℤ} (hvalid : n.Valid)
    (hwaiting : n.waiting = s.ntfn.waiting)
    (hcounts : s.value = 1 - (count Pc.holds s.pc + count Pc.queues s.pc) →
      count Pc.holds s.pc + count Pc.signals s.pc + s.ntfn.token.toNat +
        (if s.value = 1 then 1 else 0) = 1 → ∀ holds queues signals : ℕ,
      holds + q.holds.toNat = count Pc.holds s.pc + p.holds.toNat →
      queues + q.queues.toNat = count Pc.queues s.pc + p.queues.toNat →
      signals + q.signals.toNat = count Pc.signals s.pc + p.signals.toNat →
      v = 1 - (holds + queues) ∧
        holds + signals + n.token.toNat + (if v = 1 then 1 else 0) = 1) :
    Inv { value := v, ntfn := n, pc := update s.pc t p } := by
  obtain ⟨h1, h2, h3⟩ := counts_update s t p
  rw [ht] at h1 h2 h3
  obtain ⟨hvalue, hone⟩ := hcounts h.value h.one _ _ _ h1 h2 h3
  refine ⟨hvalue, hone, mem_waiting_update (fun u => ?_) (by rw [ht]; exact hq) hp.1,
    hvalid, alive_update h.alive hp.2⟩
  rw [hwaiting]
  exact h.waiting u

theorem Inv.decrement (ht : s.pc t = .outside) :
    Inv { s with
      value := s.value - 1
      pc := update s.pc t (if s.value ≤ 0 then .decremented else .holding) } := by
  split
  · refine h.move ht (by simp) (by simp) h.valid rfl fun hvalue hone a b c h1 h2 h3 => ?_
    simp at h1 h2 h3
    rw [if_neg (by omega)] at hone ⊢
    omega
  · refine h.move ht (by simp) (by simp) h.valid rfl fun hvalue hone a b c h1 h2 h3 => ?_
    simp at h1 h2 h3
    rw [if_pos (by omega)] at hone
    rw [if_neg (by omega)]
    omega

theorem Inv.take (ht : s.pc t = .decremented) (htoken : s.ntfn.token = true) :
    Inv { s with ntfn := s.ntfn.take, pc := update s.pc t .woken } := by
  refine h.move ht (by simp) (by simp) (fun _ => h.valid htoken) rfl
    fun hvalue hone a b c h1 h2 h3 => ?_
  rw [htoken, Bool.toNat_true] at hone
  simp at h1 h2 h3
  simp only [Notification.take, Bool.toNat_false]
  omega

theorem Inv.block (ht : s.pc t = .decremented) (htoken : s.ntfn.token = false) :
    Inv { s with ntfn := s.ntfn.enqueue t, pc := update s.pc t .blocked } := by
  obtain ⟨h1, h2, h3⟩ := counts_update s t .blocked
  have hvalue := h.value
  have hone := h.one
  rw [ht] at h1 h2 h3
  simp at h1 h2 h3
  refine ⟨?_, ?_, mem_waiting_enqueue h.waiting, .enqueue htoken, alive_update h.alive (by simp)⟩
  · dsimp only
    omega
  · simp only [Notification.enqueue]
    omega

theorem Inv.acquire (ht : s.pc t = .woken) : Inv { s with pc := update s.pc t .holding } := by
  refine h.move ht (by simp) (by simp) h.valid rfl fun hvalue hone a b c h1 h2 h3 => ?_
  simp at h1 h2 h3
  omega

/-- The counter becomes one, or the thread is going to signal. -/
theorem Inv.increment (ht : s.pc t = .holding) :
    Inv { s with value := s.value + 1, pc := update s.pc t (.posted (s.value + 1)) } := by
  refine h.move ht (by simp) (by simp) h.valid rfl fun hvalue hone a b c h1 h2 h3 => ?_
  simp at h1 h2
  split
  · have hle : ¬s.value + 1 ≤ 0 := by omega
    simp [hle] at h3
    omega
  · have hle : s.value + 1 ≤ 0 := by omega
    simp [hle] at h3
    omega

omit [DecidableEq Thread] in
/-- The assertion holds. -/
theorem Inv.value_le : s.value ≤ 1 := by
  have hvalue := h.value
  omega

theorem Inv.check {val : ℤ} (ht : s.pc t = .posted val) :
    Inv { s with
      pc := update s.pc t
        (if s.value ≤ 1 then if val ≤ 0 then .signalling else .outside else .aborted) } := by
  rw [if_pos h.value_le]
  split
  next hval =>
    refine h.move ht (by simp) (by simp) h.valid rfl fun hvalue hone a b c h1 h2 h3 => ?_
    simp only [Pc.holds, Pc.queues, Pc.signals, Bool.toNat_true, Bool.toNat_false,
      decide_eq_true hval] at h1 h2 h3
    omega
  next hval =>
    refine h.move ht (by simp) (by simp) h.valid rfl fun hvalue hone a b c h1 h2 h3 => ?_
    simp only [Pc.holds, Pc.queues, Pc.signals, Bool.toNat_false, decide_eq_false hval]
      at h1 h2 h3
    omega

theorem Inv.signal (ht : s.pc t = .signalling) (hsig : s.ntfn.Signal none n) :
    Inv { s with ntfn := n, pc := update s.pc t .outside } := by
  have hvalid := h.valid.signal hsig
  cases hsig with
  | set hempty =>
    refine h.move ht (by simp) (by simp) hvalid rfl fun hvalue hone a b c h1 h2 h3 => ?_
    simp at h1 h2 h3
    -- the token was not there, as the thread had it
    simp only [Bool.toNat_true]
    omega

theorem Inv.wake (ht : s.pc t = .signalling) {u : Thread} (hsig : s.ntfn.Signal (some u) n) :
    Inv { s with
      ntfn := n, pc := update (update s.pc t .outside) u .woken } := by
  have hvalue := h.value
  have hone := h.one
  have hvalid := h.valid.signal hsig
  cases hsig with
  | wake _ hu =>
    have hblocked := (h.waiting u).1 hu
    have hut : u ≠ t := by
      rintro rfl
      rw [ht] at hblocked
      cases hblocked
    obtain ⟨h1, h2, h3⟩ := counts_update s t .outside
    obtain ⟨h4, h5, h6⟩ := counts_update { s with pc := update s.pc t .outside } u .woken
    dsimp only at h4 h5 h6
    rw [ht] at h1 h2 h3
    rw [update_of_ne hut, hblocked] at h4 h5 h6
    simp only [Pc.holds, Pc.queues, Pc.signals, Bool.toNat_true, Bool.toNat_false]
      at h1 h2 h3 h4 h5 h6
    have hwaiting := mem_waiting_update (p := .outside) h.waiting
      (by rw [ht]; simp) (by simp)
    refine ⟨?_, ?_, mem_waiting_erase hwaiting (by simp), hvalid,
      alive_update (alive_update h.alive (by simp)) (by simp)⟩
    · dsimp only
      omega
    · dsimp only
      omega

/-- Every step keeps the invariant. -/
theorem Inv.step (hstep : Step t s s') : Inv s' := by
  cases hstep with
  | refuse => exact h
  | decrement ht _ => exact h.decrement ht
  | take ht htoken => exact h.take ht htoken
  | block ht htoken => exact h.block ht htoken
  | acquire ht => exact h.acquire ht
  | increment ht => exact h.increment ht
  | check _ ht => exact h.check ht
  | signal _ ht hsig => exact h.signal ht hsig
  | wake _ _ ht hsig => exact h.wake ht hsig

omit h

theorem Reaches.inv (h : Reaches s) : Inv s := by
  induction h with
  | start => exact inv_start
  | step t _ hstep ih => exact ih.step hstep

omit [DecidableEq Thread] in
/-- Two threads do not have the lock at the same time. -/
theorem Inv.eq_of_holds (h : Inv s) {u : Thread} (ht : (s.pc t).holds = true)
    (hu : (s.pc u).holds = true) : t = u := by
  have hone := h.one
  exact eq_of_count_le_one (by omega) ht hu

/-- What holds of the semaphore in every state. -/
structure Right (s : Sem Thread) : Prop where
  /-- one thread at most is between its wait and its post -/
  exclusive : ∀ t u, (s.pc t).holds = true → (s.pc u).holds = true → t = u
  value : s.value = 1 - (count Pc.holds s.pc + count Pc.queues s.pc)
  /-- a token that is set was not set before -/
  token : ∀ t, (s.pc t).signals = true →
    s.ntfn.token = false ∧ ∀ u, (s.pc u).signals = true → u = t
  /-- the lock is not lost -/
  kept : (∀ t, (s.pc t).holds = false) →
    s.value = 1 ∨ s.ntfn.token = true ∨ ∃ t, (s.pc t).signals = true
  alive : ∀ t, s.pc t ≠ .aborted

omit [DecidableEq Thread] in
theorem Inv.right (h : Inv s) : Right s := by
  have hone := h.one
  refine ⟨fun t u => h.eq_of_holds, h.value, ?_, ?_, h.alive⟩
  · intro t ht
    have hpos := count_pos (P := Pc.signals) ht
    refine ⟨?_, fun u hu => eq_of_count_le_one (by omega) hu ht⟩
    cases htoken : s.ntfn.token with
    | false => rfl
    | true =>
      rw [htoken, Bool.toNat_true] at hone
      omega
  · intro hnone
    have hzero : count Pc.holds s.pc = 0 := by
      by_contra hc
      obtain ⟨t, ht⟩ := exists_of_count_pos (Nat.pos_of_ne_zero hc)
      rw [hnone t] at ht
      cases ht
    by_cases hvalue : s.value = 1
    · exact .inl hvalue
    rw [if_neg hvalue] at hone
    cases htoken : s.ntfn.token with
    | true => exact .inr (.inl rfl)
    | false =>
      rw [htoken, Bool.toNat_false] at hone
      exact .inr (.inr (exists_of_count_pos (by omega)))

end SeL4Kernel.BinSem
