import SeL4Kernel.Sync.BinSem

/-!
# The recursive mutex

`recursive_mutex.c` of `libsel4sync`: a notification with one token, the thread that has it, and
how often that thread has locked the mutex. The owner and the count are plain memory, and every
load and store is a step of its own.

One thread at a time is inside: it has the token on its way to or from the owner field, or it is
the owner (`Inv`). All others do not touch the owner and the count.
-/

namespace SeL4Kernel.RecursiveMutex

open Function Notification

variable {Thread : Type*} [DecidableEq Thread]

/-- `UINT_MAX`. -/
def uintMax : ℕ := 2 ^ 32 - 1

/-- Where a thread is. -/
inductive Pc where
  /-- in no call -/
  | idle
  /-- it is not the owner; before `seL4_Wait` -/
  | waiting
  /-- in `seL4_Wait` -/
  | blocked
  /-- behind `seL4_Wait`, before the assertion about the owner -/
  | acquired
  /-- before the store to the owner -/
  | claiming
  /-- before the assertion about the count -/
  | claimed
  /-- before the test for the largest count -/
  | counting
  /-- before the load for `held++` -/
  | loading
  /-- before the store of `held++`, with what was loaded -/
  | adding (held : ℕ)
  /-- in `sync_recursive_mutex_unlock`, before the assertion about the owner -/
  | unlocking
  /-- before the assertion about the count -/
  | dropping
  /-- before the load for `held--` -/
  | unloading
  /-- before the store of `held--`, with what was loaded -/
  | subtracting (held : ℕ)
  /-- before the test for the outermost lock -/
  | testing
  /-- before the store of no owner -/
  | clearing
  /-- before `seL4_Signal` -/
  | signalling
  /-- an assertion failed -/
  | aborted
  deriving DecidableEq, Repr

/-- The mutex and the threads. `depth` is the number of times a thread has locked the mutex and
not unlocked it again. -/
structure Mutex (Thread : Type*) where
  owner : Option Thread
  held : ℕ
  ntfn : Notification Thread
  pc : Thread → Pc
  depth : Thread → ℕ

/-- A thread goes on. -/
def Mutex.goto (s : Mutex Thread) (t : Thread) (p : Pc) : Mutex Thread :=
  { s with pc := update s.pc t p }

/-- One step of a thread. Only a thread that has locked the mutex unlocks it. -/
inductive Step (t : Thread) (s : Mutex Thread) : Mutex Thread → Prop where
  /-- `sync_recursive_mutex_lock` compares the owner with the thread -/
  | lock : s.pc t = .idle →
      Step t s (s.goto t (if some t ≠ s.owner then .waiting else .counting))
  | take : s.pc t = .waiting → s.ntfn.token = true →
      Step t s { s.goto t .acquired with ntfn := s.ntfn.take }
  | block : s.pc t = .waiting → s.ntfn.token = false →
      Step t s { s.goto t .blocked with ntfn := s.ntfn.enqueue t }
  | assertFree : s.pc t = .acquired →
      Step t s (s.goto t (if s.owner = none then .claiming else .aborted))
  | claim : s.pc t = .claiming → Step t s { s.goto t .claimed with owner := some t }
  | assertNotHeld : s.pc t = .claimed →
      Step t s (s.goto t (if s.held = 0 then .counting else .aborted))
  /-- -1 is returned when the count cannot grow -/
  | testMax : s.pc t = .counting →
      Step t s (s.goto t (if s.held = uintMax then .idle else .loading))
  | load : s.pc t = .loading → Step t s (s.goto t (.adding s.held))
  | add (held : ℕ) : s.pc t = .adding held →
      Step t s { s.goto t .idle with
        held := (held + 1) % 2 ^ 32, depth := update s.depth t (s.depth t + 1) }
  | unlock : s.pc t = .idle → 0 < s.depth t → Step t s (s.goto t .unlocking)
  | assertOwner : s.pc t = .unlocking →
      Step t s (s.goto t (if s.owner = some t then .dropping else .aborted))
  | assertHeld : s.pc t = .dropping →
      Step t s (s.goto t (if s.held > 0 then .unloading else .aborted))
  | unload : s.pc t = .unloading → Step t s (s.goto t (.subtracting s.held))
  | subtract (held : ℕ) : s.pc t = .subtracting held →
      Step t s { s.goto t .testing with
        held := (held + 2 ^ 32 - 1) % 2 ^ 32
        depth := update s.depth t (s.depth t - 1) }
  | test : s.pc t = .testing → Step t s (s.goto t (if s.held = 0 then .clearing else .idle))
  | clear : s.pc t = .clearing → Step t s { s.goto t .signalling with owner := none }
  | signal (n : Notification Thread) : s.pc t = .signalling → s.ntfn.Signal none n →
      Step t s { s.goto t .idle with ntfn := n }
  | wake (u : Thread) (n : Notification Thread) : s.pc t = .signalling →
      s.ntfn.Signal (some u) n → Step t s { (s.goto t .idle).goto u .acquired with ntfn := n }

/-- `sync_recursive_mutex_init`: no owner, and the token is in the notification. -/
def Mutex.start : Mutex Thread where
  owner := none
  held := 0
  ntfn := ⟨true, ∅⟩
  pc := fun _ => .idle
  depth := fun _ => 0

/-- The states of all interleavings. -/
inductive Reaches : Mutex Thread → Prop where
  | start : Reaches .start
  | step {s s' : Mutex Thread} (t : Thread) : Reaches s → Step t s s' → Reaches s'

/-! ### The thread inside -/

/-- A thread that does not have the token. -/
structure Outside (s : Mutex Thread) (t : Thread) : Prop where
  place : s.pc t = .idle ∨ s.pc t = .waiting ∨ s.pc t = .blocked
  depth : s.depth t = 0

/-- What is known about the owner and the count at a place of the thread inside. -/
def Pc.Fits : Pc → (owner : Bool) → (held : ℕ) → Prop
  | .idle, owner, held | .unlocking, owner, held | .dropping, owner, held
  | .unloading, owner, held => owner = true ∧ 0 < held
  | .acquired, owner, held | .claiming, owner, held | .signalling, owner, held =>
    owner = false ∧ held = 0
  | .claimed, owner, held | .clearing, owner, held => owner = true ∧ held = 0
  | .counting, owner, _ | .testing, owner, _ => owner = true
  | .loading, owner, held => owner = true ∧ held < uintMax
  | .adding v, owner, held => owner = true ∧ v = held ∧ held < uintMax
  | .subtracting v, owner, held => owner = true ∧ v = held ∧ 0 < held
  | .waiting, _, _ | .blocked, _, _ | .aborted, _, _ => False

/-- The thread that has the token. -/
structure Inside (s : Mutex Thread) (t : Thread) : Prop where
  owner : s.owner = none ∨ s.owner = some t
  held : s.held = s.depth t
  small : s.held ≤ uintMax
  fits : (s.pc t).Fits s.owner.isSome s.held

/-- The invariant: the token is in the notification, or one thread has it. -/
structure Inv (s : Mutex Thread) : Prop where
  token : s.ntfn.token = true → s.owner = none ∧ s.held = 0 ∧ ∀ t, Outside s t
  thread : s.ntfn.token = false → ∃ t, Inside s t ∧ ∀ u, u ≠ t → Outside s u
  waiting : ∀ t, t ∈ s.ntfn.waiting ↔ s.pc t = .blocked
  valid : s.ntfn.Valid

variable {s s' : Mutex Thread} {t u : Thread} {p : Pc} {n : Notification Thread}

@[simp] theorem goto_pc_self (s : Mutex Thread) (t : Thread) (p : Pc) : (s.goto t p).pc t = p :=
  update_self _ _ _

theorem goto_pc_of_ne (p : Pc) (hu : u ≠ t) : (s.goto t p).pc u = s.pc u := update_of_ne hu _ _

omit [DecidableEq Thread] in
theorem inv_start : Inv (Mutex.start : Mutex Thread) where
  token := fun _ => ⟨rfl, rfl, fun _ => ⟨.inl rfl, rfl⟩⟩
  thread := by simp [Mutex.start]
  waiting := by simp [Mutex.start]
  valid := fun _ => rfl

omit [DecidableEq Thread] in
theorem Inside.fits_at (h : Inside s t) (ht : s.pc t = p) : p.Fits s.owner.isSome s.held := by
  rw [← ht]
  exact h.fits

/-- A thread that is not at the places of the others has the token. -/
theorem Inv.inside (h : Inv s) (ht : ¬Outside s t) :
    s.ntfn.token = false ∧ Inside s t ∧ ∀ u, u ≠ t → Outside s u := by
  cases htoken : s.ntfn.token with
  | true => exact absurd ((h.token htoken).2.2 t) ht
  | false =>
    obtain ⟨u, hu, hothers⟩ := h.thread htoken
    by_cases htu : t = u
    · rw [htu]
      exact ⟨rfl, hu, hothers⟩
    · exact absurd (hothers t htu) ht

/-- A thread at a place where no other thread can be. -/
theorem Inv.inside_at (h : Inv s) (ht : s.pc t = p) (hp : p ≠ .idle ∧ p ≠ .waiting ∧ p ≠ .blocked) :
    ¬Outside s t ∧ Inside s t ∧ p.Fits s.owner.isSome s.held := by
  have hout : ¬Outside s t := by
    rintro ⟨hc | hc | hc, -⟩
    · exact hp.1 (ht.symm.trans hc)
    · exact hp.2.1 (ht.symm.trans hc)
    · exact hp.2.2 (ht.symm.trans hc)
  obtain ⟨-, hin, -⟩ := h.inside hout
  exact ⟨hout, hin, hin.fits_at ht⟩

omit [DecidableEq Thread] in
theorem Outside.of_eq (h : Outside s u) (hpc : s'.pc u = s.pc u) (hdepth : s'.depth u = s.depth u) :
    Outside s' u :=
  ⟨by rw [hpc]; exact h.place, hdepth.trans h.depth⟩

variable (h : Inv s)

include h

omit [DecidableEq Thread] in
/-- The owner is inside. -/
theorem Inv.inside_of_owner (howner : s.owner = some t) : Inside s t := by
  cases htoken : s.ntfn.token with
  | true =>
    rw [(h.token htoken).1] at howner
    cases howner
  | false =>
    obtain ⟨u, hu, -⟩ := h.thread htoken
    rcases hu.owner with hc | hc
    · rw [hc] at howner
      cases howner
    · obtain rfl : u = t := Option.some.inj (hc.symm.trans howner)
      exact hu

/-- The thread inside moves. -/
theorem Inv.move {o : Option Thread} {held : ℕ} {d : Thread → ℕ} (ht : ¬Outside s t)
    (howner : o = none ∨ o = some t) (hheld : held = d t) (hsmall : held ≤ uintMax)
    (hfits : p.Fits o.isSome held) (hdepth : ∀ u, u ≠ t → d u = s.depth u) :
    Inv { s.goto t p with owner := o, held := held, depth := d } := by
  obtain ⟨htoken, hin, hothers⟩ := h.inside ht
  have hblocked : p ≠ .blocked := by
    rintro rfl
    exact hfits
  refine ⟨fun hc => ?_, fun _ => ⟨t, ⟨howner, hheld, hsmall, ?_⟩, fun u hu =>
    (hothers u hu).of_eq (goto_pc_of_ne p hu) (hdepth u hu)⟩,
    mem_waiting_update h.waiting hin.fits_at hblocked, h.valid⟩
  · exact absurd (htoken.symm.trans hc) Bool.false_ne_true
  · rw [goto_pc_self]
    exact hfits

/-- The thread inside goes on, and nothing else changes. -/
theorem Inv.goto (ht : ¬Outside s t) (hfits : p.Fits s.owner.isSome s.held) : Inv (s.goto t p) := by
  obtain ⟨-, hin, -⟩ := h.inside ht
  exact h.move ht hin.owner hin.held hin.small hfits fun _ _ => rfl

/-- A thread outside goes on and stays outside. -/
theorem Inv.goto_outside (ht : Outside s t) (hblocked : s.pc t ≠ .blocked)
    (hout : s.ntfn.token = false → ¬Inside s t) : Inv (s.goto t .waiting) := by
  have hother : ∀ u, Outside s u → Outside (s.goto t .waiting) u := by
    intro u hu
    by_cases hut : u = t
    · rw [hut]
      exact ⟨.inr (.inl (goto_pc_self s t _)), ht.depth⟩
    · exact hu.of_eq (goto_pc_of_ne _ hut) rfl
  refine ⟨fun htoken => ?_, fun htoken => ?_,
    mem_waiting_update h.waiting hblocked (by simp), h.valid⟩
  · obtain ⟨h1, h2, h3⟩ := h.token htoken
    exact ⟨h1, h2, fun u => hother u (h3 u)⟩
  · obtain ⟨v, hv, hothers⟩ := h.thread htoken
    have hvt : v ≠ t := fun hc => hout htoken (hc ▸ hv)
    refine ⟨v, ⟨hv.owner, hv.held, hv.small, ?_⟩, fun u hu => hother u (hothers u hu)⟩
    rw [goto_pc_of_ne _ hvt]
    exact hv.fits

theorem Inv.lock (ht : s.pc t = .idle) :
    Inv (s.goto t (if some t ≠ s.owner then .waiting else .counting)) := by
  by_cases howner : some t = s.owner
  · rw [if_neg (not_not.2 howner)]
    have hin := h.inside_of_owner howner.symm
    have hfits := hin.fits_at ht
    refine h.goto ?_ hfits.1
    rintro ⟨-, hzero⟩
    have hheld := hin.held
    have hpos := hfits.2
    omega
  · rw [if_pos howner]
    -- a thread inside that is idle is the owner
    have hout : s.ntfn.token = false → ¬Inside s t := by
      intro _ hin
      have hfits := hin.fits_at ht
      rcases hin.owner with hc | hc
      · rw [hc] at hfits
        exact Bool.false_ne_true hfits.1
      · exact howner hc.symm
    have houtside : Outside s t := by
      by_contra hc
      obtain ⟨htoken, hin, -⟩ := h.inside hc
      exact hout htoken hin
    exact h.goto_outside houtside (by rw [ht]; simp) hout

theorem Inv.take (ht : s.pc t = .waiting) (htoken : s.ntfn.token = true) :
    Inv { s.goto t .acquired with ntfn := s.ntfn.take } := by
  obtain ⟨howner, hheld, hout⟩ := h.token htoken
  refine ⟨by simp [Notification.take], fun _ => ⟨t, ⟨.inl howner, ?_, ?_, ?_⟩,
    fun u hu => (hout u).of_eq (goto_pc_of_ne _ hu) rfl⟩, ?_, fun _ => h.valid htoken⟩
  · exact hheld.trans (hout t).depth.symm
  · exact hheld.le.trans (Nat.zero_le _)
  · rw [goto_pc_self]
    exact ⟨by rw [Mutex.goto, howner]; rfl, hheld⟩
  · exact mem_waiting_update h.waiting (by rw [ht]; simp) (by simp)

theorem Inv.block (ht : s.pc t = .waiting) (htoken : s.ntfn.token = false) :
    Inv { s.goto t .blocked with ntfn := s.ntfn.enqueue t } := by
  obtain ⟨v, hv, hothers⟩ := h.thread htoken
  have hvt : v ≠ t := by
    rintro rfl
    exact hv.fits_at ht
  refine ⟨?_, fun _ => ⟨v, ⟨hv.owner, hv.held, hv.small, ?_⟩, ?_⟩,
    mem_waiting_enqueue h.waiting, .enqueue htoken⟩
  · intro hc
    have hc : s.ntfn.token = true := hc
    rw [htoken] at hc
    cases hc
  · rw [goto_pc_of_ne _ hvt]
    exact hv.fits
  · intro u hu
    by_cases hut : u = t
    · subst hut
      exact ⟨.inr (.inr (goto_pc_self s u _)), (hothers u hu).depth⟩
    · exact (hothers u hu).of_eq (goto_pc_of_ne _ hut) rfl

omit h

/-- The thread that has the token gives it away. -/
theorem Inside.leave (h : Inside s t) (hothers : ∀ u, u ≠ t → Outside s u) (hzero : s.held = 0)
    (u : Thread) : Outside (s.goto t .idle) u := by
  by_cases hut : u = t
  · rw [hut]
    exact ⟨.inl (goto_pc_self s t _), h.held.symm.trans hzero⟩
  · exact (hothers u hut).of_eq (goto_pc_of_ne _ hut) rfl

/-- The token goes to a thread that waits, or into the notification. -/
theorem Inv.signal (h : Inv s) (ht : s.pc t = .signalling) (hsig : s.ntfn.Signal none n) :
    Inv { s.goto t .idle with ntfn := n } := by
  obtain ⟨hout, hin, howner, hzero⟩ := h.inside_at ht (by simp)
  obtain ⟨htoken, -, hothers⟩ := h.inside hout
  have hvalid := h.valid.signal hsig
  cases hsig with
  | set hempty =>
    have hnone : s.owner = none := Option.not_isSome_iff_eq_none.1 (by rw [howner]; simp)
    exact ⟨fun _ => ⟨hnone, hzero, fun u => (hin.leave hothers hzero u).of_eq rfl rfl⟩, by simp,
      mem_waiting_update h.waiting (by rw [ht]; simp) (by simp), hvalid⟩

theorem Inv.wake (h : Inv s) (ht : s.pc t = .signalling) (hsig : s.ntfn.Signal (some u) n) :
    Inv { (s.goto t .idle).goto u .acquired with ntfn := n } := by
  obtain ⟨hout, hin, howner, hzero⟩ := h.inside_at ht (by simp)
  obtain ⟨htoken, -, hothers⟩ := h.inside hout
  have hvalid := h.valid.signal hsig
  cases hsig with
  | wake _ hu =>
    have hblocked := (h.waiting u).1 hu
    have hut : u ≠ t := by
      rintro rfl
      rw [ht] at hblocked
      cases hblocked
    have hnone : s.owner = none := Option.not_isSome_iff_eq_none.1 (by rw [howner]; simp)
    refine ⟨?_, fun _ => ⟨u, ⟨.inl hnone, ?_, ?_, ?_⟩,
      fun v hv => (hin.leave hothers hzero v).of_eq (goto_pc_of_ne _ hv) rfl⟩, ?_, hvalid⟩
    · intro hc
      rw [htoken] at hc
      cases hc
    · exact hzero.trans (hothers u hut).depth.symm
    · exact hzero.le.trans (Nat.zero_le _)
    · rw [goto_pc_self]
      exact ⟨howner, hzero⟩
    · exact mem_waiting_erase (mem_waiting_update h.waiting (by rw [ht]; simp) (by simp)) (by simp)

/-- Every step keeps the invariant. -/
theorem Inv.step (h : Inv s) (hstep : Step t s s') : Inv s' := by
  cases hstep with
  | lock ht => exact h.lock ht
  | take ht htoken => exact h.take ht htoken
  | block ht htoken => exact h.block ht htoken
  | signal _ ht hsig => exact h.signal ht hsig
  | wake _ _ ht hsig => exact h.wake ht hsig
  | unlock ht hdepth =>
    have hout : ¬Outside s t := fun hc => absurd hc.depth hdepth.ne'
    obtain ⟨-, hin, -⟩ := h.inside hout
    have hfits := hin.fits_at ht
    exact h.goto hout hfits
  | assertFree ht =>
    obtain ⟨hout, -, hfits⟩ := h.inside_at ht (by simp)
    have hnone : s.owner = none := Option.not_isSome_iff_eq_none.1 (by rw [hfits.1]; simp)
    rw [if_pos hnone]
    exact h.goto hout hfits
  | claim ht =>
    obtain ⟨hout, hin, hfits⟩ := h.inside_at ht (by simp)
    exact h.move hout (.inr rfl) hin.held hin.small ⟨rfl, hfits.2⟩ fun _ _ => rfl
  | assertNotHeld ht =>
    obtain ⟨hout, -, hfits⟩ := h.inside_at ht (by simp)
    rw [if_pos hfits.2]
    exact h.goto hout hfits.1
  | testMax ht =>
    obtain ⟨hout, hin, hfits⟩ := h.inside_at ht (by simp)
    split
    next hmax => exact h.goto hout ⟨hfits, by rw [hmax]; decide⟩
    next hmax => exact h.goto hout ⟨hfits, lt_of_le_of_ne hin.small hmax⟩
  | load ht =>
    obtain ⟨hout, -, hfits⟩ := h.inside_at ht (by simp)
    exact h.goto hout ⟨hfits.1, rfl, hfits.2⟩
  | add held ht =>
    obtain ⟨hout, hin, hfits⟩ := h.inside_at ht (by simp)
    obtain ⟨howner, rfl, hlt⟩ := hfits
    have hmod : (s.held + 1) % 2 ^ 32 = s.held + 1 := by
      unfold uintMax at hlt
      exact Nat.mod_eq_of_lt (by omega)
    refine h.move hout hin.owner ?_ ?_ ?_ fun u hu => update_of_ne hu _ _
    · rw [hmod, update_self, hin.held]
    · rw [hmod]
      exact hlt
    · rw [hmod]
      exact ⟨howner, Nat.succ_pos _⟩
  | assertOwner ht =>
    obtain ⟨hout, hin, hfits⟩ := h.inside_at ht (by simp)
    have howner : s.owner = some t := by
      refine hin.owner.resolve_left fun hc => ?_
      rw [hc] at hfits
      exact Bool.false_ne_true hfits.1
    rw [if_pos howner]
    exact h.goto hout hfits
  | assertHeld ht =>
    obtain ⟨hout, -, hfits⟩ := h.inside_at ht (by simp)
    rw [if_pos hfits.2]
    exact h.goto hout hfits
  | unload ht =>
    obtain ⟨hout, -, hfits⟩ := h.inside_at ht (by simp)
    exact h.goto hout ⟨hfits.1, rfl, hfits.2⟩
  | subtract held ht =>
    obtain ⟨hout, hin, hfits⟩ := h.inside_at ht (by simp)
    obtain ⟨howner, rfl, hpos⟩ := hfits
    have hsmall := hin.small
    have hmod : (s.held + 2 ^ 32 - 1) % 2 ^ 32 = s.held - 1 := by
      unfold uintMax at hsmall
      omega
    refine h.move hout hin.owner ?_ ?_ howner fun u hu => update_of_ne hu _ _
    · rw [hmod, update_self, hin.held]
    · rw [hmod]
      exact (Nat.sub_le _ _).trans hsmall
  | test ht =>
    obtain ⟨hout, -, hfits⟩ := h.inside_at ht (by simp)
    split
    next hzero => exact h.goto hout ⟨hfits, hzero⟩
    next hzero => exact h.goto hout ⟨hfits, Nat.pos_of_ne_zero hzero⟩
  | clear ht =>
    obtain ⟨hout, hin, hfits⟩ := h.inside_at ht (by simp)
    exact h.move hout (.inl rfl) hin.held hin.small ⟨rfl, hfits.2⟩ fun _ _ => rfl

theorem Reaches.inv (h : Reaches s) : Inv s := by
  induction h with
  | start => exact inv_start
  | step t _ hstep ih => exact ih.step hstep

/-! ### Both locks -/

/-- The thread has the token on its way to or from the owner field. -/
def Pc.inTransit : Pc → Bool
  | .acquired | .claiming | .signalling => true
  | _ => false

/-- The owner, or a thread in transit. -/
def HasToken (s : Mutex Thread) (t : Thread) : Prop :=
  s.owner = some t ∨ (s.pc t).inTransit = true

/-- What holds of the mutex in every state. -/
structure Right (s : Mutex Thread) : Prop where
  /-- only the owner has locked the mutex -/
  owner : ∀ t, 0 < s.depth t → s.owner = some t
  held : ∀ t, s.owner = some t → s.held = s.depth t
  /-- the token is in the notification or with one thread -/
  token : s.ntfn.token = true ∧ (∀ t, ¬HasToken s t) ∨
    s.ntfn.token = false ∧ ∃ t, HasToken s t ∧ ∀ u, HasToken s u → u = t
  alive : ∀ t, s.pc t ≠ .aborted

omit [DecidableEq Thread] in
theorem Outside.not_inTransit (h : Outside s t) : (s.pc t).inTransit = false := by
  rcases h.place with hc | hc | hc
  · rw [hc]
    rfl
  · rw [hc]
    rfl
  · rw [hc]
    rfl

omit [DecidableEq Thread] in
theorem Outside.alive (h : Outside s t) : s.pc t ≠ .aborted := by
  rcases h.place with hc | hc | hc
  · simp [hc]
  · simp [hc]
  · simp [hc]

omit [DecidableEq Thread] in
/-- Without an owner the thread inside is in transit. -/
theorem Inside.hasToken (h : Inside s t) : HasToken s t := by
  refine h.owner.symm.imp id fun hnone => ?_
  have hfits := h.fits
  rw [hnone] at hfits
  cases hp : s.pc t <;> rw [hp] at hfits <;> simp_all [Pc.Fits, Pc.inTransit]

omit [DecidableEq Thread] in
theorem Inv.right (h : Inv s) : Right s := by
  cases htoken : s.ntfn.token with
  | true =>
    obtain ⟨howner, hheld, hout⟩ := h.token htoken
    refine ⟨?_, ?_, .inl ⟨htoken, ?_⟩, fun t => (hout t).alive⟩
    · intro t ht
      exact absurd (hout t).depth ht.ne'
    · intro t ht
      rw [howner] at ht
      cases ht
    · rintro t (hc | hc)
      · rw [howner] at hc
        cases hc
      · rw [(hout t).not_inTransit] at hc
        cases hc
  | false =>
    obtain ⟨t, hin, hothers⟩ := h.thread htoken
    have hunique : ∀ u, s.owner = some u → u = t := by
      intro u hu
      rcases hin.owner with hc | hc
      · rw [hc] at hu
        cases hu
      · exact Option.some.inj (hu.symm.trans hc)
    refine ⟨?_, ?_, .inr ⟨htoken, t, hin.hasToken, ?_⟩, ?_⟩
    · intro u hu
      by_cases hut : u = t
      · rw [hut] at hu ⊢
        refine hin.owner.resolve_left fun hnone => ?_
        -- a thread in transit has not locked the mutex
        have hfits := hin.fits
        have hheld := hin.held
        rw [hnone] at hfits
        cases hp : s.pc t <;> rw [hp] at hfits <;> simp_all [Pc.Fits]
      · exact absurd (hothers u hut).depth hu.ne'
    · intro u hu
      rw [hunique u hu]
      exact hin.held
    · rintro u (hc | hc)
      · exact hunique u hc
      · by_contra hut
        rw [(hothers u hut).not_inTransit] at hc
        cases hc
    · intro u hc
      by_cases hut : u = t
      · exact hin.fits_at (hut ▸ hc)
      · exact (hothers u hut).alive hc

/-- **Main result.** Both locks are exclusive and keep their token, whatever the threads do. -/
theorem locks_right [Fintype Thread] :
    (∀ s : BinSem.Sem Thread, BinSem.Reaches s → BinSem.Right s) ∧
      ∀ s : Mutex Thread, Reaches s → Right s :=
  ⟨fun _ h => h.inv.right, fun _ h => h.inv.right⟩

/-- Two threads, of which one has the lock and the other one is on its way to the notification. -/
theorem twoThreads_right :
    (∃ s : BinSem.Sem (Fin 2), s.pc 0 = .holding ∧ s.pc 1 = .decremented ∧ BinSem.Right s) ∧
      ∃ s : Mutex (Fin 2), s.owner = some 0 ∧ Right s := by
  obtain ⟨hsem, hmutex⟩ := @locks_right (Fin 2) _ _
  refine ⟨⟨_, ?_, ?_, hsem _ (.step 1 (.step 0 .start (.decrement rfl (by decide)))
    (.decrement rfl (by decide)))⟩, _, ?_, hmutex _ (.step 0 (.step 0 (.step 0 (.step 0 .start
      (.lock rfl)) (.take rfl rfl)) (.assertFree rfl)) (.claim rfl))⟩
  · rfl
  · rfl
  · rfl

end SeL4Kernel.RecursiveMutex
