import SeL4Kernel.Sync.CondVar

/-!
# The chain of a broadcast

A thread that waits since before a broadcast finds the flag set, and somebody will wake the next
thread (`Inv.owed`): there is a token, or a thread that was notified and has not looked at the flag
yet. All this is kept as long as no thread begins to wait while the flag is set (`Inv.step`).

The count and the flag are only touched by the thread that has the lock, which is the invariant of
the semaphore.
-/

namespace SeL4Kernel.CondVar

open Function Finset Notification

variable {Thread : Type*} [DecidableEq Thread] [Fintype Thread] {s s' : Cv Thread} {t u : Thread}
  {p q : Pc} {v w : ℤ} {n : Notification Thread} {d : Finset ℕ} {release : Bool}

/-- The invariant. -/
structure Inv (s : Cv Thread) : Prop where
  lock : BinSem.Inv s.lock
  critical : ∀ t, (s.pc t).critical = true → s.lock.pc t = .holding
  waiters : s.waiters = count Pc.counted s.pc
  waiting : ∀ t, t ∈ s.ntfn.waiting ↔ s.pc t = .blocked
  valid : s.ntfn.Valid
  loaded : ∀ t v, (s.pc t).loaded = some v → v = s.waiters
  isNew : ∀ t, (s.pc t).isNew = true → s.broadcasting = false
  ending : ∀ t, s.pc t = .ending → s.waiters ≤ 0
  cast_le : ∀ t, s.hist.cast t ≤ s.hist.clock
  latest_le : s.hist.latest ≤ s.hist.clock
  /-- the flag stays set until the broadcast is complete -/
  cast : ∀ t, (s.pc t).casts = true → ∀ u, (s.pc u).waits = true →
    s.hist.ticket u < s.hist.cast t → s.broadcasting = true
  /-- and from then on as long as threads wait for it -/
  owed : ∀ u, (s.pc u).waits = true → s.hist.ticket u < s.hist.latest →
    s.broadcasting = true ∧ Chain s

omit [DecidableEq Thread] [Fintype Thread] in
theorem critical_of_isNew (h : p.isNew = true) : p.critical = true := by
  cases p <;> first | rfl | cases h

omit [DecidableEq Thread] [Fintype Thread] in
theorem critical_of_loaded (h : p.loaded = some v) : p.critical = true := by
  cases p <;> first | rfl | cases h

omit [DecidableEq Thread] [Fintype Thread] in
/-- A thread that waits is in the count, or it has the lock. -/
theorem counted_or_critical (h : p.waits = true) : p.counted = true ∨ p.critical = true := by
  cases p <;> first | exact .inl rfl | exact .inr rfl | cases h

omit [DecidableEq Thread] in
/-- Two threads do not have the lock. -/
theorem Inv.eq_of_critical (h : Inv s) (ht : (s.pc t).critical = true)
    (hu : (s.pc u).critical = true) : u = t :=
  h.lock.eq_of_holds (by rw [h.critical u hu]; rfl) (by rw [h.critical t ht]; rfl)

omit [DecidableEq Thread] in
/-- When a thread that has the lock finds the count at zero, nobody waits. -/
theorem Inv.not_waits (h : Inv s) (ht : (s.pc t).critical = true) (htw : (s.pc t).waits = false)
    (hw : s.waiters ≤ 0) (u : Thread) : (s.pc u).waits = false := by
  rw [← Bool.not_eq_true]
  intro hu
  rcases counted_or_critical hu with hc | hc
  · have hpos := count_pos (P := Pc.counted) hc
    have hwaiters := h.waiters
    omega
  · rw [h.eq_of_critical ht hc, htw] at hu
    cases hu

/-- One thread goes on. It has the lock if it changes the count or the flag. -/
theorem Inv.move (h : Inv s) (hlock : s'.lock = s.lock) (hpc : s'.pc = update s.pc t q)
    (hq : q.critical = true → s.lock.pc t = .holding)
    (hmem : s'.waiters = s.waiters ∧ s'.broadcasting = s.broadcasting ∨ (s.pc t).critical = true)
    (hcount : s'.waiters + (s.pc t).counted.toNat = s.waiters + q.counted.toNat)
    (hwaiting : ∀ u, u ∈ s'.ntfn.waiting ↔ s'.pc u = .blocked) (hvalid : s'.ntfn.Valid)
    (hloaded : ∀ v, q.loaded = some v → v = s'.waiters)
    (hnew : q.isNew = true → s'.broadcasting = false) (hend : q = .ending → s'.waiters ≤ 0)
    (hcastle : ∀ u, s'.hist.cast u ≤ s'.hist.clock) (hlatest : s'.hist.latest ≤ s'.hist.clock)
    (hcast : ∀ u, (s'.pc u).casts = true → ∀ v, (s'.pc v).waits = true →
      s'.hist.ticket v < s'.hist.cast u → s'.broadcasting = true)
    (howed : ∀ u, (s'.pc u).waits = true → s'.hist.ticket u < s'.hist.latest →
      s'.broadcasting = true ∧ Chain s') : Inv s' := by
  have hself : s'.pc t = q := by rw [hpc, update_self]
  have hother : ∀ {u}, u ≠ t → s'.pc u = s.pc u := by
    intro u hu
    rw [hpc, update_of_ne hu]
  -- a thread that depends on the count or the flag has the lock, so they are as before
  have hsame : ∀ {u}, u ≠ t → (s.pc u).critical = true →
      s'.waiters = s.waiters ∧ s'.broadcasting = s.broadcasting := by
    intro u hu hc
    exact hmem.resolve_right fun ht => hu (h.eq_of_critical ht hc)
  refine ⟨hlock ▸ h.lock, ?_, ?_, hwaiting, hvalid, ?_, ?_, ?_, hcastle, hlatest, hcast, howed⟩
  · intro u hu
    rw [hlock]
    by_cases hut : u = t
    · rw [hut, hself] at hu
      rw [hut]
      exact hq hu
    · rw [hother hut] at hu
      exact h.critical u hu
  · have hupdate := count_update Pc.counted s.pc t q
    have hwaiters := h.waiters
    simp only [Bool.toNat, Bool.cond_eq_ite] at hcount
    rw [hpc]
    omega
  · intro u v hv
    by_cases hut : u = t
    · rw [hut, hself] at hv
      exact hloaded v hv
    · rw [hother hut] at hv
      rw [(hsame hut (critical_of_loaded hv)).1]
      exact h.loaded u v hv
  · intro u hu
    by_cases hut : u = t
    · rw [hut, hself] at hu
      exact hnew hu
    · rw [hother hut] at hu
      rw [(hsame hut (critical_of_isNew hu)).2]
      exact h.isNew u hu
  · intro u hu
    by_cases hut : u = t
    · rw [hut, hself] at hu
      exact hend hu
    · rw [hother hut] at hu
      rw [(hsame hut (by rw [hu]; rfl)).1]
      exact h.ending u hu

/-- What a thread may become when nothing else changes. -/
def Pc.passes (p q : Pc) : Bool :=
  (q.counted == p.counted) && p != .blocked && q != .blocked && (!q.isNew || p.isNew) &&
    (!q.waits || p.waits) && (!q.casts || p.casts)

theorem Pc.passes_iff : p.passes q = true ↔ q.counted = p.counted ∧ p ≠ .blocked ∧
    q ≠ .blocked ∧ (q.isNew = true → p.isNew = true) ∧ (q.waits = true → p.waits = true) ∧
    (q.casts = true → p.casts = true) := by
  simp only [Pc.passes, Bool.and_eq_true, beq_iff_eq, bne_iff_ne, ne_eq, Bool.or_eq_true,
    Bool.not_eq_true', and_assoc, imp_iff_not_or, Bool.not_eq_true]

omit [Fintype Thread] in
theorem goto_self : (s.goto t q).pc t = q := update_self _ _ _

omit [Fintype Thread] in
theorem goto_of_ne (hu : u ≠ t) : (s.goto t q).pc u = s.pc u := update_of_ne hu _ _

omit [Fintype Thread] in
theorem chain_goto (h : Chain s) (ht : (s.pc t).carries = true → q.carries = true) :
    Chain (s.goto t q) := by
  rcases h with htoken | ⟨u, hu⟩
  · exact .inl htoken
  refine .inr ⟨u, ?_⟩
  by_cases hut : u = t
  · rw [hut] at hu ⊢
    rw [goto_self]
    exact ht hu
  · rw [goto_of_ne hut]
    exact hu

omit [Fintype Thread] in
/-- What holds of a thread after a step held before, if it did for the one that goes on. -/
theorem of_goto {P : Pc → Bool} (ht : P q = true → P (s.pc t) = true)
    (hu : P ((s.goto t q).pc u) = true) : P (s.pc u) = true := by
  by_cases hut : u = t
  · rw [hut, goto_self] at hu
    rw [hut]
    exact ht hu
  · rw [goto_of_ne hut] at hu
    exact hu

/-- A thread goes on, and nothing else changes but what has happened. -/
theorem Inv.goto (h : Inv s) (hist : History Thread) (hpq : (s.pc t).passes q = true)
    (hq : q.critical = true → s.lock.pc t = .holding)
    (hloaded : ∀ v, q.loaded = some v → v = s.waiters) (hend : q = .ending → s.waiters ≤ 0)
    (hticket : hist.ticket = s.hist.ticket) (hcastle : ∀ u, hist.cast u ≤ hist.clock)
    (hlatestle : hist.latest ≤ hist.clock)
    (hcasts : ∀ u, (s.pc u).casts = true → u ≠ t ∨ q.casts = true → hist.cast u = s.hist.cast u)
    (howed : ∀ u, (s.pc u).waits = true → s.hist.ticket u < hist.latest →
      s.broadcasting = true ∧ Chain (s.goto t q)) : Inv { s.goto t q with hist := hist } := by
  obtain ⟨hcount, hp, hqb, hnew, hwaits, hcast⟩ := Pc.passes_iff.1 hpq
  refine h.move rfl rfl hq (.inl ⟨rfl, rfl⟩) ?_ (mem_waiting_update h.waiting hp hqb) h.valid
    hloaded (fun hn => h.isNew t (hnew hn)) hend hcastle hlatestle ?_ ?_
  · rw [hcount]
    rfl
  · intro u hu v hv hlt
    have hu' := of_goto hcast hu
    have hv' := of_goto hwaits hv
    rw [hticket] at hlt
    refine h.cast u hu' v hv' ?_
    rw [← hcasts u hu' ?_]
    · exact hlt
    by_cases hut : u = t
    · rw [hut, goto_self] at hu
      exact .inr hu
    · exact .inl hut
  · intro u hu hlt
    rw [hticket] at hlt
    exact howed u (of_goto hwaits hu) hlt

/-- What a thread may become when what has happened does not matter. -/
def Pc.keeps (p q : Pc) : Bool :=
  (!q.isNew || p.isNew) && (!q.waits || p.waits) && (!q.casts || p.casts) && q != .ending

/-- One thread goes on, and what has happened stays the same but for who was notified. -/
theorem Inv.moveOn (h : Inv s) (ht : s.pc t = p) (hpq : p.keeps q = true)
    (hq : q.critical = true → s.lock.pc t = .holding) (hmem : w = s.waiters ∨ p.critical = true)
    (hcount : w + p.counted.toNat = s.waiters + q.counted.toNat)
    (hwaiting : ∀ u, u ∈ n.waiting ↔ (s.goto t q).pc u = .blocked) (hvalid : n.Valid)
    (hloaded : ∀ v, q.loaded = some v → v = w) (hchain : Chain s → Chain { s.goto t q with
      ntfn := n, waiters := w, hist := { s.hist with served := d } }) :
    Inv { s.goto t q with ntfn := n, waiters := w, hist := { s.hist with served := d } } := by
  simp only [Pc.keeps, Bool.and_eq_true, Bool.or_eq_true, Bool.not_eq_true', ← Bool.not_eq_true,
    ← imp_iff_not_or, bne_iff_ne, and_assoc] at hpq
  obtain ⟨hnew, hwaits, hcasts, hend⟩ := hpq
  subst ht
  refine h.move rfl rfl hq (hmem.imp_left fun hw => ⟨hw, rfl⟩) hcount hwaiting hvalid hloaded
    (fun hn => h.isNew t (hnew hn)) (fun hc => absurd hc hend) h.cast_le h.latest_le ?_ ?_
  · intro u hu v hv hlt
    exact h.cast u (of_goto hcasts hu) v (of_goto hwaits hv) hlt
  · intro u hu hlt
    exact (h.owed u (of_goto hwaits hu) hlt).imp_right hchain

/-- What a thread may become when nothing else changes, the chain included. -/
def Pc.passesOn (p q : Pc) : Bool :=
  p.keeps q && p.passes q && (!p.carries || q.carries)

theorem Inv.pass (h : Inv s) (ht : s.pc t = p) (hpq : p.passesOn q = true)
    (hq : q.critical = true → s.lock.pc t = .holding)
    (hloaded : ∀ v, q.loaded = some v → v = s.waiters) : Inv (s.goto t q) := by
  simp only [Pc.passesOn, Bool.and_eq_true, Pc.passes_iff, Bool.or_eq_true, Bool.not_eq_true',
    ← Bool.not_eq_true, ← imp_iff_not_or] at hpq
  obtain ⟨⟨hkeeps, hcount, hp, hqb, -⟩, hcarry⟩ := hpq
  subst ht
  exact h.moveOn rfl hkeeps hq (.inl rfl) (by rw [hcount])
    (mem_waiting_update h.waiting hp hqb) h.valid hloaded fun hc => chain_goto hc hcarry

/-- The same for a thread that has the lock before, or does not need it. -/
theorem Inv.on (h : Inv s) (ht : s.pc t = p) (hpq : p.passesOn q = true)
    (hq : (!q.critical || p.critical) = true) (hloaded : q.loaded = none) : Inv (s.goto t q) := by
  subst ht
  rw [Bool.or_eq_true, Bool.not_eq_true', ← Bool.not_eq_true, ← imp_iff_not_or] at hq
  exact h.pass rfl hpq (fun hc => h.critical t (hq hc)) (by simp [hloaded])

/-! ### The lock -/

/-- The thread that has the lock keeps it while others go on. -/
theorem holding_of_step {l l' : BinSem.Sem Thread} (h : BinSem.Inv l) (hstep : BinSem.Step u l l')
    (htu : t ≠ u) (ht : l.pc t = .holding) : l'.pc t = .holding := by
  cases hstep with
  | refuse => exact ht
  | wake v n _ hsig =>
    have htv : t ≠ v := by
      rintro rfl
      cases hsig with
      | wake _ hv =>
        rw [h.waiting, ht] at hv
        cases hv
    dsimp only
    rw [update_of_ne htv, update_of_ne htu]
    exact ht
  | decrement => exact (update_of_ne htu _ _).trans ht
  | take => exact (update_of_ne htu _ _).trans ht
  | block => exact (update_of_ne htu _ _).trans ht
  | acquire => exact (update_of_ne htu _ _).trans ht
  | increment => exact (update_of_ne htu _ _).trans ht
  | check => exact (update_of_ne htu _ _).trans ht
  | signal => exact (update_of_ne htu _ _).trans ht

variable (h : Inv s)

include h

theorem Inv.lockStep {l : BinSem.Sem Thread} (hstep : BinSem.Step t s.lock l)
    (ht : (s.pc t).critical = false) : Inv { s with lock := l } :=
  { h with
    lock := h.lock.step hstep
    critical := by
      intro u hu
      refine holding_of_step h.lock hstep ?_ (h.critical u hu)
      rintro rfl
      rw [ht] at hu
      cases hu }

/-- The lock can be taken when there are not too many threads. -/
theorem Inv.value_ne (hcard : Fintype.card Thread < 2 ^ 31) : s.lock.value ≠ BinSem.intMin := by
  have hvalue := h.lock.value
  have hle : count BinSem.Pc.holds s.lock.pc + count BinSem.Pc.queues s.lock.pc ≤
      Fintype.card Thread := by
    unfold count
    rw [← card_union_of_disjoint]
    · exact card_le_univ _
    rw [disjoint_left]
    intro u hu hu'
    have h1 := (mem_filter.1 hu).2
    have h2 := (mem_filter.1 hu').2
    cases hp : s.lock.pc u <;> simp [hp, BinSem.Pc.holds, BinSem.Pc.queues] at h1 h2
  unfold BinSem.intMin
  omega

/-! ### Waiting and waking -/

/-- A thread begins to wait while no broadcast is going on. -/
theorem Inv.wait (ht : s.pc t = .idle) (hlock : s.lock.pc t = .holding)
    (hflag : s.broadcasting = false) :
    Inv { s.goto t .entering with
      hist := { s.hist with
        clock := s.hist.clock + 1
        ticket := update s.hist.ticket t s.hist.clock } } := by
  have hother : ∀ u, u ≠ t → ((s.goto t .entering).pc u).waits = true →
      (s.pc u).waits = true := by
    intro u hut hu
    rw [goto_of_ne hut] at hu
    exact hu
  have hcasts : ∀ u, ((s.goto t .entering).pc u).casts = true → (s.pc u).casts = true :=
    fun u => of_goto (by intro hc; cases hc)
  refine h.move (q := .entering) rfl rfl (fun _ => hlock) (.inl ⟨rfl, rfl⟩) ?_
    (mem_waiting_update h.waiting (by rw [ht]; simp) (by simp)) h.valid (by simp [Pc.loaded])
    (fun _ => hflag) (by simp) ?_ ?_ ?_ ?_
  · rw [ht]
    rfl
  · exact fun u => (h.cast_le u).trans (Nat.le_succ _)
  · exact h.latest_le.trans (Nat.le_succ _)
  · -- the new ticket is not smaller than the tickets of any broadcast
    intro u hu v hv hlt
    dsimp only at hlt
    by_cases hvt : v = t
    · rw [hvt, update_self] at hlt
      exact absurd (h.cast_le u) (Nat.not_le.2 hlt)
    · rw [update_of_ne hvt] at hlt
      exact h.cast u (hcasts u hu) v (hother v hvt hv) hlt
  · intro u hu hlt
    dsimp only at hlt
    by_cases hut : u = t
    · rw [hut, update_self] at hlt
      exact absurd h.latest_le (Nat.not_le.2 hlt)
    · rw [update_of_ne hut] at hlt
      have hc := (h.owed u (hother u hut hu) hlt).1
      rw [hflag] at hc
      cases hc

/-- A thread that has loaded the count stores one that it is in, or not. -/
theorem Inv.store (ht : s.pc t = p) (hp : p.loaded = some v) (hpq : p.keeps q = true)
    (hcount : w + p.counted.toNat = v + q.counted.toNat) (hq : q ≠ .blocked)
    (hloaded : q.loaded = none) (hcarry : p.carries = true → q.carries = true) :
    Inv { s.goto t q with waiters := w } := by
  subst ht
  have hcrit := critical_of_loaded hp
  have hblocked : s.pc t ≠ .blocked := fun hb => by rw [hb] at hp; cases hp
  rw [h.loaded t v hp] at hcount
  exact h.moveOn rfl hpq (fun _ => h.critical t hcrit) (.inr hcrit) hcount
    (mem_waiting_update h.waiting hblocked hq) h.valid (by simp [hloaded])
    fun hc => chain_goto hc hcarry

/-- The flag is not set when a thread that is new resets it. -/
theorem Inv.reset (ht : s.pc t = .resetting) :
    Inv { s.goto t .posting with broadcasting := false } := by
  have hflag := h.isNew t (by rw [ht]; rfl)
  have heq : { s.goto t .posting with broadcasting := false } = s.goto t .posting := by
    rw [← hflag]
    rfl
  rw [heq]
  exact h.on ht rfl rfl rfl

/-- A thread is notified that waits for it. -/
theorem Inv.notify (ht : s.pc t = .arriving ∨ s.pc t = .blocked)
    (hwaiting : ∀ u, u ∈ n.waiting ↔ (s.notify t).pc u = .blocked) (hvalid : n.Valid) :
    Inv { s.notify t with ntfn := n } ∧ Chain { s.notify t with ntfn := n } := by
  have hchain : Chain { s.notify t with ntfn := n } := by
    refine .inr ⟨t, ?_⟩
    rw [Cv.notify, goto_self]
    rfl
  rcases ht with ht | ht
  all_goals
    exact ⟨h.moveOn ht rfl (by simp [Pc.critical]) (.inl rfl) rfl hwaiting hvalid
      (by simp [Pc.loaded]) fun _ => hchain, hchain⟩

theorem Inv.take (ht : s.pc t = .arriving) (htoken : s.ntfn.token = true) :
    Inv { s.notify t with ntfn := s.ntfn.take } := by
  have hwaiting : ∀ u, u ∈ s.ntfn.take.waiting ↔ (s.notify t).pc u = .blocked :=
    mem_waiting_update h.waiting (by rw [ht]; simp) (by simp)
  exact (h.notify (.inl ht) hwaiting fun _ => h.valid htoken).1

theorem Inv.block (ht : s.pc t = .arriving) (htoken : s.ntfn.token = false) :
    Inv { s.goto t .blocked with ntfn := s.ntfn.enqueue t } := by
  exact h.moveOn ht rfl (by simp [Pc.critical]) (.inl rfl) rfl (mem_waiting_enqueue h.waiting)
    (.enqueue htoken) (by simp [Pc.loaded])
    fun hc => chain_goto (q := .blocked) hc (by rw [ht]; intro hc; cases hc)

/-- A signal wakes a thread or sets the token. -/
theorem Inv.deliver {woken : Option Thread} (hsig : s.ntfn.Signal woken n) :
    Inv (s.deliver woken n) ∧ ((s.deliver woken n).ntfn.token = true ∨
      ∃ u, s.pc u = .blocked ∧ ((s.deliver woken n).pc u).carries = true) ∧
      ∀ t, s.pc t ≠ .blocked → (s.deliver woken n).pc t = s.pc t := by
  have hvalid := h.valid.signal hsig
  cases hsig with
  | set hempty =>
    refine ⟨?_, .inl rfl, fun _ _ => rfl⟩
    exact
      { h with
        waiting := h.waiting
        valid := hvalid
        owed := fun u hu hlt => ⟨(h.owed u hu hlt).1, .inl rfl⟩ }
  | wake u hu =>
    have hblocked := (h.waiting u).1 hu
    have hpc : ((s.deliver (some u) { s.ntfn with waiting := s.ntfn.waiting.erase u }).pc u) =
        .notified := update_self _ _ _
    refine ⟨(h.notify (.inr hblocked) (mem_waiting_erase h.waiting (by simp)) hvalid).1,
      .inr ⟨u, hblocked, by rw [hpc]; rfl⟩, fun v hv => update_of_ne ?_ _ _⟩
    rintro rfl
    exact hv hblocked

/-! ### Returning -/

omit h

omit [DecidableEq Thread] [Fintype Thread] in
theorem finish_hist (hist : History Thread) (t : Thread) (hp : p.casts = false) :
    (hist.finish t p).ticket = hist.ticket ∧ (hist.finish t p).cast = hist.cast ∧
      (hist.finish t p).clock = hist.clock ∧ (hist.finish t p).latest = hist.latest := by
  cases p <;> first | exact ⟨rfl, rfl, rfl, rfl⟩ | cases hp

include h

/-- A thread returns that does not end a broadcast. -/
theorem Inv.finish (hpass : (s.pc t).passes .idle = true) (hcasts : (s.pc t).casts = false)
    (howed : ∀ u, (s.pc u).waits = true → s.hist.ticket u < s.hist.latest →
      s.broadcasting = true ∧ Chain (s.goto t .idle)) : Inv (s.finish t) := by
  obtain ⟨h1, h2, h3, h4⟩ := finish_hist s.hist t hcasts
  refine h.goto _ hpass (by simp [Pc.critical]) (by simp [Pc.loaded]) (by simp) h1 ?_ ?_ ?_ ?_
  · rw [h2, h3]
    exact h.cast_le
  · rw [h3, h4]
    exact h.latest_le
  · intro u _ _
    rw [h2]
  · rw [h4]
    exact howed

theorem Inv.test (ht : s.pc t = .testing) :
    Inv (if s.broadcasting then s.goto t .counting else s.finish t) := by
  split
  · exact h.on ht rfl rfl rfl
  next hflag =>
    refine h.finish (by rw [ht]; rfl) (by rw [ht]; rfl) ?_
    intro u hu hlt
    exact absurd (h.owed u hu hlt).1 hflag

theorem Inv.testCount (ht : s.pc t = .counting) :
    Inv (s.goto t (if s.waiters > 0 then .relaying else .ending)) := by
  have hcrit : (s.pc t).critical = true := by rw [ht]; rfl
  split
  · exact h.on ht rfl rfl rfl
  refine h.goto s.hist (by rw [ht]; rfl) (fun _ => h.critical t hcrit)
    (by simp [Pc.loaded]) (fun _ => by omega) rfl h.cast_le h.latest_le (fun _ _ _ => rfl) ?_
  intro u hu _
  rw [h.not_waits hcrit (by rw [ht]; rfl) (by omega) u] at hu
  cases hu

/-- The last thread resets the flag. -/
theorem Inv.endCast (ht : s.pc t = .ending) : Inv { s.finish t with broadcasting := false } := by
  have hcrit : (s.pc t).critical = true := by rw [ht]; rfl
  have hnone := h.not_waits hcrit (by rw [ht]; rfl) (h.ending t ht)
  have hwaits : ∀ {u}, ((s.goto t .idle).pc u).waits = true → False := by
    intro u hu
    have hu' := of_goto (by intro hc; cases hc) hu
    rw [hnone u] at hu'
    cases hu'
  refine h.move (q := .idle) rfl rfl (by simp [Pc.critical]) (.inr hcrit) ?_
    (mem_waiting_update h.waiting (by rw [ht]; simp) (by simp)) h.valid (by simp [Pc.loaded])
    (by simp [Pc.isNew]) (by simp) ?_ ?_ ?_ ?_
  · rw [ht]
    rfl
  · dsimp only [Cv.finish]
    rw [ht]
    exact h.cast_le
  · dsimp only [Cv.finish]
    rw [ht]
    exact h.latest_le
  · exact fun _ _ v hv _ => (hwaits hv).elim
  · exact fun u hu _ => (hwaits hu).elim

/-! ### Broadcasts -/

theorem Inv.testCast (ht : s.pc t = .castTest release) :
    Inv { s.goto t (.casting release) with
      hist := { s.hist with cast := update s.hist.cast t s.hist.clock } } := by
  have hcrit : (s.pc t).critical = true := by rw [ht]; rfl
  refine h.goto _ (by rw [ht]; rfl) (fun _ => h.critical t hcrit) (by simp [Pc.loaded]) (by simp)
    rfl ?_ h.latest_le ?_ ?_
  · intro u
    dsimp only
    by_cases hut : u = t
    · rw [hut, update_self]
    · rw [update_of_ne hut]
      exact h.cast_le u
  · intro u _ hu
    refine update_of_ne ?_ _ _
    rcases hu with hu | hu
    · exact hu
    · cases hu
  · intro u hu hlt
    obtain ⟨hb, hchain⟩ := h.owed u hu hlt
    exact ⟨hb, chain_goto hchain (by rw [ht]; intro hc; cases hc)⟩

theorem Inv.testCastNone (ht : s.pc t = .castTest release) (hw : ¬s.waiters > 0) :
    Inv { s.goto t (if release then .releaseOnly else .idle) with
      hist := { s.hist with latest := s.hist.clock } } := by
  have hcrit : (s.pc t).critical = true := by rw [ht]; rfl
  have hnone := h.not_waits hcrit (by rw [ht]; rfl) (by omega)
  refine h.goto _ (by rw [ht]; cases release <;> rfl) (by cases release <;> simp [Pc.critical])
    (by cases release <;> simp [Pc.loaded]) (by cases release <;> simp) rfl h.cast_le le_rfl
    (fun _ _ _ => rfl) ?_
  intro u hu _
  rw [hnone u] at hu
  cases hu

theorem Inv.setCast (ht : s.pc t = .casting release) :
    Inv { s.goto t (if release then .releasing else .castSignal false) with
      broadcasting := true } := by
  have hcrit : (s.pc t).critical = true := by rw [ht]; rfl
  refine h.move rfl rfl (fun _ => h.critical t hcrit) (.inr hcrit) ?_
    (mem_waiting_update h.waiting (by rw [ht]; simp) (by cases release <;> simp)) h.valid
    (by cases release <;> simp [Pc.loaded]) (by cases release <;> simp [Pc.isNew])
    (by cases release <;> simp) h.cast_le h.latest_le (fun _ _ _ _ _ => rfl) ?_
  · rw [ht]
    cases release <;> rfl
  · intro u hu hlt
    have hu' := of_goto (by cases release <;> intro hc <;> cases hc) hu
    exact ⟨rfl, chain_goto (h.owed u hu' hlt).2 (by rw [ht]; intro hc; cases hc)⟩

omit h

omit [DecidableEq Thread] [Fintype Thread] in
theorem castSignal_of_signals (h : p.signals = true) (h' : p.casts = true) :
    ∃ release, p = .castSignal release := by
  cases p with
  | castSignal release => exact ⟨release, rfl⟩
  | relaying => cases h'
  | signalling => cases h'
  | _ => cases h

/-- `seL4_Signal`, and the return behind it. -/
theorem Inv.signal (h : Inv s) (ht : (s.pc t).signals = true) {woken : Option Thread}
    (hsig : s.ntfn.Signal woken n) : Inv ((s.deliver woken n).finish t) := by
  have hblocked : s.pc t ≠ .blocked := by
    intro hc
    rw [hc] at ht
    cases ht
  obtain ⟨hinv, hwoken, hpc⟩ := h.deliver hsig
  have hpct := hpc t hblocked
  -- the thread that was woken is not the one that returns
  have hchain : Chain ((s.deliver woken n).goto t .idle) := by
    rcases hwoken with htoken | ⟨u, hu, hcarries⟩
    · exact .inl htoken
    refine .inr ⟨u, ?_⟩
    have hut : u ≠ t := by
      rintro rfl
      exact hblocked hu
    rw [goto_of_ne hut]
    exact hcarries
  by_cases hcasts : (s.pc t).casts = true
  · -- the flag is still set for the threads of this broadcast
    obtain ⟨release, hp⟩ := castSignal_of_signals ht hcasts
    rw [hp] at hpct
    have hpass : ((s.deliver woken n).pc t).passes .idle = true := by rw [hpct]; rfl
    have hfinish : (s.deliver woken n).hist.finish t ((s.deliver woken n).pc t) =
        { (s.deliver woken n).hist with
          latest := max (s.deliver woken n).hist.latest ((s.deliver woken n).hist.cast t) } := by
      rw [hpct]
      rfl
    unfold Cv.finish
    rw [hfinish]
    refine hinv.goto _ hpass (by simp [Pc.critical]) (by simp [Pc.loaded]) (by simp) rfl
      hinv.cast_le (max_le hinv.latest_le (hinv.cast_le t)) (fun _ _ _ => rfl) ?_
    intro u hu hlt
    refine ⟨?_, hchain⟩
    rcases lt_max_iff.1 hlt with hlt | hlt
    · exact (hinv.owed u hu hlt).1
    · exact hinv.cast t (by rw [hpct]; rfl) u hu hlt
  · rw [Bool.not_eq_true] at hcasts
    refine hinv.finish ?_ (by rw [hpct]; exact hcasts) ?_
    · rw [hpct]
      cases hp : s.pc t <;> rw [hp] at ht <;> first | rfl | cases ht
    · intro u hu hlt
      exact ⟨(hinv.owed u hu hlt).1, hchain⟩

/-! ### All steps -/

/-- The condition on a step: a thread begins to wait while no broadcast is going on and no token
is pending, and a thread signals while no token is pending. -/
structure Careful (t : Thread) (s s' : Cv Thread) : Prop where
  wait : s.pc t = .idle → s'.pc t = .entering → s.broadcasting = false ∧ s.ntfn.token = false
  signal : s.pc t = .signalling → s.ntfn.token = false

omit [DecidableEq Thread] in
theorem inv_start : Inv (Cv.start : Cv Thread) where
  lock := BinSem.inv_start
  critical := by simp [Cv.start, Pc.critical]
  waiters := by
    unfold Cv.start
    rw [count_const_false rfl]
    rfl
  waiting := by simp [Cv.start]
  valid := fun _ => rfl
  loaded := by simp [Cv.start, Pc.loaded]
  isNew := by simp [Cv.start, Pc.isNew]
  ending := by simp [Cv.start]
  cast_le := fun _ => le_rfl
  latest_le := le_rfl
  cast := by simp [Cv.start, Pc.casts]
  owed := by simp [Cv.start, Pc.waits]

/-- **Every careful step keeps the invariant.** -/
theorem Inv.step (h : Inv s) (hcard : Fintype.card Thread < 2 ^ 31) (hstep : Step t s s')
    (hcareful : Careful t s s') : Inv s' := by
  cases hstep with
  | lock l ht hl => exact h.lockStep hl (by rw [ht]; rfl)
  | post l ht _ hl =>
    refine h.lockStep hl ?_
    cases hp : s.pc t <;> rw [hp] at ht <;> first | rfl | cases ht
  | relock l ht _ _ hl => exact h.lockStep hl (by rw [ht]; rfl)
  | relockFails _ _ hmin => exact absurd hmin (h.value_ne hcard)
  | wait ht hlock => exact h.wait ht hlock (hcareful.wait ht (update_self _ _ _)).1
  | load ht =>
    exact h.pass ht rfl (fun _ => h.critical t (by rw [ht]; rfl)) fun v hv =>
      (Option.some.inj hv).symm
  | add v ht => exact h.store ht rfl rfl (by simp [Pc.counted]) (by simp) rfl nofun
  | reset ht => exact h.reset ht
  | posted ht _ => exact h.on ht rfl rfl rfl
  | take ht htoken => exact h.take ht htoken
  | block ht htoken => exact h.block ht htoken
  | relocked ht hlock => exact h.pass ht rfl (fun _ => hlock) (by simp [Pc.loaded])
  | unload ht =>
    exact h.pass ht rfl (fun _ => h.critical t (by rw [ht]; rfl)) fun v hv =>
      (Option.some.inj hv).symm
  | subtract v ht =>
    exact h.store ht rfl rfl (by simp [Pc.counted]) (by simp) rfl fun _ => rfl
  | test ht => exact h.test ht
  | testCount ht => exact h.testCount ht
  | endCast ht => exact h.endCast ht
  | signalCall ht hlock => exact h.pass ht rfl (fun _ => hlock) (by simp [Pc.loaded])
  | testSignal ht =>
    split
    · exact h.on ht rfl rfl rfl
    · exact h.on ht rfl rfl rfl
  | castCall release ht hlock => exact h.pass ht rfl (fun _ => hlock) (by simp [Pc.loaded])
  | testCast release ht _ => exact h.testCast ht
  | testCastNone release ht hw => exact h.testCastNone ht hw
  | setCast release ht => exact h.setCast ht
  | released ht _ => exact h.on ht rfl rfl rfl
  | releasedOnly ht _ => exact h.on ht rfl rfl rfl
  | signal woken n ht hsig => exact h.signal ht hsig

end SeL4Kernel.CondVar
