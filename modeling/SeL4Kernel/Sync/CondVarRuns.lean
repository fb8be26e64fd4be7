import SeL4Kernel.Sync.CondVarInv

/-!
# Wake-ups are not lost

Every call of `sync_cv_wait` has a ticket, which is served once (`Tickets`). A signal serves a
call that waits, or it leaves a token that only such a call can take, as long as no thread begins
to wait and no other one signals while the token is there (`CountInv`).

The main result `wakeups_kept` is about runs with this condition. Without it a thread that begins
to wait resets the flag of a broadcast, and the threads that the broadcast has not reached wait
for ever (`broadcast_lost`).
-/

namespace SeL4Kernel.CondVar

open Function Finset

variable {Thread : Type*} [DecidableEq Thread] {s s' : Cv Thread} {t : Thread} {p q : Pc}

/-- The thread is in `sync_cv_wait`. -/
def Pc.inCall (p : Pc) : Bool := p.waits || p.inTransit

/-- The tickets. -/
structure Tickets (s : Cv Thread) : Prop where
  distinct : ∀ t u, (s.pc t).inCall = true → (s.pc u).inCall = true →
    s.hist.ticket t = s.hist.ticket u → t = u
  below : ∀ t, (s.pc t).inCall = true → s.hist.ticket t < s.hist.clock
  served_lt : ∀ x ∈ s.hist.served, x < s.hist.clock
  unserved : ∀ t, (s.pc t).waits = true → s.hist.ticket t ∉ s.hist.served
  /-- a call that was served has returned or is on its way -/
  back : ∀ x ∈ s.hist.served, x ∈ s.hist.returned ∨
    ∃ t, (s.pc t).inTransit = true ∧ s.hist.ticket t = x

/-- Nobody begins to wait and nobody is notified. -/
structure Passes (s s' : Cv Thread) : Prop where
  ticket : s'.hist.ticket = s.hist.ticket
  clock : s'.hist.clock = s.hist.clock
  served : s'.hist.served = s.hist.served
  token : s'.ntfn.token = s.ntfn.token
  returned : s.hist.returned ⊆ s'.hist.returned
  waits : ∀ u, (s'.pc u).waits = true → (s.pc u).waits = true
  inTransit : ∀ u, (s'.pc u).inTransit = true → (s.pc u).inTransit = true
  arrives : ∀ u, (s.pc u).inTransit = true →
    (s'.pc u).inTransit = true ∨ s.hist.ticket u ∈ s'.hist.returned

/-- What a step can do. -/
inductive Effect (t : Thread) (s s' : Cv Thread) : Prop where
  | pass : Passes s s' → Effect t s s'
  | wait : s.pc t = .idle → s.ntfn.token = false →
      s' = { s.goto t .entering with
        hist := { s.hist with
          clock := s.hist.clock + 1
          ticket := update s.hist.ticket t s.hist.clock } } → Effect t s s'
  | notify (u : Thread) (n : Notification Thread) : (s.pc u).waits = true →
      Passes { s.notify u with ntfn := n } s' → Effect t s s'
  | set (n : Notification Thread) : n.token = true → Passes { s with ntfn := n } s' →
      Effect t s s'

theorem inCall_of_waits (h : p.waits = true) : p.inCall = true := by rw [Pc.inCall, h, Bool.true_or]

omit [DecidableEq Thread] in
theorem Passes.refl (s : Cv Thread) : Passes s s :=
  ⟨rfl, rfl, rfl, rfl, Finset.Subset.refl _, fun _ h => h, fun _ h => h, fun _ h => .inl h⟩

/-! ### Steps -/

theorem Passes.goto {hist : History Thread} {w : ℤ} {b : Bool}
    (hticket : hist.ticket = s.hist.ticket)
    (hclock : hist.clock = s.hist.clock) (hserved : hist.served = s.hist.served)
    (hreturned : s.hist.returned ⊆ hist.returned)
    (hwaits : q.waits = true → (s.pc t).waits = true)
    (htransit : q.inTransit = true → (s.pc t).inTransit = true)
    (harrives : (s.pc t).inTransit = true → q.inTransit = true ∨ s.hist.ticket t ∈ hist.returned) :
    Passes s { s.goto t q with hist := hist, waiters := w, broadcasting := b } := by
  refine ⟨hticket, hclock, hserved, rfl, hreturned, fun u => of_goto hwaits,
    fun u => of_goto htransit, ?_⟩
  intro u hu
  by_cases hut : u = t
  · rw [hut] at hu ⊢
    exact (harrives hu).imp_left fun hc => by rw [goto_self]; exact hc
  · exact .inl (by rw [goto_of_ne hut]; exact hu)

/-- The thread stays outside, waiting or on its way. -/
theorem Passes.stay (ht : s.pc t = p) (hwaits : q.waits = p.waits)
    (htransit : q.inTransit = p.inTransit) (w : ℤ) (b : Bool) (hist : History Thread)
    (hticket : hist.ticket = s.hist.ticket) (hclock : hist.clock = s.hist.clock)
    (hserved : hist.served = s.hist.served) (hreturned : hist.returned = s.hist.returned) :
    Passes s { s.goto t q with hist := hist, waiters := w, broadcasting := b } := by
  subst ht
  exact .goto hticket hclock hserved (by rw [hreturned]) (fun h => hwaits ▸ h)
    (fun h => htransit ▸ h) fun h => .inl (htransit ▸ h)

/-- The thread stays outside, waiting or on its way, and nothing else changes. -/
theorem Passes.keep (ht : s.pc t = p) (hwaits : q.waits = p.waits)
    (htransit : q.inTransit = p.inTransit) : Passes s (s.goto t q) :=
  .stay ht hwaits htransit s.waiters s.broadcasting s.hist rfl rfl rfl rfl

theorem Effect.keep (ht : s.pc t = p) (hwaits : q.waits = p.waits)
    (htransit : q.inTransit = p.inTransit) : Effect t s (s.goto t q) :=
  .pass (.keep ht hwaits htransit)

/-- A call returns. -/
theorem Passes.finish
    (htransit : (s.pc t).inTransit = true →
      s.hist.finish t (s.pc t) =
        { s.hist with returned := insert (s.hist.ticket t) s.hist.returned }) (b : Bool) :
    Passes s { s.finish t with broadcasting := b } := by
  have hhist : (s.hist.finish t (s.pc t)).ticket = s.hist.ticket ∧
      (s.hist.finish t (s.pc t)).clock = s.hist.clock ∧
      (s.hist.finish t (s.pc t)).served = s.hist.served ∧
      s.hist.returned ⊆ (s.hist.finish t (s.pc t)).returned := by
    cases s.pc t <;> first
      | exact ⟨rfl, rfl, rfl, Finset.Subset.refl _⟩
      | exact ⟨rfl, rfl, rfl, subset_insert _ _⟩
  obtain ⟨h1, h2, h3, h4⟩ := hhist
  refine .goto (w := s.waiters) h1 h2 h3 h4 (by intro hc; cases hc) (by intro hc; cases hc) ?_
  intro ht
  refine .inr ?_
  change _ ∈ (s.hist.finish t (s.pc t)).returned
  rw [htransit ht]
  exact mem_insert_self _ _

/-- The return behind `seL4_Signal`. -/
theorem Passes.finish_of_signals (ht : (s.pc t).signals = true) : Passes s (s.finish t) := by
  have hcases : s.pc t = .relaying ∨ s.pc t = .signalling ∨
      ∃ release, s.pc t = .castSignal release := by
    cases hp : s.pc t with
    | relaying => exact .inl rfl
    | signalling => exact .inr (.inl rfl)
    | castSignal release => exact .inr (.inr ⟨release, rfl⟩)
    | _ =>
      rw [hp] at ht
      cases ht
  rcases hcases with hp | hp | ⟨release, hp⟩
  · exact .finish (fun _ => by rw [hp]; rfl) s.broadcasting
  · exact .finish (by rw [hp]; intro hc; cases hc) s.broadcasting
  · exact .finish (by rw [hp]; intro hc; cases hc) s.broadcasting

/-- **One step**, by what it does to the tickets and the token. -/
theorem Step.effect [Fintype Thread] (h : Inv s) (hcard : Fintype.card Thread < 2 ^ 31)
    (hstep : Step t s s') (hcareful : Careful t s s') : Effect t s s' := by
  cases hstep with
  | lock | post | relock =>
    exact .pass ⟨rfl, rfl, rfl, rfl, Finset.Subset.refl _, fun _ h => h, fun _ h => h,
      fun _ h => .inl h⟩
  | relockFails _ _ hmin => exact absurd hmin (h.value_ne hcard)
  | wait ht hlock => exact .wait ht (hcareful.wait ht (update_self _ _ _)).2 rfl
  | load ht => exact .keep ht rfl rfl
  | add v ht => exact .pass (.stay ht (by rfl) (by rfl) _ _ s.hist rfl rfl rfl rfl)
  | reset ht => exact .pass (.stay ht (by rfl) (by rfl) _ _ s.hist rfl rfl rfl rfl)
  | posted ht _ => exact .keep ht rfl rfl
  | take ht _ => exact .notify t _ (by rw [ht]; rfl) (.refl _)
  | block ht _ =>
    have hpass : Passes s (s.goto t .blocked) := .keep ht rfl rfl
    exact .pass ⟨hpass.ticket, hpass.clock, hpass.served, rfl, hpass.returned, hpass.waits,
      hpass.inTransit, hpass.arrives⟩
  | relocked ht _ => exact .keep ht rfl rfl
  | unload ht => exact .keep ht rfl rfl
  | subtract v ht => exact .pass (.stay ht (by rfl) (by rfl) _ _ s.hist rfl rfl rfl rfl)
  | test ht =>
    split
    · exact .keep ht rfl rfl
    · exact .pass (.finish (fun _ => by rw [ht]; rfl) s.broadcasting)
  | testCount ht =>
    split
    · exact .keep ht rfl rfl
    · exact .keep ht rfl rfl
  | endCast ht => exact .pass (.finish (fun _ => by rw [ht]; rfl) false)
  | signalCall ht _ => exact .keep ht rfl rfl
  | testSignal ht =>
    split
    · exact .keep ht rfl rfl
    · exact .keep ht rfl rfl
  | castCall release ht _ => exact .keep ht rfl rfl
  | testCast release ht _ =>
    exact .pass (.stay ht (by rfl) (by rfl) s.waiters s.broadcasting _ rfl rfl rfl rfl)
  | testCastNone release ht _ =>
    exact .pass (.stay ht (by cases release <;> rfl) (by cases release <;> rfl) s.waiters
      s.broadcasting _ rfl rfl rfl rfl)
  | setCast release ht =>
    exact .pass (.stay ht (by cases release <;> rfl) (by cases release <;> rfl) s.waiters true
      s.hist rfl rfl rfl rfl)
  | released ht _ => exact .keep ht rfl rfl
  | releasedOnly ht _ => exact .keep ht rfl rfl
  | signal woken n ht hsig =>
    have hblocked : s.pc t ≠ .blocked := by
      intro hc
      rw [hc] at ht
      cases ht
    have hpct := (h.deliver hsig).2.2 t hblocked
    have hfinish : Passes (s.deliver woken n) ((s.deliver woken n).finish t) :=
      .finish_of_signals (by rw [hpct]; exact ht)
    cases hsig with
    | set _ => exact .set _ rfl hfinish
    | wake u hu =>
      refine .notify u _ ?_ hfinish
      rw [(h.waiting u).1 hu]
      rfl

/-! ### Tickets -/

omit [DecidableEq Thread] in
theorem tickets_start : Tickets (Cv.start : Cv Thread) where
  distinct := by simp [Cv.start, Pc.inCall, Pc.waits, Pc.inTransit, Pc.carries]
  below := by simp [Cv.start, Pc.inCall, Pc.waits, Pc.inTransit, Pc.carries]
  served_lt := by simp [Cv.start]
  unserved := by simp [Cv.start, Pc.waits]
  back := by simp [Cv.start]

omit [DecidableEq Thread] in
theorem Tickets.pass (h : Tickets s) (hpass : Passes s s') : Tickets s' := by
  have hcall : ∀ u, (s'.pc u).inCall = true → (s.pc u).inCall = true := by
    intro u hu
    rw [Pc.inCall, Bool.or_eq_true] at hu ⊢
    exact hu.imp (hpass.waits u) (hpass.inTransit u)
  refine ⟨?_, ?_, ?_, ?_, ?_⟩
  · intro t u ht hu heq
    rw [hpass.ticket] at heq
    exact h.distinct t u (hcall t ht) (hcall u hu) heq
  · intro t ht
    rw [hpass.ticket, hpass.clock]
    exact h.below t (hcall t ht)
  · rw [hpass.served, hpass.clock]
    exact h.served_lt
  · intro t ht
    rw [hpass.ticket, hpass.served]
    exact h.unserved t (hpass.waits t ht)
  · intro x hx
    rw [hpass.served] at hx
    rcases h.back x hx with hx | ⟨t, ht, rfl⟩
    · exact .inl (hpass.returned hx)
    · rcases hpass.arrives t ht with hc | hc
      · exact .inr ⟨t, hc, by rw [hpass.ticket]⟩
      · exact .inl hc

theorem Tickets.wait (h : Tickets s) (ht : s.pc t = .idle) :
    Tickets { s.goto t .entering with
      hist := { s.hist with
        clock := s.hist.clock + 1
        ticket := update s.hist.ticket t s.hist.clock } } := by
  have hother : ∀ {u}, u ≠ t → (s.goto t .entering).pc u = s.pc u := fun hu => update_of_ne hu _ _
  -- the ticket is new, as the others are below the clock
  have hnew : ∀ u, u ≠ t → ((s.goto t .entering).pc u).inCall = true →
      update s.hist.ticket t s.hist.clock u < s.hist.clock := by
    intro u hut hu
    rw [hother hut] at hu
    rw [update_of_ne hut]
    exact h.below u hu
  refine ⟨?_, ?_, ?_, ?_, ?_⟩
  · intro u v hu hv heq
    dsimp only at hu hv heq
    by_cases hut : u = t
    · by_cases hvt : v = t
      · rw [hut, hvt]
      · have hlt := hnew v hvt hv
        rw [← heq, hut, update_self] at hlt
        exact absurd hlt (Nat.lt_irrefl _)
    · by_cases hvt : v = t
      · have hlt := hnew u hut hu
        rw [heq, hvt, update_self] at hlt
        exact absurd hlt (Nat.lt_irrefl _)
      · rw [hother hut] at hu
        rw [hother hvt] at hv
        rw [update_of_ne hut, update_of_ne hvt] at heq
        exact h.distinct u v hu hv heq
  · intro u hu
    dsimp only at hu ⊢
    by_cases hut : u = t
    · rw [hut, update_self]
      exact Nat.lt_succ_self _
    · exact (hnew u hut hu).trans (Nat.lt_succ_self _)
  · intro x hx
    exact (h.served_lt x hx).trans (Nat.lt_succ_self _)
  · intro u hu hc
    dsimp only at hu hc
    by_cases hut : u = t
    · rw [hut, update_self] at hc
      exact absurd (h.served_lt _ hc) (Nat.lt_irrefl _)
    · rw [update_of_ne hut] at hc
      rw [hother hut] at hu
      exact h.unserved u hu hc
  · intro x hx
    refine (h.back x hx).imp_right ?_
    rintro ⟨u, hu, heq⟩
    have hut : u ≠ t := by
      rintro rfl
      rw [ht] at hu
      cases hu
    refine ⟨u, ?_, ?_⟩
    · dsimp only
      rw [hother hut]
      exact hu
    · dsimp only
      rw [update_of_ne hut]
      exact heq

theorem Tickets.notify (h : Tickets s) {n : Notification Thread} {u : Thread}
    (hu : (s.pc u).waits = true) : Tickets { s.notify u with ntfn := n } := by
  have hself : (s.notify u).pc u = .notified := update_self _ _ _
  have hother : ∀ {v}, v ≠ u → (s.notify u).pc v = s.pc v := fun hv => update_of_ne hv _ _
  have hcall : ∀ v, ((s.notify u).pc v).inCall = true → (s.pc v).inCall = true := by
    intro v hv
    by_cases hvu : v = u
    · rw [hvu]
      exact inCall_of_waits hu
    · rw [hother hvu] at hv
      exact hv
  refine ⟨fun t v ht hv => h.distinct t v (hcall t ht) (hcall v hv),
    fun t ht => h.below t (hcall t ht), ?_, ?_, ?_⟩
  · intro x hx
    rcases mem_insert.1 hx with rfl | hx
    · exact h.below u (inCall_of_waits hu)
    · exact h.served_lt x hx
  · intro t ht hc
    dsimp only at ht
    by_cases htu : t = u
    · rw [htu, hself] at ht
      cases ht
    · rw [hother htu] at ht
      rcases mem_insert.1 hc with hc | hc
      · exact htu (h.distinct t u (inCall_of_waits ht) (inCall_of_waits hu) hc)
      · exact h.unserved t ht hc
  · intro x hx
    rcases mem_insert.1 hx with rfl | hx
    · exact .inr ⟨u, by dsimp only; rw [hself]; rfl, rfl⟩
    refine (h.back x hx).imp_right ?_
    rintro ⟨t, ht, heq⟩
    refine ⟨t, ?_, heq⟩
    by_cases htu : t = u
    · rw [htu]
      dsimp only
      rw [hself]
      rfl
    · dsimp only
      rw [hother htu]
      exact ht

theorem Tickets.step (h : Tickets s) (heffect : Effect t s s') : Tickets s' := by
  cases heffect with
  | pass hpass => exact h.pass hpass
  | wait ht _ heq =>
    rw [heq]
    exact h.wait ht
  | notify u n hu hpass => exact (h.notify hu).pass hpass
  | set n _ hpass =>
    have hset : Tickets { s with ntfn := n } :=
      ⟨h.distinct, h.below, h.served_lt, h.unserved, h.back⟩
    exact hset.pass hpass

/-! ### Runs -/

/-- The states of the runs whose steps are all careful. -/
inductive CarefulReaches : Cv Thread → Prop where
  | start : CarefulReaches .start
  | step {s s' : Cv Thread} (t : Thread) : CarefulReaches s → Step t s s' → Careful t s s' →
      CarefulReaches s'

/-- The calls of `sync_cv_wait` that wait. -/
def waitingCalls [Fintype Thread] (s : Cv Thread) : Finset ℕ :=
  (Finset.univ.filter fun t => (s.pc t).waits = true).image s.hist.ticket

/-- A run from `s` in which `k` signals are counted, with the calls that waited at one of them. -/
inductive Counts [Fintype Thread] (s : Cv Thread) : ℕ → Finset ℕ → Cv Thread → Prop where
  | refl : Counts s 0 ∅ s
  | step {k : ℕ} {calls : Finset ℕ} {s₁ s₂ : Cv Thread} (t : Thread) : Counts s k calls s₁ →
      Step t s₁ s₂ → Careful t s₁ s₂ → Counts s k calls s₂
  | signal {k : ℕ} {calls : Finset ℕ} {s₁ s₂ : Cv Thread} (t : Thread) : Counts s k calls s₁ →
      s₁.pc t = .signalling → Step t s₁ s₂ → Careful t s₁ s₂ →
      Counts s (k + 1) (calls ∪ waitingCalls s₁) s₂

variable [Fintype Thread] {k : ℕ} {calls : Finset ℕ}

theorem CarefulReaches.inv (h : CarefulReaches s) (hcard : Fintype.card Thread < 2 ^ 31) :
    Inv s ∧ Tickets s := by
  induction h with
  | start => exact ⟨inv_start, tickets_start⟩
  | step t _ hstep hcareful ih =>
    exact ⟨ih.1.step hcard hstep hcareful, ih.2.step (hstep.effect ih.1 hcard hcareful)⟩

/-- The counted signals have served as many of the calls, or the last one has left a token that
only these calls can take. -/
def CountInv (k : ℕ) (calls : Finset ℕ) (s : Cv Thread) : Prop :=
  k ≤ (calls ∩ s.hist.served).card ∨
    k ≤ (calls ∩ s.hist.served).card + 1 ∧ s.ntfn.token = true ∧
      ∀ u, (s.pc u).waits = true → s.hist.ticket u ∈ calls

omit [DecidableEq Thread] [Fintype Thread] in
theorem CountInv.pass (h : CountInv k calls s) (hpass : Passes s s') : CountInv k calls s' := by
  refine h.imp ?_ ?_
  · intro hk
    rw [hpass.served]
    exact hk
  · rintro ⟨hk, htoken, hwaits⟩
    refine ⟨by rw [hpass.served]; exact hk, by rw [hpass.token]; exact htoken, fun u hu => ?_⟩
    rw [hpass.ticket]
    exact hwaits u (hpass.waits u hu)

omit [DecidableEq Thread] [Fintype Thread] in
/-- Without a token all the counted signals have served one. -/
theorem CountInv.le_card (h : CountInv k calls s) (htoken : s.ntfn.token = false) :
    k ≤ (calls ∩ s.hist.served).card := by
  refine h.resolve_right ?_
  rintro ⟨-, hc, -⟩
  rw [htoken] at hc
  cases hc

/-- A call of the set is served. -/
theorem card_served {calls served : Finset ℕ} {x : ℕ} (hx : x ∈ calls) (hnot : x ∉ served) :
    (calls ∩ insert x served).card = (calls ∩ served).card + 1 := by
  rw [inter_insert_of_mem hx, card_insert_of_notMem]
  exact fun hc => hnot (mem_inter.1 hc).2

omit [Fintype Thread] in
theorem CountInv.step (h : CountInv k calls s) (htickets : Tickets s)
    (heffect : Effect t s s') : CountInv k calls s' := by
  cases heffect with
  | pass hpass => exact h.pass hpass
  | wait _ htoken heq =>
    rw [heq]
    exact .inl (h.le_card htoken)
  | notify u n hu hpass =>
    refine CountInv.pass (.inl ?_) hpass
    change k ≤ (calls ∩ insert (s.hist.ticket u) s.hist.served).card
    rcases h with hk | ⟨hk, -, hwaits⟩
    · refine hk.trans (card_le_card ?_)
      exact inter_subset_inter_left (subset_insert _ _)
    · rw [card_served (hwaits u hu) (htickets.unserved u hu)]
      exact hk
  | set n htoken hpass =>
    refine CountInv.pass ?_ hpass
    exact h.imp_right fun hc => ⟨hc.1, htoken, hc.2.2⟩

/-- A signal is counted while no token is pending. -/
theorem CountInv.signal (h : CountInv k calls s) (hinv : Inv s) (htickets : Tickets s)
    (ht : s.pc t = .signalling) (hstep : Step t s s') (hcareful : Careful t s s') :
    CountInv (k + 1) (calls ∪ waitingCalls s) s' := by
  have hk : k ≤ ((calls ∪ waitingCalls s) ∩ s.hist.served).card :=
    (h.le_card (hcareful.signal ht)).trans
      (card_le_card (inter_subset_inter_right subset_union_left))
  have hwaiting : ∀ u, (s.pc u).waits = true → s.hist.ticket u ∈ calls ∪ waitingCalls s := by
    intro u hu
    refine mem_union_right _ (mem_image_of_mem _ ?_)
    exact mem_filter.2 ⟨mem_univ u, hu⟩
  have hsignal : ∃ woken n, s.ntfn.Signal woken n ∧ s' = (s.deliver woken n).finish t := by
    cases hstep with
    | signal woken n _ hsig => exact ⟨woken, n, hsig, rfl⟩
    | post _ hc => simp [ht, Pc.posts] at hc
    | lock _ hc | relock _ hc | relockFails hc | wait hc | load hc | add _ hc | reset hc
    | posted hc | take hc | block hc | relocked hc | unload hc | subtract _ hc | test hc
    | testCount hc | endCast hc | signalCall hc | testSignal hc | castCall _ hc | testCast _ hc
    | testCastNone _ hc | setCast _ hc | released hc | releasedOnly hc => simp [ht] at hc
  obtain ⟨woken, n, hsig, rfl⟩ := hsignal
  have hpct := (hinv.deliver hsig).2.2 t (by rw [ht]; simp)
  have hpass : Passes (s.deliver woken n) ((s.deliver woken n).finish t) :=
    .finish_of_signals (by rw [hpct, ht]; rfl)
  refine CountInv.pass ?_ hpass
  cases hsig with
  | set _ => exact .inr ⟨Nat.succ_le_succ hk, rfl, hwaiting⟩
  | wake u hu =>
    have hwaits : (s.pc u).waits = true := by rw [(hinv.waiting u).1 hu]; rfl
    refine .inl ?_
    change k + 1 ≤ ((calls ∪ waitingCalls s) ∩ insert (s.hist.ticket u) s.hist.served).card
    rw [card_served (hwaiting u hwaits) (htickets.unserved u hwaits)]
    exact Nat.succ_le_succ hk

theorem Counts.countInv (h : Counts s k calls s') (hcard : Fintype.card Thread < 2 ^ 31)
    (hinv : Inv s) (htickets : Tickets s) : Inv s' ∧ Tickets s' ∧ CountInv k calls s' := by
  induction h with
  | refl => exact ⟨hinv, htickets, .inl (Nat.zero_le _)⟩
  | step t _ hstep hcareful ih =>
    obtain ⟨hinv', htickets', hcount⟩ := ih
    have heffect := hstep.effect hinv' hcard hcareful
    exact ⟨hinv'.step hcard hstep hcareful, htickets'.step heffect, hcount.step htickets' heffect⟩
  | signal t _ ht hstep hcareful ih =>
    obtain ⟨hinv', htickets', hcount⟩ := ih
    exact ⟨hinv'.step hcard hstep hcareful,
      htickets'.step (hstep.effect hinv' hcard hcareful),
      hcount.signal hinv' htickets' ht hstep hcareful⟩

theorem Counts.carefulReaches (h : Counts s k calls s') (hs : CarefulReaches s) :
    CarefulReaches s' := by
  induction h with
  | refl => exact hs
  | step t _ hstep hcareful ih | signal t _ _ hstep hcareful ih => exact ih.step t hstep hcareful

/-- No token is pending and no thread is between being notified and returning. -/
def Quiet (s : Cv Thread) : Prop := s.ntfn.token = false ∧ ∀ t, (s.pc t).inTransit = false

/-- **Main result.** When all is quiet, no thread waits since before the latest broadcast, and
`k` signals have made `k` calls return that waited at one of them. -/
theorem wakeups_kept (hcard : Fintype.card Thread < 2 ^ 31) :
    (∀ s : Cv Thread, CarefulReaches s → Quiet s →
      ∀ u, (s.pc u).waits = true → s.hist.latest ≤ s.hist.ticket u) ∧
    ∀ (s s' : Cv Thread) (k : ℕ) (calls : Finset ℕ), CarefulReaches s → Counts s k calls s' →
      Quiet s' → k ≤ (calls ∩ s'.hist.returned).card := by
  constructor
  · intro s h hquiet u hu
    by_contra hlt
    rcases ((h.inv hcard).1.owed u hu (Nat.not_le.1 hlt)).2 with hc | ⟨t, ht⟩
    · rw [hquiet.1] at hc
      cases hc
    · have hc := hquiet.2 t
      rw [Pc.inTransit, ht, Bool.true_or] at hc
      cases hc
  · intro s s' k calls h hcounts hquiet
    obtain ⟨hinv, htickets⟩ := h.inv hcard
    obtain ⟨-, htickets', hcount⟩ := hcounts.countInv hcard hinv htickets
    refine (hcount.le_card hquiet.1).trans (card_le_card (inter_subset_inter_left ?_))
    intro x hx
    refine (htickets'.back x hx).resolve_right ?_
    rintro ⟨t, ht, -⟩
    rw [hquiet.2 t] at ht
    cases ht

/-! ### Two runs -/

/-- Thread 0 waits three times: a signal ends the first call and a broadcast the second one, and
the third one was made behind the broadcast. -/
theorem signal_and_broadcast_kept : ∃ s : Cv (Fin 2), Counts .start 1 {0} s ∧
    s.hist.returned = {0, 1} ∧ 1 ≤ ({0} ∩ s.hist.returned).card ∧
    (s.pc 0).waits = true ∧ s.hist.latest = 2 ∧ s.hist.latest ≤ s.hist.ticket 0 := by
  have careful : ∀ {t : Fin 2} {s s' : Cv (Fin 2)}, s.broadcasting = false →
      s.ntfn.token = false → Careful t s s' := fun h h' => ⟨fun _ _ => ⟨h, h'⟩, fun _ => h'⟩
  have inside : ∀ {t : Fin 2} {s s' : Cv (Fin 2)}, s'.pc t ≠ .entering →
      s.ntfn.token = false → Careful t s s' := fun h h' => ⟨fun _ hp => absurd hp h, fun _ => h'⟩
  have h := (Counts.refl : Counts (.start : Cv (Fin 2)) 0 ∅ _)
    |>.step 0 (.lock _ rfl (.decrement rfl (by decide))) (careful rfl rfl)
    |>.step 0 (.wait rfl rfl) (careful rfl rfl)
    |>.step 0 (.load rfl) (careful rfl rfl)
    |>.step 0 (.add _ rfl) (careful rfl rfl)
    |>.step 0 (.reset rfl) (careful rfl rfl)
    |>.step 0 (.post _ rfl (by decide) (.increment rfl)) (careful rfl rfl)
    |>.step 0 (.post _ rfl (by decide) (.check _ rfl)) (careful rfl rfl)
    |>.step 0 (.posted rfl rfl) (careful rfl rfl)
    |>.step 0 (.block rfl rfl) (careful rfl rfl)
    |>.step 1 (.lock _ rfl (.decrement rfl (by decide))) (careful rfl rfl)
    |>.step 1 (.signalCall rfl rfl) (careful rfl rfl)
    |>.step 1 (.testSignal rfl) (careful rfl rfl)
    |>.signal 1 rfl (.signal (some 0) _ rfl (.wake 0 (by decide))) (careful rfl rfl)
    |>.step 1 (.lock _ rfl (.increment rfl)) (careful rfl rfl)
    |>.step 1 (.lock _ rfl (.check _ rfl)) (careful rfl rfl)
    |>.step 0 (.relock _ rfl (by decide) (fun _ => by decide) (.decrement rfl (by decide)))
      (careful rfl rfl)
    |>.step 0 (.relocked rfl rfl) (careful rfl rfl)
    |>.step 0 (.unload rfl) (careful rfl rfl)
    |>.step 0 (.subtract _ rfl) (careful rfl rfl)
    |>.step 0 (.test rfl) (careful rfl rfl)
    |>.step 0 (.wait rfl rfl) (careful rfl rfl)
    |>.step 0 (.load rfl) (careful rfl rfl)
    |>.step 0 (.add _ rfl) (careful rfl rfl)
    |>.step 0 (.reset rfl) (careful rfl rfl)
    |>.step 0 (.post _ rfl (by decide) (.increment rfl)) (careful rfl rfl)
    |>.step 0 (.post _ rfl (by decide) (.check _ rfl)) (careful rfl rfl)
    |>.step 0 (.posted rfl rfl) (careful rfl rfl)
    |>.step 0 (.block rfl rfl) (careful rfl rfl)
    |>.step 1 (.lock _ rfl (.decrement rfl (by decide))) (careful rfl rfl)
    |>.step 1 (.castCall false rfl rfl) (careful rfl rfl)
    |>.step 1 (.testCast _ rfl (by decide)) (careful rfl rfl)
    |>.step 1 (.setCast _ rfl) (careful rfl rfl)
    |>.step 1 (.signal (some 0) _ rfl (.wake 0 (by decide))) (inside nofun rfl)
    |>.step 1 (.lock _ rfl (.increment rfl)) (inside nofun rfl)
    |>.step 1 (.lock _ rfl (.check _ rfl)) (inside nofun rfl)
    |>.step 0 (.relock _ rfl (by decide) (fun _ => by decide) (.decrement rfl (by decide)))
      (inside nofun rfl)
    |>.step 0 (.relocked rfl rfl) (inside nofun rfl)
    |>.step 0 (.unload rfl) (inside nofun rfl)
    |>.step 0 (.subtract _ rfl) (inside nofun rfl)
    |>.step 0 (.test rfl) (inside nofun rfl)
    |>.step 0 (.testCount rfl) (inside nofun rfl)
    |>.step 0 (.endCast rfl) (inside nofun rfl)
    |>.step 0 (.wait rfl rfl) (careful rfl rfl)
    |>.step 0 (.load rfl) (careful rfl rfl)
    |>.step 0 (.add _ rfl) (careful rfl rfl)
    |>.step 0 (.reset rfl) (careful rfl rfl)
    |>.step 0 (.post _ rfl (by decide) (.increment rfl)) (careful rfl rfl)
    |>.step 0 (.post _ rfl (by decide) (.check _ rfl)) (careful rfl rfl)
    |>.step 0 (.posted rfl rfl) (careful rfl rfl)
    |>.step 0 (.block rfl rfl) (careful rfl rfl)
  obtain ⟨hcast, hsignal⟩ := @wakeups_kept (Fin 2) _ _ (by decide)
  refine ⟨_, h, by decide, hsignal _ _ _ _ .start h ⟨rfl, by decide⟩, by decide, by decide, ?_⟩
  exact hcast _ (h.carefulReaches .start) ⟨rfl, by decide⟩ 0 (by decide)

/-- Threads 0 and 1 wait, and thread 2 broadcasts, which wakes thread 0. Then thread 2 waits
itself and resets the flag. Thread 0 does not find it set and returns; thread 1 waits for ever. -/
theorem broadcast_lost : ∃ s : Cv (Fin 3), Reaches s ∧ s.lock.value = 1 ∧ Quiet s ∧
    (s.pc 1).waits = true ∧ s.hist.ticket 1 < s.hist.latest := by
  have h := (Reaches.start : Reaches (.start : Cv (Fin 3)))
    |>.step 0 (.lock _ rfl (.decrement rfl (by decide)))
    |>.step 0 (.wait rfl rfl)
    |>.step 0 (.load rfl)
    |>.step 0 (.add _ rfl)
    |>.step 0 (.reset rfl)
    |>.step 0 (.post _ rfl (by decide) (.increment rfl))
    |>.step 0 (.post _ rfl (by decide) (.check _ rfl))
    |>.step 0 (.posted rfl rfl)
    |>.step 0 (.block rfl rfl)
    |>.step 1 (.lock _ rfl (.decrement rfl (by decide)))
    |>.step 1 (.wait rfl rfl)
    |>.step 1 (.load rfl)
    |>.step 1 (.add _ rfl)
    |>.step 1 (.reset rfl)
    |>.step 1 (.post _ rfl (by decide) (.increment rfl))
    |>.step 1 (.post _ rfl (by decide) (.check _ rfl))
    |>.step 1 (.posted rfl rfl)
    |>.step 1 (.block rfl rfl)
    |>.step 2 (.lock _ rfl (.decrement rfl (by decide)))
    |>.step 2 (.castCall false rfl rfl)
    |>.step 2 (.testCast _ rfl (by decide))
    |>.step 2 (.setCast _ rfl)
    |>.step 2 (.signal (some 0) _ rfl (.wake 0 (by decide)))
    |>.step 2 (.wait rfl rfl)
    |>.step 2 (.load rfl)
    |>.step 2 (.add _ rfl)
    |>.step 2 (.reset rfl)
    |>.step 2 (.post _ rfl (by decide) (.increment rfl))
    |>.step 2 (.post _ rfl (by decide) (.check _ rfl))
    |>.step 2 (.posted rfl rfl)
    |>.step 2 (.block rfl rfl)
    |>.step 0 (.relock _ rfl (by decide) (fun _ => by decide) (.decrement rfl (by decide)))
    |>.step 0 (.relocked rfl rfl)
    |>.step 0 (.unload rfl)
    |>.step 0 (.subtract _ rfl)
    |>.step 0 (.test rfl)
    |>.step 0 (.lock _ rfl (.increment rfl))
    |>.step 0 (.lock _ rfl (.check _ rfl))
  exact ⟨_, h, by decide, ⟨by decide, by decide⟩, by decide, by decide⟩

end SeL4Kernel.CondVar
