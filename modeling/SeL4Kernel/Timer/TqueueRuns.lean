import Mathlib.Algebra.Order.BigOperators.Group.Finset
import SeL4Kernel.Lib.Outcome
import SeL4Kernel.Timer.TqueuePaths

/-!
# Updates of the timeout queue

The loop of `tqueue_update` follows the paths of all identifiers at once and ends when nothing is
due (`updateLoop_spec`).

The queue cannot be trusted with three things, and the main result `tqueue_right` excludes them:
a callback that leaves its own identifier registered, an identifier that is equal to the number of
nodes, and a time that does not fit into 64 bits.
-/

namespace SeL4Kernel.Timer

open Function List

variable {c id : ℕ} {tq tq' : Tqueue} {op : Op}

/-! ### One callback -/

/-- The identifier of a call. -/
def Op.target : Op → ℕ
  | .register id _ => id
  | .cancel id => id

/-- The last call of a callback about its own identifier is not a registration. -/
def Settled (id : ℕ) (ops : List Op) : Prop :=
  ∀ timeout, lastCall id (ops.map Op.event) ≠ some (some timeout)

/-- The timeout that a call leaves. -/
def Op.timeout? : Op → Option Timeout
  | .register _ timeout => some timeout
  | .cancel _ => none

theorem effect_event : effect id op.event = if op.target = id then some op.timeout? else none := by
  cases op <;> rfl

/-- What a call of a callback does: it has its effect, or it is refused. -/
theorem Op.perform_spec (h : Inv tq) (hn : op.target ≠ tq.n) :
    ∃ error tq', op.perform tq = .ok (error, tq') ∧ Inv tq' ∧ tq'.n = tq.n ∧
      allocated tq' = allocated tq ∧
      (error = none ∧ op.target < tq.n ∧ armed tq' = update (armed tq) op.target op.timeout? ∨
        error = some .einval ∧ tq' = tq ∧ (tq.n ≤ op.target ∨ allocated tq op.target = false)) := by
  cases op with
  | register i timeout =>
    by_cases hi : i < tq.n ∧ allocated tq i = true
    · exact ⟨none, rearmed i timeout tq, tqueueRegister_eq h hi.1 hi.2 timeout,
        h.rearmed hi.1 hi.2 timeout, rfl, allocated_rearmed i timeout tq,
        .inl ⟨rfl, hi.1, armed_rearmed i timeout tq⟩⟩
    · rw [not_and_or, Nat.not_lt, Bool.not_eq_true] at hi
      exact ⟨some .einval, tq, tqueueRegister_einval hn hi timeout, h, rfl, rfl,
        .inr ⟨rfl, rfl, hi⟩⟩
  | cancel i =>
    by_cases hi : i < tq.n
    · exact ⟨none, disarmed i tq, tqueueCancel_eq h hi, h.disarmed i, rfl, allocated_disarmed i tq,
        .inl ⟨rfl, hi, armed_disarmed i tq⟩⟩
    · have hlt : tq.n < i := lt_of_le_of_ne (Nat.not_lt.1 hi) (Ne.symm hn)
      exact ⟨some .einval, tq, tqueueCancel_einval hlt, h, rfl, rfl, .inr ⟨rfl, rfl, .inl hlt.le⟩⟩

/-- All calls of a callback. -/
theorem runOps_spec (ops : List Op) :
    ∀ {tq : Tqueue}, Inv tq → (∀ op ∈ ops, op.target ≠ tq.n ∧ op.event.Later c) →
      ∃ events tq', runOps ops tq = .ok (events, tq') ∧ Inv tq' ∧ tq'.n = tq.n ∧
        allocated tq' = allocated tq ∧ (∀ e ∈ events, e.Later c) ∧
        (∀ id, armed tq' id = (lastCall id events).getD (armed tq id)) ∧
        ∀ id, id < tq.n → allocated tq id = true →
          lastCall id events = lastCall id (ops.map Op.event) := by
  induction ops with
  | nil =>
    intro tq h _
    exact ⟨[], tq, rfl, h, rfl, rfl, by simp, fun _ => rfl, fun _ _ _ => rfl⟩
  | cons op ops ih =>
    intro tq h hops
    obtain ⟨hn, hlater⟩ := hops op mem_cons_self
    obtain ⟨error, tq1, heq, hinv, hsize, halloc, hcase⟩ := op.perform_spec h hn
    obtain ⟨events, tq', heq', hinv', hsize', halloc', hevents, harmed, hlast⟩ := ih hinv (by
      intro op' hop'
      rw [hsize]
      exact hops op' (mem_cons_of_mem _ hop'))
    rw [hsize] at hsize' hlast
    rw [halloc] at halloc' hlast
    have hrun : runOps (op :: ops) tq =
        .ok (if error.isSome then events else op.event :: events, tq') := by
      rw [runOps, heq, ok_bind]
      dsimp only
      rw [heq']
      rfl
    rcases hcase with ⟨rfl, -, hdone⟩ | ⟨rfl, rfl, hrefused⟩
    · refine ⟨op.event :: events, tq', hrun, hinv', hsize', halloc',
        forall_mem_cons.2 ⟨hlater, hevents⟩, fun id => ?_, fun id hid hallocid => ?_⟩
      · rw [harmed, lastCall_cons, hdone, effect_event, update_apply]
        cases lastCall id events with
        | none =>
          by_cases hid : op.target = id
          · rw [if_pos hid, if_pos hid.symm]
            rfl
          · rw [if_neg hid, if_neg (Ne.symm hid)]
            rfl
        | some r => rfl
      · rw [map_cons, lastCall_cons, lastCall_cons, hlast id hid hallocid]
    · refine ⟨events, tq', hrun, hinv', hsize', halloc', hevents, harmed, fun id hid hallocid => ?_⟩
      -- a call that is refused is not about this identifier
      have hne : op.target ≠ id := by
        rintro rfl
        rcases hrefused with hc | hc
        · omega
        · rw [hc] at hallocid
          cases hallocid
      rw [map_cons, lastCall_cons, ← hlast id hid hallocid, effect_event, if_neg hne,
        Option.or_none]

/-! ### The loop -/

/-- The deadlines fit into 64 bits. -/
def Fits (c : ℕ) (tq : Tqueue) : Prop :=
  ∀ id timeout, armed tq id = some timeout → timeout.absTime ≤ c → 0 < timeout.period →
    firstAfter c timeout < 2 ^ 64

/-- What the callbacks may do. -/
def CallsOk (c n : ℕ) (calls : ℕ → ℕ → List Op) : Prop :=
  ∀ k id, (∀ op ∈ calls k id, op.target ≠ n ∧ op.event.Later c) ∧ Settled id (calls k id)

theorem firstAfter_ge {timeout : Timeout} :
    timeout.absTime + timeout.period ≤ firstAfter c timeout := by
  rw [firstAfter, Nat.succ_mul]
  omega

/-- One round: the head is run, its callback does what it does, and the head goes on. -/
theorem round_spec {t : ℕ} {timeout : Timeout} {ops : List Op} (h : Inv tq) (hfits : Fits c tq)
    (ht : armed tq t = some timeout) (hdue : timeout.absTime ≤ c)
    (hops : ∀ op ∈ ops, op.target ≠ tq.n ∧ op.event.Later c) (hsettled : Settled t ops) :
    ∃ events tq1 tq', runOps ops tq = .ok (events, tq1) ∧ rearm t tq1 = .ok tq' ∧ Inv tq' ∧
      tq'.n = tq.n ∧ allocated tq' = allocated tq ∧ (∀ e ∈ events, e.Later c) ∧
      ∀ id, armed tq' id =
        (lastCall id events).getD (update (armed tq) t timeout.next id) := by
  obtain ⟨events, tq1, heq, hinv, hsize, halloc, hevents, harmed, hlast⟩ := runOps_spec ops h hops
  obtain ⟨hactive, -⟩ := armed_eq_some.1 ht
  obtain ⟨htn, htalloc⟩ := h.active t hactive
  have hsettled' : ∀ timeout, lastCall t events ≠ some (some timeout) := by
    rw [hlast t htn htalloc]
    exact hsettled
  cases hcall : lastCall t events with
  | some r =>
    -- the callback has cancelled its own timeout
    obtain rfl : r = none := by
      cases r with
      | none => rfl
      | some timeout' => exact absurd hcall (hsettled' timeout')
    have hnone : armed tq1 t = none := by
      rw [harmed, hcall]
      rfl
    refine ⟨events, tq1, tq1, heq, rearm_eq_self hnone, hinv, hsize, halloc, hevents, ?_⟩
    intro id
    by_cases hid : id = t
    · rw [hid, hnone, hcall]
      rfl
    · rw [harmed, update_of_ne hid]
  | none =>
    have hsome : armed tq1 t = some timeout := by
      rw [harmed, hcall]
      exact ht
    have halloc1 : (tq1.array t).allocated = true := (congrFun halloc t).trans htalloc
    -- the head is advanced or taken out of the list
    obtain ⟨tq', hrearm, hinv', hsize', halloc', harmed'⟩ : ∃ tq', rearm t tq1 = .ok tq' ∧
        Inv tq' ∧ tq'.n = tq1.n ∧ allocated tq' = allocated tq1 ∧
        armed tq' = update (armed tq1) t timeout.next := by
      rw [rearm_eq hinv hsome, Timeout.next]
      by_cases hperiod : timeout.period > 0
      · have hmod : (timeout.absTime + timeout.period) % 2 ^ 64 =
            timeout.absTime + timeout.period :=
          Nat.mod_eq_of_lt (lt_of_le_of_lt firstAfter_ge (hfits t timeout ht hdue hperiod))
        rw [if_pos hperiod, if_pos hperiod, hmod]
        exact ⟨_, rfl, hinv.rearmed (hsize ▸ htn) halloc1 _, rfl, allocated_rearmed ..,
          armed_rearmed ..⟩
      · rw [if_neg hperiod, if_neg hperiod]
        exact ⟨_, rfl, hinv.disarmed t, rfl, allocated_disarmed .., armed_disarmed ..⟩
    refine ⟨events, tq1, tq', heq, hrearm, hinv', hsize'.trans hsize, halloc'.trans halloc, hevents,
      fun id => ?_⟩
    rw [harmed']
    by_cases hid : id = t
    · rw [hid, update_self, update_self, hcall]
      rfl
    · rw [update_of_ne hid, update_of_ne hid, harmed]

/-- The number of callbacks that are due. -/
def pending (c : ℕ) (tq : Tqueue) : ℕ :=
  ∑ id ∈ Finset.range tq.n, (deadlines c (armed tq id)).length

section Round

variable {t : ℕ} {timeout : Timeout} {events : List Event}
  (hevents : ∀ e ∈ events, e.Later c)
  (harmed : ∀ id, armed tq' id = (lastCall id events).getD (update (armed tq) t timeout.next id))
  (ht : armed tq t = some timeout) (hdue : timeout.absTime ≤ c)

include hevents harmed in
/-- After a round an identifier has nothing due, or it is as before, or it is the next period of
the head. -/
theorem round_cases (id : ℕ) : Late c (armed tq' id) ∨ armed tq' id = armed tq id ∧ id ≠ t ∨
    id = t ∧ armed tq' t = timeout.next := by
  have hid := harmed id
  cases hcall : lastCall id events with
  | some r =>
    rw [hcall] at hid
    rw [hid]
    exact .inl (lastCall_late hevents hcall)
  | none =>
    rw [hcall] at hid
    by_cases heq : id = t
    · rw [heq, update_self] at hid
      exact .inr (.inr ⟨heq, hid⟩)
    · rw [update_of_ne heq] at hid
      exact .inr (.inl ⟨hid, heq⟩)

include hevents harmed ht hdue in
theorem Fits.round (h : Fits c tq) : Fits c tq' := by
  intro id timeout' hid hdue' hperiod
  rcases round_cases hevents harmed id with hlate | ⟨hsame, -⟩ | ⟨rfl, hnext⟩
  · exact absurd (hlate timeout' hid) (Nat.not_lt.2 hdue')
  · exact h id timeout' (hsame ▸ hid) hdue' hperiod
  -- the first deadline behind the time is that of the head
  rw [hnext, Timeout.next] at hid
  split at hid
  next hp =>
    obtain rfl := Option.some.inj hid
    have hfits := h id timeout ht hdue hp
    rw [firstAfter, firstAfter_next hp hdue', Nat.succ_mul] at hfits
    rw [firstAfter]
    dsimp only
    omega
  · cases hid

include hevents harmed ht hdue in
theorem pending_round (hsize : tq'.n = tq.n) (htn : t < tq.n) : pending c tq' < pending c tq := by
  unfold pending
  rw [hsize]
  have hthere : (deadlines c (armed tq' t)).length < (deadlines c (armed tq t)).length := by
    rw [ht, deadlines_due hdue, length_cons]
    rcases round_cases hevents harmed t with hlate | ⟨-, hne⟩ | ⟨-, hnext⟩
    · rw [hlate.deadlines_eq]
      exact Nat.succ_pos _
    · exact absurd rfl hne
    · rw [hnext]
      exact Nat.lt_succ_self _
  refine Finset.sum_lt_sum ?_ ⟨t, Finset.mem_range.2 htn, hthere⟩
  intro id _
  rcases round_cases hevents harmed id with hlate | ⟨hsame, -⟩ | ⟨rfl, -⟩
  · rw [hlate.deadlines_eq]
    exact Nat.zero_le _
  · rw [hsame]
  · exact hthere.le

include hevents harmed ht hdue in
theorem path_round (id : ℕ) :
    Path c id (armed tq id) (.ran t timeout :: events) (armed tq' id) := by
  rw [harmed]
  by_cases hid : id = t
  · rw [hid, ht, update_self]
    exact .cons (.ran timeout hdue) (.of_calls hevents _)
  · rw [update_of_ne hid]
    exact .cons (.other _ _ rfl (if_neg (Ne.symm hid))) (.of_calls hevents _)

end Round

/-- The nodes behind the head are not due before it. -/
theorem Inv.late (h : Inv tq) {t : ℕ} (hhead : tq.queue.head? = some t) (ht : c < absTime tq t)
    (id : ℕ) : Late c (armed tq id) := by
  intro timeout hid
  obtain ⟨hactive, rfl⟩ := armed_eq_some.1 hid
  obtain ⟨l, hl⟩ := head?_eq_some_iff.1 hhead
  have hmem := (h.mem id).2 hactive
  have hsorted := h.sorted
  rw [hl] at hmem hsorted
  rcases mem_cons.1 hmem with rfl | hmem
  · exact ht
  · exact lt_of_lt_of_le ht (rel_of_pairwise_cons hsorted hmem)

theorem Inv.late_nil (h : Inv tq) (hhead : tq.queue.head? = none) (id : ℕ) :
    armed tq id = none := by
  rw [armed_eq_none, ← Bool.not_eq_true, ← h.mem, head?_eq_none_iff.1 hhead]
  exact not_mem_nil

variable {calls : ℕ → ℕ → List Op}

/-- The loop ends, and what happens to each identifier is a path to where nothing is due. -/
theorem updateLoop_spec (fuel : ℕ) :
    ∀ {k : ℕ} {tq : Tqueue}, Inv tq → Fits c tq → CallsOk c tq.n calls → pending c tq < fuel →
      ∃ log tq', updateLoop calls c fuel k tq = .ok (log, tq') ∧ Inv tq' ∧ tq'.n = tq.n ∧
        (∀ id, Path c id (armed tq id) log (armed tq' id)) ∧ ∀ id, Late c (armed tq' id) := by
  induction fuel with
  | zero =>
    intro k tq _ _ _ hfuel
    omega
  | succ fuel ih =>
    intro k tq h hfits hcalls hfuel
    rw [updateLoop]
    cases hhead : tq.queue.head? with
    | none =>
      refine ⟨[], tq, rfl, h, rfl, fun id => .nil _, ?_⟩
      intro id timeout hid
      rw [h.late_nil hhead] at hid
      cases hid
    | some t =>
      dsimp only
      by_cases hdue : absTime tq t ≤ c
      · have hactive := (h.mem t).1 (mem_of_head? hhead)
        have ht : armed tq t = some (tq.array t).timeout := armed_eq_some.2 ⟨hactive, rfl⟩
        obtain ⟨hops, hsettled⟩ := hcalls k t
        obtain ⟨events, tq1, tq2, hrun, hrearm, hinv, hsize, -, hevents, harmed⟩ :=
          round_spec h hfits ht hdue hops hsettled
        have hpending := pending_round hevents harmed ht hdue hsize (h.active t hactive).1
        obtain ⟨log, tq', hloop, hinv', hsize', hpath, hlate⟩ :=
          ih (k := k + 1) hinv (hfits.round hevents harmed ht hdue) (hsize ▸ hcalls) (by omega)
        refine ⟨.ran t (tq.array t).timeout :: (events ++ log), tq', ?_, hinv',
          hsize'.trans hsize, fun id => ?_, hlate⟩
        · rw [if_pos hdue, if_pos hactive, hrun, ok_bind]
          rw [hrearm, ok_bind, hloop]
          rfl
        · exact (path_round hevents harmed ht hdue id).append (hpath id)
      · rw [if_neg hdue]
        exact ⟨[], tq, rfl, h, rfl, fun id => .nil _, h.late hhead (Nat.not_le.1 hdue)⟩

/-! ### Runs -/

/-- The calls of the interface. -/
inductive Call where
  | allocId
  | allocIdAt (id : ℕ)
  | freeId (id : ℕ)
  | register (id : ℕ) (timeout : Timeout)
  | cancel (id : ℕ)
  | update (currTime : ℕ) (calls : ℕ → ℕ → List Op)

/-- What a call returns. -/
inductive Answer where
  | allocated (result : Except Errno ℕ)
  | code (error : Option Errno)
  | updated (nextTime : ℕ) (log : List Event)

def perform (fuel : ℕ) (tq : Tqueue) : Call → Except Failure (Answer × Tqueue)
  | .allocId => .ok (.allocated (tqueueAllocId tq).1, (tqueueAllocId tq).2)
  | .allocIdAt id => .ok (.code (tqueueAllocIdAt id tq).1, (tqueueAllocIdAt id tq).2)
  | .freeId id => do
    let (error, tq) ← tqueueFreeId id tq
    return (.code error, tq)
  | .register id timeout => do
    let (error, tq) ← tqueueRegister id timeout tq
    return (.code error, tq)
  | .cancel id => do
    let (error, tq) ← tqueueCancel id tq
    return (.code error, tq)
  | .update currTime calls => do
    let (nextTime, log, tq) ← tqueueUpdate calls currTime fuel tq
    return (.updated nextTime log, tq)

/-- The condition on a call. -/
def Allowed (tq : Tqueue) : Call → Prop
  | .register id _ => id ≠ tq.n
  | .cancel id => id ≠ tq.n
  | .update currTime calls => Fits currTime tq ∧ CallsOk currTime tq.n calls
  | _ => True

/-- The states of all runs. -/
inductive Reaches : Tqueue → Prop where
  | start (size : ℕ) : Reaches (tqueueInitStatic size)
  | step {tq tq' : Tqueue} {call : Call} {answer : Answer} (fuel : ℕ) : Reaches tq →
      Allowed tq call → perform fuel tq call = .ok (answer, tq') → Reaches tq'

/-- The identifier that a call has to check. -/
def Call.target : Call → Option ℕ
  | .allocIdAt id | .freeId id | .register id _ | .cancel id => some id
  | _ => none

/-- What an update has done. -/
structure Updated (c : ℕ) (tq tq' : Tqueue) (nextTime : ℕ) (log : List Event) : Prop where
  handled : ∀ id, Handled c id (armed tq id) log (armed tq' id)
  quiet : ∀ id l e l', log = l ++ e :: l' → (effect id e).isSome → runs id l' = []
  late : ∀ id, Late c (armed tq' id)
  /-- the earliest time that remains, or 0 -/
  next : nextTime = 0 ∧ (∀ id, armed tq' id = none) ∨
    ∃ id timeout, armed tq' id = some timeout ∧ nextTime = timeout.absTime ∧
      ∀ id' timeout', armed tq' id' = some timeout' → nextTime ≤ timeout'.absTime

/-- What a call has done is right. -/
structure Answered (tq tq' : Tqueue) (call : Call) (answer : Answer) : Prop where
  refused : ∀ id, call.target = some id → tq.n ≤ id → answer = .code (some .einval) ∧ tq' = tq
  registered : ∀ id timeout, call = .register id timeout → answer = .code none →
    armed tq' = update (armed tq) id (some timeout)
  cancelled : ∀ id, call = .cancel id → answer = .code none →
    armed tq' = update (armed tq) id none
  updated : ∀ c calls, call = .update c calls →
    ∃ nextTime log, answer = .updated nextTime log ∧ Updated c tq tq' nextTime log

theorem inv_start (size : ℕ) : Inv (tqueueInitStatic size) where
  sorted := .nil
  nodup := .nil
  mem := by simp [tqueueInitStatic]
  active := by simp [tqueueInitStatic]

/-- A node whose allocation alone changes. -/
theorem Inv.setAllocated (h : Inv tq) (id : ℕ) :
    Inv (setNode id { tq.array id with allocated := true } tq) := by
  have htime : absTime (setNode id { tq.array id with allocated := true } tq) = absTime tq :=
    funext (apply_setNode (fun entry => entry.timeout.absTime) rfl)
  have hactive : ∀ x, ((setNode id { tq.array id with allocated := true } tq).array x).active =
      (tq.array x).active := apply_setNode Node.active rfl
  refine ⟨by rw [htime]; exact h.sorted, h.nodup, fun x => ?_, fun x hx => ?_⟩
  · rw [hactive]
    exact h.mem x
  rw [hactive] at hx
  refine ⟨(h.active x hx).1, ?_⟩
  unfold setNode
  dsimp only
  by_cases hid : x = id
  · rw [hid, update_self]
  · rw [update_of_ne hid]
    exact (h.active x hx).2

/-- The first node has the earliest time. -/
theorem nextTime_spec (h : Inv tq) : nextTime tq = 0 ∧ (∀ id, armed tq id = none) ∨
    ∃ id timeout, armed tq id = some timeout ∧ nextTime tq = timeout.absTime ∧
      ∀ id' timeout', armed tq id' = some timeout' → nextTime tq ≤ timeout'.absTime := by
  unfold nextTime
  cases hhead : tq.queue.head? with
  | none => exact .inl ⟨rfl, h.late_nil hhead⟩
  | some t =>
    have hactive := (h.mem t).1 (mem_of_head? hhead)
    refine .inr ⟨t, _, armed_eq_some.2 ⟨hactive, rfl⟩, rfl, ?_⟩
    intro id' timeout' hid'
    by_contra hc
    have hlt : timeout'.absTime < absTime tq t := Nat.not_le.1 hc
    exact absurd (h.late hhead hlt id' timeout' hid') (Nat.lt_irrefl _)

variable {call : Call}

/-- Every call returns, keeps the invariant and has the right answer. -/
theorem perform_spec (h : Inv tq) (hallowed : Allowed tq call) :
    ∃ bound, ∀ fuel, bound ≤ fuel → ∃ answer tq', perform fuel tq call = .ok (answer, tq') ∧
      Inv tq' ∧ Answered tq tq' call answer := by
  cases call with
  | allocId =>
    refine ⟨0, fun fuel _ => ⟨_, _, rfl, ?_, by simp [Call.target], by simp, by simp, by simp⟩⟩
    unfold tqueueAllocId
    cases (range tq.n).find? fun i => !(tq.array i).allocated with
    | none => exact h
    | some i => exact h.setAllocated i
  | allocIdAt id =>
    refine ⟨0, fun fuel _ => ⟨_, _, rfl, ?_, ?_, by simp, by simp, by simp⟩⟩
    · unfold tqueueAllocIdAt
      split
      · exact h
      · split
        · exact h
        · exact h.setAllocated id
    · intro i hi hle
      obtain rfl : id = i := Option.some.inj hi
      unfold tqueueAllocIdAt
      rw [if_pos hle]
      exact ⟨rfl, rfl⟩
  | freeId id =>
    refine ⟨0, fun fuel _ => ?_⟩
    rw [perform, tqueueFreeId]
    split
    · exact ⟨_, _, rfl, h, fun _ _ _ => ⟨rfl, rfl⟩, by simp, by simp, by simp⟩
    rename_i hid
    have hother : ∀ i, Call.target (.freeId id) = some i → ¬tq.n ≤ i := by
      intro i hi
      obtain rfl : id = i := Option.some.inj hi
      exact hid
    split
    · exact ⟨_, _, rfl, h, fun i hi hle => absurd hle (hother i hi), by simp, by simp, by simp⟩
    · rw [deleteIfActive_eq h]
      exact ⟨_, _, rfl, h.setIdle id rfl, fun i hi hle => absurd hle (hother i hi), by simp,
        by simp, by simp⟩
  | register id timeout =>
    obtain ⟨error, tq', heq, hinv, -, -, hcase⟩ :=
      @Op.perform_spec tq (.register id timeout) h hallowed
    have hperform : ∀ fuel, perform fuel tq (.register id timeout) = .ok (.code error, tq') := by
      intro fuel
      rw [perform, show tqueueRegister id timeout tq = _ from heq]
      rfl
    refine ⟨0, fun fuel _ => ⟨_, tq', hperform fuel, hinv, ?_, ?_, by simp, by simp⟩⟩
    · rintro i ⟨⟩ hle
      rcases hcase with ⟨-, hlt, -⟩ | ⟨rfl, rfl, -⟩
      · exact absurd hlt (Nat.not_lt.2 hle)
      · exact ⟨rfl, rfl⟩
    · rintro i timeout' ⟨⟩ hanswer
      rcases hcase with ⟨-, -, harmed⟩ | ⟨rfl, -⟩
      · exact harmed
      · cases hanswer
  | cancel id =>
    obtain ⟨error, tq', heq, hinv, -, -, hcase⟩ :=
      @Op.perform_spec tq (.cancel id) h hallowed
    have hperform : ∀ fuel, perform fuel tq (.cancel id) = .ok (.code error, tq') := by
      intro fuel
      rw [perform, show tqueueCancel id tq = _ from heq]
      rfl
    refine ⟨0, fun fuel _ => ⟨_, tq', hperform fuel, hinv, ?_, by simp, ?_, by simp⟩⟩
    · rintro i ⟨⟩ hle
      rcases hcase with ⟨-, hlt, -⟩ | ⟨rfl, rfl, -⟩
      · exact absurd hlt (Nat.not_lt.2 hle)
      · exact ⟨rfl, rfl⟩
    · rintro i ⟨⟩ hanswer
      rcases hcase with ⟨-, -, harmed⟩ | ⟨rfl, -⟩
      · exact harmed
      · cases hanswer
  | update c calls =>
    refine ⟨pending c tq + 1, fun fuel hfuel => ?_⟩
    obtain ⟨log, tq', hloop, hinv, -, hpath, hlate⟩ :=
      updateLoop_spec (k := 0) fuel h hallowed.1 hallowed.2 hfuel
    refine ⟨.updated (nextTime tq') log, tq', ?_, hinv, by simp [Call.target], by simp, by simp, ?_⟩
    · rw [perform, tqueueUpdate, hloop]
      rfl
    · intro c' calls' heq
      cases heq
      refine ⟨_, _, rfl, fun id => (hpath id).handled (hlate id), ?_, hlate, nextTime_spec hinv⟩
      rintro id l e l' rfl he
      exact (hpath id).quiet (hlate id) he

/-- A loop that has ended ends in the same way with more rounds. -/
theorem updateLoop_mono (fuel : ℕ) :
    ∀ {k : ℕ} {tq : Tqueue} {r : List Event × Tqueue}, updateLoop calls c fuel k tq = .ok r →
      ∀ more, updateLoop calls c (fuel + more) k tq = .ok r := by
  induction fuel with
  | zero =>
    intro k tq r h
    cases h
  | succ fuel ih =>
    intro k tq r h more
    rw [Nat.add_right_comm]
    rw [updateLoop] at h ⊢
    cases hhead : tq.queue.head? with
    | none =>
      rw [hhead] at h
      exact h
    | some t =>
      rw [hhead] at h
      dsimp only at h ⊢
      by_cases hdue : absTime tq t ≤ c
      · rw [if_pos hdue] at h ⊢
        by_cases hactive : (tq.array t).active = true
        · rw [if_pos hactive] at h ⊢
          exact bind_ok_mono (fun _ => id) (fun ⟨_, _⟩ => bind_ok_mono (fun _ => id)
            fun _ => bind_ok_mono (fun _ hloop => ih hloop more) fun _ => id) h
        · rw [if_neg hactive] at h ⊢
          exact ih h more
      · rw [if_neg hdue] at h ⊢
        exact h

theorem perform_mono {r : Answer × Tqueue} {fuel : ℕ} (h : perform fuel tq call = .ok r)
    (more : ℕ) : perform (fuel + more) tq call = .ok r := by
  cases call with
  | update c calls =>
    exact bind_ok_mono (fun _ => bind_ok_mono (fun _ hloop => updateLoop_mono fuel hloop more)
      fun _ => id) (fun _ => id) h
  | allocId => exact h
  | allocIdAt id => exact h
  | freeId id => exact h
  | register id timeout => exact h
  | cancel id => exact h

theorem Reaches.inv (h : Reaches tq) : Inv tq := by
  induction h with
  | start size => exact inv_start size
  | step fuel _ hallowed hperform ih =>
    obtain ⟨bound, hspec⟩ := perform_spec ih hallowed
    obtain ⟨answer', tq'', heq, hinv, -⟩ := hspec (fuel + bound) (Nat.le_add_left _ _)
    rw [perform_mono hperform bound] at heq
    cases heq
    exact hinv

/-- **Main result.** In every state of a run the list is sorted and has the active identifiers,
and the next call returns and has the right answer. -/
theorem tqueue_right (h : Reaches tq) :
    Inv tq ∧ ∀ call, Allowed tq call → ∃ fuel answer tq', perform fuel tq call = .ok (answer, tq') ∧
      Answered tq tq' call answer := by
  refine ⟨h.inv, fun call hallowed => ?_⟩
  obtain ⟨bound, hspec⟩ := perform_spec h.inv hallowed
  obtain ⟨answer, tq', heq, -, hanswer⟩ := hspec bound (Nat.le_refl _)
  exact ⟨bound, answer, tq', heq, hanswer⟩

/-! ### Timeouts that go wrong -/

/-- Two identifiers; the first is allocated and has a timeout. -/
def oneTimeout (timeout : Timeout) : Tqueue :=
  rearmed 0 timeout (tqueueAllocId (tqueueInitStatic 2)).2

theorem reaches_oneTimeout (timeout : Timeout) : Reaches (oneTimeout timeout) := by
  have hid : Reaches (tqueueAllocId (tqueueInitStatic 2)).2 := by
    have hallowed : Allowed (tqueueInitStatic 2) .allocId := trivial
    have hperform : perform 0 (tqueueInitStatic 2) .allocId = .ok (_, _) := rfl
    exact .step 0 (.start 2) hallowed hperform
  have hperform : perform 0 (tqueueAllocId (tqueueInitStatic 2)).2 (.register 0 timeout) =
      .ok (.code none, oneTimeout timeout) := rfl
  have hne : Allowed (tqueueAllocId (tqueueInitStatic 2)).2 (.register 0 timeout) := by
    change 0 ≠ 2
    decide
  exact .step 0 hid hne hperform

theorem oneTimeout_right : Fits 25 (oneTimeout ⟨10, 10, 0, 0⟩) ∧ Inv (oneTimeout ⟨10, 10, 0, 0⟩) ∧
    ∃ fuel answer tq', perform fuel (oneTimeout ⟨10, 10, 0, 0⟩) (.update 25 fun _ _ => []) =
      .ok (answer, tq') ∧ Answered (oneTimeout ⟨10, 10, 0, 0⟩) tq' (.update 25 fun _ _ => []) answer
    := by
  have hfits : Fits 25 (oneTimeout ⟨10, 10, 0, 0⟩) := by
    intro id timeout hid _ _
    have hid' : update (armed (tqueueAllocId (tqueueInitStatic 2)).2) 0
        (some ⟨10, 10, 0, 0⟩) id = some timeout := by
      rw [← armed_rearmed]
      exact hid
    by_cases h0 : id = 0
    · rw [h0] at hid'
      rw [← Option.some.inj hid']
      decide
    · rw [update_of_ne h0, armed_eq_some] at hid'
      have hactive := hid'.1
      have hnone : ((tqueueAllocId (tqueueInitStatic 2)).2.array id).active = false := by
        change ((setNode 0 _ (tqueueInitStatic 2)).array id).active = false
        unfold setNode
        dsimp only
        rw [update_of_ne h0]
        rfl
      rw [hnone] at hactive
      cases hactive
  obtain ⟨hinv, hnext⟩ := tqueue_right (reaches_oneTimeout ⟨10, 10, 0, 0⟩)
  refine ⟨hfits, hinv, hnext _ ⟨hfits, fun _ _ => ⟨?_, ?_⟩⟩⟩
  · intro op hop
    cases hop
  · intro timeout hc
    cases hc

/-- A timeout that registers its own identifier again is lost: behind the callback the new timeout
is taken for the old one. And the number of nodes is not refused as an identifier. -/
theorem oneShot_lost :
    (Reaches (oneTimeout ⟨10, 0, 0, 0⟩) ∧
      ∃ tq', perform 3 (oneTimeout ⟨10, 0, 0, 0⟩)
          (.update 10 fun _ _ => [.register 0 ⟨20, 0, 0, 0⟩]) =
        .ok (.updated 0 [.ran 0 ⟨10, 0, 0, 0⟩, .registered 0 ⟨20, 0, 0, 0⟩], tq') ∧
      armed tq' 0 = none) ∧
    perform 0 (oneTimeout ⟨10, 0, 0, 0⟩) (.cancel 2) = .error .outOfBounds :=
  ⟨⟨reaches_oneTimeout _, _, rfl, rfl⟩, rfl⟩

end SeL4Kernel.Timer
