import SeL4Kernel.Fastpath.Lookup
import SeL4Kernel.Kernel.Binding
import SeL4Kernel.Kernel.ReadyQueues

/-!
# What the fast paths are compared by

A fast path refines the slow path if both leave the same state behind, up to what
has no meaning there: fields of a thread state that its type does not use, and the
two variables of the MCS kernel that count time (`Kernel.visible`).

The comparison is made in the states in which a thread makes a system call
(`EntryInv`, with `StandardInv` or `McsInv` for the two kernels). In the MCS kernel
the fast paths look neither at the clock nor at the queue of threads that wait for
time, so the two paths agree where the slow path finds nothing to do there
(`McsReady`).

Both paths write a message into the registers of the receiver in their own way;
`sentRegisters` is what comes out of either.
-/

namespace SeL4Kernel

open Function

/-! ### States that mean the same -/

/-- A thread state without the fields that its type does not use. -/
def ThreadState.meaning (ts : ThreadState) : ThreadState :=
  let kept : ThreadState :=
    { tsType := ts.tsType
      blockingObject := 0
      blockingIPCBadge := 0
      blockingIPCCanGrant := false
      blockingIPCCanGrantReply := false
      blockingIPCIsCall := false
      replyObject := ts.replyObject }
  match ts.tsType with
  | .blockedOnSend => ts
  | .blockedOnReceive => { kept with
      blockingObject := ts.blockingObject, blockingIPCCanGrant := ts.blockingIPCCanGrant }
  | .blockedOnNotification => { kept with blockingObject := ts.blockingObject }
  | _ => kept

/-- The state without thread state fields that have no meaning, and without
`ksCurTime` and `ksConsumed`. -/
def Kernel.visible (s : Kernel) : Kernel :=
  { s with
    tcbState := fun tcb => (s.tcbState tcb).meaning
    ksCurTime := 0
    ksConsumed := 0 }

/-- A system call touches two threads; the others are as before. -/
theorem forall_of_two {p : Ptr → Prop} (a b : Ptr) (ha : p a) (hb : p b)
    (hother : ∀ t, t ≠ a → t ≠ b → p t) : ∀ t, p t := by
  intro t
  by_cases hta : t = a
  · rwa [hta]
  · by_cases htb : t = b
    · rwa [htb]
    · exact hother t hta htb

/-- Two states with the same meaning: thread states that mean the same, and everything
else equal. -/
theorem visible_congr {s s' : Kernel}
    (hts : ∀ tcb, (s.tcbState tcb).meaning = (s'.tcbState tcb).meaning)
    (h : { s with
      tcbState := s'.tcbState, ksCurTime := s'.ksCurTime, ksConsumed := s'.ksConsumed } = s') :
    s.visible = s'.visible := by
  rw [← h]
  unfold Kernel.visible
  rw [funext hts]

/-- Only the type and the reply object of a thread that can run have a meaning. -/
theorem meaning_running {ts ts' : ThreadState} (h : ts.tsType = .running)
    (h' : ts'.tsType = .running) (hr : ts.replyObject = ts'.replyObject) :
    ts.meaning = ts'.meaning := by
  unfold ThreadState.meaning
  rw [h, h', hr]

theorem meaning_blockedOnReply {ts ts' : ThreadState} (h : ts.tsType = .blockedOnReply)
    (h' : ts'.tsType = .blockedOnReply) (hr : ts.replyObject = ts'.replyObject) :
    ts.meaning = ts'.meaning := by
  unfold ThreadState.meaning
  rw [h, h', hr]

/-! ### The states in which system calls are made -/

/-- What holds when a thread enters the kernel with a system call. -/
structure EntryInv (cfg : Config) (s : Kernel) : Prop where
  cnodes : CNodesWellFormed s.cspace
  running : s.tsType s.ksCurThread = .running
  resume : s.ksSchedulerAction = .resumeCurrentThread
  idle : s.tsType s.ksIdleThread = .idleThreadState
  recvQueue : ∀ ep, s.epState ep = .recv →
    s.epQueue ep ≠ [] ∧ ∀ tcb ∈ s.epQueue ep, s.tsType tcb = .blockedOnReceive
  idleQueue : ∀ ep, s.epState ep = .idle → s.epQueue ep = []
  queued : ∀ tcb, s.tcbQueued tcb = true → isRunnable s tcb = true
  curNotQueued : s.tcbQueued s.ksCurThread = false
  curDomain : s.ksCurDomain < cfg.numDomains
  domain : ∀ tcb, s.tcbDomain tcb < cfg.numDomains
  priority : ∀ tcb, s.tcbPriority tcb < cfg.numPriorities
  bitmaps : s.toReadyQueues.BitmapInv cfg

/-- The reply capabilities of the standard kernel. The master capability of a
thread has at most one child, in the caller slot of the thread that will reply; a
thread that can run has none out, and a thread that waits for a message has an
empty caller slot. The slots of the current thread are in no CNode. -/
structure StandardInv (s : Kernel) : Prop where
  apart : ∀ slot node, s.cap slot = .cnode node → node.capCNodePtr ≠ s.ksCurThread
  master : ∀ tcb, isRunnable s tcb = true →
    ∃ canGrant, s.cap (tcbSlot tcb tcbReply) = .reply canGrant true tcb ∧
      (s.cspace.mdb (tcbSlot tcb tcbReply)).mdbNext = none ∧
      (s.cspace.mdb (tcbSlot tcb tcbReply)).mdbRevocable = true ∧
      (s.cspace.mdb (tcbSlot tcb tcbReply)).mdbFirstBadged = true
  waiting : ∀ tcb, s.tsType tcb = .blockedOnReceive →
    s.cap (tcbSlot tcb tcbCaller) = .null ∧
      s.cspace.mdb (tcbSlot tcb tcbCaller) = nullMDBNode
  caller : ∀ tcb canGrant master caller,
    s.cap (tcbSlot tcb tcbCaller) = .reply canGrant master caller →
      master = false ∧ s.tsType caller = .blockedOnReply ∧
      s.cspace.mdb (tcbSlot tcb tcbCaller) = { nullMDBNode with
        mdbPrev := some (tcbSlot caller tcbReply) } ∧
      (s.cspace.mdb (tcbSlot caller tcbReply)).mdbNext = some (tcbSlot tcb tcbCaller) ∧
      (s.cspace.mdb (tcbSlot caller tcbReply)).mdbRevocable = true ∧
      (s.cspace.mdb (tcbSlot caller tcbReply)).mdbFirstBadged = true

/-- Scheduling contexts and reply objects of the MCS kernel. -/
structure McsInv (s : Kernel) : Prop where
  links : LinkInv s.links
  cur : Running s
  active : 0 < (s.schedContext s.ksCurSC).scRefillMax
  reprogram : s.ksReprogram = false
  yieldTo : ∀ tcb, s.tcbYieldTo tcb ≠ none → isRunnable s tcb = true
  replies : ∀ reply tcb, s.replyTCB reply = some tcb ↔ (s.tcbState tcb).replyObject = some reply
  callers : ∀ reply tcb sc, s.replyTCB reply = some tcb →
    s.replyNext reply = .schedContext sc → s.tsType tcb = .blockedOnReply

/-- At time `now` the MCS kernel has nothing to do but the system call: the current
thread and its domain have time, no thread in the release queue is due, and no ready
thread has a higher priority than the current one. -/
structure McsReady (cfg : Config) (now : Nat) (s : Kernel) : Prop where
  budget : enoughBudget cfg (updateTimestamp now s) = true
  domain : isCurDomainExpired cfg (updateTimestamp now s) = false
  domainTime : s.ksDomainTime ≠ 0
  release : ∀ head sc, s.ksReleaseQueue.head? = some head → s.tcbSchedContext head = some sc →
    refillReady cfg (updateTimestamp now s) sc = false
  highest : s.toReadyQueues.isHighestPrio cfg s.ksCurDomain (s.tcbPriority s.ksCurThread) = true

section Entry

variable {cfg : Config} {s : Kernel} (h : EntryInv cfg s)

include h

theorem EntryInv.fastpathDom_eq : fastpathDom cfg s = s.ksCurDomain := by
  have hlt := h.curDomain
  unfold fastpathDom
  split
  · rfl
  · omega

theorem EntryInv.domain_eq {tcb : Ptr} (hd : inCurDomain cfg s tcb = true) :
    s.ksCurDomain = s.tcbDomain tcb := by
  have hlt := h.curDomain
  have hlt' := h.domain tcb
  unfold inCurDomain at hd
  rw [Bool.or_eq_true, beq_iff_eq, Bool.not_eq_true', decide_eq_false_iff_not] at hd
  omega

theorem EntryInv.not_queued {tcb : Ptr} (hb : isRunnable s tcb = false) :
    s.tcbQueued tcb = false := by
  by_contra hq
  rw [h.queued tcb (by simpa using hq)] at hb
  cases hb

theorem EntryInv.cur_ne_idle : s.ksCurThread ≠ s.ksIdleThread := by
  intro he
  have hidle := h.idle
  rw [← he, h.running] at hidle
  cases hidle

/-- The clock is no part of the invariants. -/
theorem EntryInv.updateTimestamp (now : Nat) : EntryInv cfg (updateTimestamp now s) :=
  ⟨h.cnodes, h.running, h.resume, h.idle, h.recvQueue, h.idleQueue, h.queued, h.curNotQueued,
    h.curDomain, h.domain, h.priority, h.bitmaps⟩

omit h

theorem McsInv.updateTimestamp (h : McsInv s) (now : Nat) : McsInv (updateTimestamp now s) :=
  ⟨h.links, ⟨h.cur.owner, h.cur.awake⟩, h.active, h.reprogram, h.yieldTo, h.replies, h.callers⟩

theorem McsInv.yieldTo_none (h : McsInv s) {tcb : Ptr} (hb : isRunnable s tcb = false) :
    s.tcbYieldTo tcb = none := by
  by_contra hy
  rw [h.yieldTo tcb hy] at hb
  cases hb

/-- A system call of a thread with enough budget, in a domain with enough time. -/
theorem doIfBudget_ready (hmcs : cfg.mcs = true) {now : Nat}
    (hbudget : enoughBudget cfg (updateTimestamp now s) = true)
    (hdomain : isCurDomainExpired cfg (updateTimestamp now s) = false)
    (body : Kernel → Except Stuck Kernel) :
    doIfBudget cfg now body s = body (updateTimestamp now s) := by
  have hcheck : checkBudgetRestart cfg (updateTimestamp now s) =
      .ok (true, updateTimestamp now s) := by
    unfold checkBudgetRestart checkBudget
    rw [if_pos hbudget, if_neg (by rw [hdomain]; decide)]
    rfl
  unfold doIfBudget
  rw [if_pos hmcs, hcheck]
  rfl

theorem isRunnable_eq_false {tcb : Ptr} {t : TsType} (h : s.tsType tcb = t)
    (h1 : t ≠ .running) (h2 : t ≠ .restart) : isRunnable s tcb = false := by
  unfold isRunnable
  rw [h]
  split
  · exact absurd rfl h1
  · exact absurd rfl h2
  · rfl

end Entry

/-! ### Thread states and the scheduler's decision -/

section ThreadStates

variable {cfg : Config} {s : Kernel} {tcb : Ptr} {ts : TsType}

theorem tcbState_setTsType_self :
    (s.setTsType tcb ts).tcbState tcb = { s.tcbState tcb with tsType := ts } :=
  update_self _ _ _

theorem tsType_setTsType_self : (s.setTsType tcb ts).tsType tcb = ts := by
  unfold Kernel.tsType
  rw [tcbState_setTsType_self]

theorem tcbState_setTsType_of_ne {other : Ptr} (h : other ≠ tcb) :
    (s.setTsType tcb ts).tcbState other = s.tcbState other := update_of_ne h _ _

/-- A change of state that the scheduler need not know of. -/
theorem setThreadState_eq
    (h : tcb ≠ s.ksCurThread ∨ s.ksSchedulerAction ≠ .resumeCurrentThread ∨
      isSchedulable cfg (s.setTsType tcb ts) tcb = true) :
    setThreadState cfg tcb ts s = s.setTsType tcb ts := by
  unfold setThreadState scheduleTCB
  rw [if_neg]
  rintro ⟨hcur, haction, hsched⟩
  rcases h with h | h | h
  · exact h hcur
  · exact h haction
  · rw [h] at hsched
    cases hsched

/-- The current thread stops. -/
theorem setThreadState_stop (hcur : tcb = s.ksCurThread)
    (hresume : s.ksSchedulerAction = .resumeCurrentThread)
    (hsched : isSchedulable cfg (s.setTsType tcb ts) tcb = false) :
    setThreadState cfg tcb ts s =
      { s.setTsType tcb ts with ksSchedulerAction := .chooseNewThread } := by
  have haction : (s.setTsType tcb ts).ksSchedulerAction = .resumeCurrentThread := hresume
  unfold setThreadState scheduleTCB
  rw [if_pos ⟨hcur, haction, hsched⟩]
  unfold rescheduleRequired
  rw [haction]

theorem tcbSchedDequeue_eq (h : s.tcbQueued tcb = false) : tcbSchedDequeue cfg tcb s = s := by
  unfold tcbSchedDequeue ReadyQueues.schedDequeue
  rw [if_neg (by rw [h]; decide)]

theorem activateThread_running (hr : s.tsType s.ksCurThread = .running)
    (hy : cfg.mcs = true → s.tcbYieldTo s.ksCurThread = none) : activateThread cfg s = s := by
  unfold activateThread
  rw [if_neg (fun hc => hc.2 (hy hc.1))]
  dsimp only
  rw [hr]

end ThreadStates

/-! ### The scheduler of the MCS kernel -/

section Chosen

variable {cfg : Config} {s : Kernel} {tcb : Ptr}

/-- No thread in the release queue is due. -/
def NoneDue (cfg : Config) (s : Kernel) : Prop :=
  ∀ head, s.ksReleaseQueue.head? = some head →
    ∃ sc, s.tcbSchedContext head = some sc ∧ refillReady cfg s sc = false

theorem awaken_eq (h : NoneDue cfg s) : awaken cfg s = .ok s := by
  unfold awaken
  cases hq : s.ksReleaseQueue with
  | nil => rfl
  | cons head rest =>
    obtain ⟨sc, hsc, hready⟩ := h head (by rw [hq]; rfl)
    unfold awakenLoop
    rw [hsc]
    dsimp only
    rw [if_neg (by rw [hready]; decide)]

/-- A thread that has just been put into its queue is chosen, if no ready thread has a
higher priority, and leaves the queues as they were. -/
theorem chooseThread_enqueued (hq : s.toReadyQueues.BitmapInv cfg)
    (hcur : s.ksCurDomain < cfg.numDomains) (hdom : s.ksCurDomain = s.tcbDomain tcb)
    (hprio : s.tcbPriority tcb < cfg.numPriorities) (hnq : s.tcbQueued tcb = false)
    (hhigh : s.toReadyQueues.isHighestPrio cfg s.ksCurDomain (s.tcbPriority tcb) = true) :
    chooseThread cfg (tcbSchedEnqueue cfg tcb s) = .ok { s with ksCurThread := tcb } := by
  have hrunning : (if 1 < cfg.numDomains then s.ksCurDomain else 0) = s.tcbDomain tcb := by
    split <;> omega
  rw [hdom] at hcur hhigh
  have hinv : (s.toReadyQueues.schedEnqueue cfg tcb (s.tcbDomain tcb)
      (s.tcbPriority tcb)).BitmapInv cfg := hq.schedEnqueue hcur hprio
  have hqueue : (s.toReadyQueues.schedEnqueue cfg tcb (s.tcbDomain tcb)
      (s.tcbPriority tcb)).ksReadyQueues
        (readyQueuesIndex cfg (s.tcbDomain tcb) (s.tcbPriority tcb)) = tcb :: _ :=
    ReadyQueues.ksReadyQueues_schedEnqueue hnq
  have hready : (s.toReadyQueues.schedEnqueue cfg tcb (s.tcbDomain tcb)
      (s.tcbPriority tcb)).ReadyAt cfg (s.tcbDomain tcb) (s.tcbPriority tcb) := by
    refine ⟨hprio, ?_⟩
    rw [hqueue]
    exact List.cons_ne_nil _ _
  obtain ⟨hne, hmax⟩ := ReadyQueues.getHighestPrio_eq hinv hcur hready fun p hp => by
    rcases ReadyQueues.readyAt_schedEnqueue hcur hprio hp with he | hr
    · exact Nat.le_of_eq he
    · exact (ReadyQueues.isHighestPrio_iff hq hcur).1 hhigh p hr
  have hswitch : switchToThread cfg tcb (tcbSchedEnqueue cfg tcb s) =
      { s with ksCurThread := tcb } := by
    have hback := ReadyQueues.schedDequeue_schedEnqueue hq hcur hprio hnq
    unfold switchToThread tcbSchedDequeue tcbSchedEnqueue
    rw [hback]
  unfold chooseThread
  dsimp only
  rw [show (tcbSchedEnqueue cfg tcb s).ksCurDomain = s.ksCurDomain from rfl, hrunning,
    if_neg (show (tcbSchedEnqueue cfg tcb s).ksReadyQueuesL1Bitmap (s.tcbDomain tcb) ≠ 0 from hne),
    show (tcbSchedEnqueue cfg tcb s).toReadyQueues.getHighestPrio cfg (s.tcbDomain tcb) =
      s.tcbPriority tcb from hmax,
    show (tcbSchedEnqueue cfg tcb s).ksReadyQueues
      (readyQueuesIndex cfg (s.tcbDomain tcb) (s.tcbPriority tcb)) = _ from hqueue]
  exact congrArg Except.ok hswitch

/-- A system call after which the scheduler switches to a thread that has just been put into its
queue and runs on the current scheduling context. -/
theorem handleSyscall_chosen {rest : CallFlags → Cap → Slot → Kernel → Except Stuck Invoked}
    {interrupt : Kernel → Except Stuck Kernel} {now : Nat} {syscall : Syscall} {s0 : Kernel}
    (hmcs : cfg.mcs = true) (hbudget : enoughBudget cfg (updateTimestamp now s0) = true)
    (hdomain : isCurDomainExpired cfg (updateTimestamp now s0) = false)
    (hbody : syscallBody cfg rest interrupt syscall (updateTimestamp now s0) =
      .ok (tcbSchedEnqueue cfg tcb s))
    (haction : s.ksSchedulerAction = .chooseNewThread)
    (hstopped : isRunnable s s.ksCurThread = false) (hdue : NoneDue cfg s)
    (htime : s.ksDomainTime ≠ 0) (hq : s.toReadyQueues.BitmapInv cfg)
    (hcur : s.ksCurDomain < cfg.numDomains) (hdom : s.ksCurDomain = s.tcbDomain tcb)
    (hprio : s.tcbPriority tcb < cfg.numPriorities) (hnq : s.tcbQueued tcb = false)
    (hhigh : s.toReadyQueues.isHighestPrio cfg s.ksCurDomain (s.tcbPriority tcb) = true)
    (hsc : s.tcbSchedContext tcb = some s.ksCurSC) (hrep : s.ksReprogram = false)
    (hrun : s.tsType tcb = .running) (hyield : s.tcbYieldTo tcb = none) :
    handleSyscall cfg rest interrupt now syscall s0 =
      .ok { s with ksCurThread := tcb, ksSchedulerAction := .resumeCurrentThread } := by
  have hawaken : awaken cfg (tcbSchedEnqueue cfg tcb s) = .ok (tcbSchedEnqueue cfg tcb s) :=
    awaken_eq hdue
  have hsched : isSchedulable cfg (tcbSchedEnqueue cfg tcb s)
      (tcbSchedEnqueue cfg tcb s).ksCurThread = false := by
    unfold isSchedulable
    rw [if_pos hmcs, show isRunnable (tcbSchedEnqueue cfg tcb s)
      (tcbSchedEnqueue cfg tcb s).ksCurThread = false from hstopped, Bool.false_and]
  have hthread : scheduleThread cfg (tcbSchedEnqueue cfg tcb s) =
      .ok { s with ksCurThread := tcb } := by
    have haction' : (tcbSchedEnqueue cfg tcb s).ksSchedulerAction = .chooseNewThread := haction
    have htime' : (tcbSchedEnqueue cfg tcb s).ksDomainTime ≠ 0 := htime
    unfold scheduleThread
    rw [haction']
    dsimp only
    rw [hsched, if_neg (by decide)]
    unfold scheduleChooseNewThread
    rw [if_neg htime']
    exact chooseThread_enqueued hq hcur hdom hprio hnq hhigh
  have hcontext : switchSchedContext cfg
      { s with ksCurThread := tcb, ksSchedulerAction := .resumeCurrentThread } =
      .ok { s with ksCurThread := tcb, ksSchedulerAction := .resumeCurrentThread } := by
    unfold switchSchedContext
    rw [hsc]
    dsimp only
    rw [if_neg (fun hc => hc.1 rfl)]
    refine bind_eq_ok.2 ⟨_, rfl, ?_⟩
    rw [if_neg (by rw [hrep]; decide)]
    rfl
  have hschedule : schedule cfg (tcbSchedEnqueue cfg tcb s) =
      .ok { s with ksCurThread := tcb, ksSchedulerAction := .resumeCurrentThread } := by
    unfold schedule
    rw [if_pos hmcs]
    refine bind_eq_ok.2 ⟨_, hawaken, bind_eq_ok.2 ⟨_, hthread, ?_⟩⟩
    rw [if_pos hmcs]
    refine bind_eq_ok.2 ⟨_, hcontext, ?_⟩
    rw [if_neg (by rw [hrep]; decide)]
  unfold handleSyscall
  rw [doIfBudget_ready hmcs hbudget hdomain]
  refine bind_eq_ok.2 ⟨_, hbody, bind_eq_ok.2 ⟨_, hschedule, ?_⟩⟩
  rw [activateThread_running (by exact hrun) fun _ => hyield]

end Chosen

/-! ### The message -/

/-- The message registers of `src` in the context of `dest`. -/
def copiedRegisters (src dest : Ptr) (n : Nat) (r : Ptr → Nat → Word) : Ptr → Nat → Word :=
  (List.range n).foldl
    (fun r i => update r dest (update (r dest) (msgRegister 0 + i) (r src (msgRegister 0 + i)))) r

/-- The registers after a message in registers from `src` to `dest`. -/
def sentRegisters (src dest : Ptr) (info : MessageInfo) (badge : Word) (r : Ptr → Nat → Word) :
    Ptr → Nat → Word :=
  let r := copiedRegisters src dest info.length r
  update r dest
    (update (update (r dest) badgeRegister badge) msgInfoRegister
      (wordFromMessageInfo { info with capsUnwrapped := 0 }))

/-- The registers after the message of `src`. -/
abbrev Kernel.sentMessage (s : Kernel) (src dest : Ptr) (badge : Word) : Ptr → Nat → Word :=
  sentRegisters src dest (messageInfoFromWordRaw (s.registers src msgInfoRegister)) badge
    s.registers

section Message

variable {cfg : Config} {s : Kernel} {src dest : Ptr}

theorem foldl_setRegister (f : Nat → Nat) (l : List Nat) (s : Kernel) :
    l.foldl (fun s i => s.setRegister dest (f i) (s.registers src (f i))) s =
      { s with registers := l.foldl (fun r i => update r dest
        (update (r dest) (f i) (r src (f i)))) s.registers } := by
  induction l generalizing s with
  | nil => rfl
  | cons i l ih =>
    rw [List.foldl_cons, ih]
    rfl

theorem fastpathCopyMrs_eq_copied (n : Nat) :
    fastpathCopyMrs n src dest s = { s with registers := copiedRegisters src dest n s.registers } :=
  foldl_setRegister _ _ s

/-- The slow path copies the same registers, as there are four of them in a row. -/
theorem copyRegisters_eq {n : Nat} (hn : n ≤ 4) :
    copyRegisters src dest n s =
      { s with registers := copiedRegisters src dest n s.registers } := by
  unfold copyRegisters
  rw [foldl_setRegister]
  congr 2
  apply List.foldl_ext
  intro r i hi
  have hreg : msgRegister i = msgRegister 0 + i := by
    have hlt : i < 4 := Nat.lt_of_lt_of_le (List.mem_range.1 hi) hn
    match i, hlt with
    | 0, _ | 1, _ | 2, _ | 3, _ => rfl
  rw [hreg]

/-- A message that passes the check of the fast paths fits into the registers and
carries no capabilities. -/
theorem fastpathMiCheck_bounds {w : Word} (h : fastpathMiCheck w = false) :
    (messageInfoFromWordRaw w).length ≤ 4 ∧ (messageInfoFromWordRaw w).extraCaps = 0 := by
  unfold fastpathMiCheck at h
  rw [decide_eq_false_iff_not] at h
  unfold messageInfoFromWordRaw
  dsimp only
  omega

theorem messageInfoFromWord_eq {w : Word} (h : fastpathMiCheck w = false) :
    messageInfoFromWord w = messageInfoFromWordRaw w := by
  have hlen := (fastpathMiCheck_bounds h).1
  unfold messageInfoFromWord
  rw [if_neg]
  unfold msgMaxLength
  omega

theorem lookupExtraCaps_eq_nil {w : Word} (h : fastpathMiCheck w = false) (thread : Ptr)
    (buffer : Option Nat) :
    lookupExtraCaps s thread buffer (messageInfoFromWord w) = .ok (.ok []) := by
  unfold lookupExtraCaps
  rw [messageInfoFromWord_eq h, (fastpathMiCheck_bounds h).2]
  cases buffer <;> rfl

/-- **The message.** What the slow path does with a message that passes the check of
the fast paths. -/
theorem doIPCTransfer_short (hfault : s.tcbFault src = .null)
    (hmi : fastpathMiCheck (s.registers src msgInfoRegister) = false)
    (endpoint : Option Ptr) (badge : Word) (grant : Bool) :
    doIPCTransfer cfg src endpoint badge grant dest s =
      .ok { s with registers := s.sentMessage src dest badge } := by
  obtain ⟨hlen, hextra⟩ := fastpathMiCheck_bounds hmi
  have hcaps : grantedCaps s src (lookupIPCBuffer cfg s false src) grant
      (messageInfoFromWord (s.registers src msgInfoRegister)) = .ok [] := by
    unfold grantedCaps
    rw [lookupExtraCaps_eq_nil hmi]
    cases grant <;> rfl
  have hcopy : copyMRs src (lookupIPCBuffer cfg s false src) dest (lookupIPCBuffer cfg s true dest)
      (messageInfoFromWordRaw (s.registers src msgInfoRegister)).length s =
      ((messageInfoFromWordRaw (s.registers src msgInfoRegister)).length,
        { s with registers := (copiedRegisters src dest
          (messageInfoFromWordRaw (s.registers src msgInfoRegister)).length s.registers) }) := by
    have hmin : min (messageInfoFromWordRaw (s.registers src msgInfoRegister)).length
        nMsgRegisters = (messageInfoFromWordRaw (s.registers src msgInfoRegister)).length :=
      Nat.min_eq_left hlen
    have hrest : (messageInfoFromWordRaw (s.registers src msgInfoRegister)).length -
        nMsgRegisters = 0 := Nat.sub_eq_zero_of_le hlen
    unfold copyMRs
    rw [hmin, copyRegisters_eq hlen]
    cases lookupIPCBuffer cfg s false src with
    | none => rfl
    | some sendBuf =>
      cases lookupIPCBuffer cfg s true dest with
      | none => rfl
      | some recvBuf =>
        unfold copyBuffer
        rw [hrest]
        rfl
  unfold doIPCTransfer
  rw [if_pos hfault]
  unfold doNormalTransfer
  dsimp only
  rw [hcaps, messageInfoFromWord_eq hmi, hcopy]
  show Except.ok _ = Except.ok _
  congr 1
  unfold deliver Kernel.sentMessage sentRegisters Kernel.setRegister
  dsimp only
  congr 2
  rw [update_idem, update_self, update_comm (by decide)]
  congr 3
  rw [← hextra]

/-- The end of both fast paths. -/
theorem fastpathRestore_eq (badge : Word) (info : MessageInfo) :
    fastpathRestore badge info dest
        { s with registers := copiedRegisters src dest info.length s.registers } =
      { s with
        ksCurThread := dest
        registers := sentRegisters src dest info badge s.registers } := by
  unfold fastpathRestore Kernel.setRegister sentRegisters
  dsimp only
  rw [update_idem, update_self]

end Message

end SeL4Kernel
