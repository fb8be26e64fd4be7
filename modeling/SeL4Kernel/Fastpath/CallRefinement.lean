import SeL4Kernel.Fastpath.Refinement

/-!
# The fast path of a call

`fastpath_call` does in one function what `handleSyscall(SysCall)` does with
`handleInvocation`, `sendIPC`, `doIPCTransfer`, `setupCallerCap` (or `reply_push` and
`schedContext_donate`), `schedule` and `activateThread`. The slow path is followed
step by step in the states that the guards of the fast path let through; each step
has a lemma that says which fields it writes.
-/

namespace SeL4Kernel

open Function Kernel Except

variable {cfg : Config} {s s' : Kernel}

/-! ### What the guards say -/

/-- The tests of `fastpath_call` have been passed, for the endpoint capability `c`
and the receiver `dest` in front of `queue`. -/
structure CallTaken (cfg : Config) (cptr msgInfo : Word) (s : Kernel) (c : EndpointCap)
    (dest : Ptr) (queue : List Ptr) : Prop where
  short : fastpathMiCheck msgInfo = false
  fault : s.tcbFault s.ksCurThread = .null
  lookup : lookupFp s.cspace (s.cap (tcbSlot s.ksCurThread tcbCTable)) cptr = .ok (.endpoint c)
  canSend : c.capCanSend = true
  state : s.epState c.capEPPtr = .recv
  waiting : s.epQueue c.capEPPtr = dest :: queue
  destOk : callDestOk cfg s c dest = true

theorem fastpathCall_taken {cptr msgInfo : Word}
    (h : fastpathCall cfg cptr msgInfo s = .ok (some s')) :
    ∃ c dest queue, CallTaken cfg cptr msgInfo s c dest queue ∧
      fastpathCallCommit cfg c dest queue (messageInfoFromWordRaw msgInfo) s = .ok s' := by
  obtain ⟨r, hguard, h⟩ := bind_eq_ok.1 h
  cases r with
  | none => cases h
  | some taken =>
    obtain ⟨c, dest, queue⟩ := taken
    obtain ⟨s1, hcommit, h⟩ := bind_eq_ok.1 h
    cases h
    refine ⟨c, dest, queue, ?_, hcommit⟩
    unfold fastpathCallGuard at hguard
    split at hguard
    · cases hguard
    rename_i hmi
    rw [not_or, Bool.not_eq_true, not_not] at hmi
    obtain ⟨cap, hlookup, hguard⟩ := bind_eq_ok.1 hguard
    split at hguard
    · split at hguard
      · cases hguard
      · rename_i hep
        rw [not_or, Bool.not_eq_false, not_not] at hep
        split at hguard
        · cases hguard
        rename_i dest' queue' hqueue
        split at hguard
        · rename_i hok
          cases hguard
          exact ⟨hmi.1, hmi.2, hlookup, hep.1, hep.2, hqueue, hok⟩
        · cases hguard
    · cases hguard

/-! ### Up to the delivery of the message -/

/-- The receiver has left the queue and has the message; the caller is still marked
for a restart. -/
def callDelivered (c : EndpointCap) (dest : Ptr) (queue : List Ptr) (s : Kernel) : Kernel :=
  let cur := s.ksCurThread
  { (s.setTsType cur .restart).setEp c.capEPPtr (if queue = [] then .idle else .recv) queue with
    registers := (sentRegisters cur dest (messageInfoFromWordRaw (s.registers cur msgInfoRegister))
      c.capEPBadge s.registers) }

/-- The flags of `seL4_Call`. -/
def callFlags : CallFlags :=
  { isCall := true, isBlocking := true, canDonate := true, firstPhase := false }

theorem epDequeue_head {ep dest : Ptr} {queue : List Ptr} (hq : s.epQueue ep = dest :: queue)
    (hs : s.epState ep = .recv) :
    epDequeue ep dest s = s.setEp ep (if queue = [] then .idle else .recv) queue := by
  unfold epDequeue tcbEPDequeue
  rw [hq, List.erase_cons_head, hs]

variable {c : EndpointCap} {dest sc reply : Ptr} {queue : List Ptr} {cptr : Word}
  {rest : CallFlags → Cap → Slot → Kernel → Except Stuck Invoked}
  {interrupt : Kernel → Except Stuck Kernel} {now : Nat} (h : EntryInv cfg s)
  (ht : CallTaken cfg cptr (s.registers s.ksCurThread msgInfoRegister) s c dest queue)
  (hc : CallTaken cfg (s.registers s.ksCurThread capRegister)
    (s.registers s.ksCurThread msgInfoRegister) s c dest queue)

include ht in
/-- `sendIPC` up to the transfer of the message. -/
theorem sendIPC_delivered :
    sendIPC cfg (endpointSendArgs callFlags c) s.ksCurThread c.capEPPtr
        (s.setTsType s.ksCurThread .restart) =
      if cfg.mcs then do
        let s' ← sendDonate cfg (endpointSendArgs callFlags c) s.ksCurThread dest
          (callDelivered c dest queue s)
        .ok (possibleSwitchTo cfg dest (setThreadState cfg dest .running s'))
      else
        .ok (sendReplyCap cfg (endpointSendArgs callFlags c) s.ksCurThread dest
          (callDelivered c dest queue s)) := by
  have hstate : (s.setTsType s.ksCurThread .restart).epState c.capEPPtr = .recv := ht.state
  have hqueue : (s.setTsType s.ksCurThread .restart).epQueue c.capEPPtr = dest :: queue :=
    ht.waiting
  unfold sendIPC
  rw [hstate, hqueue]
  dsimp only
  rw [epDequeue_head hqueue hstate]
  generalize hd : (s.setTsType s.ksCurThread .restart).setEp c.capEPPtr
    (if queue = [] then .idle else .recv) queue = d
  have hfault : d.tcbFault s.ksCurThread = .null := by rw [← hd]; exact ht.fault
  have hregs : d.registers = s.registers := by rw [← hd]; rfl
  have htransfer : doIPCTransfer cfg s.ksCurThread (some c.capEPPtr) c.capEPBadge c.capCanGrant
      dest d = _ := doIPCTransfer_short hfault (by rw [hregs]; exact ht.short) _ _ _
  rw [sentMessage, hregs] at htransfer
  have hdelivered : callDelivered c dest queue s = { d with
      registers := s.sentMessage s.ksCurThread dest c.capEPBadge } := by
    rw [← hd]
    rfl
  rw [hdelivered]
  exact congrArg (fun x => x >>= _) htransfer

include h ht

theorem CallTaken.dest_state : s.tsType dest = .blockedOnReceive :=
  (h.recvQueue _ ht.state).2 dest (by rw [ht.waiting]; exact List.mem_cons_self)

/-- The receiver is not the caller. -/
theorem CallTaken.cur_ne_dest : s.ksCurThread ≠ dest := by
  intro he
  have hdest := ht.dest_state h
  rw [← he, h.running] at hdest
  cases hdest

/-- The receiver may run next, and the caller may wait for its reply. -/
theorem CallTaken.dest_ok :
    (s.tcbPriority s.ksCurThread ≤ s.tcbPriority dest ∨
        s.toReadyQueues.isHighestPrio cfg s.ksCurDomain (s.tcbPriority dest) = true) ∧
      (c.capCanGrant || c.capCanGrantReply) = true ∧ s.ksCurDomain = s.tcbDomain dest ∧
      (cfg.mcs = true → s.tcbSchedContext dest = none ∧ (s.tcbState dest).replyObject ≠ none) := by
  have hok := ht.destOk
  unfold callDestOk at hok
  rw [h.fastpathDom_eq, Bool.and_eq_true, Bool.and_eq_true, Bool.and_eq_true, Bool.and_eq_true,
    Bool.or_eq_true, decide_eq_true_eq] at hok
  obtain ⟨⟨⟨⟨-, hprio⟩, hgrant⟩, hdom⟩, hmcs⟩ := hok
  refine ⟨hprio, hgrant, h.domain_eq hdom, fun hkernel => ?_⟩
  simpa [hkernel] using hmcs

omit h ht

/-- `handleInvocation` with a short message. -/
theorem handleInvocation_short {f : CallFlags} {slot : Slot} {t t' : Kernel}
    (hshort : fastpathMiCheck (s.registers s.ksCurThread msgInfoRegister) = false)
    (hslot : lookupSlot s s.ksCurThread cptr = .ok (.ok slot))
    (hdecode : decodeInvocation cfg rest f (s.cap slot) slot s = .ok (.none t))
    (hfinish : finishInvocation cfg f s.ksCurThread t = t') :
    handleInvocation cfg rest f cptr s = .ok (false, t') := by
  refine bind_eq_ok.2 ⟨_, hslot, ?_⟩
  refine bind_eq_ok.2 ⟨_, lookupExtraCaps_eq_nil hshort _ _, ?_⟩
  refine bind_eq_ok.2 ⟨_, hdecode, ?_⟩
  exact congrArg (fun s => ok (false, s)) hfinish

include h ht in
/-- `handleInvocation` on an endpoint, around `sendIPC`. -/
theorem handleInvocation_call
    (hrestart : setThreadState cfg s.ksCurThread .restart s = s.setTsType s.ksCurThread .restart)
    (hsend : sendIPC cfg (endpointSendArgs callFlags c) s.ksCurThread c.capEPPtr
      (s.setTsType s.ksCurThread .restart) = .ok s')
    (hstate : s'.tsType s.ksCurThread = .blockedOnReply) :
    handleInvocation cfg rest callFlags cptr s = .ok (false, s') := by
  obtain ⟨slot, hslot, hcap⟩ := lookupSlot_of_lookupFp h.cnodes ht.lookup (by simp)
  refine handleInvocation_short (t := s') ht.short hslot ?_ ?_
  · rw [hcap]
    unfold decodeInvocation
    dsimp only
    rw [if_pos ht.canSend, hrestart, hsend]
    rfl
  · unfold finishInvocation
    rw [hstate, if_neg (by decide)]

/-! ### The standard kernel -/

theorem isSchedulable_standard (hstd : cfg.mcs = false) (s : Kernel) (tcb : Ptr) :
    isSchedulable cfg s tcb = isRunnable s tcb := by
  unfold isSchedulable
  rw [if_neg (by rw [hstd]; decide)]

/-- A system call after which the scheduler takes its candidate. -/
theorem handleSyscall_switchTo (hstd : cfg.mcs = false) {syscall : Syscall}
    (hbody : syscallBody cfg rest interrupt syscall s = .ok s')
    (haction : s'.ksSchedulerAction = .switchTo dest)
    (hcur : isRunnable s' s'.ksCurThread = false) (hidle : s'.ksCurThread ≠ s'.ksIdleThread)
    (hq : s'.tcbQueued dest = false)
    (hprio : s'.tcbPriority s'.ksCurThread ≤ s'.tcbPriority dest ∨
      s'.toReadyQueues.isHighestPrio cfg s'.ksCurDomain (s'.tcbPriority dest) = true)
    (hrun : s'.tsType dest = .running) :
    handleSyscall cfg rest interrupt now syscall s =
      .ok { s' with ksCurThread := dest, ksSchedulerAction := .resumeCurrentThread } := by
  have hthread : scheduleThread cfg s' = .ok (switchToThread cfg dest s') := by
    unfold scheduleThread
    rw [haction]
    dsimp only
    rw [isSchedulable_standard hstd, hcur, if_neg (by decide)]
    unfold scheduleCandidate
    rw [if_neg, if_neg (fun hc => by cases hc.1)]
    rintro ⟨hfail, hlow⟩
    rw [Bool.or_eq_true, beq_iff_eq, decide_eq_true_eq] at hfail
    rcases hfail with he | hlt
    · exact hidle he
    rcases hprio with hle | hhigh
    · omega
    · rw [hhigh] at hlow
      cases hlow
  unfold switchToThread at hthread
  rw [tcbSchedDequeue_eq hq] at hthread
  have hschedule : schedule cfg s' =
      .ok { s' with ksCurThread := dest, ksSchedulerAction := .resumeCurrentThread } := by
    unfold schedule
    simp only [hstd, Bool.false_eq_true, if_false]
    exact bind_eq_ok.2 ⟨_, rfl, bind_eq_ok.2 ⟨_, hthread, rfl⟩⟩
  unfold handleSyscall doIfBudget
  rw [if_neg (by rw [hstd]; decide)]
  refine bind_eq_ok.2 ⟨_, hbody, bind_eq_ok.2 ⟨_, hschedule, ?_⟩⟩
  rw [activateThread_running (by exact hrun)]
  intro hmcs
  rw [hstd] at hmcs
  cases hmcs

/-- The reply capability that `cteInsert` puts into an empty caller slot. -/
theorem cteInsert_callerCap (hstd : StandardInv s) {cur : Ptr} (canGrant : Bool)
    (hcur : isRunnable s cur = true) (hdest : s.tsType dest = .blockedOnReceive)
    (hne : cur ≠ dest) :
    cteInsert (.reply canGrant false cur) (tcbSlot cur tcbReply) (tcbSlot dest tcbCaller) s.cspace =
      let callerSlot := tcbSlot dest tcbCaller
      let replySlot := tcbSlot cur tcbReply
      let cs := s.cspace.setCap callerSlot (.reply canGrant false cur)
      let cs := cs.setMdb callerSlot { cs.mdb callerSlot with mdbPrev := some replySlot }
      cs.setMdb replySlot { cs.mdb replySlot with
        mdbNext := some callerSlot, mdbRevocable := true, mdbFirstBadged := true } := by
  obtain ⟨masterGrant, hmaster, hnext, hrev, hfirst⟩ := hstd.master cur hcur
  obtain ⟨hnull, hnode⟩ := hstd.waiting dest hdest
  have hslots : tcbSlot cur tcbReply ≠ tcbSlot dest tcbCaller := by
    intro he
    exact hne (congrArg Slot.base he)
  have hcap : s.cspace.cap (tcbSlot cur tcbReply) = .reply masterGrant true cur := hmaster
  unfold cteInsert
  rw [hcap]
  unfold isCapRevocable setUntypedCapAsFull CSpace.setMdbNext CSpace.setMdbPrev
  dsimp only
  rw [hnext]
  simp only [CSpace.mdb_setMdb, CSpace.mdb_setCap, update_of_ne hslots, hnode, hrev,
    hfirst, nullMDBNode]

/-- After `sendIPC`: the receiver is to run, the caller waits, and the receiver has a
reply capability. -/
def callSentStandard (c : EndpointCap) (dest : Ptr) (queue : List Ptr) (s : Kernel) : Kernel :=
  let cur := s.ksCurThread
  { ((callDelivered c dest queue s).setTsType dest .running).setTsType cur .blockedOnReply with
    ksSchedulerAction := .switchTo dest
    cspace := cteInsert (.reply (s.tcbState dest).blockingIPCCanGrant false cur)
      (tcbSlot cur tcbReply) (tcbSlot dest tcbCaller) s.cspace }

include h ht in
theorem sendReplyCap_call (hstd : cfg.mcs = false) :
    sendReplyCap cfg (endpointSendArgs callFlags c) s.ksCurThread dest
        (callDelivered c dest queue s) =
      callSentStandard c dest queue s := by
  have hne := ht.cur_ne_dest h
  obtain ⟨-, hright, hdom, -⟩ := ht.dest_ok h
  have hgrant : (callDelivered c dest queue s).tcbState dest = s.tcbState dest :=
    update_of_ne hne.symm _ _
  have hrunning : setThreadState cfg dest .running (callDelivered c dest queue s) =
      (callDelivered c dest queue s).setTsType dest .running :=
    setThreadState_eq (Or.inl hne.symm)
  have hswitch :
      possibleSwitchTo cfg dest ((callDelivered c dest queue s).setTsType dest .running) =
      { (callDelivered c dest queue s).setTsType dest .running with
        ksSchedulerAction := .switchTo dest } := by
    have haction : ((callDelivered c dest queue s).setTsType dest .running).ksSchedulerAction =
      .resumeCurrentThread := h.resume
    unfold possibleSwitchTo
    rw [if_neg (fun hc => by rw [hstd] at hc; cases hc.1), if_neg, haction]
    exact fun hd => hd hdom
  unfold sendReplyCap
  rw [hgrant, hrunning, hswitch]
  show (if callFlags.isCall = true then _ else _) = _
  rw [if_pos (show callFlags.isCall = true from rfl), if_pos (by exact hright)]
  unfold setupCallerCap
  rw [setThreadState_eq (Or.inr (Or.inl (by simp)))]
  rfl

include h hc in
/-- The slow path of the standard kernel. -/
theorem handleSyscall_call_standard (hstd : cfg.mcs = false) :
    handleSyscall cfg rest interrupt now .call s =
      .ok { callSentStandard c dest queue s with
        ksCurThread := dest, ksSchedulerAction := .resumeCurrentThread } := by
  have hblocked : (callSentStandard c dest queue s).tsType s.ksCurThread = .blockedOnReply :=
    tsType_setTsType_self (s := (callDelivered c dest queue s).setTsType dest .running)
  have hrestart : setThreadState cfg s.ksCurThread .restart s =
      s.setTsType s.ksCurThread .restart := by
    refine setThreadState_eq (Or.inr (Or.inr ?_))
    rw [isSchedulable_standard hstd]
    simp [isRunnable, tsType, setTsType, setTcbState]
  have hsend := sendIPC_delivered hc
  rw [if_neg (by rw [hstd]; decide), sendReplyCap_call h hc hstd] at hsend
  have hrun : (callSentStandard c dest queue s).tsType dest = .running := by
    unfold callSentStandard tsType
    rw [tcbState_setTsType_of_ne (hc.cur_ne_dest h).symm, tcbState_setTsType_self]
  have hbody : syscallBody cfg rest interrupt .call s = _ :=
    bind_eq_ok.2 ⟨_, bind_eq_ok.2 ⟨_, handleInvocation_call h hc hrestart hsend hblocked, rfl⟩, rfl⟩
  exact handleSyscall_switchTo hstd hbody rfl
    (isRunnable_eq_false hblocked (by decide) (by decide)) h.cur_ne_idle
    (h.not_queued (isRunnable_eq_false (hc.dest_state h) (by decide) (by decide)))
    (hc.dest_ok h).1 hrun

/-- The endpoint and the current thread, as the fast path of a call writes them. -/
abbrev fastBlocked (c : EndpointCap) (queue : List Ptr) (s : Kernel) : Kernel :=
  (s.setEp c.capEPPtr (if queue = [] then .idle else s.epState c.capEPPtr) queue).setTsTypeNp
    s.ksCurThread .blockedOnReply

/-- The fast path of the standard kernel up to the message. -/
abbrev fastCalledStandard (c : EndpointCap) (dest : Ptr) (queue : List Ptr) (s : Kernel) : Kernel :=
  (fastpathCallStandard dest (fastBlocked c queue s)).setTsTypeNp dest .running

/-- The fast path of the standard kernel. -/
theorem fastpathCallCommit_standard (hstd : cfg.mcs = false) (info : MessageInfo) :
    fastpathCallCommit cfg c dest queue info s =
      .ok { fastCalledStandard c dest queue s with
        ksCurThread := dest
        registers := sentRegisters s.ksCurThread dest info c.capEPBadge s.registers } := by
  unfold fastpathCallCommit
  dsimp only
  rw [if_neg (by rw [hstd]; decide)]
  refine bind_eq_ok.2 ⟨_, rfl, ?_⟩
  rw [fastpathCopyMrs_eq_copied]
  exact congrArg ok
    (fastpathRestore_eq (s := fastCalledStandard c dest queue s) c.capEPBadge info)

include h ht in
/-- Both paths of the standard kernel leave the same state. -/
theorem visible_call_standard (hstd : StandardInv s) :
    visible { fastCalledStandard c dest queue s with
        ksCurThread := dest
        registers := s.sentMessage s.ksCurThread dest c.capEPBadge } =
      visible { callSentStandard c dest queue s with
        ksCurThread := dest, ksSchedulerAction := .resumeCurrentThread } := by
  have hne := ht.cur_ne_dest h
  apply visible_congr
  · unfold callSentStandard callDelivered fastCalledStandard fastpathCallStandard fastBlocked
      setTsTypeNp setTsType setTcbState setEp
    refine forall_of_two dest s.ksCurThread ?_ ?_ fun tcb hdest hcur => ?_
    · simp only [update_self, update_of_ne hne.symm]
      exact meaning_running rfl rfl rfl
    · simp only [update_self, update_of_ne hne]
      exact meaning_blockedOnReply rfl rfl rfl
    · simp only [update_of_ne hcur, update_of_ne hdest]
  · have hgrant : (fastBlocked c queue s).tcbState dest = s.tcbState dest :=
      update_of_ne hne.symm _ _
    have hcs := cteInsert_callerCap hstd (s.tcbState dest).blockingIPCCanGrant
      (show isRunnable s s.ksCurThread = true by unfold isRunnable; rw [h.running])
      (ht.dest_state h) hne
    unfold callSentStandard fastCalledStandard fastpathCallStandard
    dsimp only
    rw [hcs, hgrant, fastBlocked, ht.state, ← h.resume]
    rfl

/-! ### The MCS kernel -/

/-- `reply_push` of the current thread, which has `sc` and gives it to `dest`. -/
def replyPushed (dest reply sc : Ptr) (s : Kernel) : Kernel :=
  let cur := s.ksCurThread
  let s := s.setReplyObject dest none
  let s := { s with replyTCB := update s.replyTCB reply (some cur) }
  let s := s.setReplyObject cur (some reply)
  let s := { s.setTsType cur .blockedOnReply with ksSchedulerAction := .chooseNewThread }
  let s := replyLink reply sc s
  ((s.setTcbSchedContext cur none).setScTcb sc (some dest)).setTcbSchedContext dest (some sc)

/-- After `sendIPC`, but for the ready queue: the caller waits on the reply object of
the receiver, which has the caller's scheduling context and is to run. -/
def callSentMcs (c : EndpointCap) (dest : Ptr) (queue : List Ptr) (reply sc : Ptr) (s : Kernel) :
    Kernel :=
  let s := callDelivered c dest queue s
  let s := s.setReplyObject dest none
  let s := { s with replyTCB := update s.replyTCB reply none }
  (replyPushed dest reply sc (s.setTsType dest .inactive)).setTsType dest .running

variable (hmcs : cfg.mcs = true) (hm : McsInv s)
  (hreply : (s.tcbState dest).replyObject = some reply)

include hmcs in
theorem isSchedulable_of_not_runnable {tcb : Ptr} (h : isRunnable s tcb = false) :
    isSchedulable cfg s tcb = false := by
  unfold isSchedulable
  rw [if_pos hmcs, h, Bool.false_and]

theorem rescheduleRequired_chosen (h : s.ksSchedulerAction = .chooseNewThread) :
    rescheduleRequired cfg s = s := by
  unfold rescheduleRequired
  rw [h]
  dsimp only
  rw [← h]

/-- The reply is at the top of the call stack of `sc`. -/
def Replies.link (reply sc : Ptr) (r : Replies) : Replies :=
  { r with
    replyPrev := update r.replyPrev reply (r.scReply sc)
    replyNext := update ((r.scReply sc).elim r.replyNext
      fun old => update r.replyNext old (.reply reply)) reply (.schedContext sc)
    scReply := update r.scReply sc (some reply) }

theorem replyLink_eq :
    replyLink reply sc s = { s with toReplies := s.toReplies.link reply sc } := by
  unfold replyLink Replies.link
  cases s.scReply sc <;> rfl

/-- The donation of the current scheduling context, when the current thread has
stopped already. -/
theorem schedContextDonate_cur (howner : s.scTcb sc = some s.ksCurThread)
    (hq : s.tcbQueued s.ksCurThread = false) (haction : s.ksSchedulerAction = .chooseNewThread) :
    schedContextDonate cfg sc dest s =
      ((s.setTcbSchedContext s.ksCurThread none).setScTcb sc (some dest)).setTcbSchedContext dest
        (some sc) := by
  unfold schedContextDonate
  rw [howner]
  dsimp only
  rw [tcbSchedDequeue_eq hq,
    if_pos (Or.inl (show s.ksCurThread = (s.setTcbSchedContext _ _).ksCurThread from rfl)),
    rescheduleRequired_chosen (show (s.setTcbSchedContext _ _).ksSchedulerAction = _ from haction)]

include hmcs

theorem replyPush_cur (hresume : s.ksSchedulerAction = .resumeCurrentThread)
    (hsc : s.tcbSchedContext s.ksCurThread = some sc) (howner : s.scTcb sc = some s.ksCurThread)
    (hq : s.tcbQueued s.ksCurThread = false) (hd : s.tcbSchedContext dest = none) :
    replyPush cfg s.ksCurThread dest reply true s = replyPushed dest reply sc s := by
  unfold replyPushed
  dsimp only
  generalize hs1 : setReplyObject _ s.ksCurThread (some reply) = s1
  have hcur : s1.ksCurThread = s.ksCurThread := by rw [← hs1]; rfl
  have hstop : setThreadState cfg s.ksCurThread .blockedOnReply s1 =
      { s1.setTsType s.ksCurThread .blockedOnReply with
        ksSchedulerAction := .chooseNewThread } := by
    refine setThreadState_stop hcur.symm (by rw [← hs1]; exact hresume) ?_
    refine isSchedulable_of_not_runnable hmcs ?_
    exact isRunnable_eq_false tsType_setTsType_self (by decide) (by decide)
  unfold replyPush
  dsimp only
  rw [hsc, hs1, hstop]
  dsimp only
  subst hs1
  rw [if_pos ⟨hd, rfl⟩, replyLink_eq]
  exact schedContextDonate_cur howner hq rfl

include h ht hm hreply in
theorem sendDonate_call :
    (do
      let s' ← sendDonate cfg (endpointSendArgs callFlags c) s.ksCurThread dest
        (callDelivered c dest queue s)
      .ok (setThreadState cfg dest .running s')) =
      (.ok (callSentMcs c dest queue reply s.ksCurSC s) : Except Stuck Kernel) := by
  have hne := ht.cur_ne_dest h
  obtain ⟨-, hright, -, hfree⟩ := ht.dest_ok h
  have hstate : (callDelivered c dest queue s).tcbState dest = s.tcbState dest :=
    update_of_ne hne.symm _ _
  have hsend : sendDonate cfg (endpointSendArgs callFlags c) s.ksCurThread dest
      (callDelivered c dest queue s) = .ok (replyPushed dest reply s.ksCurSC (setTsType
        { (callDelivered c dest queue s).setReplyObject dest none with
          replyTCB := update s.replyTCB reply none } dest .inactive)) := by
    have hunlink : unlinkReplyObject cfg dest (callDelivered c dest queue s) = setTsType
        { (callDelivered c dest queue s).setReplyObject dest none with
          replyTCB := update s.replyTCB reply none } dest .inactive := by
      unfold unlinkReplyObject
      rw [hstate, hreply]
      exact setThreadState_eq (Or.inl hne.symm)
    unfold sendDonate
    rw [hstate, hreply, hunlink]
    dsimp only
    rw [if_pos (show ((endpointSendArgs callFlags c).canGrant ||
      (endpointSendArgs callFlags c).canGrantReply) = true from hright)]
    exact congrArg ok (replyPush_cur hmcs (s := setTsType
      { (callDelivered c dest queue s).setReplyObject dest none with
        replyTCB := update s.replyTCB reply none } dest .inactive)
      h.resume hm.cur.owner (hm.cur.scTcb_eq hm.links) h.curNotQueued (hfree hmcs).1)
  refine bind_eq_ok.2 ⟨_, hsend, congrArg ok (setThreadState_eq (Or.inl ?_))⟩
  unfold replyPushed
  dsimp only
  rw [replyLink_eq]
  exact hne.symm

omit hmcs

/-- A thread that can run, while the scheduler has to choose anyway. -/
theorem possibleSwitchTo_chosen (hsc : s.tcbSchedContext dest ≠ none)
    (hrel : s.tcbInReleaseQueue dest = false) (hdom : s.ksCurDomain = s.tcbDomain dest)
    (haction : s.ksSchedulerAction = .chooseNewThread) :
    possibleSwitchTo cfg dest s = tcbSchedEnqueue cfg dest s := by
  unfold possibleSwitchTo
  rw [if_neg, if_neg (fun hc => hc hdom), haction]
  · rw [rescheduleRequired_chosen haction]
  rintro ⟨_, hn | hr⟩
  · exact hsc hn
  · rw [hrel] at hr
    cases hr

theorem callSentMcs_eq :
    callSentMcs c dest queue reply sc s = { callDelivered c dest queue s with
      tcbState := (callSentMcs c dest queue reply sc s).tcbState
      toReplies := Replies.link reply sc
        { s.toReplies with replyTCB := update s.replyTCB reply (some s.ksCurThread) }
      tcbSchedContext := update (update s.tcbSchedContext s.ksCurThread none) dest (some sc)
      scTcb := update s.scTcb sc (some dest)
      ksSchedulerAction := .chooseNewThread } := by
  have howner : update (update s.replyTCB reply none) reply (some s.ksCurThread) = _ :=
    update_idem _ _ _
  rw [← howner]
  unfold callSentMcs replyPushed
  dsimp only
  rw [replyLink_eq]
  rfl

theorem tcbState_callSentMcs (reply sc : Ptr) (hne : s.ksCurThread ≠ dest) :
    (callSentMcs c dest queue reply sc s).tcbState =
      update (update s.tcbState s.ksCurThread
        { s.tcbState s.ksCurThread with tsType := .blockedOnReply, replyObject := some reply })
        dest { s.tcbState dest with tsType := .running, replyObject := none } := by
  unfold callSentMcs replyPushed
  dsimp only
  rw [replyLink_eq]
  unfold callDelivered setTsType setReplyObject setTcbState setEp
    setTcbSchedContext setScTcb
  simp only [update_self, update_of_ne hne, update_of_ne hne.symm, update_comm hne.symm,
    update_idem]

include h ht hmcs hm hreply in
theorem sendIPC_call_mcs :
    sendIPC cfg (endpointSendArgs callFlags c) s.ksCurThread c.capEPPtr
        (s.setTsType s.ksCurThread .restart) =
      .ok (tcbSchedEnqueue cfg dest (callSentMcs c dest queue reply s.ksCurSC s)) := by
  obtain ⟨-, -, hdom, hfree⟩ := ht.dest_ok h
  obtain ⟨s', hdonate, hrunning⟩ := bind_eq_ok.1 (sendDonate_call h ht hmcs hm hreply)
  rw [sendIPC_delivered ht, if_pos hmcs]
  refine bind_eq_ok.2 ⟨s', hdonate, congrArg ok ?_⟩
  rw [ok.inj hrunning, callSentMcs_eq]
  exact possibleSwitchTo_chosen (by simp) (hm.links.flag_of_free (hfree hmcs).1) hdom rfl

/-- No thread in the release queue becomes due when the current thread gives its
scheduling context to a thread that has none. -/
theorem noneDue_donated (hm : McsInv s) (hd : s.tcbSchedContext dest = none)
    (hdue : ∀ head sc, s.ksReleaseQueue.head? = some head → s.tcbSchedContext head = some sc →
      refillReady cfg s sc = false) {t : Kernel} {given : Option Ptr}
    (hqueue : t.ksReleaseQueue = s.ksReleaseQueue) (hrefills : t.toBudgets = s.toBudgets)
    (hbind : t.tcbSchedContext = update (update s.tcbSchedContext s.ksCurThread none) dest given) :
    NoneDue cfg t := by
  intro head hhead
  rw [hqueue] at hhead
  have hmem : head ∈ s.ksReleaseQueue := List.mem_of_head? hhead
  obtain ⟨sc, hsc⟩ := Option.ne_none_iff_exists'.1 (hm.links.released head hmem)
  have hcur : head ≠ s.ksCurThread := by
    intro he
    have hflag := (hm.links.flagged head).2 hmem
    rw [he] at hflag
    rw [show s.links.tcbInReleaseQueue s.ksCurThread = false from hm.cur.awake] at hflag
    cases hflag
  have hdest : head ≠ dest := by
    intro he
    rw [he] at hsc
    rw [show s.links.tcbSchedContext dest = none from hd] at hsc
    cases hsc
  refine ⟨sc, ?_, ?_⟩
  · rw [hbind, update_of_ne hdest, update_of_ne hcur]
    exact hsc
  · unfold refillReady
    rw [hrefills]
    exact hdue head sc hhead hsc

include hmcs

/-- The current thread is marked for a restart before an invocation. -/
theorem setThreadState_restart (hm : McsInv s) :
    setThreadState cfg s.ksCurThread .restart s = s.setTsType s.ksCurThread .restart := by
  refine setThreadState_eq (Or.inr (Or.inr ?_))
  have hrun : isRunnable (s.setTsType s.ksCurThread .restart) s.ksCurThread = true := by
    unfold isRunnable
    rw [tsType_setTsType_self]
  unfold isSchedulable
  rw [if_pos hmcs, show (s.setTsType s.ksCurThread .restart).tcbSchedContext s.ksCurThread = _
    from hm.cur.owner, hrun]
  show (true && (decide (0 < (s.schedContext s.ksCurSC).scRefillMax) &&
    !s.tcbInReleaseQueue s.ksCurThread)) = true
  rw [decide_eq_true hm.active, hm.cur.awake]
  rfl

include h hc hm hreply

/-- The slow path of the MCS kernel, for a thread with budget. -/
theorem syscallBody_call_mcs :
    syscallBody cfg rest interrupt .call s =
      .ok (tcbSchedEnqueue cfg dest (callSentMcs c dest queue reply s.ksCurSC s)) := by
  have hne := hc.cur_ne_dest h
  have hblocked : (tcbSchedEnqueue cfg dest (callSentMcs c dest queue reply s.ksCurSC s)).tsType
      s.ksCurThread = .blockedOnReply := by
    show ((callSentMcs c dest queue reply s.ksCurSC s).tcbState s.ksCurThread).tsType = _
    rw [tcbState_callSentMcs _ _ hne, update_of_ne hne, update_self]
  exact bind_eq_ok.2 ⟨_, bind_eq_ok.2 ⟨_, handleInvocation_call h hc
    (setThreadState_restart hmcs hm) (sendIPC_call_mcs h hc hmcs hm hreply) hblocked, rfl⟩, rfl⟩

/-- The slow path of the MCS kernel, with nothing else to do. -/
theorem handleSyscall_call_mcs (hready : McsReady cfg now s) :
    handleSyscall cfg rest interrupt now .call s =
      .ok { callSentMcs c dest queue reply s.ksCurSC (updateTimestamp now s) with
        ksCurThread := dest, ksSchedulerAction := .resumeCurrentThread } := by
  have hne := hc.cur_ne_dest h
  have hstopped := isRunnable_eq_false (hc.dest_state h) (by decide) (by decide)
  obtain ⟨hprio, -, hdom, hfree⟩ := hc.dest_ok h
  have hhigh : s.toReadyQueues.isHighestPrio cfg s.ksCurDomain (s.tcbPriority dest) = true := by
    rcases hprio with hle | hhigh
    · rw [ReadyQueues.isHighestPrio_iff h.bitmaps h.curDomain]
      intro p hp
      have hcur := (ReadyQueues.isHighestPrio_iff h.bitmaps h.curDomain).1 hready.highest p hp
      omega
    · exact hhigh
  have hbody : syscallBody cfg rest interrupt .call (updateTimestamp now s) =
      .ok (tcbSchedEnqueue cfg dest (callSentMcs c dest queue reply s.ksCurSC
        (updateTimestamp now s))) :=
    syscallBody_call_mcs (h.updateTimestamp now)
      ⟨hc.short, hc.fault, hc.lookup, hc.canSend, hc.state, hc.waiting, hc.destOk⟩ hmcs
      (hm.updateTimestamp now) hreply
  have hstates : (callSentMcs c dest queue reply s.ksCurSC (updateTimestamp now s)).tcbState = _ :=
    tcbState_callSentMcs _ _ hne
  rw [callSentMcs_eq, hstates] at hbody ⊢
  refine handleSyscall_chosen hmcs hready.budget hready.domain hbody rfl
    (isRunnable_eq_false (t := .blockedOnReply) ?_ (by decide) (by decide))
    (noneDue_donated (hm.updateTimestamp now) (hfree hmcs).1 hready.release rfl rfl rfl)
    hready.domainTime h.bitmaps h.curDomain hdom (h.priority dest) (h.not_queued hstopped) hhigh
    (update_self _ _ _) hm.reprogram ?_ (hm.yieldTo_none hstopped)
  · show (update (update s.tcbState s.ksCurThread _) dest _ s.ksCurThread).tsType = _
    rw [update_of_ne hne, update_self]
  · show (update (update s.tcbState s.ksCurThread _) dest _ dest).tsType = _
    rw [update_self]

omit h hc hmcs hm hreply

/-- The fast path of the MCS kernel up to the message. -/
def fastCalledMcs (c : EndpointCap) (dest : Ptr) (queue : List Ptr) (reply sc : Ptr) (s : Kernel) :
    Kernel :=
  let cur := s.ksCurThread
  let s := s.setEp c.capEPPtr (if queue = [] then .idle else s.epState c.capEPPtr) queue
  let s := s.setTsTypeNp cur .blockedOnReply
  let s := s.setReplyObject dest none
  let s := s.setReplyObject cur (some reply)
  let s := { s with replyTCB := update s.replyTCB reply (some cur) }
  let s := s.setScTcb sc (some dest)
  let s := s.setTcbSchedContext dest (some sc)
  let s := s.setTcbSchedContext cur none
  (replyLink reply sc s).setTsTypeNp dest .running

include hmcs hreply in
theorem fastpathCallCommit_mcs (info : MessageInfo) (hne : s.ksCurThread ≠ dest)
    (hsc : s.tcbSchedContext s.ksCurThread = some sc) :
    fastpathCallCommit cfg c dest queue info s =
      .ok { fastCalledMcs c dest queue reply sc s with
        ksCurThread := dest
        registers := sentRegisters s.ksCurThread dest info c.capEPBadge s.registers } := by
  have hreply' : ((fastBlocked c queue s).tcbState dest).replyObject = some reply := by
    rw [← hreply]
    exact congrArg ThreadState.replyObject (update_of_ne hne.symm _ _)
  unfold fastpathCallCommit
  dsimp only
  rw [if_pos hmcs]
  unfold fastpathCallMcs
  dsimp only
  rw [hreply', show (fastBlocked c queue s).tcbSchedContext
    (fastBlocked c queue s).ksCurThread = some sc from hsc]
  refine bind_eq_ok.2 ⟨_, rfl, ?_⟩
  rw [fastpathCopyMrs_eq_copied]
  have hregs : (fastCalledMcs c dest queue reply sc s).registers = s.registers := by
    unfold fastCalledMcs
    dsimp only
    rw [replyLink_eq]
    rfl
  rw [← hregs]
  exact congrArg ok (fastpathRestore_eq (s := fastCalledMcs c dest queue reply sc s)
    c.capEPBadge info)

theorem tcbState_fastCalledMcs (reply sc : Ptr) (hne : s.ksCurThread ≠ dest) :
    (fastCalledMcs c dest queue reply sc s).tcbState =
      update (update s.tcbState s.ksCurThread
        { s.tcbState s.ksCurThread with
          tsType := .blockedOnReply, blockingObject := 0, replyObject := some reply })
        dest { s.tcbState dest with
          tsType := .running, blockingObject := 0, replyObject := none } := by
  unfold fastCalledMcs
  dsimp only
  rw [replyLink_eq]
  unfold setTsTypeNp setReplyObject setTcbState setEp
    setTcbSchedContext setScTcb
  simp only [update_self, update_of_ne hne, update_of_ne hne.symm, update_comm hne.symm,
    update_idem]

theorem fastCalledMcs_eq :
    fastCalledMcs c dest queue reply sc s =
      { s.setEp c.capEPPtr (if queue = [] then .idle else s.epState c.capEPPtr) queue with
        tcbState := (fastCalledMcs c dest queue reply sc s).tcbState
        toReplies := Replies.link reply sc
          { s.toReplies with replyTCB := update s.replyTCB reply (some s.ksCurThread) }
        tcbSchedContext := update (update s.tcbSchedContext dest (some sc)) s.ksCurThread none
        scTcb := update s.scTcb sc (some dest) } := by
  unfold fastCalledMcs
  dsimp only
  rw [replyLink_eq]
  rfl

include h ht in
/-- Both paths of the MCS kernel leave the same state. -/
theorem visible_call_mcs (now : Nat) (reply sc : Ptr) :
    visible { fastCalledMcs c dest queue reply sc s with
        ksCurThread := dest
        registers := s.sentMessage s.ksCurThread dest c.capEPBadge } =
      visible { callSentMcs c dest queue reply sc (updateTimestamp now s) with
        ksCurThread := dest, ksSchedulerAction := .resumeCurrentThread } := by
  have hne := ht.cur_ne_dest h
  apply visible_congr
  · intro tcb
    show ((fastCalledMcs c dest queue reply sc s).tcbState tcb).meaning =
      ((callSentMcs c dest queue reply sc (updateTimestamp now s)).tcbState tcb).meaning
    rw [tcbState_callSentMcs (s := updateTimestamp now s) _ _ hne, tcbState_fastCalledMcs _ _ hne]
    show _ = (update (update s.tcbState s.ksCurThread _) dest _ tcb).meaning
    revert tcb
    refine forall_of_two dest s.ksCurThread ?_ ?_ fun tcb hdest hcur => ?_
    · simp only [update_self]
      exact meaning_running rfl rfl rfl
    · simp only [update_self, update_of_ne hne]
      exact meaning_blockedOnReply rfl rfl rfl
    · simp only [update_of_ne hcur, update_of_ne hdest]
  · rw [callSentMcs_eq, fastCalledMcs_eq, ht.state, ← h.resume, update_comm hne.symm]
    rfl

/-! ### Both kernels -/

/-- **Main result.** Where `fastpath_call` does not divert to the slow path, it leaves
the state that `handleSyscall(SysCall)` with `schedule` and `activateThread` leaves. -/
theorem fastpath_call_refines (rest : CallFlags → Cap → Slot → Kernel → Except Stuck Invoked)
    (interrupt : Kernel → Except Stuck Kernel) (now : Nat) (h : EntryInv cfg s)
    (hstd : cfg.mcs = false → StandardInv s)
    (hmcs : cfg.mcs = true → McsInv s ∧ McsReady cfg now s) {s' : Kernel}
    (hfast : fastpathCall cfg (s.registers s.ksCurThread capRegister)
      (s.registers s.ksCurThread msgInfoRegister) s = .ok (some s')) :
    ∃ s'', handleSyscall cfg rest interrupt now .call s = .ok s'' ∧ s'.visible = s''.visible := by
  obtain ⟨c, dest, queue, ht, hcommit⟩ := fastpathCall_taken hfast
  have hne := ht.cur_ne_dest h
  cases hkernel : cfg.mcs with
  | false =>
    refine ⟨_, handleSyscall_call_standard h ht hkernel, ?_⟩
    rw [fastpathCallCommit_standard hkernel] at hcommit
    rw [← ok.inj hcommit]
    exact visible_call_standard h ht (hstd hkernel)
  | true =>
    obtain ⟨hm, hready⟩ := hmcs hkernel
    obtain ⟨-, -, -, hfree⟩ := ht.dest_ok h
    obtain ⟨reply, hreply⟩ := Option.ne_none_iff_exists'.1 (hfree hkernel).2
    refine ⟨_, handleSyscall_call_mcs h ht hkernel hm hreply hready, ?_⟩
    rw [fastpathCallCommit_mcs hkernel hreply _ hne hm.cur.owner] at hcommit
    rw [← ok.inj hcommit]
    exact visible_call_mcs h ht now reply s.ksCurSC

/-! ### A call without budget -/

/-- The initial thread of `bootState` runs, with a capability to an endpoint at address
0, where thread 3 waits with the reply object 41. -/
def callState : Kernel :=
  let s := bootState.setTcbState 3 { bootState.tcbState 3 with
    tsType := .blockedOnReceive, blockingObject := 21, replyObject := some 41 }
  let s := { s with replyTCB := update s.replyTCB 41 (some 3) }
  let s := s.setEp 21 .recv [3]
  let cs := s.cspace.setCap (tcbSlot 1 tcbCTable)
    (.cnode { capCNodeRadix := 1, capCNodeGuardSize := 63, capCNodeGuard := 0, capCNodePtr := 50 })
  let cs := cs.setCap { base := 50, index := 0 } (.endpoint serverEndpoint)
  let cs := cs.setCap (tcbSlot 3 tcbVTable)
    (.pageTable { capPTMappedASID := 1, capPTBasePtr := 60, capPTIsMapped := true,
                  capPTMappedAddress := 0 })
  { s with cspace := cs }

theorem callState_replyObject (tcb : Ptr) :
    (callState.tcbState tcb).replyObject = if tcb = 3 then some 41 else none := by
  simp only [callState, setEp, setTcbState, update_apply, bootState,
    setSchedContext, setScTcb, setTcbSchedContext, setTsType,
    cleared]
  split_ifs <;> rfl

/-- One reply object has an owner, which is the thread that names it. -/
theorem update_some_iff (r t reply tcb : Ptr) :
    update (fun _ => none) r (some t) reply = some tcb ↔
      (if tcb = t then some r else none) = some reply := by
  rw [update_apply, Option.ite_none_right_eq_some, Option.ite_none_right_eq_some,
    Option.some.injEq, Option.some.injEq, @eq_comm _ t, @eq_comm _ r]
  exact and_comm

theorem callState_entry : EntryInv tickConfig callState where
  cnodes := by
    have hboot : CNodesWellFormed bootState.cspace := nofun
    refine ((hboot.setCap ?_).setCap ?_).setCap ?_
    · rintro _ ⟨⟩
      exact ⟨by decide, by decide, by decide, by decide⟩
    · rintro _ ⟨⟩
    · rintro _ ⟨⟩
  running := rfl
  resume := rfl
  idle := rfl
  recvQueue := by
    intro ep hep
    by_cases he : ep = 21
    · subst he
      refine ⟨by decide, fun tcb htcb => ?_⟩
      obtain rfl : tcb = 3 := List.mem_singleton.1 htcb
      rfl
    · have hidle : callState.epState ep = .idle := update_of_ne he _ _
      rw [hidle] at hep
      cases hep
  idleQueue := by
    intro ep hep
    by_cases he : ep = 21
    · subst he
      cases hep
    · exact update_of_ne he _ _
  queued := by
    intro tcb hq
    cases hq
  curNotQueued := rfl
  curDomain := by decide
  domain := fun _ => Nat.zero_lt_one
  priority := by
    intro tcb
    show (if tcb = 3 then 200 else 100) < 256
    split <;> decide
  bitmaps := by
    intro dom _
    have hempty : (callState.toReadyQueues.bitmap tickConfig dom).Holds (fun _ => False) := by
      refine Bitmap.holds_empty rfl fun i => ?_
      show (if i < l2BitmapSize tickConfig then (0 : Word) else 0) = 0
      split <;> rfl
    refine ⟨fun p => (hempty.mem p).trans ?_, hempty.top⟩
    exact ⟨False.elim, fun hp => hp.2 rfl⟩

theorem callState_mcs : McsInv callState where
  links := boot_inv ⟨1, 2, 11, 12, by decide, by decide, rfl⟩
  cur := ⟨rfl, rfl⟩
  active := by decide
  reprogram := rfl
  yieldTo := by
    intro tcb hy
    exact absurd rfl hy
  replies := by
    intro reply tcb
    rw [callState_replyObject]
    exact update_some_iff 41 3 reply tcb
  callers := by
    intro reply tcb sc _ hn
    cases hn

/-- At time 0 the current thread has its budget, and nothing else is to be done. -/
theorem callState_ready : McsReady tickConfig 0 callState where
  budget := by decide +kernel
  domain := by decide +kernel
  domainTime := by decide
  release := by
    intro head sc hh
    cases hh
  highest := by decide +kernel

/-- The standard kernel. -/
def standardConfig : Config := { tickConfig with mcs := false }

/-- As `callState`, with a thread 4 that has called the initial thread. -/
def standardState : Kernel :=
  let s := callState.setTsType 4 .blockedOnReply
  let cs := s.cspace.setCap (tcbSlot 1 tcbReply) (.reply true true 1)
  let cs := cs.setCap (tcbSlot 4 tcbReply) (.reply true true 4)
  let cs := cs.setCap (tcbSlot 1 tcbCaller) (.reply true false 4)
  let cs := cs.setCap (tcbSlot 4 tcbVTable)
    (.pageTable { capPTMappedASID := 1, capPTBasePtr := 60, capPTIsMapped := true,
                  capPTMappedAddress := 0 })
  let cs := cs.setMdb (tcbSlot 1 tcbReply)
    { nullMDBNode with mdbRevocable := true, mdbFirstBadged := true }
  let cs := cs.setMdb (tcbSlot 4 tcbReply)
    { nullMDBNode with
      mdbNext := some (tcbSlot 1 tcbCaller), mdbRevocable := true, mdbFirstBadged := true }
  let cs := cs.setMdb (tcbSlot 1 tcbCaller)
    { nullMDBNode with mdbPrev := some (tcbSlot 4 tcbReply) }
  { s with cspace := cs }

theorem standardState_entry : EntryInv standardConfig standardState :=
  { callState_entry with
    cnodes := by
      refine (((callState_entry.cnodes.setCap ?_).setCap ?_).setCap ?_).setCap ?_ <;> rintro _ ⟨⟩
    recvQueue := by
      intro ep hep
      obtain ⟨hne, hrecv⟩ := callState_entry.recvQueue ep hep
      refine ⟨hne, fun tcb htcb => ?_⟩
      have hblocked := hrecv tcb htcb
      by_cases h4 : tcb = 4
      · subst h4
        cases hblocked
      · exact (congrArg ThreadState.tsType (update_of_ne h4 _ _)).trans hblocked
    queued := by
      intro tcb hq
      cases hq }

theorem standardState_tsType (tcb : Ptr) : standardState.tsType tcb =
    if tcb = 4 then .blockedOnReply else if tcb = 3 then .blockedOnReceive
    else if tcb = 2 then .idleThreadState else if tcb = 1 then .running else .inactive := by
  simp only [tsType, standardState, callState, setEp, setTcbState, update_apply, bootState,
    setSchedContext, setScTcb, setTcbSchedContext, setTsType, cleared]
  split_ifs <;> rfl

theorem standardState_cap (slot : Slot) : standardState.cap slot =
    if slot = tcbSlot 4 tcbVTable ∨ slot = tcbSlot 3 tcbVTable then
      .pageTable { capPTMappedASID := 1, capPTBasePtr := 60, capPTIsMapped := true,
                   capPTMappedAddress := 0 }
    else if slot = tcbSlot 1 tcbCaller then .reply true false 4
    else if slot = tcbSlot 4 tcbReply then .reply true true 4
    else if slot = tcbSlot 1 tcbReply then .reply true true 1
    else if slot = { base := 50, index := 0 } then .endpoint serverEndpoint
    else if slot = tcbSlot 1 tcbCTable then
      .cnode { capCNodeRadix := 1, capCNodeGuardSize := 63, capCNodeGuard := 0, capCNodePtr := 50 }
    else .null := by
  simp only [standardState, callState, bootState, Kernel.cap, CSpace.setCap, CSpace.setMdb,
    setTsType, setTcbState, setEp, setSchedContext, setScTcb, setTcbSchedContext, cleared,
    update_apply]
  split_ifs <;> simp_all [tcbSlot, tcbVTable, tcbCaller, tcbReply, tcbCTable]

theorem standardState_inv : StandardInv standardState where
  apart := by
    intro slot node h
    rw [standardState_cap] at h
    split_ifs at h
    cases h
    decide
  master := by
    intro tcb h
    obtain rfl : tcb = 1 := by
      rw [isRunnable, standardState_tsType] at h
      by_contra hne
      split_ifs at h
    exact ⟨true, rfl, rfl, rfl, rfl⟩
  waiting := by
    intro tcb h
    obtain rfl : tcb = 3 := by
      rw [standardState_tsType] at h
      by_contra hne
      split_ifs at h
    exact ⟨rfl, rfl⟩
  caller := by
    intro tcb canGrant master caller h
    obtain rfl : tcb = 1 := by
      by_contra hne
      rw [standardState_cap] at h
      simp [tcbSlot, tcbVTable, tcbCaller, tcbReply, tcbCTable, hne] at h
    cases h
    exact ⟨rfl, rfl, rfl, rfl, rfl, rfl⟩

/-- The thread that runs after a fast path, or after the slow path. -/
def nextThread (r : Except Stuck (Option Kernel)) : Option Ptr :=
  match r with
  | .ok (some s) => some s.ksCurThread
  | _ => none

/-- At time 0 the fast path and the slow path lead to the same state, in which thread `tcb`
runs. -/
def BothLead (cfg : Config) (fast : Except Stuck (Option Kernel)) (syscall : Syscall) (s : Kernel)
    (tcb : Ptr) : Prop :=
  ∃ s' s'', fast = .ok (some s') ∧
    handleSyscall cfg (fun _ _ _ s => .ok (.none s)) .ok 0 syscall s = .ok s'' ∧
    s'.visible = s''.visible ∧ s'.ksCurThread = tcb

theorem BothLead.of {cfg : Config} {fast : Except Stuck (Option Kernel)} {syscall : Syscall}
    {s : Kernel} {tcb : Ptr} (hnext : nextThread fast = some tcb)
    (h : ∀ s', fast = .ok (some s') →
      ∃ s'', handleSyscall cfg (fun _ _ _ s => .ok (.none s)) .ok 0 syscall s = .ok s'' ∧
        s'.visible = s''.visible) : BothLead cfg fast syscall s tcb := by
  unfold nextThread at hnext
  split at hnext
  · rename_i s'
    obtain ⟨s'', hslow, hvisible⟩ := h s' rfl
    exact ⟨s', s'', rfl, hslow, hvisible, Option.some.inj hnext⟩
  · cases hnext

/-- At time 100 the budget is used up. The fast path still makes the call, and thread 3
runs; the slow path charges the current thread instead. -/
theorem fastpath_call_without_budget :
    EntryInv tickConfig callState ∧ McsInv callState ∧ callState.ksReleaseQueue = [] ∧
      nextThread (fastpathCall tickConfig (callState.registers callState.ksCurThread capRegister)
        (callState.registers callState.ksCurThread msgInfoRegister) callState) = some 3 ∧
      nextThread ((handleSyscall tickConfig (fun _ _ _ s => .ok (.none s)) .ok 100 .call
        callState).map some) = some 1 :=
  ⟨callState_entry, callState_mcs, rfl, by decide +kernel, by decide +kernel⟩

/-- A call with time left, in both kernels. -/
theorem fastpath_call_refines_callState :
    BothLead tickConfig (fastpathCall tickConfig (callState.registers 1 capRegister)
      (callState.registers 1 msgInfoRegister) callState) .call callState 3 ∧
    BothLead standardConfig (fastpathCall standardConfig (standardState.registers 1 capRegister)
      (standardState.registers 1 msgInfoRegister) standardState) .call standardState 3 :=
  ⟨.of (by decide +kernel) fun _ => fastpath_call_refines _ .ok 0 callState_entry nofun
      fun _ => ⟨callState_mcs, callState_ready⟩,
    .of (by decide +kernel) fun _ => fastpath_call_refines _ .ok 0 standardState_entry
      (fun _ => standardState_inv) nofun⟩

end SeL4Kernel
