import SeL4Kernel.Fastpath.CallRefinement

/-!
# The fast path of a reply and receive

`fastpath_reply_recv` merges two operations of the slow path: the reply
(`handleReply`, or `handleInvocation` on a reply object) and the receive
(`handleRecv`), with the scheduler behind them. The slow path is followed through
both in the states that the guards of the fast path let through.

In the MCS kernel the slow path has two more things to look at than it has for a
call: whether the head refill of the scheduling context that goes back is ready, and,
if a notification is bound to the current thread, the scheduling context of that
notification (`ReplyReady`).
-/

namespace SeL4Kernel

open Function Kernel

variable {cfg : Config} {s : Kernel}

/-! ### What the guards say -/

/-- The tests of `fastpath_reply_recv` have been passed, for the endpoint capability
`c`, the reply object `r` (in the MCS kernel) and the thread `caller`. -/
structure ReplyTaken (cfg : Config) (cptr msgInfo reply : Word) (s : Kernel) (c : EndpointCap)
    (r caller : Ptr) : Prop where
  short : fastpathMiCheck msgInfo = false
  fault : s.tcbFault s.ksCurThread = .null
  lookup : lookupFp s.cspace (s.cap (tcbSlot s.ksCurThread tcbCTable)) cptr = .ok (.endpoint c)
  canReceive : c.capCanReceive = true
  found : replyCaller cfg reply s = .ok (some (r, caller))
  noSignal : noPendingSignal s = true
  state : s.epState c.capEPPtr ≠ .send
  callerOk : replyCallerOk cfg s caller = true

/-- The same with the arguments in the registers of the current thread. -/
abbrev ReplyPassed (cfg : Config) (s : Kernel) : EndpointCap → Ptr → Ptr → Prop :=
  ReplyTaken cfg (s.registers s.ksCurThread capRegister)
    (s.registers s.ksCurThread msgInfoRegister) (s.registers s.ksCurThread replyRegister) s

theorem fastpathReplyRecv_taken {cptr msgInfo reply : Word} {s' : Kernel}
    (h : fastpathReplyRecv cfg cptr msgInfo reply s = .ok (some s')) :
    ∃ c r caller, ReplyTaken cfg cptr msgInfo reply s c r caller ∧
      fastpathReplyRecvCommit cfg c r caller (messageInfoFromWordRaw msgInfo) s = .ok s' := by
  obtain ⟨g, hguard, h⟩ := bind_eq_ok.1 h
  cases g with
  | none => cases h
  | some taken =>
    obtain ⟨c, r, caller⟩ := taken
    obtain ⟨s1, hcommit, h⟩ := bind_eq_ok.1 h
    cases h
    refine ⟨c, r, caller, ?_, hcommit⟩
    unfold fastpathReplyRecvGuard at hguard
    split at hguard
    · cases hguard
    rename_i hmi
    rw [not_or, Bool.not_eq_true, not_not] at hmi
    obtain ⟨cap, hlookup, hguard⟩ := bind_eq_ok.1 hguard
    split at hguard
    · split at hguard
      · cases hguard
      · rename_i hrecv
        rw [Bool.not_eq_false] at hrecv
        obtain ⟨found, hfound, hguard⟩ := bind_eq_ok.1 hguard
        split at hguard
        · cases hguard
        split at hguard
        · rename_i hok
          cases hguard
          exact ⟨hmi.1, hmi.2, hlookup, hrecv, hfound, hok.1, hok.2.1, hok.2.2⟩
        · cases hguard
    · cases hguard

/-! ### The message and the queue -/

/-- A message changes the registers of its receiver only. -/
theorem sentRegisters_of_ne {src dest tcb : Ptr} (h : tcb ≠ dest) (info : MessageInfo)
    (badge : Word) (r : Ptr → Nat → Word) : sentRegisters src dest info badge r tcb = r tcb := by
  have hcopied : ∀ (l : List Nat) (r : Ptr → Nat → Word),
      l.foldl (fun (r : Ptr → Nat → Word) i => update r dest
        (update (r dest) (msgRegister 0 + i) (r src (msgRegister 0 + i)))) r tcb =
      r tcb := by
    intro l
    induction l with
    | nil => intro r; rfl
    | cons i l ih =>
      intro r
      rw [List.foldl_cons, ih, update_of_ne h]
  unfold sentRegisters copiedRegisters
  rw [update_of_ne h, hcopied]

/-- The queue as the fast path writes it. -/
theorem fastpathBlock_queue (tcb : Ptr) (queue : List Ptr) :
    (if queue = [] then [tcb] else tcbEPAppend cfg s tcb queue) = tcbEPAppend cfg s tcb queue := by
  split
  · rename_i hq
    rw [hq]
    unfold tcbEPAppend
    split <;> rfl
  · rfl

variable {c : EndpointCap} {r caller sc : Ptr} {cptr reply : Word}
  {rest : CallFlags → Cap → Slot → Kernel → Except Stuck Invoked}
  {interrupt : Kernel → Except Stuck Kernel} {now : Nat} (h : EntryInv cfg s)
  (ht : ReplyTaken cfg cptr (s.registers s.ksCurThread msgInfoRegister) reply s c r caller)

include h ht in
/-- The caller may run next. -/
theorem ReplyTaken.caller_ok :
    s.tcbFault caller = .null ∧
      s.toReadyQueues.isHighestPrio cfg s.ksCurDomain (s.tcbPriority caller) = true ∧
      s.ksCurDomain = s.tcbDomain caller ∧
      (cfg.mcs = true → s.tcbSchedContext caller = none) := by
  have hok := ht.callerOk
  unfold replyCallerOk at hok
  rw [h.fastpathDom_eq, Bool.and_eq_true, Bool.and_eq_true, Bool.and_eq_true, Bool.and_eq_true,
    beq_iff_eq] at hok
  obtain ⟨⟨⟨⟨hfault, -⟩, hhigh⟩, hdom⟩, hmcs⟩ := hok
  refine ⟨hfault, hhigh, h.domain_eq hdom, fun hkernel => ?_⟩
  simpa [hkernel] using hmcs

/-- A receive that finds neither a signal nor a message. -/
theorem receiveIPC_waiting {reply : Option Ptr} (hstate : s.epState c.capEPPtr ≠ .send)
    (hsignal : noPendingSignal s = true)
    (htake : cfg.mcs = true → takeReply cfg s.ksCurThread reply s = .ok s)
    (hkeep : cfg.mcs = true → ∀ ntfn, s.tcbBoundNotification s.ksCurThread = some ntfn →
      maybeReturnSchedContext cfg ntfn s.ksCurThread s = .ok s) :
    receiveIPC cfg s.ksCurThread c true reply s =
      .ok (blockOnReceive cfg s.ksCurThread c reply s) := by
  have hblock : receiveMessage cfg s.ksCurThread c true reply s =
      .ok (blockOnReceive cfg s.ksCurThread c reply s) := by
    unfold receiveMessage
    cases hep : s.epState c.capEPPtr with
    | send => exact absurd hep hstate
    | idle => rfl
    | recv => rfl
  have htaken : (if cfg.mcs then takeReply cfg s.ksCurThread reply s else .ok s) = .ok s := by
    split
    next hmcs => exact htake hmcs
    next => rfl
  refine bind_eq_ok.2 ⟨_, htaken, ?_⟩
  unfold noPendingSignal at hsignal
  cases hbound : s.tcbBoundNotification s.ksCurThread with
  | none => exact hblock
  | some ntfn =>
    rw [hbound] at hsignal
    dsimp only at hsignal ⊢
    rw [if_neg (bne_iff_ne.1 hsignal)]
    refine bind_eq_ok.2 ⟨s, ?_, hblock⟩
    split
    next hmcs => exact hkeep hmcs.1 ntfn hbound
    next => rfl

/-! ### The standard kernel -/

variable (hstd : cfg.mcs = false) (hmcs : cfg.mcs = true) (hinv : StandardInv s)
  (hp : ReplyPassed cfg s c r caller) (hne : s.ksCurThread ≠ caller)
  (hbound : ∀ ntfn, s.tcbBoundNotification s.ksCurThread = some ntfn →
    s.ntfnSchedContext ntfn ≠ none)

include hstd ht in
/-- The reply capability in the caller slot of the current thread. -/
theorem ReplyTaken.callerCap :
    ∃ canGrant master, s.cap (tcbSlot s.ksCurThread tcbCaller) = .reply canGrant master caller := by
  have hfound := ht.found
  unfold replyCaller at hfound
  rw [if_neg (by rw [hstd]; decide)] at hfound
  unfold replyCallerStandard at hfound
  split at hfound
  · rename_i canGrant master _ hcap
    cases hfound
    exact ⟨canGrant, master, hcap⟩
  · cases hfound

include hinv in
/-- The deletion of a reply capability, as `emptySlot` and the fast path do it. -/
theorem emptySlot_callerCap {canGrant master : Bool}
    (hcap : s.cap (tcbSlot s.ksCurThread tcbCaller) = .reply canGrant master caller) :
    emptySlot (tcbSlot s.ksCurThread tcbCaller) s.cspace =
      let prev := tcbSlot caller tcbReply
      let callerSlot := tcbSlot s.ksCurThread tcbCaller
      let cs := s.cspace.setMdb prev { s.cspace.mdb prev with
        mdbNext := none, mdbRevocable := true, mdbFirstBadged := true }
      (cs.setCap callerSlot .null).setMdb callerSlot nullMDBNode := by
  obtain ⟨_, _, hnode, _, hrev, hfirst⟩ := hinv.caller _ _ _ _ hcap
  have hcap' : s.cspace.cap (tcbSlot s.ksCurThread tcbCaller) ≠ .null := by
    rw [show s.cspace.cap (tcbSlot s.ksCurThread tcbCaller) = _ from hcap]
    simp
  unfold emptySlot
  rw [if_neg hcap', hnode]
  unfold nullMDBNode CSpace.setMdbNext CSpace.setMdbPrev
  dsimp only
  rw [hrev, hfirst]

/-- After the reply: the caller has the message and is to run, and its reply capability
is gone. -/
def repliedStandard (caller : Ptr) (s : Kernel) : Kernel :=
  let cur := s.ksCurThread
  let s := { s with
    registers := (sentRegisters cur caller
      (messageInfoFromWordRaw (s.registers cur msgInfoRegister)) 0 s.registers)
    cspace := emptySlot (tcbSlot cur tcbCaller) s.cspace }
  { s.setTsType caller .running with ksSchedulerAction := .switchTo caller }

/-- The current thread waits for a message at the endpoint. -/
def receivingStandard (cfg : Config) (c : EndpointCap) (s : Kernel) : Kernel :=
  let cur := s.ksCurThread
  let s := s.setTcbState cur { s.tcbState cur with
    tsType := .blockedOnReceive
    blockingObject := c.capEPPtr
    blockingIPCCanGrant := c.capCanGrant }
  s.setEp c.capEPPtr .recv (tcbEPAppend cfg s cur (s.epQueue c.capEPPtr))

include hstd hinv h ht in
theorem ReplyTaken.cur_ne_caller_standard : s.ksCurThread ≠ caller := by
  intro he
  obtain ⟨_, _, hcap⟩ := ht.callerCap hstd
  have hblocked := (hinv.caller _ _ _ _ hcap).2.1
  rw [← he, h.running] at hblocked
  cases hblocked

include hstd hinv h ht in
theorem handleReply_taken : handleReply cfg s = .ok (repliedStandard caller s) := by
  have hne := ht.cur_ne_caller_standard h hstd hinv
  obtain ⟨canGrant, master, hcap⟩ := ht.callerCap hstd
  obtain rfl : master = false := (hinv.caller _ _ _ _ hcap).1
  obtain ⟨hfault, -, hdomain, -⟩ := ht.caller_ok h
  have htransfer : doIPCTransfer cfg s.ksCurThread none 0 canGrant caller s = _ :=
    doIPCTransfer_short ht.fault ht.short _ _ _
  unfold handleReply
  dsimp only
  rw [hcap]
  dsimp only
  unfold doReplyTransfer
  rw [if_pos hfault]
  refine bind_eq_ok.2 ⟨_, htransfer, congrArg Except.ok ?_⟩
  generalize hd : cteDeleteOne _ _ = d
  have hcur : d.ksCurThread = s.ksCurThread := by rw [← hd]; rfl
  have hdom : d.ksCurDomain = d.tcbDomain caller := by rw [← hd]; exact hdomain
  have hresume : (d.setTsType caller .running).ksSchedulerAction = .resumeCurrentThread := by
    rw [← hd]
    exact h.resume
  rw [setThreadState_eq (Or.inl (by rw [hcur]; exact hne.symm))]
  unfold possibleSwitchTo
  rw [if_neg (fun hc => by rw [hstd] at hc; cases hc.1), if_neg (fun hc => hc hdom), hresume, ← hd]
  rfl

include hstd

/-- A receive that finds no message, while the scheduler has a candidate. -/
theorem handleRecv_receiving {slot : Slot}
    (hlookup : lookupSlot s s.ksCurThread (s.registers s.ksCurThread capRegister) =
      .ok (.ok slot)) (hcap : s.cap slot = .endpoint c) (hrecv : c.capCanReceive = true)
    (hempty : s.cap (tcbSlot s.ksCurThread tcbCaller) = .null)
    (hsignal : noPendingSignal s = true) (hstate : s.epState c.capEPPtr ≠ .send)
    (haction : s.ksSchedulerAction ≠ .resumeCurrentThread) :
    handleRecv cfg true true s = .ok (receivingStandard cfg c s) := by
  have hdelete : deleteCallerCap s.ksCurThread s = s := by
    unfold deleteCallerCap cteDeleteOne emptySlot
    rw [if_pos (show s.cspace.cap (tcbSlot s.ksCurThread tcbCaller) = .null from hempty)]
  have hwait : blockOnReceive cfg s.ksCurThread c none s = receivingStandard cfg c s := by
    unfold blockOnReceive
    dsimp only
    rw [if_neg (by rw [hstd]; decide)]
    unfold scheduleTCB
    rw [if_neg (fun hc => haction hc.2.1)]
    unfold receivingStandard setTcbState
    dsimp only
    rw [update_idem, update_self]
  have hreceive : receiveIPC cfg s.ksCurThread c true none s = _ :=
    receiveIPC_waiting hstate hsignal (fun _ => rfl) fun hmcs => by rw [hstd] at hmcs; cases hmcs
  refine bind_eq_ok.2 ⟨_, hlookup, ?_⟩
  dsimp only
  rw [hcap]
  dsimp only
  rw [if_pos hrecv, if_neg (by rw [hstd]; decide), hdelete, hreceive, hwait]

include h hinv hp

/-- The capability to the endpoint is still there after the reply. -/
theorem lookupSlot_replied :
    ∃ slot, lookupSlot (repliedStandard caller s) s.ksCurThread
        ((repliedStandard caller s).registers s.ksCurThread capRegister) = .ok (.ok slot) ∧
      (repliedStandard caller s).cap slot = .endpoint c := by
  have hne := hp.cur_ne_caller_standard h hstd hinv
  obtain ⟨_, _, hcap⟩ := hp.callerCap hstd
  have hcaps : ∀ slot, (repliedStandard caller s).cspace.cap slot =
      if slot = tcbSlot s.ksCurThread tcbCaller then .null else s.cspace.cap slot := by
    intro slot
    show (emptySlot (tcbSlot s.ksCurThread tcbCaller) s.cspace).cap slot = _
    rw [emptySlot_callerCap hinv hcap]
    show update s.cspace.cap (tcbSlot s.ksCurThread tcbCaller) .null slot = _
    rw [update_apply]
  have hnodes : CNodesWellFormed (repliedStandard caller s).cspace := by
    intro slot node hslot
    rw [hcaps] at hslot
    split at hslot
    · cases hslot
    · exact h.cnodes slot node hslot
  have hroot : (repliedStandard caller s).cap (tcbSlot s.ksCurThread tcbCTable) =
      s.cspace.cap (tcbSlot s.ksCurThread tcbCTable) :=
    (hcaps _).trans (if_neg (by unfold tcbSlot tcbCTable tcbCaller; simp))
  have hlookup : lookupFp (repliedStandard caller s).cspace
      ((repliedStandard caller s).cap (tcbSlot s.ksCurThread tcbCTable))
      ((repliedStandard caller s).registers s.ksCurThread capRegister) = .ok (.endpoint c) := by
    have hreg : (repliedStandard caller s).registers s.ksCurThread = s.registers s.ksCurThread :=
      sentRegisters_of_ne hne _ _ _
    rw [hroot, hreg, lookupFp_congr]
    · exact hp.lookup
    intro slot node i hnode
    rw [hcaps, if_neg]
    intro he
    exact hinv.apart slot node hnode (congrArg Slot.base he)
  exact lookupSlot_of_lookupFp hnodes hlookup (by simp)

/-- The slow path of the standard kernel. -/
theorem handleSyscall_replyRecv_standard :
    handleSyscall cfg rest interrupt now .replyRecv s =
      .ok { receivingStandard cfg c (repliedStandard caller s) with
        ksCurThread := caller, ksSchedulerAction := .resumeCurrentThread } := by
  have hne := hp.cur_ne_caller_standard h hstd hinv
  obtain ⟨_, _, hcap⟩ := hp.callerCap hstd
  have hblocked : s.tsType caller = .blockedOnReply := (hinv.caller _ _ _ _ hcap).2.1
  obtain ⟨-, hhigh, -, -⟩ := hp.caller_ok h
  obtain ⟨slot, hslot, hep⟩ := lookupSlot_replied h hstd hinv hp
  have hempty : (repliedStandard caller s).cap (tcbSlot s.ksCurThread tcbCaller) = .null := by
    show (emptySlot (tcbSlot s.ksCurThread tcbCaller) s.cspace).cap _ = _
    rw [emptySlot_callerCap hinv hcap]
    exact update_self _ _ _
  have hrecv := handleRecv_receiving (s := repliedStandard caller s) hstd hslot hep hp.canReceive
    hempty hp.noSignal hp.state (by intro hc; cases hc)
  have hbody : syscallBody cfg rest interrupt .replyRecv s =
      .ok (receivingStandard cfg c (repliedStandard caller s)) := by
    unfold syscallBody
    dsimp only
    rw [if_neg (by rw [hstd]; decide)]
    exact bind_eq_ok.2 ⟨_, handleReply_taken h hp hstd hinv, hrecv⟩
  refine handleSyscall_switchTo hstd hbody rfl
    (isRunnable_eq_false (t := .blockedOnReceive) ?_ (by decide) (by decide)) h.cur_ne_idle
    (h.not_queued (isRunnable_eq_false hblocked (by decide) (by decide))) (Or.inr hhigh) ?_
  · show (update (repliedStandard caller s).tcbState s.ksCurThread _ s.ksCurThread).tsType = _
    rw [update_self]
  · show (update (repliedStandard caller s).tcbState s.ksCurThread _ caller).tsType = _
    rw [update_of_ne hne.symm]
    exact tsType_setTsType_self

omit h hp

include ht in
/-- The fast path of the standard kernel. -/
theorem fastpathReplyRecvCommit_standard (info : MessageInfo) :
    fastpathReplyRecvCommit cfg c r caller info s =
      .ok { setTsTypeNp { receivingStandard cfg c s with
          cspace := emptySlot (tcbSlot s.ksCurThread tcbCaller) s.cspace } caller .running with
        ksCurThread := caller
        registers := sentRegisters s.ksCurThread caller info 0 s.registers } := by
  obtain ⟨_, _, hcap⟩ := ht.callerCap hstd
  have hblock : fastpathBlock cfg c r caller s = receivingStandard cfg c s := by
    unfold fastpathBlock
    dsimp only
    rw [if_neg (by rw [hstd]; decide), fastpathBlock_queue]
    unfold receivingStandard setTcbState
    dsimp only
    rw [update_idem, update_self]
  have hdelete : fastpathReplyStandard (receivingStandard cfg c s) =
      .ok { receivingStandard cfg c s with
        cspace := emptySlot (tcbSlot s.ksCurThread tcbCaller) s.cspace } := by
    have hprev : ((receivingStandard cfg c s).cspace.mdb (tcbSlot
        (receivingStandard cfg c s).ksCurThread tcbCaller)).mdbPrev =
          some (tcbSlot caller tcbReply) := by
      show (s.cspace.mdb (tcbSlot s.ksCurThread tcbCaller)).mdbPrev = _
      rw [(hinv.caller _ _ _ _ hcap).2.2.1]
    unfold fastpathReplyStandard
    dsimp only
    rw [hprev, emptySlot_callerCap hinv hcap]
    rfl
  unfold fastpathReplyRecvCommit
  dsimp only
  rw [if_neg (by rw [hstd]; decide), hblock]
  refine bind_eq_ok.2 ⟨_, hdelete, ?_⟩
  rw [fastpathCopyMrs_eq_copied]
  exact congrArg Except.ok (fastpathRestore_eq (s := setTsTypeNp
    { receivingStandard cfg c s with
      cspace := emptySlot (tcbSlot s.ksCurThread tcbCaller) s.cspace } caller .running) 0 info)

omit hstd hinv

include h hne in
/-- Both paths of the standard kernel leave the same state. -/
theorem visible_replyRecv_standard :
    visible { setTsTypeNp { receivingStandard cfg c s with
          cspace := emptySlot (tcbSlot s.ksCurThread tcbCaller) s.cspace } caller .running with
        ksCurThread := caller
        registers := s.sentMessage s.ksCurThread caller 0 } =
      visible { receivingStandard cfg c (repliedStandard caller s) with
        ksCurThread := caller, ksSchedulerAction := .resumeCurrentThread } := by
  apply visible_congr
  · unfold receivingStandard repliedStandard setTsTypeNp setTsType
      setTcbState setEp
    refine forall_of_two caller s.ksCurThread ?_ ?_ fun tcb hcaller hcur => ?_
    · simp only [update_self, update_of_ne hne.symm]
      exact meaning_running rfl rfl rfl
    · simp only [update_self, update_of_ne hne]
    · simp only [update_of_ne hcur, update_of_ne hcaller]
  · rw [← h.resume]
    rfl

/-! ### The MCS kernel -/

/-- At time `now` the MCS kernel has nothing to do but the system call: the current
thread and its domain have time, and no thread in the release queue is due. The head
refill of the scheduling context that goes back is ready, and a notification that is
bound to the current thread has a scheduling context. -/
structure ReplyReady (cfg : Config) (now : Nat) (s : Kernel) : Prop where
  budget : enoughBudget cfg (updateTimestamp now s) = true
  domain : isCurDomainExpired cfg (updateTimestamp now s) = false
  domainTime : s.ksDomainTime ≠ 0
  release : ∀ head sc, s.ksReleaseQueue.head? = some head → s.tcbSchedContext head = some sc →
    refillReady cfg (updateTimestamp now s) sc = false
  refill : refillReady cfg (updateTimestamp now s) s.ksCurSC = true ∧
    refillSufficient cfg s s.ksCurSC 0 = true
  bound : ∀ ntfn, s.tcbBoundNotification s.ksCurThread = some ntfn → s.ntfnSchedContext ntfn ≠ none

/-- The reply leaves the top of the call stack of `sc`. -/
def popLinks (r sc : Ptr) (s : Kernel) : Kernel :=
  let prev := s.replyPrev r
  let s := { s with scReply := update s.scReply sc prev }
  let s :=
    match prev with
    | none => s
    | some p => { s with replyNext := update s.replyNext p (s.replyNext r) }
  { s with
    replyPrev := update s.replyPrev r none
    replyNext := update s.replyNext r .null }

/-- The reply is in no call stack, and the one below it is at the top of that of `sc`. -/
def Replies.unlink (reply sc : Ptr) (r : Replies) : Replies :=
  { r with
    replyPrev := update r.replyPrev reply none
    replyNext := update ((r.replyPrev reply).elim r.replyNext
      fun p => update r.replyNext p (r.replyNext reply)) reply .null
    scReply := update r.scReply sc (r.replyPrev reply) }

theorem popLinks_eq : popLinks r sc s = { s with toReplies := s.toReplies.unlink r sc } := by
  unfold popLinks Replies.unlink
  cases s.replyPrev r <;> rfl

include hmcs ht in
/-- The reply object and the caller of the MCS kernel. -/
theorem ReplyTaken.callerMcs :
    (∃ canGrant, lookupFp s.cspace (s.cap (tcbSlot s.ksCurThread tcbCTable)) reply =
        .ok (.replyObject r canGrant)) ∧
      s.replyTCB r = some caller ∧
      ∃ sc, s.replyNext r = .schedContext sc ∧ s.tcbSchedContext s.ksCurThread = some sc := by
  have hfound := ht.found
  unfold replyCaller at hfound
  rw [if_pos hmcs] at hfound
  obtain ⟨cap, hlookup, hfound⟩ := bind_eq_ok.1 hfound
  split at hfound
  · rename_i r' canGrant
    have hmap := Except.ok.inj hfound
    rw [Option.map_eq_some_iff] at hmap
    obtain ⟨caller', hcaller, he⟩ := hmap
    cases he
    unfold replyCallerMcs at hcaller
    split at hcaller
    · rename_i sc htcb hnext
      split at hcaller
      · rename_i hsc
        cases hcaller
        exact ⟨⟨canGrant, hlookup⟩, htcb, sc, hnext, hsc⟩
      · cases hcaller
    · cases hcaller
  · cases hfound

/-- `reply_pop` of the reply that holds the scheduling context of the current thread. -/
def replyPopped (r caller sc : Ptr) (s : Kernel) : Kernel :=
  let s := s.setReplyObject caller none
  let s := { s with replyTCB := update s.replyTCB r none }
  let s := s.setTsType caller .inactive
  let s := { s.setTcbSchedContext s.ksCurThread none with ksSchedulerAction := .chooseNewThread }
  popLinks r sc ((s.setScTcb sc (some caller)).setTcbSchedContext caller (some sc))

/-- After the reply, but for the ready queue: the caller has the message and its
scheduling context, and the current thread has none. -/
def repliedMcs (r caller sc : Ptr) (s : Kernel) : Kernel :=
  let cur := s.ksCurThread
  let s := replyPopped r caller sc (s.setTsType cur .restart)
  let s := { s with
    registers := (sentRegisters cur caller
      (messageInfoFromWordRaw (s.registers cur msgInfoRegister)) 0 s.registers) }
  (s.setTsType caller .running).setTsType cur .running

/-- The current thread waits for a message at the endpoint, with the reply object. -/
def receivingMcs (cfg : Config) (c : EndpointCap) (r : Ptr) (s : Kernel) : Kernel :=
  let cur := s.ksCurThread
  let s := s.setTcbState cur { s.tcbState cur with
    tsType := .blockedOnReceive, blockingObject := c.capEPPtr, replyObject := some r }
  let s := { s with replyTCB := update s.replyTCB r (some cur) }
  s.setEp c.capEPPtr .recv (tcbEPAppend cfg s cur (s.epQueue c.capEPPtr))

theorem replyPopped_eq :
    replyPopped r caller sc s = { s with
      tcbState := (replyPopped r caller sc s).tcbState
      toReplies := Replies.unlink r sc { s.toReplies with replyTCB := update s.replyTCB r none }
      tcbSchedContext := update (update s.tcbSchedContext s.ksCurThread none) caller (some sc)
      scTcb := update s.scTcb sc (some caller)
      ksSchedulerAction := .chooseNewThread } := by
  unfold replyPopped
  rw [popLinks_eq]
  rfl

theorem repliedMcs_eq :
    repliedMcs r caller sc s = { s with
      tcbState := (repliedMcs r caller sc s).tcbState
      registers := s.sentMessage s.ksCurThread caller 0
      toReplies := Replies.unlink r sc { s.toReplies with replyTCB := update s.replyTCB r none }
      tcbSchedContext := update (update s.tcbSchedContext s.ksCurThread none) caller (some sc)
      scTcb := update s.scTcb sc (some caller)
      ksSchedulerAction := .chooseNewThread } := by
  unfold repliedMcs
  dsimp only
  rw [replyPopped_eq]
  rfl

theorem tcbState_replyPopped :
    (replyPopped r caller sc s).tcbState =
      update s.tcbState caller
        { s.tcbState caller with tsType := .inactive, replyObject := none } := by
  unfold replyPopped
  rw [popLinks_eq]
  unfold setTsType setReplyObject setTcbState setTcbSchedContext
    setScTcb
  dsimp only
  rw [update_idem, update_self]

include hne in
theorem tcbState_repliedMcs (r sc : Ptr) :
    (repliedMcs r caller sc s).tcbState =
      update (update s.tcbState s.ksCurThread { s.tcbState s.ksCurThread with tsType := .running })
        caller { s.tcbState caller with tsType := .running, replyObject := none } := by
  unfold repliedMcs setTsType setTcbState
  dsimp only
  rw [tcbState_replyPopped]
  simp only [update_self, update_of_ne hne, update_of_ne hne.symm, update_comm hne.symm,
    update_idem]

/-- What the reply object is to its caller and to the current thread. -/
structure ReplyTop (s : Kernel) (r caller sc : Ptr) : Prop where
  replyTCB : s.replyTCB r = some caller
  replyNext : s.replyNext r = .schedContext sc
  blocked : s.tsType caller = .blockedOnReply
  owner : s.scTcb sc = some s.ksCurThread
  passive : s.tcbSchedContext caller = none
  awake : s.tcbInReleaseQueue caller = false

include h in
theorem ReplyTop.cur_ne_caller (htop : ReplyTop s r caller sc) : s.ksCurThread ≠ caller := by
  intro he
  have hblocked := htop.blocked
  rw [← he, h.running] at hblocked
  cases hblocked

include hmcs h ht in
theorem ReplyTaken.top (hm : McsInv s) : ReplyTop s r caller s.ksCurSC := by
  obtain ⟨_, htcb, sc, hnext, hsc⟩ := ht.callerMcs hmcs
  have he : s.ksCurSC = sc := Option.some.inj (hm.cur.owner.symm.trans hsc)
  have hfree := (ht.caller_ok h).2.2.2 hmcs
  rw [← he] at hnext
  exact ⟨htcb, hnext, hm.callers r caller _ htcb hnext, hm.cur.scTcb_eq hm.links, hfree,
    hm.links.flag_of_free hfree⟩

include h in
theorem replyPop_cur (htop : ReplyTop s r caller sc) :
    replyPop cfg r caller sc (s.setTsType s.ksCurThread .restart) =
      replyPopped r caller sc (s.setTsType s.ksCurThread .restart) := by
  unfold replyPopped
  dsimp only
  generalize hs1 : setTsType _ caller .inactive = s1
  have hunlink : replyUnlink cfg r caller (s.setTsType s.ksCurThread .restart) = s1 := by
    rw [← hs1]
    exact setThreadState_eq (Or.inl (htop.cur_ne_caller h).symm)
  have hdonate : schedContextDonate cfg sc caller s1 = setTcbSchedContext (setScTcb
      { s1.setTcbSchedContext s1.ksCurThread none with ksSchedulerAction := .chooseNewThread }
        sc (some caller)) caller (some sc) := by
    have howner : s1.scTcb sc = some s1.ksCurThread := by rw [← hs1]; exact htop.owner
    have hq : s1.tcbQueued s1.ksCurThread = false := by rw [← hs1]; exact h.curNotQueued
    have hresume : (s1.setTcbSchedContext s1.ksCurThread none).ksSchedulerAction =
        .resumeCurrentThread := by rw [← hs1]; exact h.resume
    unfold schedContextDonate
    rw [howner]
    dsimp only
    rw [tcbSchedDequeue_eq hq,
      if_pos (Or.inl (show s1.ksCurThread = (s1.setTcbSchedContext _ _).ksCurThread from rfl))]
    unfold rescheduleRequired
    rw [hresume]
  have hpassive : s1.tcbSchedContext caller = none := by rw [← hs1]; exact htop.passive
  unfold replyPop
  dsimp only
  rw [hunlink, if_pos hpassive, hdonate]
  rfl

include h ht in
/-- The reply of the MCS kernel, up to the state of the current thread. -/
theorem doReplyTransferMcs_taken (htop : ReplyTop s r caller sc)
    (hrefill : refillReady cfg s sc = true ∧ refillSufficient cfg s sc 0 = true) (grant : Bool) :
    ∃ s', doReplyTransferMcs cfg s.ksCurThread r grant (s.setTsType s.ksCurThread .restart) =
        .ok (tcbSchedEnqueue cfg caller s') ∧
      s'.setTsType s.ksCurThread .running = repliedMcs r caller sc s ∧
      s'.tsType s.ksCurThread = .restart ∧ s'.ksSchedulerAction = .chooseNewThread := by
  have hne := htop.cur_ne_caller h
  obtain ⟨hfault, -, hdomain, -⟩ := ht.caller_ok h
  have hblocked : (s.setTsType s.ksCurThread .restart).tsType caller = .blockedOnReply := by
    unfold tsType
    rw [tcbState_setTsType_of_ne hne.symm]
    exact htop.blocked
  have hremove : replyRemove cfg r caller (s.setTsType s.ksCurThread .restart) =
      replyPopped r caller sc (s.setTsType s.ksCurThread .restart) := by
    unfold replyRemove
    rw [show (s.setTsType s.ksCurThread .restart).replyNext r = _ from htop.replyNext]
    exact replyPop_cur h htop
  generalize hp : replyPopped r caller sc (s.setTsType s.ksCurThread .restart) = p at hremove
  have hframe : p = { s with
      tcbState := p.tcbState, toReplies := p.toReplies
      tcbSchedContext := update (update s.tcbSchedContext s.ksCurThread none) caller (some sc)
      scTcb := p.scTcb, ksSchedulerAction := .chooseNewThread } := by
    rw [← hp, replyPopped_eq]
    rfl
  have hcur : p.tsType s.ksCurThread = .restart := by
    unfold tsType
    rw [← hp, tcbState_replyPopped, update_of_ne hne, tcbState_setTsType_self]
  have hsc : p.tcbSchedContext caller = some sc := by
    rw [hframe]
    exact update_self _ _ _
  have htransfer : doIPCTransfer cfg s.ksCurThread none 0 grant caller p = _ :=
    doIPCTransfer_short (by rw [hframe]; exact ht.fault) (by rw [hframe]; exact ht.short) _ _ _
  generalize hm : ({ p with registers := p.sentMessage s.ksCurThread caller 0 } : Kernel).setTsType
    caller .running = m
  have hmessage : replyMessage cfg s.ksCurThread caller grant p = .ok m := by
    unfold replyMessage
    rw [if_pos (by rw [hframe]; exact hfault)]
    refine bind_eq_ok.2 ⟨_, htransfer, congrArg Except.ok ?_⟩
    rw [← hm]
    refine setThreadState_eq (Or.inl ?_)
    rw [hframe]
    exact hne.symm
  have hresume : ∀ b, replyResume cfg caller b m = .ok (tcbSchedEnqueue cfg caller m) := by
    intro b
    have hrun : isRunnable m caller = true := by
      unfold isRunnable
      rw [← hm, tsType_setTsType_self]
    have hready : (refillReady cfg m sc && refillSufficient cfg m sc 0) = true := by
      rw [← hm, hframe, Bool.and_eq_true]
      exact hrefill
    unfold replyResume
    rw [show m.tcbSchedContext caller = some sc by rw [← hm]; exact hsc]
    dsimp only
    rw [if_pos hrun, if_pos hready, possibleSwitchTo_chosen]
    · rw [show m.tcbSchedContext caller = some sc by rw [← hm]; exact hsc]
      simp
    · rw [← hm, hframe]
      exact htop.awake
    · rw [← hm, hframe]
      exact hdomain
    · rw [← hm, hframe]
      rfl
  refine ⟨m, ?_, ?_, ?_, ?_⟩
  · unfold doReplyTransferMcs
    rw [show (s.setTsType s.ksCurThread .restart).replyTCB r = _ from htop.replyTCB]
    dsimp only
    rw [if_pos hblocked, hremove]
    exact bind_eq_ok.2 ⟨_, hmessage, hresume _⟩
  · rw [← hm, ← hp]
    rfl
  · unfold tsType
    rw [← hm, tcbState_setTsType_of_ne hne]
    exact hcur
  · rw [← hm, hframe]
    rfl

/-- The flags of the invocation in `seL4_ReplyRecv`. -/
def replyFlags : CallFlags :=
  { isCall := false, isBlocking := false, canDonate := true, firstPhase := true }

include hmcs h ht in
/-- `handleInvocation` on the reply object. -/
theorem handleInvocation_reply (hm : McsInv s) (htop : ReplyTop s r caller s.ksCurSC)
    (hrefill : refillReady cfg s s.ksCurSC = true ∧ refillSufficient cfg s s.ksCurSC 0 = true) :
    handleInvocation cfg rest replyFlags reply s =
      .ok (false, tcbSchedEnqueue cfg caller (repliedMcs r caller s.ksCurSC s)) := by
  obtain ⟨⟨canGrant, hlookup⟩, _⟩ := ht.callerMcs hmcs
  obtain ⟨slot, hslot, hcap⟩ := lookupSlot_of_lookupFp h.cnodes hlookup (by simp)
  obtain ⟨s', hreply, hreplied, hstate, haction⟩ :=
    doReplyTransferMcs_taken h ht htop hrefill canGrant
  refine handleInvocation_short (t := tcbSchedEnqueue cfg caller s') ht.short hslot ?_ ?_
  · rw [hcap]
    unfold decodeInvocation
    dsimp only
    rw [setThreadState_restart hmcs hm, hreply]
    rw [if_pos hmcs]
    rfl
  · have hchosen : (tcbSchedEnqueue cfg caller s').ksSchedulerAction ≠ .resumeCurrentThread := by
      rw [show (tcbSchedEnqueue cfg caller s').ksSchedulerAction = _ from haction]
      simp
    unfold finishInvocation
    rw [if_pos (show (tcbSchedEnqueue cfg caller s').tsType s.ksCurThread = .restart from hstate),
      if_neg (by decide), setThreadState_eq (Or.inr (Or.inl hchosen)), ← hreplied]
    rfl

include hmcs

include hbound in
/-- A receive that finds no message, by a thread that has given its scheduling context
away and while the scheduler has to choose. -/
theorem receiveIPC_receiving (hfree : s.replyTCB r = none)
    (hpassive : s.tcbSchedContext s.ksCurThread = none) (hsignal : noPendingSignal s = true)
    (hstate : s.epState c.capEPPtr ≠ .send) (haction : s.ksSchedulerAction ≠ .resumeCurrentThread) :
    receiveIPC cfg s.ksCurThread c true (some r) s = .ok (receivingMcs cfg c r s) := by
  have hwait : blockOnReceive cfg s.ksCurThread c (some r) s = receivingMcs cfg c r s := by
    unfold blockOnReceive
    dsimp only
    rw [if_pos hmcs]
    unfold scheduleTCB
    rw [if_neg (fun hc => haction hc.2.1)]
    unfold receivingMcs setReplyObject setTcbState
    dsimp only
    rw [update_idem, update_self]
  rw [← hwait]
  refine receiveIPC_waiting hstate hsignal (fun _ => ?_) fun _ ntfn hntfn => ?_
  · unfold takeReply
    dsimp only
    rw [hfree]
  · unfold maybeReturnSchedContext
    rw [hpassive, if_neg (hbound ntfn hntfn)]

/-- The same by the system call, with the capabilities of the endpoint and the reply. -/
theorem handleRecv_receivingMcs {slot replySlot : Slot} {canGrant : Bool}
    (hslot : lookupSlot s s.ksCurThread (s.registers s.ksCurThread capRegister) = .ok (.ok slot))
    (hcap : s.cap slot = .endpoint c) (hrecv : c.capCanReceive = true)
    (hreplySlot : lookupSlot s s.ksCurThread (s.registers s.ksCurThread replyRegister) =
      .ok (.ok replySlot)) (hreplyCap : s.cap replySlot = .replyObject r canGrant) {s' : Kernel}
    (hreceive : receiveIPC cfg s.ksCurThread c true (some r) s = .ok s') :
    handleRecv cfg true true s = .ok s' := by
  have hwith : receiveWithReply cfg c true s = .ok s' := by
    refine bind_eq_ok.2 ⟨_, hreplySlot, ?_⟩
    dsimp only
    rw [hreplyCap]
    exact hreceive
  refine bind_eq_ok.2 ⟨_, hslot, ?_⟩
  dsimp only
  rw [hcap]
  dsimp only
  rw [if_pos hrecv, if_pos hmcs, if_pos rfl, hwith]

include h hp hne hbound in
/-- The receive after the reply. -/
theorem handleRecv_replied :
    handleRecv cfg true true (tcbSchedEnqueue cfg caller (repliedMcs r caller sc s)) =
      .ok (tcbSchedEnqueue cfg caller (receivingMcs cfg c r (repliedMcs r caller sc s))) := by
  obtain ⟨⟨canGrant, hlookup⟩, _⟩ := hp.callerMcs hmcs
  obtain ⟨replySlot, hreplySlot, hreplyCap⟩ := lookupSlot_of_lookupFp h.cnodes hlookup (by simp)
  obtain ⟨slot, hslot, hcap⟩ := lookupSlot_of_lookupFp h.cnodes hp.lookup (by simp)
  have hregs : s.sentMessage s.ksCurThread caller 0 s.ksCurThread = _ :=
    sentRegisters_of_ne hne _ 0 _
  rw [← hregs] at hreplySlot hslot
  rw [repliedMcs_eq]
  refine handleRecv_receivingMcs hmcs (by exact hslot) (by exact hcap) hp.canReceive
    (by exact hreplySlot) (by exact hreplyCap) ?_
  refine receiveIPC_receiving hmcs (by exact hbound) (update_self _ _ _) ?_ hp.noSignal hp.state
    nofun
  show update (update s.tcbSchedContext s.ksCurThread none) caller (some sc) s.ksCurThread = none
  rw [update_of_ne hne, update_self]

include h hp in
/-- The slow path of the MCS kernel, with nothing else to do. -/
theorem handleSyscall_replyRecv_mcs (hm : McsInv s) (hready : ReplyReady cfg now s) :
    handleSyscall cfg rest interrupt now .replyRecv s =
      .ok { receivingMcs cfg c r (repliedMcs r caller s.ksCurSC (updateTimestamp now s)) with
        ksCurThread := caller, ksSchedulerAction := .resumeCurrentThread } := by
  have htop := hp.top h hmcs hm
  have hne := htop.cur_ne_caller h
  have hstopped := isRunnable_eq_false htop.blocked (by decide) (by decide)
  obtain ⟨-, hhigh, hdom, -⟩ := hp.caller_ok h
  -- the clock plays no part in what follows
  have hentry := h.updateTimestamp now
  have hlinks := hm.updateTimestamp now
  have htop' : ReplyTop (updateTimestamp now s) r caller s.ksCurSC :=
    ⟨htop.replyTCB, htop.replyNext, htop.blocked, htop.owner, htop.passive, htop.awake⟩
  have ht' : ReplyPassed cfg (updateTimestamp now s) c r caller :=
    ⟨hp.short, hp.fault, hp.lookup, hp.canReceive, hp.found, hp.noSignal, hp.state, hp.callerOk⟩
  have hinvoke : handleInvocation cfg rest replyFlags (s.registers s.ksCurThread replyRegister)
      (updateTimestamp now s) = _ :=
    handleInvocation_reply hentry ht' hmcs hlinks htop' hready.refill
  have hbody : syscallBody cfg rest interrupt .replyRecv (updateTimestamp now s) =
      .ok (tcbSchedEnqueue cfg caller (receivingMcs cfg c r
        (repliedMcs r caller s.ksCurSC (updateTimestamp now s)))) := by
    unfold syscallBody
    dsimp only
    rw [if_pos hmcs]
    refine bind_eq_ok.2 ⟨_, bind_eq_ok.2 ⟨_, hinvoke, rfl⟩, ?_⟩
    exact handleRecv_replied hentry hmcs ht' hne hready.bound
  have hstates : (repliedMcs r caller s.ksCurSC (updateTimestamp now s)).tcbState = _ :=
    tcbState_repliedMcs (by exact hne) r _
  rw [repliedMcs_eq, hstates] at hbody ⊢
  refine handleSyscall_chosen hmcs hready.budget hready.domain hbody rfl
    (isRunnable_eq_false (t := .blockedOnReceive) ?_ (by decide) (by decide))
    (noneDue_donated hlinks htop.passive hready.release rfl rfl rfl) hready.domainTime h.bitmaps
    h.curDomain hdom (h.priority caller) (h.not_queued hstopped) hhigh (update_self _ _ _)
    hm.reprogram ?_ (hm.yieldTo_none hstopped)
  · show (update (update (update s.tcbState s.ksCurThread _) caller _) s.ksCurThread _
      s.ksCurThread).tsType = _
    rw [update_self]
  · show (update (update (update s.tcbState s.ksCurThread _) caller _) s.ksCurThread _
      caller).tsType = _
    rw [update_of_ne hne.symm, update_self]

omit hmcs

/-- The current thread waits, as the fast path writes it. -/
def fastBlockedMcs (cfg : Config) (c : EndpointCap) (r caller : Ptr) (s : Kernel) : Kernel :=
  let cur := s.ksCurThread
  let s := s.setTcbState cur
    { s.tcbState cur with tsType := .blockedOnReceive, blockingObject := c.capEPPtr }
  let s := s.setReplyObject caller none
  let s := s.setReplyObject cur (some r)
  let s := { s with replyTCB := update s.replyTCB r (some cur) }
  s.setEp c.capEPPtr .recv (tcbEPAppend cfg s cur (s.epQueue c.capEPPtr))

/-- The fast path of the MCS kernel up to the message. -/
def fastRepliedMcs (cfg : Config) (c : EndpointCap) (r caller sc : Ptr) (s : Kernel) : Kernel :=
  let cur := s.ksCurThread
  let s := (fastBlockedMcs cfg c r caller s).setTcbSchedContext cur none
  let s := s.setTcbSchedContext caller (some sc)
  (popLinks r sc (s.setScTcb sc (some caller))).setTsTypeNp caller .running

theorem fastRepliedMcs_eq :
    fastRepliedMcs cfg c r caller sc s =
      { s.setEp c.capEPPtr .recv (tcbEPAppend cfg s s.ksCurThread (s.epQueue c.capEPPtr)) with
        tcbState := (fastRepliedMcs cfg c r caller sc s).tcbState
        toReplies := Replies.unlink r sc
          { s.toReplies with replyTCB := update s.replyTCB r (some s.ksCurThread) }
        tcbSchedContext := update (update s.tcbSchedContext s.ksCurThread none) caller (some sc)
        scTcb := update s.scTcb sc (some caller) } := by
  unfold fastRepliedMcs
  dsimp only
  rw [popLinks_eq]
  rfl

theorem fastpathReplyMcs_eq (hsc : s.tcbSchedContext s.ksCurThread = some sc) :
    fastpathReplyMcs r caller s =
      .ok (popLinks r sc (((s.setTcbSchedContext s.ksCurThread none).setTcbSchedContext caller
        (some sc)).setScTcb sc (some caller))) := by
  unfold fastpathReplyMcs
  dsimp only
  rw [hsc]
  rfl

include hmcs in
theorem fastpathReplyRecvCommit_mcs (info : MessageInfo)
    (hsc : s.tcbSchedContext s.ksCurThread = some sc) :
    fastpathReplyRecvCommit cfg c r caller info s =
      .ok { fastRepliedMcs cfg c r caller sc s with
        ksCurThread := caller
        registers := sentRegisters s.ksCurThread caller info 0 s.registers } := by
  have hblock : fastpathBlock cfg c r caller s = fastBlockedMcs cfg c r caller s := by
    unfold fastpathBlock
    dsimp only
    rw [if_pos hmcs, fastpathBlock_queue]
    rfl
  have hsc' : (fastBlockedMcs cfg c r caller s).tcbSchedContext
      (fastBlockedMcs cfg c r caller s).ksCurThread = some sc := hsc
  have hregs : (fastRepliedMcs cfg c r caller sc s).registers = s.registers := by
    rw [fastRepliedMcs_eq]
    rfl
  unfold fastpathReplyRecvCommit
  dsimp only
  rw [if_pos hmcs, hblock]
  refine bind_eq_ok.2 ⟨_, fastpathReplyMcs_eq hsc', ?_⟩
  rw [fastpathCopyMrs_eq_copied, ← hregs]
  exact congrArg Except.ok (fastpathRestore_eq (s := fastRepliedMcs cfg c r caller sc s) 0 info)

include hne in
theorem tcbState_fastRepliedMcs (r sc : Ptr) :
    (fastRepliedMcs cfg c r caller sc s).tcbState =
      update (update s.tcbState s.ksCurThread
        { s.tcbState s.ksCurThread with
          tsType := .blockedOnReceive, blockingObject := c.capEPPtr, replyObject := some r })
        caller { s.tcbState caller with
          tsType := .running, blockingObject := 0, replyObject := none } := by
  unfold fastRepliedMcs
  dsimp only
  rw [popLinks_eq]
  unfold fastBlockedMcs setTsTypeNp setReplyObject setTcbState setEp
    setTcbSchedContext setScTcb
  simp only [update_self, update_of_ne hne, update_of_ne hne.symm, update_comm hne.symm,
    update_idem]

include h hne in
/-- Both paths of the MCS kernel leave the same state. -/
theorem visible_replyRecv_mcs (now : Nat) (r sc : Ptr) :
    visible { fastRepliedMcs cfg c r caller sc s with
        ksCurThread := caller
        registers := s.sentMessage s.ksCurThread caller 0 } =
      visible { receivingMcs cfg c r (repliedMcs r caller sc (updateTimestamp now s)) with
        ksCurThread := caller, ksSchedulerAction := .resumeCurrentThread } := by
  have hcur : (repliedMcs r caller sc (updateTimestamp now s)).ksCurThread = s.ksCurThread := by
    rw [repliedMcs_eq]
    rfl
  have hstate : (repliedMcs r caller sc (updateTimestamp now s)).tcbState = _ :=
    tcbState_repliedMcs (by exact hne) r sc
  apply visible_congr
  · intro tcb
    show ((fastRepliedMcs cfg c r caller sc s).tcbState tcb).meaning =
      (update (repliedMcs r caller sc (updateTimestamp now s)).tcbState
        (repliedMcs r caller sc (updateTimestamp now s)).ksCurThread _ tcb).meaning
    rw [tcbState_fastRepliedMcs hne r sc, hcur, hstate]
    revert tcb
    refine forall_of_two caller s.ksCurThread ?_ ?_ fun tcb hcaller hself => ?_
    · simp only [update_self, update_of_ne hne.symm]
      exact meaning_running rfl rfl rfl
    · simp only [updateTimestamp, update_self, update_of_ne hne]
    · simp only [updateTimestamp, update_of_ne hself, update_of_ne hcaller]
  · have howner : update (update s.replyTCB r none) r (some s.ksCurThread) = _ := update_idem _ _ _
    rw [fastRepliedMcs_eq, ← howner]
    rw [repliedMcs_eq, ← h.resume]
    rfl

/-! ### Both kernels -/

/-- **Main result.** Where `fastpath_reply_recv` does not divert to the slow path, it
leaves the state that `handleSyscall(SysReplyRecv)` with `schedule` and
`activateThread` leaves. -/
theorem fastpath_reply_recv_refines
    (rest : CallFlags → Cap → Slot → Kernel → Except Stuck Invoked)
    (interrupt : Kernel → Except Stuck Kernel) (now : Nat) (h : EntryInv cfg s)
    (hstd : cfg.mcs = false → StandardInv s)
    (hmcs : cfg.mcs = true → McsInv s ∧ ReplyReady cfg now s) {s' : Kernel}
    (hfast : fastpathReplyRecv cfg (s.registers s.ksCurThread capRegister)
      (s.registers s.ksCurThread msgInfoRegister) (s.registers s.ksCurThread replyRegister) s =
        .ok (some s')) :
    ∃ s'', handleSyscall cfg rest interrupt now .replyRecv s = .ok s'' ∧
      s'.visible = s''.visible := by
  obtain ⟨c, r, caller, ht, hcommit⟩ := fastpathReplyRecv_taken hfast
  cases hkernel : cfg.mcs with
  | false =>
    have hinv := hstd hkernel
    refine ⟨_, handleSyscall_replyRecv_standard h hkernel hinv ht, ?_⟩
    rw [fastpathReplyRecvCommit_standard ht hkernel hinv] at hcommit
    rw [← Except.ok.inj hcommit]
    exact visible_replyRecv_standard h (ht.cur_ne_caller_standard h hkernel hinv)
  | true =>
    obtain ⟨hm, hready⟩ := hmcs hkernel
    refine ⟨_, handleSyscall_replyRecv_mcs h hkernel ht hm hready, ?_⟩
    rw [fastpathReplyRecvCommit_mcs hkernel _ hm.cur.owner] at hcommit
    rw [← Except.ok.inj hcommit]
    exact visible_replyRecv_mcs h ((ht.top h hkernel hm).cur_ne_caller h) now r s.ksCurSC

/-! ### A reply without budget -/

/-- Thread 3 runs on the scheduling context 11 of the initial thread, which has called
it through the reply object 41. Thread 3 has the capabilities of an endpoint and of the
reply object at the addresses 0 and 1. -/
def replyState : Kernel :=
  let s := bootState.setTcbState 1 { bootState.tcbState 1 with
    tsType := .blockedOnReply, replyObject := some 41 }
  let s := s.setTsType 3 .running
  let s := { s with
    ksCurThread := 3
    replyTCB := update s.replyTCB 41 (some 1)
    replyNext := update s.replyNext 41 (.schedContext 11)
    scReply := update s.scReply 11 (some 41) }
  let s := ((s.setTcbSchedContext 1 none).setScTcb 11 (some 3)).setTcbSchedContext 3 (some 11)
  let s := s.setRegister 3 replyRegister 1
  let cs := s.cspace.setCap (tcbSlot 3 tcbCTable)
    (.cnode { capCNodeRadix := 1, capCNodeGuardSize := 63, capCNodeGuard := 0, capCNodePtr := 50 })
  let cs := cs.setCap { base := 50, index := 0 } (.endpoint serverEndpoint)
  let cs := cs.setCap { base := 50, index := 1 } (.replyObject 41 true)
  let cs := cs.setCap (tcbSlot 1 tcbVTable)
    (.pageTable { capPTMappedASID := 1, capPTBasePtr := 60, capPTIsMapped := true,
                  capPTMappedAddress := 0 })
  { s with cspace := cs }

theorem replyState_entry : EntryInv tickConfig replyState where
  cnodes := by
    have hboot : CNodesWellFormed bootState.cspace := nofun
    refine (((hboot.setCap ?_).setCap ?_).setCap ?_).setCap ?_
    · rintro _ ⟨⟩
      exact ⟨by decide, by decide, by decide, by decide⟩
    · rintro _ ⟨⟩
    · rintro _ ⟨⟩
    · rintro _ ⟨⟩
  running := rfl
  resume := rfl
  idle := rfl
  recvQueue := by
    intro ep hep
    cases hep
  idleQueue := fun _ _ => rfl
  queued := by
    intro tcb hq
    cases hq
  curNotQueued := rfl
  curDomain := by decide
  domain := fun _ => Nat.zero_lt_one
  priority := callState_entry.priority
  bitmaps := callState_entry.bitmaps

theorem replyState_replyObject (tcb : Ptr) :
    (replyState.tcbState tcb).replyObject = if tcb = 1 then some 41 else none := by
  revert tcb
  refine forall_of_two 1 3 rfl rfl fun tcb h1 h3 => ?_
  simp only [replyState, setRegister, setTcbState, update_apply, bootState,
    setSchedContext, setScTcb, setTcbSchedContext, setTsType,
    cleared, if_neg h1, if_neg h3]
  split_ifs <;> rfl

theorem replyState_mcs : McsInv replyState where
  links := by
    have hdonated : LinkInv (bootState.links.donate 11 3) :=
      (boot_inv boot_bootState).donate rfl fun _ _ => rfl
    exact hdonated
  cur := ⟨rfl, rfl⟩
  active := by decide
  reprogram := rfl
  yieldTo := by
    intro tcb hy
    exact absurd rfl hy
  replies := by
    intro reply tcb
    rw [replyState_replyObject]
    exact update_some_iff 41 1 reply tcb
  callers := by
    intro reply tcb sc htcb _
    have htcb' : update (fun _ => none) 41 (some 1) reply = some tcb := htcb
    rw [update_apply] at htcb'
    split at htcb'
    · cases htcb'
      rfl
    · cases htcb'

/-- At time 0 the current thread has its budget, and nothing else is to be done. -/
theorem replyState_ready : ReplyReady tickConfig 0 replyState where
  budget := by decide +kernel
  domain := by decide +kernel
  domainTime := by decide
  release := by
    intro head sc hh
    cases hh
  refill := by decide +kernel
  bound := by
    intro ntfn hn
    cases hn

/-- At time 100 the budget is used up. The fast path still replies, and thread 1 runs;
the slow path charges the current thread instead. -/
theorem fastpath_reply_recv_without_budget :
    EntryInv tickConfig replyState ∧ McsInv replyState ∧ replyState.ksReleaseQueue = [] ∧
      nextThread (fastpathReplyRecv tickConfig
        (replyState.registers replyState.ksCurThread capRegister)
        (replyState.registers replyState.ksCurThread msgInfoRegister)
        (replyState.registers replyState.ksCurThread replyRegister) replyState) = some 1 ∧
      nextThread ((handleSyscall tickConfig (fun _ _ _ s => .ok (.none s)) .ok 100 .replyRecv
        replyState).map some) = some 3 :=
  ⟨replyState_entry, replyState_mcs, rfl, by decide +kernel, by decide +kernel⟩

/-- A reply with time left, in both kernels. -/
theorem fastpath_reply_recv_refines_replyState :
    BothLead tickConfig (fastpathReplyRecv tickConfig (replyState.registers 3 capRegister)
      (replyState.registers 3 msgInfoRegister) (replyState.registers 3 replyRegister) replyState)
      .replyRecv replyState 1 ∧
    BothLead standardConfig (fastpathReplyRecv standardConfig
      (standardState.registers 1 capRegister) (standardState.registers 1 msgInfoRegister)
      (standardState.registers 1 replyRegister) standardState) .replyRecv standardState 4 :=
  ⟨.of (by decide +kernel) fun _ => fastpath_reply_recv_refines _ .ok 0 replyState_entry nofun
      fun _ => ⟨replyState_mcs, replyState_ready⟩,
    .of (by decide +kernel) fun _ => fastpath_reply_recv_refines _ .ok 0 standardState_entry
      (fun _ => standardState_inv) nofun⟩

end SeL4Kernel
