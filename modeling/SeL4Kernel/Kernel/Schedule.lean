import SeL4Kernel.Object.Ipc

/-!
# Faults, replies, budgets and the scheduler

The upper part of `src/kernel/thread.c` with `src/kernel/faulthandler.c` and the
inline functions of `include/kernel/thread.h`: delivering faults, replying,
charging the current scheduling context, and choosing the thread that runs when
the kernel is left.

Effects on hardware are left out: the address space root that a thread switch
loads, and the timer, of which only the deadline is computed.
-/

namespace SeL4Kernel

open Function

variable (cfg : Config)

/-! ### Faults -/

/-- What the kernel sends for a fault through handler capability `c`. -/
def faultSendArgs (c : EndpointCap) (canDonate : Bool) : SendArgs :=
  { blocking := true
    -- the standard kernel makes the fault a call, the MCS kernel tells it by the fault itself
    doCall := !cfg.mcs
    badge := c.capEPBadge
    canGrant := c.capCanGrant
    canGrantReply := if cfg.mcs then c.capCanGrantReply else true
    canDonate := canDonate }

/-- `sendFaultIPC` of the MCS kernel; false if there is no handler. -/
def sendFaultIPC (tcb : Ptr) (handlerCap : Cap) (canDonate : Bool) (s : Kernel) :
    Except Stuck (Bool × Kernel) :=
  match handlerCap with
  | .endpoint c => do
    let s := s.setTcbFault tcb s.currentFault
    let s ← sendIPC cfg (faultSendArgs cfg c canDonate) tcb c.capEPPtr s
    .ok (true, s)
  | _ => .ok (false, s)

/-- `handleNoFaultHandler`, and `handleDoubleFault` of the standard kernel. -/
def handleNoFaultHandler (tcb : Ptr) (s : Kernel) : Kernel := setThreadState cfg tcb .inactive s

def handleFaultMcs (tcb : Ptr) (s : Kernel) : Except Stuck Kernel := do
  let (hasFaultHandler, s) ←
    sendFaultIPC cfg tcb (s.cap (tcbSlot tcb tcbFaultHandlerSlot))
      (decide (s.tcbSchedContext tcb ≠ none)) s
  .ok (if hasFaultHandler then s else handleNoFaultHandler cfg tcb s)

/-- `sendFaultIPC` and `handleFault` of the standard kernel, which looks the
handler up in the capability space of the faulting thread. -/
def handleFaultStandard (tcb : Ptr) (s : Kernel) : Except Stuck Kernel := do
  let handlerCPtr := s.tcbFaultHandler tcb
  match ← lookupSlot s tcb handlerCPtr with
  | .error luf => .ok (handleNoFaultHandler cfg tcb
      { s with currentFault := .capFault handlerCPtr false, currentLookupFault := luf })
  | .ok slot =>
    match s.cap slot with
    | .endpoint c =>
      if c.capCanSend && (c.capCanGrant || c.capCanGrantReply) then
        let originalLookupFault := s.currentLookupFault
        let s := s.setTcbFault tcb s.currentFault
        let s :=
          match s.currentFault with
          | .capFault _ _ => { s with
              tcbLookupFailure := update s.tcbLookupFailure tcb originalLookupFault }
          | _ => s
        sendIPC cfg (faultSendArgs cfg c false) tcb c.capEPPtr s
      else .ok (handleNoFaultHandler cfg tcb { s with
          currentFault := .capFault handlerCPtr false, currentLookupFault := .missingCapability 0 })
    | _ => .ok (handleNoFaultHandler cfg tcb { s with
          currentFault := .capFault handlerCPtr false, currentLookupFault := .missingCapability 0 })

def handleFault (tcb : Ptr) (s : Kernel) : Except Stuck Kernel :=
  if cfg.mcs then handleFaultMcs cfg tcb s else handleFaultStandard cfg tcb s

def handleTimeout (tcb : Ptr) (s : Kernel) : Except Stuck Kernel := do
  let (_, s) ← sendFaultIPC cfg tcb (s.cap (tcbSlot tcb tcbTimeoutHandlerSlot)) false s
  .ok s

def validTimeoutHandler (s : Kernel) (tcb : Ptr) : Bool :=
  match s.cap (tcbSlot tcb tcbTimeoutHandlerSlot) with
  | .endpoint _ => true
  | _ => false

/-! ### Replies -/

/-- Deliver a reply to a receiver that is no longer linked to its caller. A fault
is answered by `handleFaultReply`, anything else by a message. -/
def replyMessage (sender receiver : Ptr) (grant : Bool) (s : Kernel) : Except Stuck Kernel :=
  if s.tcbFault receiver = .null then do
    let s ← doIPCTransfer cfg sender none 0 grant receiver s
    .ok (setThreadState cfg receiver .running s)
  else
    let (restart, s) := handleFaultReply cfg receiver sender s
    let s := s.setTcbFault receiver .null
    .ok (setThreadState cfg receiver (if restart then .restart else .inactive) s)

/-- The end of `doReplyTransfer` in the MCS kernel: the receiver runs, or its
timeout handler is told, or it waits for its next refill. -/
def replyResume (receiver : Ptr) (wasTimeout : Bool) (s : Kernel) : Except Stuck Kernel :=
  match s.tcbSchedContext receiver with
  | none => .ok s
  | some sc =>
    if isRunnable s receiver then
      if refillReady cfg s sc && refillSufficient cfg s sc 0 then
        .ok (possibleSwitchTo cfg receiver s)
      else if validTimeoutHandler s receiver = true ∧ wasTimeout = false then
        handleTimeout cfg receiver { s with currentFault := .timeout (s.scBadge sc) }
      else postpone cfg sc s
    else .ok s

/-- `doReplyTransfer` of the MCS kernel. -/
def doReplyTransferMcs (sender reply : Ptr) (grant : Bool) (s : Kernel) : Except Stuck Kernel :=
  match s.replyTCB reply with
  | none => .ok s
  | some receiver =>
    if s.tsType receiver = .blockedOnReply then do
      let s := replyRemove cfg reply receiver s
      let wasTimeout :=
        match s.tcbFault receiver with
        | .timeout _ => true
        | _ => false
      let s ← replyMessage cfg sender receiver grant s
      replyResume cfg receiver wasTimeout s
    else .ok s

/-- `doReplyTransfer` of the standard kernel; `slot` holds the reply capability. -/
def doReplyTransfer (sender receiver : Ptr) (slot : Slot) (grant : Bool) (s : Kernel) :
    Except Stuck Kernel :=
  if s.tcbFault receiver = .null then do
    let s ← doIPCTransfer cfg sender none 0 grant receiver s
    let s := cteDeleteOne slot s
    .ok (possibleSwitchTo cfg receiver (setThreadState cfg receiver .running s))
  else
    let s := cteDeleteOne slot s
    let (restart, s) := handleFaultReply cfg receiver sender s
    let s := s.setTcbFault receiver .null
    .ok (if restart then possibleSwitchTo cfg receiver (setThreadState cfg receiver .restart s)
      else setThreadState cfg receiver .inactive s)

/-! ### Charging the current scheduling context -/

/-- The refills of the current scheduling context. -/
def curRefills (s : Kernel) : Sporadic.SchedContext := s.schedContext s.ksCurSC

/-- A round robin context has two refills: what is left, and what was used. -/
def roundRobinCommit (r : Sporadic.SchedContext) (consumed : Nat) : Sporadic.SchedContext :=
  let r := Sporadic.setRefillHead r { Sporadic.refillHead r with
    rAmount := Sporadic.tickSub (Sporadic.refillHead r).rAmount consumed }
  Sporadic.setRefillTail r { Sporadic.refillTail r with
    rAmount := Sporadic.tickAdd (Sporadic.refillTail r).rAmount consumed }

def roundRobinCharge (r : Sporadic.SchedContext) : Sporadic.SchedContext :=
  let r := Sporadic.setRefillHead r { Sporadic.refillHead r with
    rAmount := Sporadic.tickAdd (Sporadic.refillHead r).rAmount (Sporadic.refillTail r).rAmount }
  Sporadic.setRefillTail r { Sporadic.refillTail r with rAmount := 0 }

/-- `scConsumed += consumed` for the current scheduling context. -/
def addConsumed (consumed : Nat) (s : Kernel) : Kernel :=
  { s with scConsumed :=
      update s.scConsumed s.ksCurSC (Sporadic.tickAdd (s.scConsumed s.ksCurSC) consumed) }

/-- The part of `commitTime` about the current scheduling context. -/
def commitRefills (s : Kernel) : Except Stuck Kernel :=
  if (curRefills s).scRefillMax = 0 then .ok s
  else do
    let s ←
      (if 0 < s.ksConsumed then
        putRefills s.ksCurSC
          (if Sporadic.isRoundRobin (curRefills s) then
              some (roundRobinCommit (curRefills s) s.ksConsumed)
            else Sporadic.refillSplitCheck cfg.timer (curRefills s) s.ksConsumed) s
      else .ok s)
    .ok (addConsumed s.ksConsumed s)

def commitTime (s : Kernel) : Except Stuck Kernel := do
  let s ← commitRefills cfg s
  let s :=
    if 1 < cfg.numDomains then { s with ksDomainTime := s.ksDomainTime - s.ksConsumed } else s
  .ok { s with ksConsumed := 0 }

/-- `endTimeslice`: a timeout fault, another turn, or a wait for the next refill. -/
def endTimeslice (canTimeoutFault : Bool) (s : Kernel) : Except Stuck Kernel :=
  if canTimeoutFault = true ∧ Sporadic.isRoundRobin (curRefills s) = false ∧
      validTimeoutHandler s s.ksCurThread = true then
    handleTimeout cfg s.ksCurThread { s with currentFault := .timeout (s.scBadge s.ksCurSC) }
  else if refillReady cfg s s.ksCurSC && refillSufficient cfg s s.ksCurSC 0 then
    .ok (tcbSchedAppend cfg s.ksCurThread s)
  else postpone cfg s.ksCurSC s

def chargeBudget (consumed : Nat) (canTimeoutFault : Bool) (s : Kernel) : Except Stuck Kernel := do
  let s ← putRefills s.ksCurSC
    (if Sporadic.isRoundRobin (curRefills s) then some (roundRobinCharge (curRefills s))
      else Sporadic.refillBudgetCheck cfg.timer s.ksCurTime (curRefills s) consumed) s
  let s := { addConsumed consumed s with ksConsumed := 0 }
  if isSchedulable cfg s s.ksCurThread then
    let s ← endTimeslice cfg canTimeoutFault s
    .ok { rescheduleRequired cfg s with ksReprogram := true }
  else .ok s

/-- `updateTimestamp`, with the time read from the timer. -/
def updateTimestamp (now : Nat) (s : Kernel) : Kernel :=
  { s with
    ksCurTime := now
    ksConsumed := Sporadic.tickAdd s.ksConsumed (Sporadic.tickSub now s.ksCurTime) }

def isCurDomainExpired (s : Kernel) : Bool :=
  decide (1 < cfg.numDomains) &&
    decide (s.ksDomainTime < Sporadic.tickAdd s.ksConsumed cfg.timer.minBudget)

/-- The current thread has budget to get through the kernel. -/
def enoughBudget (s : Kernel) : Bool :=
  decide (cfg.timer.minBudget ≤ Sporadic.refillCapacity (curRefills s) s.ksConsumed) &&
    (Sporadic.isRoundRobin (curRefills s) || !Sporadic.refillFull (curRefills s))

/-- `checkBudget`: true if the thread and its domain have budget for the current
kernel operation; else the thread is billed and a reschedule is set up. -/
def checkBudget (s : Kernel) : Except Stuck (Bool × Kernel) :=
  if enoughBudget cfg s then
    if isCurDomainExpired cfg s then
      .ok (false, rescheduleRequired cfg { s with ksReprogram := true })
    else .ok (true, s)
  else do
    let s ← chargeBudget cfg s.ksConsumed true s
    .ok (false, s)

def checkBudgetRestart (s : Kernel) : Except Stuck (Bool × Kernel) := do
  let (result, s) ← checkBudget cfg s
  if result = false ∧ isRunnable s s.ksCurThread = true then
    .ok (false, setThreadState cfg s.ksCurThread .restart s)
  else .ok (result, s)

/-! ### The scheduler -/

/-- `awaken`, over the release queue: threads whose refill is due leave it. -/
def awakenLoop : List Ptr → Kernel → Except Stuck Kernel
  | [], s => .ok s
  | awakened :: rest, s =>
    match s.tcbSchedContext awakened with
    | none => .error .nullSchedContext
    | some sc =>
      if refillReady cfg s sc then
        let s := possibleSwitchTo cfg awakened (tcbReleaseDequeue awakened rest s)
        awakenLoop rest { s with ksReprogram := true }
      else .ok s

def awaken (s : Kernel) : Except Stuck Kernel := awakenLoop cfg s.ksReleaseQueue s

def switchToThread (thread : Ptr) (s : Kernel) : Kernel :=
  { tcbSchedDequeue cfg thread s with ksCurThread := thread }

def switchToIdleThread (s : Kernel) : Kernel := { s with ksCurThread := s.ksIdleThread }

def chooseThread (s : Kernel) : Except Stuck Kernel :=
  let dom := if 1 < cfg.numDomains then s.ksCurDomain else 0
  if s.ksReadyQueuesL1Bitmap dom = 0 then .ok (switchToIdleThread s)
  else
    let prio := s.toReadyQueues.getHighestPrio cfg dom
    match s.ksReadyQueues (readyQueuesIndex cfg dom prio) with
    | [] => .error .nullObject
    | thread :: _ => .ok (switchToThread cfg thread s)

def nextDomain (s : Kernel) : Kernel :=
  let idx := s.ksDomScheduleIdx + 1
  let idx := if cfg.domSchedule.length ≤ idx then 0 else idx
  let (domain, length) := cfg.domSchedule.getD idx (0, 0)
  { s with
    ksDomScheduleIdx := idx
    ksReprogram := s.ksReprogram || cfg.mcs
    ksCurDomain := domain
    ksDomainTime := if cfg.mcs then cfg.usToTicks (length * 1000) else length }

def scheduleChooseNewThread (s : Kernel) : Except Stuck Kernel :=
  chooseThread cfg (if s.ksDomainTime = 0 then nextDomain cfg s else s)

/-- The scheduler with a candidate in `ksSchedulerAction`. -/
def scheduleCandidate (candidate : Ptr) (wasRunnable : Bool) (s : Kernel) : Except Stuck Kernel :=
  let fastfail := s.ksCurThread == s.ksIdleThread ||
    decide (s.tcbPriority candidate < s.tcbPriority s.ksCurThread)
  if fastfail = true ∧
      s.toReadyQueues.isHighestPrio cfg s.ksCurDomain (s.tcbPriority candidate) = false then
    scheduleChooseNewThread cfg
      { tcbSchedEnqueue cfg candidate s with ksSchedulerAction := .chooseNewThread }
  else if wasRunnable = true ∧ s.tcbPriority candidate = s.tcbPriority s.ksCurThread then
    scheduleChooseNewThread cfg
      { tcbSchedAppend cfg candidate s with ksSchedulerAction := .chooseNewThread }
  else .ok (switchToThread cfg candidate s)

/-- The choice of a thread in `schedule`. -/
def scheduleThread (s : Kernel) : Except Stuck Kernel :=
  match s.ksSchedulerAction with
  | .resumeCurrentThread => .ok s
  | action =>
    let wasRunnable := isSchedulable cfg s s.ksCurThread
    let s := if wasRunnable then tcbSchedEnqueue cfg s.ksCurThread s else s
    match action with
    | .switchTo candidate => scheduleCandidate cfg candidate wasRunnable s
    | _ => scheduleChooseNewThread cfg s

/-- `switchSchedContext`. A null scheduling context of the new thread counts as
used even where the code would only store it in `ksCurSC`. -/
def switchSchedContext (s : Kernel) : Except Stuck Kernel :=
  match s.tcbSchedContext s.ksCurThread with
  | none => .error .nullSchedContext
  | some sc => do
    let s ←
      (if s.ksCurSC ≠ sc ∧ (curRefills s).scRefillMax ≠ 0 then
        refillUnblockCheck cfg sc { s with ksReprogram := true }
      else .ok s)
    let s ← (if s.ksReprogram then commitTime cfg s else .ok s)
    .ok { s with ksCurSC := sc }

/-- `setNextInterrupt`: the deadline that the timer is programmed with. -/
def setNextInterrupt (s : Kernel) : Except Stuck Nat :=
  match s.tcbSchedContext s.ksCurThread with
  | none => .error .nullSchedContext
  | some sc => do
    let next := Sporadic.tickAdd s.ksCurTime (Sporadic.refillHead (s.schedContext sc)).rAmount
    let next :=
      if 1 < cfg.numDomains then min next (Sporadic.tickAdd s.ksCurTime s.ksDomainTime) else next
    match s.ksReleaseQueue with
    | [] => .ok (Sporadic.tickSub next cfg.timerPrecision)
    | head :: _ =>
      let time ← releaseTime s head
      .ok (Sporadic.tickSub (min time next) cfg.timerPrecision)

def schedule (s : Kernel) : Except Stuck Kernel := do
  let s ← (if cfg.mcs then awaken cfg s else .ok s)
  let s ← scheduleThread cfg s
  let s := { s with ksSchedulerAction := .resumeCurrentThread }
  if cfg.mcs then
    let s ← switchSchedContext cfg s
    if s.ksReprogram then
      let _ ← setNextInterrupt cfg s
      .ok { s with ksReprogram := false }
    else .ok s
  else .ok s

/-- `activateThread`; a current thread that is blocked is a failed assertion and
is left as it is. -/
def activateThread (s : Kernel) : Kernel :=
  let s :=
    if cfg.mcs = true ∧ s.tcbYieldTo s.ksCurThread ≠ none then
      schedContextCompleteYieldTo cfg (some s.ksCurThread) s
    else s
  match s.tsType s.ksCurThread with
  | .restart =>
    let pc := s.registers s.ksCurThread faultIP
    setThreadState cfg s.ksCurThread .running (s.setRegister s.ksCurThread nextIP pc)
  | _ => s

/-! ### Priorities -/

def Kernel.setTcbPriority (s : Kernel) (tcb : Ptr) (prio : Nat) : Kernel :=
  { s with tcbPriority := update s.tcbPriority tcb prio }

/-- `setPriority` of the MCS kernel. -/
def setPriorityMcs (tcb : Ptr) (prio : Nat) (s : Kernel) : Kernel :=
  match s.tsType tcb with
  | .running | .restart =>
    if s.tcbQueued tcb = true ∨ tcb = s.ksCurThread then
      let s := (tcbSchedDequeue cfg tcb s).setTcbPriority tcb prio
      rescheduleRequired cfg (tcbSchedEnqueue cfg tcb s)
    else s.setTcbPriority tcb prio
  | .blockedOnReceive | .blockedOnSend =>
    reorderEP cfg (s.tcbState tcb).blockingObject tcb (s.setTcbPriority tcb prio)
  | .blockedOnNotification =>
    reorderNTFN cfg (s.tcbState tcb).blockingObject tcb (s.setTcbPriority tcb prio)
  | .inactive | .blockedOnReply | .idleThreadState => s.setTcbPriority tcb prio

/-- `setPriority` of the standard kernel. -/
def setPriorityStandard (tcb : Ptr) (prio : Nat) (s : Kernel) : Kernel :=
  let s := (tcbSchedDequeue cfg tcb s).setTcbPriority tcb prio
  if isRunnable s tcb then
    if tcb = s.ksCurThread then rescheduleRequired cfg s else possibleSwitchTo cfg tcb s
  else s

def setPriority (tcb : Ptr) (prio : Nat) (s : Kernel) : Kernel :=
  if cfg.mcs then setPriorityMcs cfg tcb prio s else setPriorityStandard cfg tcb prio s

def setMCPriority (tcb : Ptr) (mcp : Nat) (s : Kernel) : Kernel :=
  { s with tcbMCP := update s.tcbMCP tcb mcp }

end SeL4Kernel
