import SeL4Kernel.Object.Invocation

/-!
# System calls

`src/api/syscall.c`: from the registers of the current thread to the invocation of
a capability or a receive, then the scheduler, then the thread that runs next.

Invocations of capabilities other than endpoints, notifications and replies are
given by a parameter `rest`, and the interrupt that a preempted invocation leaves
behind by a parameter `interrupt`. Both stand for arbitrary functions.
-/

namespace SeL4Kernel

/-- `exception_t` of an invocation, with the state it leaves. -/
inductive Invoked where
  | none (s : Kernel)
  | syscallError (e : SyscallError) (s : Kernel)
  | preempted (s : Kernel)

/-- What `decodeInvocation` knows of the system call. -/
structure CallFlags where
  isCall : Bool
  isBlocking : Bool
  canDonate : Bool
  firstPhase : Bool
  deriving DecidableEq, Repr

/-- `syscall_t`. -/
inductive Syscall where
  | call
  | replyRecv
  | nbSendRecv
  | nbSendWait
  | send
  | nbSend
  | recv
  | reply
  | yield
  | wait
  | nbWait
  | nbRecv
  deriving DecidableEq, Repr

variable (cfg : Config)

/-! ### Errors -/

/-- `seL4_Error`. -/
def SyscallError.type : SyscallError → Nat
  | .invalidArgument _ => 1
  | .invalidCapability _ => 2
  | .illegalOperation => 3
  | .rangeError _ _ => 4
  | .alignmentError => 5
  | .failedLookup _ => 6
  | .truncatedMessage => 7
  | .deleteFirst => 8
  | .revokeFirst => 9
  | .notEnoughMemory _ => 10

/-- The message registers of `setMRs_syscall_error`. -/
def syscallErrorWords (luf : LookupFault) : SyscallError → List Nat
  | .invalidArgument n => [n]
  | .invalidCapability n => [n]
  | .rangeError lo hi => [lo, hi]
  | .failedLookup wasSource => (if wasSource then 1 else 0) :: lookupFailureWords luf
  | .notEnoughMemory left => [left]
  | .illegalOperation | .alignmentError | .truncatedMessage | .deleteFirst | .revokeFirst => []

/-- `replyFromKernel_error`. -/
def replyFromKernelError (e : SyscallError) (thread : Ptr) (s : Kernel) : Kernel :=
  let buffer := lookupIPCBuffer cfg s true thread
  let s := s.setRegister thread badgeRegister 0
  let (len, s) := setMRs thread buffer 0
    ((syscallErrorWords s.currentLookupFault e).map (BitVec.ofNat 64)) s
  s.setRegister thread msgInfoRegister
    (wordFromMessageInfo { label := e.type, capsUnwrapped := 0, extraCaps := 0, length := len })

/-! ### Invocations -/

section Entry

variable (rest : CallFlags → Cap → Slot → Kernel → Except Stuck Invoked)
  (interrupt : Kernel → Except Stuck Kernel)

/-- The arguments of `performInvocation_Endpoint`. -/
def endpointSendArgs (f : CallFlags) (c : EndpointCap) : SendArgs :=
  { blocking := f.isBlocking
    doCall := f.isCall
    badge := c.capEPBadge
    canGrant := c.capCanGrant
    canGrantReply := c.capCanGrantReply
    canDonate := f.canDonate }

def decodeInvocation (f : CallFlags) (cap : Cap) (slot : Slot) (s : Kernel) :
    Except Stuck Invoked :=
  let restarted := setThreadState cfg s.ksCurThread .restart s
  match cap with
  | .endpoint c =>
    if c.capCanSend then do
      let s ← sendIPC cfg (endpointSendArgs f c) s.ksCurThread c.capEPPtr restarted
      .ok (.none s)
    else .ok (.syscallError (.invalidCapability 0) s)
  | .notification c =>
    if c.capNtfnCanSend then do
      let s ← sendSignal cfg c.capNtfnPtr c.capNtfnBadge restarted
      .ok (.none s)
    else .ok (.syscallError (.invalidCapability 0) s)
  | .replyObject reply canGrant =>
    -- the standard kernel has no reply objects
    if cfg.mcs then do
      let s ← doReplyTransferMcs cfg s.ksCurThread reply canGrant restarted
      .ok (.none s)
    else .ok (.syscallError (.invalidCapability 0) s)
  | .reply canGrant master tcb =>
    if master then .ok (.syscallError (.invalidCapability 0) s)
    else do
      let s ← doReplyTransfer cfg s.ksCurThread tcb slot canGrant restarted
      .ok (.none s)
  | .null | .zombie _ => .ok (.syscallError (.invalidCapability 0) s)
  | cap => rest f cap slot s

/-- A lookup for the current thread failed: the fault is delivered or dropped. -/
def lookupFailed (deliver : Bool) (cptr : Word) (luf : LookupFault) (s : Kernel) :
    Except Stuck Kernel :=
  let s := { s with currentFault := .capFault cptr false, currentLookupFault := luf }
  if deliver then handleFault cfg s.ksCurThread s else .ok s

/-- The end of `handleInvocation`: answer the caller and let it run on. -/
def finishInvocation (f : CallFlags) (thread : Ptr) (s : Kernel) : Kernel :=
  if s.tsType thread = .restart then
    setThreadState cfg thread .running
      (if f.isCall then replyFromKernelSuccessEmpty thread s else s)
  else s

/-- `handleInvocation`; true if it was preempted. -/
def handleInvocation (f : CallFlags) (cptr : Word) (s : Kernel) : Except Stuck (Bool × Kernel) := do
  let thread := s.ksCurThread
  let info := messageInfoFromWord (s.registers thread msgInfoRegister)
  match ← lookupSlot s thread cptr with
  | .error luf =>
    let s ← lookupFailed cfg f.isBlocking cptr luf s
    .ok (false, s)
  | .ok slot =>
    match ← lookupExtraCaps s thread (lookupIPCBuffer cfg s false thread) info with
    | .error (cptr, luf) =>
      let s ← lookupFailed cfg f.isBlocking cptr luf s
      .ok (false, s)
    | .ok _ =>
      match ← decodeInvocation cfg rest f (s.cap slot) slot s with
      | .preempted s => .ok (true, s)
      | .syscallError e s =>
        .ok (false, if f.isCall then replyFromKernelError cfg e thread s else s)
      | .none s => .ok (false, finishInvocation cfg f thread s)

/-! ### Receiving -/

/-- A receive on a capability that does not allow it. -/
def receiveFault (cptr : Word) (luf : LookupFault) (s : Kernel) : Except Stuck Kernel :=
  handleFault cfg s.ksCurThread
    { s with currentFault := .capFault cptr true, currentLookupFault := luf }

/-- `lookupReply` and the receive that follows if it succeeds. -/
def receiveWithReply (c : EndpointCap) (isBlocking : Bool) (s : Kernel) : Except Stuck Kernel := do
  let replyCPtr := s.registers s.ksCurThread replyRegister
  match ← lookupSlot s s.ksCurThread replyCPtr with
  | .error luf => receiveFault cfg replyCPtr luf s
  | .ok slot =>
    match s.cap slot with
    | .replyObject reply _ => receiveIPC cfg s.ksCurThread c isBlocking (some reply) s
    | _ => receiveFault cfg replyCPtr s.currentLookupFault s

/-- The notification is bound to another thread than the current one. -/
def boundElsewhere (ntfn : Ptr) (s : Kernel) : Bool :=
  match s.ntfnBoundTCB ntfn with
  | none => false
  | some tcb => decide (tcb ≠ s.ksCurThread)

/-- `handleRecv`; `canReply` is used by the MCS kernel only. -/
def handleRecv (isBlocking canReply : Bool) (s : Kernel) : Except Stuck Kernel := do
  let epCPtr := s.registers s.ksCurThread capRegister
  match ← lookupSlot s s.ksCurThread epCPtr with
  | .error luf => receiveFault cfg epCPtr luf s
  | .ok slot =>
    match s.cap slot with
    | .endpoint c =>
      if c.capCanReceive then
        if cfg.mcs then
          if canReply then receiveWithReply cfg c isBlocking s
          else receiveIPC cfg s.ksCurThread c isBlocking none s
        else receiveIPC cfg s.ksCurThread c isBlocking none (deleteCallerCap s.ksCurThread s)
      else receiveFault cfg epCPtr (.missingCapability 0) s
    | .notification c =>
      if c.capNtfnCanReceive = false ∨ boundElsewhere c.capNtfnPtr s = true then
        receiveFault cfg epCPtr (.missingCapability 0) s
      else receiveSignal cfg s.ksCurThread c.capNtfnPtr isBlocking s
    | _ => receiveFault cfg epCPtr (.missingCapability 0) s

/-- `handleReply` of the standard kernel. -/
def handleReply (s : Kernel) : Except Stuck Kernel :=
  let callerSlot := tcbSlot s.ksCurThread tcbCaller
  match s.cap callerSlot with
  | .reply canGrant false caller => doReplyTransfer cfg s.ksCurThread caller callerSlot canGrant s
  | _ => .ok s

def handleYield (s : Kernel) : Except Stuck Kernel :=
  if cfg.mcs then do
    let consumed := Sporadic.tickAdd (s.scConsumed s.ksCurSC) s.ksConsumed
    let s ← chargeBudget cfg (Sporadic.refillHead (curRefills s)).rAmount false s
    -- the rest of the timeslice is given up, but not counted as consumed
    .ok { s with scConsumed := Function.update s.scConsumed s.ksCurSC consumed }
  else
    let s := tcbSchedDequeue cfg s.ksCurThread s
    .ok (rescheduleRequired cfg (tcbSchedAppend cfg s.ksCurThread s))

/-! ### Kernel entry -/

/-- An invocation, and the interrupt behind it if it is preempted. -/
def invocationEntry (f : CallFlags) (cptr : Word) (s : Kernel) : Except Stuck (Bool × Kernel) := do
  let (preempted, s) ← handleInvocation cfg rest f cptr s
  let s ← (if preempted then interrupt s else .ok s)
  .ok (preempted, s)

/-- An invocation followed by a receive. -/
def sendReceive (cptr : Word) (canReply : Bool) (s : Kernel) : Except Stuck Kernel := do
  let (preempted, s) ← invocationEntry cfg rest interrupt
    { isCall := false, isBlocking := false, canDonate := true, firstPhase := true } cptr s
  if preempted then .ok s else handleRecv cfg true canReply s

/-- The body of `handleSyscall`, for a thread with enough budget. -/
def syscallBody (syscall : Syscall) (s : Kernel) : Except Stuck Kernel :=
  let reg := s.registers s.ksCurThread
  match syscall with
  | .send => do
    let (_, s) ← invocationEntry cfg rest interrupt
      { isCall := false, isBlocking := true, canDonate := false, firstPhase := false }
      (reg capRegister) s
    .ok s
  | .nbSend => do
    let (_, s) ← invocationEntry cfg rest interrupt
      { isCall := false, isBlocking := false, canDonate := false, firstPhase := false }
      (reg capRegister) s
    .ok s
  | .call => do
    let (_, s) ← invocationEntry cfg rest interrupt
      { isCall := true, isBlocking := true, canDonate := true, firstPhase := false }
      (reg capRegister) s
    .ok s
  | .recv => handleRecv cfg true true s
  | .reply => if cfg.mcs then .ok s else handleReply cfg s
  | .replyRecv =>
    if cfg.mcs then sendReceive cfg rest interrupt (reg replyRegister) true s
    else do
      let s ← handleReply cfg s
      handleRecv cfg true true s
  | .wait => handleRecv cfg true false s
  | .nbWait => handleRecv cfg false false s
  | .nbSendRecv => sendReceive cfg rest interrupt (reg nbsendRecvDest) true s
  | .nbSendWait => sendReceive cfg rest interrupt (reg replyRegister) false s
  | .nbRecv => handleRecv cfg false true s
  | .yield => handleYield cfg s

/-- `MCS_DO_IF_BUDGET`: at time `now` the current thread enters the kernel, and the
body runs if the thread has budget for it. -/
def doIfBudget (now : Nat) (body : Kernel → Except Stuck Kernel) (s : Kernel) :
    Except Stuck Kernel :=
  if cfg.mcs then do
    let (enough, s) ← checkBudgetRestart cfg (updateTimestamp now s)
    if enough then body s else .ok s
  else body s

/-- `handleSyscall`, to the return to user level. -/
def handleSyscall (now : Nat) (syscall : Syscall) (s : Kernel) : Except Stuck Kernel := do
  let s ← doIfBudget cfg now (syscallBody cfg rest interrupt syscall) s
  let s ← schedule cfg s
  .ok (activateThread cfg s)

end Entry

end SeL4Kernel
