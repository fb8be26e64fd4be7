import SeL4Kernel.Kernel.Schedule

/-!
# Invocations of scheduling contexts and threads, and finalisation

The invocations of the MCS kernel that bind, move and configure scheduling
contexts, with the checks of their decode functions: `src/object/schedcontext.c`,
`src/object/schedcontrol.c` and the part of `src/object/tcb.c` about scheduling
and thread states. The end of the module is `finaliseCap`, which takes an object
out of use with its last capability.

A decode function gets the message as the source reads it from the IPC buffer:
the extra capabilities and the words. A failed check gives the error that is sent
back, and leaves the state as it was.
-/

namespace SeL4Kernel

open Function

variable (cfg : Config)

/-- `syscall_error_t`. -/
inductive SyscallError where
  | invalidArgument (invalidArgumentNumber : Nat)
  | invalidCapability (invalidCapNumber : Nat)
  | illegalOperation
  | truncatedMessage
  | rangeError (rangeErrorMin rangeErrorMax : Nat)
  | alignmentError
  | failedLookup (failedLookupWasSource : Bool)
  | deleteFirst
  | revokeFirst
  | notEnoughMemory (memoryLeft : Nat)
  deriving DecidableEq, Repr

/-- What a decode function ends in: stuck, an error for the caller, or done. -/
abbrev Decoded := Except Stuck (Except SyscallError Kernel)

/-- Run the invoke function of a decode function: the caller is in state `Restart`
meanwhile. -/
def invoke (f : Kernel → Except Stuck Kernel) (s : Kernel) : Decoded := do
  let s ← f (setThreadState cfg s.ksCurThread .restart s)
  .ok (.ok s)

/-! ### Scheduling contexts -/

def invokeSchedContextBind (sc : Ptr) (cap : Cap) (s : Kernel) : Except Stuck Kernel :=
  match cap with
  | .thread tcb => schedContextBindTCB cfg sc tcb s
  | .notification c => .ok (schedContextBindNtfn sc c.capNtfnPtr s)
  | _ => .ok s

def decodeSchedContextBind (sc : Ptr) (extraCap : Option Cap) (s : Kernel) : Decoded :=
  match extraCap with
  | none => .ok (.error .truncatedMessage)
  | some cap =>
    if s.scTcb sc ≠ none ∨ s.scNotification sc ≠ none then .ok (.error .illegalOperation)
    else
      match cap with
      | .thread tcb =>
        if s.tcbSchedContext tcb ≠ none then .ok (.error .illegalOperation)
        else if isBlocked s tcb = true ∧ scReleased cfg s sc = false then
          .ok (.error .illegalOperation)
        else invoke cfg (invokeSchedContextBind cfg sc cap) s
      | .notification c =>
        if s.ntfnSchedContext c.capNtfnPtr ≠ none then .ok (.error .illegalOperation)
        else invoke cfg (invokeSchedContextBind cfg sc cap) s
      | _ => .ok (.error (.invalidCapability 1))

/-- `invokeSchedContext_UnbindObject`; the thread is the one the context is bound to. -/
def invokeSchedContextUnbindObject (sc : Ptr) (cap : Cap) (s : Kernel) : Except Stuck Kernel :=
  match cap with
  | .thread tcb => .ok (schedContextUnbindTCB cfg sc tcb s)
  | .notification _ => .ok (schedContextUnbindNtfn (some sc) s)
  | _ => .ok s

def decodeSchedContextUnbindObject (sc : Ptr) (extraCap : Option Cap) (s : Kernel) : Decoded :=
  match extraCap with
  | none => .ok (.error .truncatedMessage)
  | some cap =>
    match cap with
    | .thread tcb =>
      if s.scTcb sc ≠ some tcb then .ok (.error .illegalOperation)
      else if tcb = s.ksCurThread then .ok (.error .illegalOperation)
      else invoke cfg (invokeSchedContextUnbindObject cfg sc cap) s
    | .notification c =>
      if s.scNotification sc ≠ some c.capNtfnPtr then .ok (.error .illegalOperation)
      else invoke cfg (invokeSchedContextUnbindObject cfg sc cap) s
    | _ => .ok (.error (.invalidCapability 1))

/-- Cut a scheduling context from its call stack. -/
def dropCallStack (sc : Ptr) (s : Kernel) : Kernel :=
  match s.scReply sc with
  | none => s
  | some reply => { s with
      replyNext := update s.replyNext reply .null
      scReply := update s.scReply sc none }

def invokeSchedContextUnbind (sc : Ptr) (s : Kernel) : Kernel :=
  dropCallStack sc (schedContextUnbindNtfn (some sc) (schedContextUnbindAllTCBs cfg sc s))

def decodeSchedContextUnbind (sc : Ptr) (s : Kernel) : Decoded :=
  if s.scTcb sc = some s.ksCurThread then .ok (.error .illegalOperation)
  else invoke cfg (fun s => .ok (invokeSchedContextUnbind cfg sc s)) s

def decodeSchedContextConsumed (sc : Ptr) (buffer : Option Nat) (s : Kernel) : Decoded :=
  invoke cfg (fun s => .ok (setConsumed cfg sc buffer s)) s

/-- The thread of `sc` runs next and the caller waits in its ready queue. -/
def yieldTo (sc tcb : Ptr) (s : Kernel) : Kernel :=
  let s := { s with
    tcbYieldTo := update s.tcbYieldTo s.ksCurThread (some sc)
    scYieldFrom := update s.scYieldFrom sc (some s.ksCurThread) }
  let s := tcbSchedDequeue cfg tcb s
  let s := tcbSchedEnqueue cfg s.ksCurThread s
  rescheduleRequired cfg (tcbSchedEnqueue cfg tcb s)

/-- `invokeSchedContext_YieldTo`, to the thread `tcb` of `sc`. -/
def invokeSchedContextYieldTo (sc tcb : Ptr) (buffer : Option Nat) (s : Kernel) :
    Except Stuck Kernel := do
  let s := schedContextCompleteYieldTo cfg (s.scYieldFrom sc) s
  let s ← schedContextResume cfg (some sc) s
  if isSchedulable cfg s tcb then
    let s ← refillUnblockCheck cfg sc s
    if s.tcbPriority tcb < s.tcbPriority s.ksCurThread then
      .ok (setConsumed cfg sc buffer (tcbSchedEnqueue cfg tcb (tcbSchedDequeue cfg tcb s)))
    else .ok (yieldTo cfg sc tcb s)
  else .ok (setConsumed cfg sc buffer s)

def decodeSchedContextYieldTo (sc : Ptr) (buffer : Option Nat) (s : Kernel) : Decoded :=
  match s.scTcb sc with
  | none => .ok (.error .illegalOperation)
  | some tcb =>
    if tcb = s.ksCurThread then .ok (.error .illegalOperation)
    else if s.tcbMCP s.ksCurThread < s.tcbPriority tcb then .ok (.error .illegalOperation)
    else invoke cfg (invokeSchedContextYieldTo cfg sc tcb buffer) s

/-! ### Scheduling control -/

/-- The refills of a scheduling context that is configured anew. A context in use
keeps its bandwidth; budget and period alike mean round robin. -/
def configuredRefills (s : Kernel) (target : Ptr) (budget period maxRefills : Nat) :
    Sporadic.SchedContext :=
  let refills := s.schedContext target
  let inUse := decide (0 < refills.scRefillMax) &&
    match s.scTcb target with
    | none => false
    | some tcb => isRunnable s tcb
  if budget = period then
    Sporadic.refillNew s.ksCurTime refills Sporadic.minRefills budget 0
  else if inUse then
    Sporadic.refillUpdate cfg.timer s.ksCurTime refills period budget maxRefills
  else Sporadic.refillNew s.ksCurTime refills maxRefills budget period

/-- Before the parameters of a scheduling context change, its thread leaves the
sorted queues and the current one is billed. -/
def settleSchedContext (target : Ptr) (s : Kernel) : Except Stuck Kernel :=
  match s.scTcb target with
  | none => .ok s
  | some tcb =>
    let s := tcbSchedDequeue cfg tcb (tcbReleaseRemove tcb s)
    if s.ksCurSC = target then commitTime cfg s else .ok s

def invokeSchedControlConfigure (target : Ptr) (budget period maxRefills : Nat) (badge : Word)
    (s : Kernel) : Except Stuck Kernel := do
  let s ← settleSchedContext cfg target
    { s with scBadge := update s.scBadge target badge }
  let s := s.setSchedContext target (configuredRefills cfg s target budget period maxRefills)
  match s.scTcb target with
  | none => .ok s
  | some tcb =>
    let s ← schedContextResume cfg (some target) s
    let s :=
      if isRunnable s tcb = true ∧ tcb ≠ s.ksCurThread then possibleSwitchTo cfg tcb s else s
    .ok (if tcb = s.ksCurThread then rescheduleRequired cfg s else s)

/-- The words of a `SchedControl_Configure` message. -/
structure ConfigureArgs where
  budgetUs : Nat
  periodUs : Nat
  extraRefills : Nat
  badge : Word
  deriving DecidableEq, Repr

/-- `refill_absolute_max`: the refills that fit behind the eleven words of a
scheduling context. -/
def refillAbsoluteMax (sizeBits : Nat) : Nat := (2 ^ sizeBits - 88) / 16

/-- `decodeSchedControl_Configure`. The sum of the refills is a word and may wrap. -/
def decodeSchedControlConfigure (length : Nat) (extraCap : Option Cap) (a : ConfigureArgs)
    (s : Kernel) : Decoded :=
  match extraCap with
  | none => .ok (.error .truncatedMessage)
  | some targetCap =>
    let budgetTicks := cfg.usToTicks a.budgetUs
    let periodTicks := cfg.usToTicks a.periodUs
    let maxRefills := Sporadic.tickAdd a.extraRefills Sporadic.minRefills
    if length < 4 then .ok (.error .truncatedMessage)
    else
      match targetCap with
      | .schedContext target sizeBits =>
        if cfg.maxBudgetUs < a.budgetUs ∨ budgetTicks < cfg.timer.minBudget then
          .ok (.error (.rangeError cfg.minBudgetUs cfg.maxBudgetUs))
        else if cfg.maxBudgetUs < a.periodUs ∨ periodTicks < cfg.timer.minBudget then
          .ok (.error (.rangeError cfg.minBudgetUs cfg.maxBudgetUs))
        else if periodTicks < budgetTicks then
          .ok (.error (.rangeError cfg.minBudgetUs a.periodUs))
        else if refillAbsoluteMax sizeBits < maxRefills then
          .ok (.error (.rangeError 0 (refillAbsoluteMax sizeBits - Sporadic.minRefills)))
        else
          invoke cfg
            (invokeSchedControlConfigure cfg target budgetTicks periodTicks maxRefills a.badge) s
      | _ => .ok (.error (.invalidCapability 1))

/-! ### Finalisation -/

/-- The reply object of a last reply capability lets go of its thread. -/
def finaliseReply (reply : Ptr) (s : Kernel) : Kernel :=
  match s.replyTCB reply with
  | none => s
  | some tcb =>
    match s.tsType tcb with
    | .blockedOnReply => replyRemove cfg reply tcb s
    | .blockedOnReceive => replyUnlink cfg reply tcb s
    | _ => s

/-- The scheduling context of a thread whose last capability goes. -/
def releaseSchedContext (tcb : Ptr) (s : Kernel) : Kernel :=
  match s.tcbSchedContext tcb with
  | none => s
  | some sc =>
    schedContextUnbindTCB cfg sc tcb (schedContextCompleteYieldTo cfg (s.scYieldFrom sc) s)

def finaliseThread (tcb : Ptr) (s : Kernel) : Except Stuck Kernel :=
  let s := unbindNotification tcb s
  suspend cfg tcb (if cfg.mcs then releaseSchedContext cfg tcb s else s)

def finaliseSchedContext (sc : Ptr) (s : Kernel) : Kernel :=
  let s := invokeSchedContextUnbind cfg sc s
  let s := schedContextCompleteYieldTo cfg (s.scYieldFrom sc) s
  s.setSchedContext sc { s.schedContext sc with scRefillMax := 0 }

/-- The effect of `finaliseCap` on objects other than the capability spaces. The
capability that remains in the slot is the matter of recursive deletion. -/
def finaliseObject (cap : Cap) (final : Bool) (s : Kernel) : Except Stuck Kernel :=
  if final then
    match cap with
    | .endpoint c => .ok (cancelAllIPC cfg c.capEPPtr s)
    | .notification c =>
      let ntfn := c.capNtfnPtr
      let s := if cfg.mcs then schedContextUnbindNtfn (s.ntfnSchedContext ntfn) s else s
      .ok (cancelAllSignals cfg ntfn (unbindMaybeNotification ntfn s))
    | .replyObject reply _ => .ok (if cfg.mcs then finaliseReply cfg reply s else s)
    | .thread tcb => finaliseThread cfg tcb s
    | .schedContext sc _ => .ok (if cfg.mcs then finaliseSchedContext cfg sc s else s)
    | _ => .ok s
  else .ok s

/-! ### Threads -/

/-- `cteDelete` for the slot of a fault handler. It holds an endpoint capability or
none (`validFaultHandler`), so that one finalisation is enough. -/
def deleteFaultHandler (rootSlot : Slot) (s : Kernel) : Kernel :=
  let s :=
    match s.cap rootSlot with
    | .endpoint c =>
      if isFinalCapability cfg s.cspace rootSlot then cancelAllIPC cfg c.capEPPtr s else s
    | _ => s
  { s with cspace := emptySlot rootSlot s.cspace }

/-- `installTCBCap` for a fault handler. -/
def installFaultHandler (target : Ptr) (slot : Slot) (index : Nat) (newCap : Cap)
    (srcSlot : Slot) (s : Kernel) : Kernel :=
  let rootSlot := tcbSlot target index
  let s := deleteFaultHandler cfg rootSlot s
  if sameObjectAs cfg newCap (s.cap srcSlot) && sameObjectAs cfg (.thread target) (s.cap slot) then
    { s with cspace := cteInsert newCap srcSlot rootSlot s.cspace }
  else s

/-- The part of `invokeTCB_ThreadControlSched` about the scheduling context. -/
def updateSchedContext (target : Ptr) (sc : Option Ptr) (s : Kernel) : Except Stuck Kernel :=
  match sc, s.tcbSchedContext target with
  | some sc, old => if some sc ≠ old then schedContextBindTCB cfg sc target s else .ok s
  | none, some old => .ok (schedContextUnbindTCB cfg old target s)
  | none, none => .ok s

/-- `validFaultHandler`. -/
def validFaultHandler : Cap → Bool
  | .endpoint c => c.capCanSend && (c.capCanGrant || c.capCanGrantReply)
  | .null => true
  | _ => false

/-- The message of a `TCB_SetSchedParams` invocation: the authority, the scheduling
context and the fault handler as capabilities in slots, and two words. -/
structure SchedParams where
  mcp : Nat
  prio : Nat
  authSlot : Slot
  scSlot : Slot
  fhSlot : Slot
  deriving DecidableEq, Repr

/-- The scheduling context that `decodeSetSchedParams` finds, after its checks. -/
def checkSchedContextCap (s : Kernel) (tcb : Ptr) (scCap : Cap) :
    Except SyscallError (Option Ptr) :=
  match scCap with
  | .schedContext sc _ =>
    if s.tcbSchedContext tcb ≠ none then .error .illegalOperation
    else if s.scTcb sc ≠ none then .error .illegalOperation
    else if isBlocked s tcb = true ∧ scReleased cfg s sc = false then .error .illegalOperation
    else .ok (some sc)
  | .null => if tcb = s.ksCurThread then .error .illegalOperation else .ok none
  | _ => .error (.invalidCapability 2)

def invokeTCBThreadControlSched (target : Ptr) (slot : Slot) (p : SchedParams) (fhCap : Cap)
    (sc : Option Ptr) (s : Kernel) : Except Stuck Kernel :=
  let s := installFaultHandler cfg target slot tcbFaultHandlerSlot fhCap p.fhSlot s
  let s := setPriority cfg target p.prio (setMCPriority target p.mcp s)
  updateSchedContext cfg target sc s

def decodeSetSchedParams (tcb : Ptr) (slot : Slot) (message : Option SchedParams) (s : Kernel) :
    Decoded :=
  match message with
  | none => .ok (.error .truncatedMessage)
  | some p =>
    match s.cap p.authSlot with
    | .thread auth =>
      if s.tcbMCP auth < p.mcp then .ok (.error (.rangeError 0 (s.tcbMCP auth)))
      else if s.tcbMCP auth < p.prio then .ok (.error (.rangeError 0 (s.tcbMCP auth)))
      else
        match checkSchedContextCap cfg s tcb (s.cap p.scSlot) with
        | .error e => .ok (.error e)
        | .ok sc =>
          if validFaultHandler (s.cap p.fhSlot) then
            invoke cfg (invokeTCBThreadControlSched cfg tcb slot p (s.cap p.fhSlot) sc) s
          else .ok (.error (.invalidCapability 3))
    | _ => .ok (.error (.invalidCapability 1))

def decodeSetPriority (tcb auth : Ptr) (prio : Nat) (s : Kernel) : Decoded :=
  if s.tcbMCP auth < prio then .ok (.error (.rangeError 0 (s.tcbMCP auth)))
  else invoke cfg (fun s => .ok (setPriority cfg tcb prio s)) s

/-- The thread states of `invokeTCB_CopyRegisters`: the source may be suspended and
the target resumed. The copied registers are `transfer`. -/
def invokeTCBCopyRegisters (dest src : Ptr) (suspendSource resumeTarget : Bool)
    (transfer : (Nat → Word) → (Nat → Word) → Nat → Word) (s : Kernel) : Except Stuck Kernel := do
  let s ← (if suspendSource then suspend cfg src s else .ok s)
  let s ← (if resumeTarget then restart cfg dest s else .ok s)
  let copied := transfer (s.registers src) (s.registers dest)
  let s := { s with registers := update s.registers dest copied }
  .ok (if dest = s.ksCurThread then rescheduleRequired cfg s else s)

def decodeBindNotification (tcb : Ptr) (extraCap : Option Cap) (s : Kernel) : Decoded :=
  match extraCap with
  | none => .ok (.error .truncatedMessage)
  | some cap =>
    if s.tcbBoundNotification tcb ≠ none then .ok (.error .illegalOperation)
    else
      match cap with
      | .notification c =>
        if c.capNtfnCanReceive = false then .ok (.error .illegalOperation)
        else if s.ntfnQueue c.capNtfnPtr ≠ [] ∨ s.ntfnBoundTCB c.capNtfnPtr ≠ none then
          .ok (.error .illegalOperation)
        else invoke cfg (fun s => .ok (bindNotification tcb c.capNtfnPtr s)) s
      | _ => .ok (.error .illegalOperation)

def decodeUnbindNotification (tcb : Ptr) (s : Kernel) : Decoded :=
  if s.tcbBoundNotification tcb = none then .ok (.error .illegalOperation)
  else invoke cfg (fun s => .ok (unbindNotification tcb s)) s

end SeL4Kernel
