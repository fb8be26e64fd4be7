import SeL4Kernel.Object.CNode

/-!
# The kernel state

The objects and globals of a single-core kernel. A field of an object is a map
from the object's address, so that `s.tcbSchedContext tcb` stands for
`tcb->tcbSchedContext`; fields that are used together are grouped, and a function
that leaves a group alone leaves the whole record of it alone. A pointer that
may be null is an `Option`.

Queues of threads are lists: the ready queues, the release queue and the queues
of endpoints and notifications are doubly linked through the threads in the
source, and every access below goes through the functions that keep those links.

A function that could follow a null pointer, or whose loop could fail to end, has
a result in `Except Stuck`.
-/

namespace SeL4Kernel

open Function

/-- What a kernel function can end in instead of returning. -/
inductive Stuck where
  /-- a read or write through a null scheduling context pointer -/
  | nullSchedContext
  /-- a read or write through a null pointer to another object -/
  | nullObject
  /-- a loop that does not end -/
  | noReturn
  /-- a failed assertion -/
  | assertion
  deriving DecidableEq, Repr

/-! ### Threads -/

/-- `_thread_state_t`. -/
inductive TsType where
  | inactive
  | running
  | restart
  | blockedOnReceive
  | blockedOnSend
  | blockedOnReply
  | blockedOnNotification
  | idleThreadState
  deriving DecidableEq, Repr

/-- `thread_state_t`, without the two queue flags, which are kept with the
queues. -/
structure ThreadState where
  tsType : TsType
  blockingObject : Ptr
  blockingIPCBadge : Word
  blockingIPCCanGrant : Bool
  blockingIPCCanGrantReply : Bool
  blockingIPCIsCall : Bool
  replyObject : Option Ptr
  deriving DecidableEq, Repr

/-- `lookup_fault_t`. -/
inductive LookupFault where
  | invalidRoot
  | missingCapability (bitsLeft : Nat)
  | depthMismatch (bitsFound bitsLeft : Nat)
  | guardMismatch (guardFound bitsLeft bitsFound : Nat)
  deriving DecidableEq, Repr

/-- `seL4_Fault_t`. -/
inductive Fault where
  | null
  | capFault (address : Word) (inReceivePhase : Bool)
  | unknownSyscall (syscallNumber : Word)
  | userException (number code : Word)
  | timeout (badge : Word)
  | vmFault (address : Word) (fsr : Word) (instructionFault : Bool)
  deriving DecidableEq, Repr

structure Threads where
  tcbState : Ptr → ThreadState
  tcbFault : Ptr → Fault
  tcbLookupFailure : Ptr → LookupFault
  /-- `tcbFaultHandler`, an address in the thread's capability space -/
  tcbFaultHandler : Ptr → Word

/-- What a thread sees: its registers, its IPC buffer address, and memory by
word address. -/
structure UserContext where
  registers : Ptr → Nat → Word
  tcbIPCBuffer : Ptr → Word
  memory : Nat → Word

/-! ### Scheduling -/

inductive SchedulerAction where
  | resumeCurrentThread
  | chooseNewThread
  | switchTo (tcb : Ptr)
  deriving DecidableEq, Repr

/-- The ready queues, by `ready_queues_index`, with their two-level bitmaps. -/
structure ReadyQueues where
  tcbQueued : Ptr → Bool
  ksReadyQueues : Nat → List Ptr
  ksReadyQueuesL1Bitmap : Nat → Word
  ksReadyQueuesL2Bitmap : Nat → Nat → Word

structure Priorities where
  tcbPriority : Ptr → Nat
  tcbMCP : Ptr → Nat
  tcbDomain : Ptr → Nat

structure Scheduler where
  ksCurThread : Ptr
  ksIdleThread : Ptr
  ksSchedulerAction : SchedulerAction
  ksCurDomain : Nat
  ksDomainTime : Nat
  ksDomScheduleIdx : Nat

/-- What is left of the timeslice of a thread, in the standard kernel. -/
structure TimeSlices where
  tcbTimeSlice : Ptr → Nat

/-! ### Scheduling contexts -/

/-- Which thread and which notification a scheduling context belongs to. -/
structure Bindings where
  tcbSchedContext : Ptr → Option Ptr
  scTcb : Ptr → Option Ptr
  ntfnSchedContext : Ptr → Option Ptr
  scNotification : Ptr → Option Ptr

/-- The release queue: threads that wait for their next refill. -/
structure ReleaseQueue where
  tcbInReleaseQueue : Ptr → Bool
  ksReleaseQueue : List Ptr

structure YieldLinks where
  tcbYieldTo : Ptr → Option Ptr
  scYieldFrom : Ptr → Option Ptr

structure Budgets where
  schedContext : Ptr → Sporadic.SchedContext
  scConsumed : Ptr → Nat
  scBadge : Ptr → Word
  ksCurTime : Nat
  ksConsumed : Nat
  ksCurSC : Ptr
  ksReprogram : Bool

/-! ### Objects of inter-process communication -/

/-- `call_stack_t`: the upper neighbour of a reply is the scheduling context
that the top of the stack runs on, or another reply. -/
inductive CallStack where
  | null
  | schedContext (sc : Ptr)
  | reply (reply : Ptr)
  deriving DecidableEq, Repr

structure Replies where
  replyTCB : Ptr → Option Ptr
  replyPrev : Ptr → Option Ptr
  replyNext : Ptr → CallStack
  scReply : Ptr → Option Ptr

inductive EPState where
  | idle
  | send
  | recv
  deriving DecidableEq, Repr

structure Endpoints where
  epState : Ptr → EPState
  epQueue : Ptr → List Ptr

inductive NtfnState where
  | idle
  | waiting
  | active
  deriving DecidableEq, Repr

structure Notifications where
  ntfnState : Ptr → NtfnState
  ntfnQueue : Ptr → List Ptr
  ntfnMsgIdentifier : Ptr → Word
  ntfnBoundTCB : Ptr → Option Ptr
  tcbBoundNotification : Ptr → Option Ptr

/-- `irq_state_t`. -/
inductive IRQState where
  | inactive
  | signal
  | timer
  | reserved
  deriving DecidableEq, Repr

structure Interrupts where
  intStateIRQTable : Nat → IRQState

/-- The globals in which a function leaves the reason of a failure. -/
structure Failure where
  currentFault : Fault
  currentLookupFault : LookupFault

structure Kernel extends Threads, UserContext, ReadyQueues, Priorities, Scheduler, TimeSlices,
    Bindings, ReleaseQueue, YieldLinks, Budgets, Replies, Endpoints, Notifications, Interrupts,
    Failure where
  cspace : CSpace

/-- Cleared memory: no object is in use, and every pointer is null. -/
def Kernel.cleared : Kernel where
  tcbState _ :=
    { tsType := .inactive
      blockingObject := 0
      blockingIPCBadge := 0
      blockingIPCCanGrant := false
      blockingIPCCanGrantReply := false
      blockingIPCIsCall := false
      replyObject := none }
  tcbFault _ := .null
  tcbLookupFailure _ := .invalidRoot
  tcbFaultHandler _ := 0
  registers _ _ := 0
  tcbIPCBuffer _ := 0
  memory _ := 0
  tcbQueued _ := false
  ksReadyQueues _ := []
  ksReadyQueuesL1Bitmap _ := 0
  ksReadyQueuesL2Bitmap _ _ := 0
  tcbPriority _ := 0
  tcbMCP _ := 0
  tcbDomain _ := 0
  ksCurThread := 0
  ksIdleThread := 0
  ksSchedulerAction := .resumeCurrentThread
  ksCurDomain := 0
  ksDomainTime := 0
  ksDomScheduleIdx := 0
  tcbTimeSlice _ := 0
  tcbSchedContext _ := none
  scTcb _ := none
  ntfnSchedContext _ := none
  scNotification _ := none
  tcbInReleaseQueue _ := false
  ksReleaseQueue := []
  tcbYieldTo _ := none
  scYieldFrom _ := none
  schedContext _ :=
    { scPeriod := 0
      scRefillMax := 0
      scRefillHead := 0
      scRefillTail := 0
      refills := fun _ => { rTime := 0, rAmount := 0 } }
  scConsumed _ := 0
  scBadge _ := 0
  ksCurTime := 0
  ksConsumed := 0
  ksCurSC := 0
  ksReprogram := false
  replyTCB _ := none
  replyPrev _ := none
  replyNext _ := .null
  scReply _ := none
  epState _ := .idle
  epQueue _ := []
  ntfnState _ := .idle
  ntfnQueue _ := []
  ntfnMsgIdentifier _ := 0
  ntfnBoundTCB _ := none
  tcbBoundNotification _ := none
  intStateIRQTable _ := .inactive
  currentFault := .null
  currentLookupFault := .invalidRoot
  cspace := { cap := fun _ => .null, mdb := fun _ => nullMDBNode }

/-! ### Reading the state of a thread -/

/-- `TCB_PTR_CTE_PTR(tcb, i)`. -/
def tcbSlot (tcb : Ptr) (index : Nat) : Slot := { base := tcb, index := index }

def tcbCTable : Nat := 0

def tcbVTable : Nat := 1

/-- The master reply capability of a thread, in the standard kernel. -/
def tcbReply : Nat := 2

/-- The reply capability of a thread's caller, in the standard kernel. -/
def tcbCaller : Nat := 3

def tcbBuffer (cfg : Config) : Nat := if cfg.mcs then 2 else 4

/-- The fault endpoint of a thread, in the MCS kernel. -/
def tcbFaultHandlerSlot : Nat := 3

/-- The timeout endpoint of a thread, in the MCS kernel. -/
def tcbTimeoutHandlerSlot : Nat := 4

def Kernel.cap (s : Kernel) (slot : Slot) : Cap := s.cspace.cap slot

def Kernel.tsType (s : Kernel) (tcb : Ptr) : TsType := (s.tcbState tcb).tsType

def isRunnable (s : Kernel) (tcb : Ptr) : Bool :=
  match s.tsType tcb with
  | .running | .restart => true
  | _ => false

def isBlocked (s : Kernel) (tcb : Ptr) : Bool :=
  match s.tsType tcb with
  | .blockedOnReceive | .blockedOnSend | .blockedOnNotification | .blockedOnReply => true
  | _ => false

def isStopped (s : Kernel) (tcb : Ptr) : Bool := s.tsType tcb == .inactive || isBlocked s tcb

/-- `isSchedulable`; in the standard kernel this is `isRunnable`. -/
def isSchedulable (cfg : Config) (s : Kernel) (tcb : Ptr) : Bool :=
  if cfg.mcs then
    isRunnable s tcb &&
      match s.tcbSchedContext tcb with
      | none => false
      | some sc => decide (0 < (s.schedContext sc).scRefillMax) && !s.tcbInReleaseQueue tcb
  else isRunnable s tcb

/-! ### Writing single fields -/

namespace Kernel

def setTcbState (s : Kernel) (tcb : Ptr) (ts : ThreadState) : Kernel :=
  { s with tcbState := update s.tcbState tcb ts }

/-- `thread_state_ptr_set_tsType`. -/
def setTsType (s : Kernel) (tcb : Ptr) (ts : TsType) : Kernel :=
  s.setTcbState tcb { s.tcbState tcb with tsType := ts }

/-- `thread_state_ptr_set_replyObject`. -/
def setReplyObject (s : Kernel) (tcb : Ptr) (reply : Option Ptr) : Kernel :=
  s.setTcbState tcb { s.tcbState tcb with replyObject := reply }

def setTcbFault (s : Kernel) (tcb : Ptr) (fault : Fault) : Kernel :=
  { s with tcbFault := update s.tcbFault tcb fault }

/-- `setRegister`. -/
def setRegister (s : Kernel) (tcb : Ptr) (reg : Nat) (w : Word) : Kernel :=
  { s with registers := update s.registers tcb (update (s.registers tcb) reg w) }

def setTcbSchedContext (s : Kernel) (tcb : Ptr) (sc : Option Ptr) : Kernel :=
  { s with tcbSchedContext := update s.tcbSchedContext tcb sc }

def setScTcb (s : Kernel) (sc : Ptr) (tcb : Option Ptr) : Kernel :=
  { s with scTcb := update s.scTcb sc tcb }

def setEp (s : Kernel) (ep : Ptr) (state : EPState) (queue : List Ptr) : Kernel :=
  { s with
    epState := update s.epState ep state, epQueue := update s.epQueue ep queue }

def setNtfn (s : Kernel) (ntfn : Ptr) (state : NtfnState) (queue : List Ptr) : Kernel :=
  { s with
    ntfnState := update s.ntfnState ntfn state
    ntfnQueue := update s.ntfnQueue ntfn queue }

/-- Replace the refills of a scheduling context. -/
def setSchedContext (s : Kernel) (sc : Ptr) (refills : Sporadic.SchedContext) : Kernel :=
  { s with schedContext := update s.schedContext sc refills }

end Kernel

end SeL4Kernel
