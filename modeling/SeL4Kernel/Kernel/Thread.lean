import SeL4Kernel.Kernel.CSpace

/-!
# Thread states and the pending scheduling decision

The part of `src/kernel/thread.c` that every kernel object uses: changing the
state of a thread, and recording in `ksSchedulerAction` what the scheduler shall
do at the end of the kernel entry.
-/

namespace SeL4Kernel

variable (cfg : Config)

def rescheduleRequired (s : Kernel) : Kernel :=
  let s :=
    match s.ksSchedulerAction with
    | .switchTo tcb =>
      if cfg.mcs = true ∧ isSchedulable cfg s tcb = false then s else tcbSchedEnqueue cfg tcb s
    | .resumeCurrentThread | .chooseNewThread => s
  { s with ksSchedulerAction := .chooseNewThread }

/-- `scheduleTCB`: the current thread may have become unable to continue. -/
def scheduleTCB (tcb : Ptr) (s : Kernel) : Kernel :=
  if tcb = s.ksCurThread ∧ s.ksSchedulerAction = .resumeCurrentThread ∧
      isSchedulable cfg s tcb = false then
    rescheduleRequired cfg s
  else s

def setThreadState (tcb : Ptr) (ts : TsType) (s : Kernel) : Kernel :=
  scheduleTCB cfg tcb (s.setTsType tcb ts)

/-- `possibleSwitchTo`: the thread is kept out of the queues, at the place where
the scheduler will look first, unless that place is taken. -/
def possibleSwitchTo (target : Ptr) (s : Kernel) : Kernel :=
  if cfg.mcs = true ∧ (s.tcbSchedContext target = none ∨ s.tcbInReleaseQueue target = true) then s
  else if s.ksCurDomain ≠ s.tcbDomain target then tcbSchedEnqueue cfg target s
  else
    match s.ksSchedulerAction with
    | .resumeCurrentThread => { s with ksSchedulerAction := .switchTo target }
    | .chooseNewThread | .switchTo _ => tcbSchedEnqueue cfg target (rescheduleRequired cfg s)

/-- `postpone`: the thread of a scheduling context waits for its next refill. -/
def postpone (sc : Ptr) (s : Kernel) : Except Stuck Kernel :=
  match s.scTcb sc with
  | none => .error .nullObject
  | some tcb => do
    let s ← tcbReleaseEnqueue tcb (tcbSchedDequeue cfg tcb s)
    .ok { s with ksReprogram := true }

/-! ### Refills of a scheduling context -/

/-- `refill_ready`. -/
def refillReady (s : Kernel) (sc : Ptr) : Bool :=
  Sporadic.refillReady cfg.timer s.ksCurTime (s.schedContext sc)

/-- `refill_sufficient`. -/
def refillSufficient (s : Kernel) (sc : Ptr) (usage : Nat) : Bool :=
  Sporadic.refillSufficient cfg.timer (s.schedContext sc) usage

/-- `sc_released`. -/
def scReleased (s : Kernel) (sc : Ptr) : Bool :=
  decide (0 < (s.schedContext sc).scRefillMax) && refillReady cfg s sc

/-- Write back what a refill function made of a scheduling context. -/
def putRefills (sc : Ptr) (refills : Option Sporadic.SchedContext) (s : Kernel) :
    Except Stuck Kernel :=
  match refills with
  | none => .error .noReturn
  | some r => .ok (s.setSchedContext sc r)

/-- `refill_unblock_check`. -/
def refillUnblockCheck (sc : Ptr) (s : Kernel) : Except Stuck Kernel :=
  putRefills sc (Sporadic.refillUnblockCheck cfg.timer s.ksCurTime (s.schedContext sc))
    { s with
      ksReprogram := s.ksReprogram ||
        (!Sporadic.isRoundRobin (s.schedContext sc) && refillReady cfg s sc) }

end SeL4Kernel
