import SeL4Kernel.Kernel.Message

/-!
# Scheduling contexts and reply objects

`src/object/schedcontext.c` and `src/object/reply.c`. A scheduling context is
bound to a thread, to a notification, or to both, by pointers in both directions,
and moves between threads when one calls another (`schedContextDonate`). The
callers that wait for their scheduling context to come back form a stack of reply
objects with the scheduling context at its top.
-/

namespace SeL4Kernel

open Function

variable (cfg : Config)

/-! ### Binding -/

/-- `schedContext_resume`: a thread that could run but has no budget now is
postponed. -/
def schedContextResume (sc : Option Ptr) (s : Kernel) : Except Stuck Kernel :=
  match sc with
  | none => .ok s
  | some sc =>
    match s.scTcb sc with
    | none => .error .nullObject
    | some tcb =>
      if isSchedulable cfg s tcb = true ∧
          ¬(refillReady cfg s sc = true ∧ refillSufficient cfg s sc 0 = true) then
        postpone cfg sc s
      else .ok s

def schedContextBindTCB (sc tcb : Ptr) (s : Kernel) : Except Stuck Kernel := do
  let s := s.setTcbSchedContext tcb (some sc)
  let s := s.setScTcb sc (some tcb)
  let s ← schedContextResume cfg (some sc) s
  if isSchedulable cfg s tcb then .ok (rescheduleRequired cfg (tcbSchedEnqueue cfg tcb s))
  else .ok s

/-- `schedContext_unbindTCB`, called with the thread the context is bound to. -/
def schedContextUnbindTCB (sc tcb : Ptr) (s : Kernel) : Kernel :=
  let s := if tcb = s.ksCurThread then rescheduleRequired cfg s else s
  let s := tcbSchedDequeue cfg tcb s
  let s := tcbReleaseRemove tcb s
  let s := s.setTcbSchedContext tcb none
  s.setScTcb sc none

def schedContextUnbindAllTCBs (sc : Ptr) (s : Kernel) : Kernel :=
  match s.scTcb sc with
  | none => s
  | some tcb => schedContextUnbindTCB cfg sc tcb s

/-- The donating thread leaves the ready queue, but not the release queue. -/
def schedContextDonate (sc recipient : Ptr) (s : Kernel) : Kernel :=
  let s :=
    match s.scTcb sc with
    | none => s
    | some donor =>
      let s := tcbSchedDequeue cfg donor s
      let s := s.setTcbSchedContext donor none
      if donor = s.ksCurThread ∨ s.ksSchedulerAction = SchedulerAction.switchTo donor then
        rescheduleRequired cfg s
      else s
  let s := s.setScTcb sc (some recipient)
  s.setTcbSchedContext recipient (some sc)

def schedContextBindNtfn (sc ntfn : Ptr) (s : Kernel) : Kernel :=
  { s with
    ntfnSchedContext := update s.ntfnSchedContext ntfn (some sc)
    scNotification := update s.scNotification sc (some ntfn) }

def schedContextUnbindNtfn (sc : Option Ptr) (s : Kernel) : Kernel :=
  match sc with
  | none => s
  | some sc =>
    match s.scNotification sc with
    | none => s
    | some ntfn => { s with
        ntfnSchedContext := update s.ntfnSchedContext ntfn none
        scNotification := update s.scNotification sc none }

/-! ### Yielding to a scheduling context -/

/-- `setConsumed`, which answers the current thread. -/
def setConsumed (sc : Ptr) (buffer : Option Nat) (s : Kernel) : Kernel :=
  let (consumed, s) := schedContextUpdateConsumed cfg sc s
  let (length, s) := setMR s.ksCurThread buffer 0 (BitVec.ofNat 64 consumed) s
  s.setRegister s.ksCurThread msgInfoRegister
    (wordFromMessageInfo { label := 0, capsUnwrapped := 0, extraCaps := 0, length := length })

def schedContextCancelYieldTo (tcb : Ptr) (s : Kernel) : Kernel :=
  match s.tcbYieldTo tcb with
  | none => s
  | some sc => { s with
      scYieldFrom := update s.scYieldFrom sc none
      tcbYieldTo := update s.tcbYieldTo tcb none }

def schedContextCompleteYieldTo (yielder : Option Ptr) (s : Kernel) : Kernel :=
  match yielder with
  | none => s
  | some yielder =>
    match s.tcbYieldTo yielder with
    | none => s
    | some sc =>
      schedContextCancelYieldTo yielder
        (setConsumed cfg sc (lookupIPCBuffer cfg s true yielder) s)

/-! ### The call stack -/

def replyUnlink (reply tcb : Ptr) (s : Kernel) : Kernel :=
  let s := s.setReplyObject tcb none
  let s := { s with replyTCB := update s.replyTCB reply none }
  setThreadState cfg tcb .inactive s

/-- Put `reply` on top of the stack of `sc`. -/
def replyLink (reply sc : Ptr) (s : Kernel) : Kernel :=
  let oldCaller := s.scReply sc
  let s := { s with replyPrev := update s.replyPrev reply oldCaller }
  let s :=
    match oldCaller with
    | none => s
    | some old => { s with replyNext := update s.replyNext old (.reply reply) }
  { s with
    replyNext := update s.replyNext reply (.schedContext sc)
    scReply := update s.scReply sc (some reply) }

def replyPush (tcbCaller tcbCallee reply : Ptr) (canDonate : Bool) (s : Kernel) : Kernel :=
  let scDonated := s.tcbSchedContext tcbCaller
  let s := s.setReplyObject tcbCallee none
  let s := { s with replyTCB := update s.replyTCB reply (some tcbCaller) }
  let s := s.setReplyObject tcbCaller (some reply)
  let s := setThreadState cfg tcbCaller .blockedOnReply s
  match scDonated with
  | none => s
  | some sc =>
    if s.tcbSchedContext tcbCallee = none ∧ canDonate = true then
      schedContextDonate cfg sc tcbCallee (replyLink reply sc s)
    else s

/-- `reply_pop`, for a reply at the top of the stack of `sc`. -/
def replyPop (reply tcb sc : Ptr) (s : Kernel) : Kernel :=
  let s := replyUnlink cfg reply tcb s
  let prev := s.replyPrev reply
  -- the scheduling context goes back unless the caller was given another one
  let s := if s.tcbSchedContext tcb = none then schedContextDonate cfg sc tcb s else s
  let s := { s with scReply := update s.scReply sc prev }
  let s :=
    match prev with
    | none => s
    | some p => { s with replyNext := update s.replyNext p (s.replyNext reply) }
  { s with
    replyPrev := update s.replyPrev reply none
    replyNext := update s.replyNext reply .null }

/-- Cut `reply` from the reply below it, and clear its own links. -/
def replyDetach (reply : Ptr) (s : Kernel) : Kernel :=
  let s :=
    match s.replyPrev reply with
    | none => s
    | some prev => { s with replyNext := update s.replyNext prev .null }
  { s with
    replyPrev := update s.replyPrev reply none
    replyNext := update s.replyNext reply .null }

def replyRemove (reply tcb : Ptr) (s : Kernel) : Kernel :=
  match s.replyNext reply with
  | .schedContext sc => replyPop cfg reply tcb sc s
  | .reply next =>
    -- in the middle of the stack: the chain is broken here
    let s := { s with replyPrev := update s.replyPrev next none }
    replyDetach reply (replyUnlink cfg reply tcb s)
  | .null => replyDetach reply (replyUnlink cfg reply tcb s)

/-- `reply_remove_tcb`: the caller goes away, and no scheduling context moves. -/
def replyRemoveTcb (tcb : Ptr) (s : Kernel) : Except Stuck Kernel :=
  match (s.tcbState tcb).replyObject with
  | none => .error .nullObject
  | some reply =>
    let s :=
      match s.replyNext reply with
      | .schedContext sc => { s with scReply := update s.scReply sc none }
      | .reply next => { s with replyPrev := update s.replyPrev next none }
      | .null => s
    .ok (replyUnlink cfg reply tcb (replyDetach reply s))

end SeL4Kernel
