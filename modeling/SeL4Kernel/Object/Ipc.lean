import SeL4Kernel.Object.SchedContext

/-!
# Endpoints and notifications

`src/object/endpoint.c` and `src/object/notification.c`: sending and receiving
messages and signals, and cancelling them. Where the standard and the MCS kernel
differ, both are here: the standard kernel leaves a reply capability in the
receiver's caller slot (`setupCallerCap`), the MCS kernel links a reply object and
may hand over the sender's scheduling context.
-/

namespace SeL4Kernel

open Function

variable (cfg : Config)

/-! ### Reply capabilities of the standard kernel -/

/-- `cteDeleteOne` on a slot that holds a reply capability or nothing: the
finalisation of a reply capability leaves everything else alone. -/
def cteDeleteOne (slot : Slot) (s : Kernel) : Kernel :=
  { s with cspace := emptySlot slot s.cspace }

def deleteCallerCap (receiver : Ptr) (s : Kernel) : Kernel :=
  cteDeleteOne (tcbSlot receiver tcbCaller) s

def setupCallerCap (sender receiver : Ptr) (canGrant : Bool) (s : Kernel) : Kernel :=
  let s := setThreadState cfg sender .blockedOnReply s
  let replySlot := tcbSlot sender tcbReply
  let callerSlot := tcbSlot receiver tcbCaller
  { s with cspace := cteInsert (.reply canGrant false sender) replySlot callerSlot s.cspace }

def setupReplyMaster (thread : Ptr) (s : Kernel) : Kernel :=
  let slot := tcbSlot thread tcbReply
  if s.cap slot = .null then
    let node := { nullMDBNode with mdbRevocable := true, mdbFirstBadged := true }
    { s with cspace := (s.cspace.setCap slot (.reply true true thread)).setMdb slot node }
  else s

/-! ### Cancelling -/

/-- Take a thread out of the queue of an endpoint. -/
def epDequeue (ep tcb : Ptr) (s : Kernel) : Kernel :=
  let queue := tcbEPDequeue tcb (s.epQueue ep)
  s.setEp ep (if queue = [] then .idle else s.epState ep) queue

/-- Take a thread out of the queue of a notification. -/
def ntfnDequeue (ntfn tcb : Ptr) (s : Kernel) : Kernel :=
  let queue := tcbEPDequeue tcb (s.ntfnQueue ntfn)
  s.setNtfn ntfn (if queue = [] then .idle else s.ntfnState ntfn) queue

def cancelSignal (tcb ntfn : Ptr) (s : Kernel) : Kernel :=
  setThreadState cfg tcb .inactive (ntfnDequeue ntfn tcb s)

/-- Unlink the reply object of a thread that waits to receive, if it has one. -/
def unlinkReplyObject (tcb : Ptr) (s : Kernel) : Kernel :=
  match (s.tcbState tcb).replyObject with
  | none => s
  | some reply => replyUnlink cfg reply tcb s

def cancelIPC (tcb : Ptr) (s : Kernel) : Except Stuck Kernel :=
  let s := if cfg.mcs then s.setTcbFault tcb .null else s
  match s.tsType tcb with
  | .blockedOnSend | .blockedOnReceive =>
    let s := epDequeue (s.tcbState tcb).blockingObject tcb s
    let s := if cfg.mcs then unlinkReplyObject cfg tcb s else s
    .ok (setThreadState cfg tcb .inactive s)
  | .blockedOnNotification => .ok (cancelSignal cfg tcb (s.tcbState tcb).blockingObject s)
  | .blockedOnReply =>
    if cfg.mcs then replyRemoveTcb cfg tcb s
    else
      let s := s.setTcbFault tcb .null
      match (s.cspace.mdb (tcbSlot tcb tcbReply)).mdbNext with
      | none => .ok s
      | some callerCap => .ok (cteDeleteOne callerCap s)
  | .inactive | .running | .restart | .idleThreadState => .ok s

/-- What `cancelAllIPC` and `cancelBadgedSends` do with a thread they wake. -/
def restartSender (thread : Ptr) (s : Kernel) : Kernel :=
  if cfg.mcs then
    if s.tcbFault thread = .null then
      possibleSwitchTo cfg thread (setThreadState cfg thread .restart s)
    else setThreadState cfg thread .inactive s
  else tcbSchedEnqueue cfg thread (setThreadState cfg thread .restart s)

def cancelAllIPC (ep : Ptr) (s : Kernel) : Kernel :=
  match s.epState ep with
  | .idle => s
  | .send | .recv =>
    let queue := s.epQueue ep
    let s := s.setEp ep .idle []
    let s := queue.foldl
      (fun s thread =>
        restartSender cfg thread (if cfg.mcs then unlinkReplyObject cfg thread s else s)) s
    rescheduleRequired cfg s

/-- One round of `cancelBadgedSends`: the queue that remains, and the state. -/
def cancelBadgedSend (badge : Word) (acc : List Ptr × Kernel) (thread : Ptr) :
    List Ptr × Kernel :=
  let (queue, s) := acc
  if (s.tcbState thread).blockingIPCBadge = badge then
    (tcbEPDequeue thread queue, restartSender cfg thread s)
  else (queue, s)

def cancelBadgedSends (ep : Ptr) (badge : Word) (s : Kernel) : Kernel :=
  match s.epState ep with
  | .idle | .recv => s
  | .send =>
    let queue := s.epQueue ep
    let s := s.setEp ep .idle []
    let (queue, s) := queue.foldl (cancelBadgedSend cfg badge) (queue, s)
    let s := s.setEp ep (if queue = [] then s.epState ep else .send) queue
    rescheduleRequired cfg s

def cancelAllSignals (ntfn : Ptr) (s : Kernel) : Kernel :=
  match s.ntfnState ntfn with
  | .idle | .active => s
  | .waiting =>
    let queue := s.ntfnQueue ntfn
    let s := s.setNtfn ntfn .idle []
    let s := queue.foldl
      (fun s thread =>
        let s := setThreadState cfg thread .restart s
        if cfg.mcs then possibleSwitchTo cfg thread s else tcbSchedEnqueue cfg thread s) s
    rescheduleRequired cfg s

def suspend (target : Ptr) (s : Kernel) : Except Stuck Kernel := do
  let s ← cancelIPC cfg target s
  let s := if s.tsType target = .running then updateRestartPC target s else s
  let s := setThreadState cfg target .inactive s
  let s := tcbSchedDequeue cfg target s
  .ok (if cfg.mcs then schedContextCancelYieldTo target (tcbReleaseRemove target s) else s)

def restart (target : Ptr) (s : Kernel) : Except Stuck Kernel :=
  if isStopped s target then do
    let s ← cancelIPC cfg target s
    if cfg.mcs then
      let s := setThreadState cfg target .restart s
      let s ← schedContextResume cfg (s.tcbSchedContext target) s
      .ok (if isSchedulable cfg s target then possibleSwitchTo cfg target s else s)
    else
      let s := setThreadState cfg target .restart (setupReplyMaster target s)
      .ok (possibleSwitchTo cfg target (tcbSchedEnqueue cfg target s))
  else .ok s

/-! ### Signals -/

def maybeDonateSchedContext (tcb ntfn : Ptr) (s : Kernel) : Except Stuck Kernel :=
  if s.tcbSchedContext tcb = none then
    match s.ntfnSchedContext ntfn with
    | none => .ok s
    | some sc =>
      if s.scTcb sc = none then do
        let s := schedContextDonate cfg sc tcb s
        let s ← (if sc = s.ksCurSC then .ok s else refillUnblockCheck cfg sc s)
        schedContextResume cfg (some sc) s
      else .ok s
  else .ok s

/-- `maybeReturnSchedContext`: a thread that runs on the scheduling context of a
notification gives it back before it waits. Two null pointers compare equal
too, and then the second assignment goes through one. -/
def maybeReturnSchedContext (ntfn tcb : Ptr) (s : Kernel) : Except Stuck Kernel :=
  let sc := s.ntfnSchedContext ntfn
  if sc = s.tcbSchedContext tcb then
    let s := s.setTcbSchedContext tcb none
    match sc with
    | none => .error .nullSchedContext
    | some sc =>
      let s := s.setScTcb sc none
      .ok (if tcb = s.ksCurThread then rescheduleRequired cfg s else s)
  else .ok s

def ntfnSetActive (ntfn : Ptr) (badge : Word) (s : Kernel) : Kernel :=
  { s with
    ntfnState := update s.ntfnState ntfn .active
    ntfnMsgIdentifier := update s.ntfnMsgIdentifier ntfn badge }

/-- The end of a signal that wakes a thread (`MCS_DO_IF_SC`). -/
def wakeBySignal (tcb ntfn : Ptr) (badge : Word) (s : Kernel) : Except Stuck Kernel := do
  let s := setThreadState cfg tcb .running s
  let s := s.setRegister tcb badgeRegister badge
  if cfg.mcs then
    let s ← maybeDonateSchedContext cfg tcb ntfn s
    .ok (if isSchedulable cfg s tcb then possibleSwitchTo cfg tcb s else s)
  else .ok (possibleSwitchTo cfg tcb s)

def sendSignal (ntfn : Ptr) (badge : Word) (s : Kernel) : Except Stuck Kernel :=
  match s.ntfnState ntfn with
  | .idle =>
    match s.ntfnBoundTCB ntfn with
    | none => .ok (ntfnSetActive ntfn badge s)
    | some tcb =>
      if s.tsType tcb = .blockedOnReceive then do
        let s ← cancelIPC cfg tcb s
        wakeBySignal cfg tcb ntfn badge s
      else .ok (ntfnSetActive ntfn badge s)
  | .waiting =>
    match s.ntfnQueue ntfn with
    | [] => .error .nullObject
    | dest :: _ => wakeBySignal cfg dest ntfn badge (ntfnDequeue ntfn dest s)
  | .active => .ok { s with
      ntfnMsgIdentifier := update s.ntfnMsgIdentifier ntfn
        (s.ntfnMsgIdentifier ntfn ||| badge) }

/-- Deliver a pending signal to `thread`. -/
def completeSignal (ntfn thread : Ptr) (s : Kernel) : Except Stuck Kernel :=
  let s := s.setRegister thread badgeRegister (s.ntfnMsgIdentifier ntfn)
  let s := { s with ntfnState := update s.ntfnState ntfn .idle }
  if cfg.mcs then maybeDonateSchedContext cfg thread ntfn s else .ok s

def receiveSignal (thread ntfn : Ptr) (isBlocking : Bool) (s : Kernel) : Except Stuck Kernel :=
  match s.ntfnState ntfn with
  | .idle | .waiting =>
    if isBlocking then do
      let s := s.setTcbState thread
        { s.tcbState thread with tsType := .blockedOnNotification, blockingObject := ntfn }
      let s ← (if cfg.mcs then maybeReturnSchedContext cfg ntfn thread s else .ok s)
      let s := scheduleTCB cfg thread s
      .ok (s.setNtfn ntfn .waiting (tcbEPAppend cfg s thread (s.ntfnQueue ntfn)))
    else .ok (doNBRecvFailedTransfer thread s)
  | .active => completeSignal cfg ntfn thread s

/-! ### Binding notifications to threads -/

def doUnbindNotification (ntfn tcb : Ptr) (s : Kernel) : Kernel :=
  { s with
    ntfnBoundTCB := update s.ntfnBoundTCB ntfn none
    tcbBoundNotification := update s.tcbBoundNotification tcb none }

def unbindMaybeNotification (ntfn : Ptr) (s : Kernel) : Kernel :=
  match s.ntfnBoundTCB ntfn with
  | none => s
  | some tcb => doUnbindNotification ntfn tcb s

def unbindNotification (tcb : Ptr) (s : Kernel) : Kernel :=
  match s.tcbBoundNotification tcb with
  | none => s
  | some ntfn => doUnbindNotification ntfn tcb s

def bindNotification (tcb ntfn : Ptr) (s : Kernel) : Kernel :=
  { s with
    ntfnBoundTCB := update s.ntfnBoundTCB ntfn (some tcb)
    tcbBoundNotification := update s.tcbBoundNotification tcb (some ntfn) }

/-! ### Messages -/

/-- What a sender asks for, from the capability it invokes and its system call.
`canDonate` is used by the MCS kernel only. -/
structure SendArgs where
  blocking : Bool
  doCall : Bool
  badge : Word
  canGrant : Bool
  canGrantReply : Bool
  canDonate : Bool
  deriving DecidableEq, Repr

/-- The sender waits in the queue of the endpoint. -/
def blockOnSend (a : SendArgs) (thread ep : Ptr) (s : Kernel) : Kernel :=
  let s := s.setTcbState thread { s.tcbState thread with
    tsType := .blockedOnSend
    blockingObject := ep
    blockingIPCBadge := a.badge
    blockingIPCCanGrant := a.canGrant
    blockingIPCCanGrantReply := a.canGrantReply
    blockingIPCIsCall := a.doCall }
  let s := scheduleTCB cfg thread s
  s.setEp ep .send (tcbEPAppend cfg s thread (s.epQueue ep))

/-- After the transfer to `dest`, in the MCS kernel: link the reply object for a
call or a fault, or donate the scheduling context. -/
def sendDonate (a : SendArgs) (thread dest : Ptr) (s : Kernel) : Except Stuck Kernel :=
  let reply := (s.tcbState dest).replyObject
  let s := unlinkReplyObject cfg dest s
  if a.doCall = true ∨ s.tcbFault thread ≠ .null then
    match reply with
    | some reply =>
      if a.canGrant || a.canGrantReply then .ok (replyPush cfg thread dest reply a.canDonate s)
      else .ok (setThreadState cfg thread .inactive s)
    | none => .ok (setThreadState cfg thread .inactive s)
  else if a.canDonate = true ∧ s.tcbSchedContext dest = none then
    match s.tcbSchedContext thread with
    | none => .error .nullSchedContext
    | some sc => .ok (schedContextDonate cfg sc dest s)
  else .ok s

/-- After the transfer to `dest`, in the standard kernel. -/
def sendReplyCap (a : SendArgs) (thread dest : Ptr) (s : Kernel) : Kernel :=
  let replyCanGrant := (s.tcbState dest).blockingIPCCanGrant
  let s := possibleSwitchTo cfg dest (setThreadState cfg dest .running s)
  if a.doCall then
    if a.canGrant || a.canGrantReply then setupCallerCap cfg thread dest replyCanGrant s
    else setThreadState cfg thread .inactive s
  else s

def sendIPC (a : SendArgs) (thread ep : Ptr) (s : Kernel) : Except Stuck Kernel :=
  match s.epState ep with
  | .idle | .send => .ok (if a.blocking then blockOnSend cfg a thread ep s else s)
  | .recv =>
    match s.epQueue ep with
    | [] => .error .nullObject
    | dest :: _ => do
      let s := epDequeue ep dest s
      let s ← doIPCTransfer cfg thread (some ep) a.badge a.canGrant dest s
      if cfg.mcs then
        let s ← sendDonate cfg a thread dest s
        .ok (possibleSwitchTo cfg dest (setThreadState cfg dest .running s))
      else .ok (sendReplyCap cfg a thread dest s)

/-- The receiver waits in the queue of the endpoint. -/
def blockOnReceive (thread : Ptr) (c : EndpointCap) (reply : Option Ptr) (s : Kernel) : Kernel :=
  let s := s.setTcbState thread { s.tcbState thread with
    tsType := .blockedOnReceive, blockingObject := c.capEPPtr }
  let s :=
    if cfg.mcs then
      let s := s.setReplyObject thread reply
      match reply with
      | none => s
      | some r => { s with replyTCB := update s.replyTCB r (some thread) }
    else
      s.setTcbState thread { s.tcbState thread with blockingIPCCanGrant := c.capCanGrant }
  let s := scheduleTCB cfg thread s
  s.setEp c.capEPPtr .recv (tcbEPAppend cfg s thread (s.epQueue c.capEPPtr))

/-- After the transfer from a waiting sender, in the MCS kernel. -/
def receiveReply (sender thread : Ptr) (reply : Option Ptr) (s : Kernel) : Kernel :=
  let ts := s.tcbState sender
  if ts.blockingIPCIsCall = true ∨ s.tcbFault sender ≠ .null then
    match reply with
    | some reply =>
      if ts.blockingIPCCanGrant || ts.blockingIPCCanGrantReply then
        let canDonate := decide (s.tcbSchedContext sender ≠ none) &&
          match s.tcbFault sender with
          | .timeout _ => false
          | _ => true
        replyPush cfg sender thread reply canDonate s
      else setThreadState cfg sender .inactive s
    | none => setThreadState cfg sender .inactive s
  else possibleSwitchTo cfg sender (setThreadState cfg sender .running s)

/-- After the transfer from a waiting sender, in the standard kernel. -/
def receiveReplyCap (sender thread : Ptr) (c : EndpointCap) (s : Kernel) : Kernel :=
  let ts := s.tcbState sender
  if ts.blockingIPCIsCall then
    if ts.blockingIPCCanGrant || ts.blockingIPCCanGrantReply then
      setupCallerCap cfg sender thread c.capCanGrant s
    else setThreadState cfg sender .inactive s
  else possibleSwitchTo cfg sender (setThreadState cfg sender .running s)

/-- Receive on an endpoint when no signal is pending. -/
def receiveMessage (thread : Ptr) (c : EndpointCap) (isBlocking : Bool) (reply : Option Ptr)
    (s : Kernel) : Except Stuck Kernel :=
  match s.epState c.capEPPtr with
  | .idle | .recv =>
    .ok (if isBlocking then blockOnReceive cfg thread c reply s
      else doNBRecvFailedTransfer thread s)
  | .send =>
    match s.epQueue c.capEPPtr with
    | [] => .error .nullObject
    | sender :: _ => do
      let s := epDequeue c.capEPPtr sender s
      let ts := s.tcbState sender
      let s ← doIPCTransfer cfg sender (some c.capEPPtr) ts.blockingIPCBadge
        ts.blockingIPCCanGrant thread s
      .ok (if cfg.mcs then receiveReply cfg sender thread reply s
        else receiveReplyCap cfg sender thread c s)

/-- Withdraw a reply object from another thread that still uses it. -/
def takeReply (thread : Ptr) (reply : Option Ptr) (s : Kernel) : Except Stuck Kernel :=
  match reply with
  | none => .ok s
  | some r =>
    match s.replyTCB r with
    | none => .ok s
    | some tcb => if tcb = thread then .ok s else cancelIPC cfg tcb s

/-- `receiveIPC`. In the MCS kernel `reply` is the object of the reply capability
given, if any. -/
def receiveIPC (thread : Ptr) (c : EndpointCap) (isBlocking : Bool) (reply : Option Ptr)
    (s : Kernel) : Except Stuck Kernel := do
  let s ← (if cfg.mcs then takeReply cfg thread reply s else .ok s)
  match s.tcbBoundNotification thread with
  | none => receiveMessage cfg thread c isBlocking reply s
  | some ntfn =>
    if s.ntfnState ntfn = .active then completeSignal cfg ntfn thread s
    else do
      let s ←
        (if cfg.mcs = true ∧ isBlocking = true then maybeReturnSchedContext cfg ntfn thread s
        else .ok s)
      receiveMessage cfg thread c isBlocking reply s

/-! ### Changing a priority in the MCS kernel -/

def reorderEP (ep thread : Ptr) (s : Kernel) : Kernel :=
  s.setEp ep (s.epState ep) (tcbEPAppend cfg s thread (tcbEPDequeue thread (s.epQueue ep)))

def reorderNTFN (ntfn thread : Ptr) (s : Kernel) : Kernel :=
  s.setNtfn ntfn (s.ntfnState ntfn)
    (tcbEPAppend cfg s thread (tcbEPDequeue thread (s.ntfnQueue ntfn)))

end SeL4Kernel
