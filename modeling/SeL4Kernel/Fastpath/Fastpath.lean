import SeL4Kernel.Api.Syscall

/-!
# The fast paths

`src/fastpath/fastpath.c` with the RISC-V helpers: the two system calls on which
servers spend their time, `seL4_Call` and `seL4_ReplyRecv`, done in one function
each when nothing special is asked for. Each function first checks that it
applies; `none` is the jump to the slow path, before anything has been written.

The registers that `fastpath_restore` loads are those of the thread that runs
next, so they are written to its context here.
-/

namespace SeL4Kernel

open Function

variable (cfg : Config)

/-! ### Helpers -/

/-- The loop of `lookup_fp`, with `bits` bits of the address used up. A shift by
the width of a word leaves the word as it is. -/
def lookupFpLoop (cs : CSpace) (cptr : Word) : Nat → CNodeCap → Nat → Except Stuck Cap
  | 0, _, _ => .error .noReturn
  | fuel + 1, node, bits =>
    let guardBits := node.capCNodeGuardSize
    let radixBits := node.capCNodeRadix
    let cptr2 := cptr <<< bits
    -- the check of the depth is deferred
    if guardBits ≠ 0 ∧ (cptr2 >>> ((wordBits - guardBits) % wordBits)).toNat ≠ node.capCNodeGuard
    then .ok .null
    else
      let radix := (cptr2 <<< guardBits) >>> ((wordBits - radixBits) % wordBits)
      let cap := cs.cap { base := node.capCNodePtr, index := radix.toNat }
      let bits := bits + (guardBits + radixBits)
      match cap with
      | .cnode next =>
        if bits < wordBits then lookupFpLoop cs cptr fuel next bits
        else if wordBits < bits then .ok .null
        else .ok cap
      | cap => if wordBits < bits then .ok .null else .ok cap

/-- `lookup_fp`: the capability, without its slot; a failed lookup gives the null
capability. -/
def lookupFp (cs : CSpace) (root : Cap) (cptr : Word) : Except Stuck Cap :=
  match root with
  | .cnode node => lookupFpLoop cs cptr (wordBits + 1) node 0
  | _ => .ok .null

/-- `fastpath_mi_check`: more than four words, or extra capabilities. -/
def fastpathMiCheck (msgInfo : Word) : Bool := decide (4 < msgInfo.toNat % 2 ^ 9)

/-- `isValidVTableRoot_fp`. -/
def isValidVTableRootFp : Cap → Bool
  | .pageTable c => c.capPTIsMapped
  | _ => false

/-- `thread_state_ptr_set_tsType_np`, which clears the blocking object too. -/
def Kernel.setTsTypeNp (s : Kernel) (tcb : Ptr) (ts : TsType) : Kernel :=
  s.setTcbState tcb { s.tcbState tcb with tsType := ts, blockingObject := 0 }

/-- `fastpath_copy_mrs`: the message registers have consecutive numbers. -/
def fastpathCopyMrs (length : Nat) (src dest : Ptr) (s : Kernel) : Kernel :=
  (List.range length).foldl
    (fun s i => s.setRegister dest (msgRegister 0 + i) (s.registers src (msgRegister 0 + i))) s

/-- `switchToThread_fp` and `fastpath_restore`: run `thread`, with badge and message
information in its registers. -/
def fastpathRestore (badge : Word) (info : MessageInfo) (thread : Ptr) (s : Kernel) : Kernel :=
  let s := { s with ksCurThread := thread }
  let s := s.setRegister thread badgeRegister badge
  s.setRegister thread msgInfoRegister (wordFromMessageInfo { info with capsUnwrapped := 0 })

/-- `dom` of the fast paths. -/
def fastpathDom (s : Kernel) : Nat := if 1 < cfg.numDomains then s.ksCurDomain else 0

/-- The thread is not in a domain that waits for its turn. -/
def inCurDomain (s : Kernel) (tcb : Ptr) : Bool :=
  s.tcbDomain tcb == s.ksCurDomain || !decide (1 < cfg.numDomains)

/-! ### Call -/

/-- The thread that waits for the message may run in place of the caller. -/
def callDestOk (s : Kernel) (c : EndpointCap) (dest : Ptr) : Bool :=
  isValidVTableRootFp (s.cap (tcbSlot dest tcbVTable)) &&
  (decide (s.tcbPriority s.ksCurThread ≤ s.tcbPriority dest) ||
    s.toReadyQueues.isHighestPrio cfg (fastpathDom cfg s) (s.tcbPriority dest)) &&
  (c.capCanGrant || c.capCanGrantReply) &&
  inCurDomain cfg s dest &&
  (!cfg.mcs || s.tcbSchedContext dest == none && (s.tcbState dest).replyObject != none)

/-- The tests of `fastpath_call`: the endpoint capability, the thread that waits
there, and the rest of its queue. -/
def fastpathCallGuard (cptr msgInfo : Word) (s : Kernel) :
    Except Stuck (Option (EndpointCap × Ptr × List Ptr)) :=
  if fastpathMiCheck msgInfo = true ∨ s.tcbFault s.ksCurThread ≠ .null then .ok none
  else do
    match ← lookupFp s.cspace (s.cap (tcbSlot s.ksCurThread tcbCTable)) cptr with
    | .endpoint c =>
      if c.capCanSend = false ∨ s.epState c.capEPPtr ≠ .recv then .ok none
      else
        match s.epQueue c.capEPPtr with
        | [] => .error .nullObject
        | dest :: queue => .ok (if callDestOk cfg s c dest then some (c, dest, queue) else none)
    | _ => .ok none

/-- The reply object of the receiver goes to the top of the caller's call stack,
and the scheduling context to the receiver. -/
def fastpathCallMcs (dest : Ptr) (s : Kernel) : Except Stuck Kernel :=
  let cur := s.ksCurThread
  match (s.tcbState dest).replyObject, s.tcbSchedContext cur with
  | none, _ => .error .nullObject
  | _, none => .error .nullSchedContext
  | some reply, some sc =>
    let s := s.setReplyObject dest none
    let s := s.setReplyObject cur (some reply)
    let s := { s with replyTCB := update s.replyTCB reply (some cur) }
    let s := s.setScTcb sc (some dest)
    let s := s.setTcbSchedContext dest (some sc)
    let s := s.setTcbSchedContext cur none
    .ok (replyLink reply sc s)

/-- The reply capability goes to the caller slot of the receiver, by hand. -/
def fastpathCallStandard (dest : Ptr) (s : Kernel) : Kernel :=
  let cur := s.ksCurThread
  let replySlot := tcbSlot cur tcbReply
  let callerSlot := tcbSlot dest tcbCaller
  let cs := s.cspace.setCap callerSlot (.reply (s.tcbState dest).blockingIPCCanGrant false cur)
  let cs := cs.setMdb callerSlot { cs.mdb callerSlot with mdbPrev := some replySlot }
  let cs := cs.setMdb replySlot { cs.mdb replySlot with
    mdbNext := some callerSlot, mdbRevocable := true, mdbFirstBadged := true }
  { s with cspace := cs }

/-- `fastpath_call` behind its point of no return. -/
def fastpathCallCommit (c : EndpointCap) (dest : Ptr) (queue : List Ptr) (info : MessageInfo)
    (s : Kernel) : Except Stuck Kernel := do
  let cur := s.ksCurThread
  let s := s.setEp c.capEPPtr (if queue = [] then .idle else s.epState c.capEPPtr) queue
  let s := s.setTsTypeNp cur .blockedOnReply
  let s ← (if cfg.mcs then fastpathCallMcs dest s else .ok (fastpathCallStandard dest s))
  let s := fastpathCopyMrs info.length cur dest s
  let s := s.setTsTypeNp dest .running
  .ok (fastpathRestore c.capEPBadge info dest s)

def fastpathCall (cptr msgInfo : Word) (s : Kernel) : Except Stuck (Option Kernel) := do
  match ← fastpathCallGuard cfg cptr msgInfo s with
  | none => .ok none
  | some (c, dest, queue) =>
    let s ← fastpathCallCommit cfg c dest queue (messageInfoFromWordRaw msgInfo) s
    .ok (some s)

/-! ### Reply and receive -/

/-- There is no signal for the current thread to take first. -/
def noPendingSignal (s : Kernel) : Bool :=
  match s.tcbBoundNotification s.ksCurThread with
  | none => true
  | some ntfn => s.ntfnState ntfn != .active

/-- The caller that waits for the reply may run in place of the replier. -/
def replyCallerOk (s : Kernel) (caller : Ptr) : Bool :=
  s.tcbFault caller == .null &&
  isValidVTableRootFp (s.cap (tcbSlot caller tcbVTable)) &&
  s.toReadyQueues.isHighestPrio cfg (fastpathDom cfg s) (s.tcbPriority caller) &&
  inCurDomain cfg s caller &&
  (!cfg.mcs || s.tcbSchedContext caller == none)

/-- The caller of the MCS kernel: `reply` is at the head of a call stack that runs
on the scheduling context of the current thread. -/
def replyCallerMcs (s : Kernel) (reply : Ptr) : Option Ptr :=
  match s.replyTCB reply, s.replyNext reply with
  | some caller, .schedContext sc =>
    if s.tcbSchedContext s.ksCurThread = some sc then some caller else none
  | _, _ => none

/-- The caller of the standard kernel, from the reply capability in the caller
slot (`fastpath_reply_cap_check`). -/
def replyCallerStandard (s : Kernel) : Option Ptr :=
  match s.cap (tcbSlot s.ksCurThread tcbCaller) with
  | .reply _ _ caller => some caller
  | _ => none

/-- The reply object at `reply` (in the MCS kernel) and the caller. -/
def replyCaller (reply : Word) (s : Kernel) : Except Stuck (Option (Ptr × Ptr)) :=
  if cfg.mcs then do
    match ← lookupFp s.cspace (s.cap (tcbSlot s.ksCurThread tcbCTable)) reply with
    | .replyObject reply _ => .ok ((replyCallerMcs s reply).map fun caller => (reply, caller))
    | _ => .ok none
  else .ok ((replyCallerStandard s).map fun caller => (0, caller))

/-- The tests of `fastpath_reply_recv`: the endpoint capability, the reply object
(in the MCS kernel) and the caller. -/
def fastpathReplyRecvGuard (cptr msgInfo reply : Word) (s : Kernel) :
    Except Stuck (Option (EndpointCap × Ptr × Ptr)) :=
  if fastpathMiCheck msgInfo = true ∨ s.tcbFault s.ksCurThread ≠ .null then .ok none
  else do
    match ← lookupFp s.cspace (s.cap (tcbSlot s.ksCurThread tcbCTable)) cptr with
    | .endpoint c =>
      if c.capCanReceive = false then .ok none
      else
        match ← replyCaller cfg reply s with
        | none => .ok none
        | some (reply, caller) =>
          if noPendingSignal s = true ∧ s.epState c.capEPPtr ≠ .send ∧
              replyCallerOk cfg s caller = true then .ok (some (c, reply, caller))
          else .ok none
    | _ => .ok none

/-- The current thread waits at the endpoint, with `reply` for the next call. -/
def fastpathBlock (c : EndpointCap) (reply caller : Ptr) (s : Kernel) : Kernel :=
  let cur := s.ksCurThread
  let ep := c.capEPPtr
  let s := s.setTcbState cur
    { s.tcbState cur with tsType := .blockedOnReceive, blockingObject := ep }
  let s :=
    if cfg.mcs then
      let s := s.setReplyObject caller none
      let s := s.setReplyObject cur (some reply)
      { s with replyTCB := update s.replyTCB reply (some cur) }
    else s.setTcbState cur { s.tcbState cur with blockingIPCCanGrant := c.capCanGrant }
  s.setEp ep .recv (if s.epQueue ep = [] then [cur] else tcbEPAppend cfg s cur (s.epQueue ep))

/-- The scheduling context goes back to the caller, and `reply` leaves the call
stack. -/
def fastpathReplyMcs (reply caller : Ptr) (s : Kernel) : Except Stuck Kernel :=
  let cur := s.ksCurThread
  let prev := s.replyPrev reply
  match s.tcbSchedContext cur with
  | none => .error .nullSchedContext
  | some sc =>
    let s := s.setTcbSchedContext cur none
    let s := s.setTcbSchedContext caller (some sc)
    let s := s.setScTcb sc (some caller)
    let s := { s with scReply := update s.scReply sc prev }
    let s :=
      match prev with
      | none => s
      | some p => { s with replyNext := update s.replyNext p (s.replyNext reply) }
    .ok { s with
      replyPrev := update s.replyPrev reply none
      replyNext := update s.replyNext reply .null }

/-- The reply capability leaves the caller slot, by hand. -/
def fastpathReplyStandard (s : Kernel) : Except Stuck Kernel :=
  let callerSlot := tcbSlot s.ksCurThread tcbCaller
  match (s.cspace.mdb callerSlot).mdbPrev with
  | none => .error .nullObject
  | some prev =>
    let cs := s.cspace.setMdb prev { s.cspace.mdb prev with
      mdbNext := none, mdbRevocable := true, mdbFirstBadged := true }
    let cs := cs.setCap callerSlot .null
    .ok { s with cspace := cs.setMdb callerSlot nullMDBNode }

/-- `fastpath_reply_recv` behind its point of no return. -/
def fastpathReplyRecvCommit (c : EndpointCap) (reply caller : Ptr) (info : MessageInfo)
    (s : Kernel) : Except Stuck Kernel := do
  let cur := s.ksCurThread
  let s := fastpathBlock cfg c reply caller s
  let s ← (if cfg.mcs then fastpathReplyMcs reply caller s else fastpathReplyStandard s)
  let s := fastpathCopyMrs info.length cur caller s
  let s := s.setTsTypeNp caller .running
  .ok (fastpathRestore 0 info caller s)

/-- `fastpath_reply_recv`; `reply` is used by the MCS kernel only. -/
def fastpathReplyRecv (cptr msgInfo reply : Word) (s : Kernel) :
    Except Stuck (Option Kernel) := do
  match ← fastpathReplyRecvGuard cfg cptr msgInfo reply s with
  | none => .ok none
  | some (c, reply, caller) =>
    let s ← fastpathReplyRecvCommit cfg c reply caller (messageInfoFromWordRaw msgInfo) s
    .ok (some s)

end SeL4Kernel
