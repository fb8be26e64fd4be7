import SeL4Kernel.Kernel.Links

/-!
# What kernel functions do to the links of scheduling contexts

One equation for every function below the system calls that cannot get stuck: most
leave the links as they are, `schedContextBindNtfn` and its like act by one of the
operations of `Links`.
-/

namespace SeL4Kernel

open Kernel

variable (cfg : Config) (s : Kernel) (badge : Word)
  (sender ep ntfn reply sc tcb thread receiver : Ptr) (buffer : Option Nat)

/-! ### Fields outside the links -/

namespace Kernel

@[simp] theorem links_setTcbState (ts : ThreadState) : (s.setTcbState tcb ts).links = s.links := rfl

@[simp] theorem links_setTsType (ts : TsType) : (s.setTsType tcb ts).links = s.links := rfl

@[simp] theorem links_setTcbFault (fault : Fault) : (s.setTcbFault tcb fault).links = s.links := rfl

@[simp] theorem links_setRegister (reg : Nat) (w : Word) :
    (s.setRegister tcb reg w).links = s.links := rfl

@[simp] theorem links_setEp (state : EPState) (queue : List Ptr) :
    (s.setEp ep state queue).links = s.links := rfl

@[simp] theorem links_setNtfn (state : NtfnState) (queue : List Ptr) :
    (s.setNtfn ntfn state queue).links = s.links := rfl

@[simp] theorem links_setSchedContext (refills : Sporadic.SchedContext) :
    (s.setSchedContext sc refills).links = s.links := rfl

@[simp] theorem links_setTcbPriority (prio : Nat) :
    (s.setTcbPriority tcb prio).links = s.links := rfl

@[simp] theorem links_setCSpace (cs : CSpace) :
    ({ s with cspace := cs } : Kernel).links = s.links := rfl

end Kernel

/-- A fold of functions that keep the links keeps them. -/
theorem links_foldl {α : Type} (f : Kernel → α → Kernel)
    (hf : ∀ s a, (f s a).links = s.links) : ∀ (xs : List α) (s : Kernel),
    (xs.foldl f s).links = s.links := by
  intro xs
  induction xs with
  | nil => intro s; rfl
  | cons x xs ih =>
    intro s
    rw [List.foldl_cons, ih, hf]

/-! ### Scheduling -/

@[simp] theorem links_tcbSchedEnqueue : (tcbSchedEnqueue cfg tcb s).links = s.links := rfl

@[simp] theorem links_tcbSchedDequeue : (tcbSchedDequeue cfg tcb s).links = s.links := rfl

@[simp] theorem links_tcbReleaseRemove :
    (tcbReleaseRemove tcb s).links = s.links.releaseRemove tcb := by
  unfold tcbReleaseRemove Links.releaseRemove
  split
  next h =>
    rw [if_pos (show s.links.tcbInReleaseQueue tcb = true from h)]
    rfl
  next h => rw [if_neg (show ¬s.links.tcbInReleaseQueue tcb = true from h)]

@[simp] theorem links_tcbReleaseDequeue (head : Ptr) (rest : List Ptr) :
    (tcbReleaseDequeue head rest s).links = s.links.putRelease rest head false := rfl

@[simp] theorem links_rescheduleRequired : (rescheduleRequired cfg s).links = s.links := by
  unfold rescheduleRequired
  cases s.ksSchedulerAction with
  | resumeCurrentThread => rfl
  | chooseNewThread => rfl
  | switchTo tcb =>
    dsimp only
    split <;> rfl

@[simp] theorem links_scheduleTCB : (scheduleTCB cfg tcb s).links = s.links := by
  unfold scheduleTCB
  split
  · exact links_rescheduleRequired cfg s
  · rfl

@[simp] theorem links_setThreadState (ts : TsType) :
    (setThreadState cfg tcb ts s).links = s.links := by
  simp [setThreadState]

@[simp] theorem links_possibleSwitchTo : (possibleSwitchTo cfg tcb s).links = s.links := by
  unfold possibleSwitchTo
  split
  · rfl
  split
  · rfl
  split
  · rfl
  · simp
  · simp

/-! ### Messages -/

@[simp] theorem links_setMR (offset : Nat) (w : Word) :
    (setMR receiver buffer offset w s).2.links = s.links := by
  unfold setMR
  split
  · split <;> rfl
  · rfl

@[simp] theorem links_copyRegisters (n : Nat) :
    (copyRegisters sender receiver n s).links = s.links := by
  apply links_foldl
  intro s i
  rfl

@[simp] theorem links_copyBuffer (sendBuf recvBuf n : Nat) :
    (copyBuffer sendBuf recvBuf n s).links = s.links := by
  apply links_foldl
  intro s i
  rfl

@[simp] theorem links_copyMRs (sendBuf : Option Nat) (recvBuf : Option Nat) (n : Nat) :
    (copyMRs sender sendBuf receiver recvBuf n s).2.links = s.links := by
  unfold copyMRs
  split <;> simp

theorem links_insertExtraCap {slot : Slot} {dest : Option Slot} {s s' : Kernel}
    (h : insertExtraCap cfg slot dest s = some s') : s'.links = s.links := by
  unfold insertExtraCap at h
  split at h
  · split at h
    · cases h
    · cases h
      rfl
  · cases h

@[simp] theorem links_transferCapsLoop (endpoint : Option Ptr) (buffer : Nat) :
    ∀ (slots : List Slot) (i : Nat) (dest : Option Slot) (unwrapped : Nat) (s : Kernel),
    (transferCapsLoop cfg endpoint buffer slots i dest unwrapped s).2.2.links = s.links := by
  intro slots
  induction slots with
  | nil => intro i dest unwrapped s; rfl
  | cons slot slots ih =>
    intro i dest unwrapped s
    unfold transferCapsLoop
    split
    · rw [ih]
      rfl
    · split
      · rfl
      · rename_i h
        rw [ih]
        exact links_insertExtraCap cfg h

@[simp] theorem links_deliver (info : MessageInfo) :
    (deliver receiver info badge s).links = s.links := rfl

@[simp] theorem links_schedContextUpdateConsumed :
    (schedContextUpdateConsumed cfg sc s).2.links = s.links := by
  unfold schedContextUpdateConsumed
  dsimp only
  split <;> rfl

@[simp] theorem links_setMRs :
    ∀ (words : List Word) (offset : Nat) (s : Kernel),
    (setMRs receiver buffer offset words s).2.links = s.links := by
  intro words
  induction words with
  | nil => intro offset s; rfl
  | cons w words ih =>
    intro offset s
    cases words with
    | nil => exact links_setMR s receiver buffer offset w
    | cons w' words =>
      rw [setMRs, ih]
      · exact links_setMR s receiver buffer offset w
      · simp

@[simp] theorem links_setMRsFault :
    (setMRsFault cfg sender receiver buffer s).2.links = s.links := by
  unfold setMRsFault
  cases s.tcbFault sender with
  | null => rfl
  | timeout badge =>
    dsimp only
    split <;> simp
  | capFault _ _ | unknownSyscall _ | userException _ _ | vmFault _ _ _ => simp

@[simp] theorem links_doFaultTransfer :
    (doFaultTransfer cfg badge sender receiver buffer s).links = s.links := by
  simp [doFaultTransfer]

@[simp] theorem links_copyMRsFaultReply (message : List Nat) (length : Nat) :
    (copyMRsFaultReply cfg sender receiver message length s).links = s.links := by
  unfold copyMRsFaultReply
  dsimp only
  have hreg : ∀ (f : Nat → Nat) (g : Kernel → Nat → Word) (xs : List Nat) (s : Kernel),
      (xs.foldl (fun s i => s.setRegister receiver (f i) (g s i)) s).links = s.links := by
    intro f g
    apply links_foldl
    intro s i
    rfl
  split
  · exact hreg _ _ _ _
  · rw [hreg, hreg]

@[simp] theorem links_handleFaultReply :
    (handleFaultReply cfg receiver sender s).2.links = s.links := by
  unfold handleFaultReply
  cases s.tcbFault receiver <;> simp

@[simp] theorem links_updateRestartPC : (updateRestartPC tcb s).links = s.links := rfl

/-! ### Scheduling contexts and replies -/

@[simp] theorem links_setConsumed : (setConsumed cfg sc buffer s).links = s.links := by
  simp [setConsumed]

@[simp] theorem links_schedContextCancelYieldTo :
    (schedContextCancelYieldTo tcb s).links = s.links := by
  unfold schedContextCancelYieldTo
  split <;> rfl

@[simp] theorem links_schedContextCompleteYieldTo (yielder : Option Ptr) :
    (schedContextCompleteYieldTo cfg yielder s).links = s.links := by
  unfold schedContextCompleteYieldTo
  split
  · rfl
  · split <;> simp

@[simp] theorem links_schedContextUnbindTCB :
    (schedContextUnbindTCB cfg sc tcb s).links = s.links.unbindTcb sc tcb := by
  have hset : ∀ s : Kernel,
      ((s.setTcbSchedContext tcb none).setScTcb sc none).links = s.links.freeTcb sc tcb :=
    fun _ => rfl
  unfold schedContextUnbindTCB Links.unbindTcb
  rw [hset]
  split <;> simp

@[simp] theorem links_schedContextDonate (recipient : Ptr) :
    (schedContextDonate cfg sc recipient s).links = s.links.donate sc recipient := by
  have hset : ∀ s : Kernel,
      ((s.setScTcb sc (some recipient)).setTcbSchedContext recipient (some sc)).links =
        s.links.bindTcb sc recipient := fun _ => rfl
  unfold schedContextDonate Links.donate
  rw [hset]
  cases hd : s.scTcb sc with
  | none => simp [links, hd]
  | some donor =>
    have hl : s.links.scTcb sc = some donor := hd
    dsimp only
    rw [hl]
    split
    · rw [links_rescheduleRequired]
      rfl
    · rfl

@[simp] theorem links_schedContextBindNtfn :
    (schedContextBindNtfn sc ntfn s).links = s.links.bindNtfn sc ntfn := rfl

@[simp] theorem links_schedContextUnbindNtfn (sc : Option Ptr) :
    (schedContextUnbindNtfn sc s).links = s.links.unbindNtfn sc := by
  unfold schedContextUnbindNtfn Links.unbindNtfn
  cases sc with
  | none => rfl
  | some sc =>
    cases hn : s.scNotification sc with
    | none => simp [links, hn]
    | some ntfn => simp [links, hn]

@[simp] theorem links_replyUnlink : (replyUnlink cfg reply tcb s).links = s.links := by
  unfold replyUnlink
  rw [links_setThreadState]
  rfl

@[simp] theorem links_replyLink : (replyLink reply sc s).links = s.links := by
  unfold replyLink
  dsimp only
  split <;> rfl

@[simp] theorem links_replyDetach : (replyDetach reply s).links = s.links := by
  unfold replyDetach
  split <;> rfl

/-- The scheduling context goes back to a caller that has none. -/
theorem links_replyPop (reply tcb sc : Ptr) :
    (replyPop cfg reply tcb sc s).links =
      if s.tcbSchedContext tcb = none then s.links.donate sc tcb else s.links := by
  have hl := links_replyUnlink cfg s reply tcb
  unfold replyPop
  dsimp only
  generalize replyUnlink cfg reply tcb s = s1 at hl
  have hsc : s1.tcbSchedContext tcb = s.tcbSchedContext tcb :=
    congrFun (congrArg (fun l : Links => l.tcbSchedContext) hl) tcb
  have hdonate : (if s1.tcbSchedContext tcb = none then schedContextDonate cfg sc tcb s1
      else s1).links = if s.tcbSchedContext tcb = none then s.links.donate sc tcb else s.links := by
    rw [hsc, ← hl]
    split
    · exact links_schedContextDonate cfg s1 sc tcb
    · rfl
  rw [← hdonate]
  cases s1.replyPrev reply <;> rfl

theorem links_replyRemove :
    (replyRemove cfg reply tcb s).links =
      match s.replyNext reply with
      | .schedContext sc => if s.tcbSchedContext tcb = none then s.links.donate sc tcb else s.links
      | _ => s.links := by
  unfold replyRemove
  cases s.replyNext reply with
  | schedContext sc => exact links_replyPop cfg s reply tcb sc
  | reply next =>
    rw [links_replyDetach, links_replyUnlink]
    rfl
  | null => rw [links_replyDetach, links_replyUnlink]

/-- The scheduling context of the caller goes to a callee that has none. -/
theorem links_replyPush (caller callee : Ptr) (canDonate : Bool) :
    (replyPush cfg caller callee reply canDonate s).links =
      match s.tcbSchedContext caller with
      | none => s.links
      | some sc =>
        if s.tcbSchedContext callee = none ∧ canDonate = true then s.links.donate sc callee
        else s.links := by
  unfold replyPush
  dsimp only
  generalize hs1 : setThreadState cfg caller .blockedOnReply
    (setReplyObject _ caller (some reply)) = s1
  have hl : s1.links = s.links := by
    rw [← hs1, links_setThreadState]
    rfl
  have hsc : s1.tcbSchedContext callee = s.tcbSchedContext callee :=
    congrFun (congrArg (fun l : Links => l.tcbSchedContext) hl) callee
  cases s.tcbSchedContext caller with
  | none => exact hl
  | some sc =>
    dsimp only
    rw [hsc]
    split
    · rw [links_schedContextDonate, links_replyLink, hl]
    · exact hl

/-! ### Endpoints and notifications -/

@[simp] theorem links_setupCallerCap (canGrant : Bool) :
    (setupCallerCap cfg sender receiver canGrant s).links = s.links := by
  exact links_setThreadState cfg s sender .blockedOnReply

@[simp] theorem links_epDequeue : (epDequeue ep tcb s).links = s.links := rfl

@[simp] theorem links_ntfnDequeue : (ntfnDequeue ntfn tcb s).links = s.links := rfl

@[simp] theorem links_unlinkReplyObject : (unlinkReplyObject cfg tcb s).links = s.links := by
  unfold unlinkReplyObject
  split <;> simp

@[simp] theorem links_restartSender : (restartSender cfg thread s).links = s.links := by
  unfold restartSender
  split
  · split <;> simp
  · simp

@[simp] theorem links_cancelAllIPC : (cancelAllIPC cfg ep s).links = s.links := by
  have hround : ∀ (s : Kernel) (thread : Ptr),
      (restartSender cfg thread
        (if cfg.mcs then unlinkReplyObject cfg thread s else s)).links = s.links := by
    intro s thread
    split <;> simp
  unfold cancelAllIPC
  split
  · rfl
  all_goals
    rw [links_rescheduleRequired, links_foldl _ hround]
    rfl

theorem links_cancelBadgedSend (badge : Word) (acc : List Ptr × Kernel) (thread : Ptr) :
    (cancelBadgedSend cfg badge acc thread).2.links = acc.2.links := by
  unfold cancelBadgedSend
  dsimp only
  split <;> simp

@[simp] theorem links_cancelBadgedSends : (cancelBadgedSends cfg ep badge s).links = s.links := by
  have hfold : ∀ (xs : List Ptr) (acc : List Ptr × Kernel),
      (xs.foldl (cancelBadgedSend cfg badge) acc).2.links = acc.2.links := by
    intro xs
    induction xs with
    | nil => intro acc; rfl
    | cons x xs ih =>
      intro acc
      rw [List.foldl_cons, ih, links_cancelBadgedSend]
  unfold cancelBadgedSends
  split
  · rfl
  · rfl
  · rw [links_rescheduleRequired, links_setEp, hfold]
    rfl

@[simp] theorem links_cancelAllSignals : (cancelAllSignals cfg ntfn s).links = s.links := by
  unfold cancelAllSignals
  split
  · rfl
  · rfl
  rw [links_rescheduleRequired, links_foldl]
  · rfl
  · intro s thread
    split <;> simp

@[simp] theorem links_unbindMaybeNotification :
    (unbindMaybeNotification ntfn s).links = s.links := by
  unfold unbindMaybeNotification
  split <;> rfl

@[simp] theorem links_unbindNotification : (unbindNotification tcb s).links = s.links := by
  unfold unbindNotification
  split <;> rfl

@[simp] theorem links_blockOnSend (a : SendArgs) :
    (blockOnSend cfg a thread ep s).links = s.links := by
  unfold blockOnSend
  rw [links_setEp, links_scheduleTCB, links_setTcbState]

@[simp] theorem links_blockOnReceive (c : EndpointCap) (reply : Option Ptr) :
    (blockOnReceive cfg thread c reply s).links = s.links := by
  unfold blockOnReceive
  rw [links_setEp, links_scheduleTCB]
  split
  · split <;> rfl
  · rfl

@[simp] theorem links_sendReplyCap (a : SendArgs) (dest : Ptr) :
    (sendReplyCap cfg a thread dest s).links = s.links := by
  unfold sendReplyCap
  split
  · split <;> simp
  · simp

@[simp] theorem links_setPriority (prio : Nat) : (setPriority cfg tcb prio s).links = s.links := by
  unfold setPriority setPriorityMcs setPriorityStandard reorderEP reorderNTFN
  split
  · split
    · split <;> simp
    · split <;> simp
    all_goals simp
  · dsimp only
    split
    · split <;> simp
    · simp

@[simp] theorem links_setMCPriority (mcp : Nat) : (setMCPriority tcb mcp s).links = s.links := rfl

@[simp] theorem links_dropCallStack : (dropCallStack sc s).links = s.links := by
  unfold dropCallStack
  split <;> rfl

end SeL4Kernel
