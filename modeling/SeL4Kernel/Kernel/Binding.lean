import Mathlib.Logic.Relation
import SeL4Kernel.Kernel.LinkInvocations

/-!
# Scheduling contexts and their owners point at each other

The MCS kernel as a transition system: a thread runs, does something that enters
the kernel, the kernel works in one or more steps, and the scheduler lets a thread
run again. The invariant of the links holds in every reachable state, and no step
uses a null scheduling context, as long as the steps are *clear*:

* no step takes the scheduling context of a thread that is in the release queue
  (the thread would stay there without one, and the next use of the queue follows
  its null pointer);
* no thread without a scheduling context waits at a notification, or at an endpoint
  with a bound notification, that has none either (`maybeReturnSchedContext` takes
  the two null pointers for equal).

`scheduling_context_null` gives a run in which each of the two goes wrong.

The choice of the scheduler is left open: any thread may run for which the
assertions of `switchToThread` and `chooseThread` hold. Kernel operations on other
parts of the state, user code and the clock are one more kind of step, which may do
anything but change the links or the current thread.
-/

namespace SeL4Kernel

open Function

/-! ### The system -/

/-- `leaveKernel`: the end of a kernel entry, with `next` for the thread the
scheduler chooses. -/
def leaveKernel (cfg : Config) (next : Ptr) (s : Kernel) : Except Stuck Kernel := do
  let s ← awaken cfg s
  if s.tcbSchedContext next ≠ none ∧ s.tcbInReleaseQueue next = false ∧
      (isRunnable s next = true ∨ next = s.ksIdleThread) then
    let s := { switchToThread cfg next s with ksSchedulerAction := .resumeCurrentThread }
    let s ← switchSchedContext cfg s
    let _ ← (if s.ksReprogram then setNextInterrupt cfg s else .ok 0)
    .ok (activateThread cfg { s with ksReprogram := false })
  else .error .assertion

/-- A step of the kernel, with what the user or the hardware provides. -/
inductive Event where
  /-- the scheduler lets `next` run -/
  | leave (next : Ptr)
  /-- the current thread is out of budget at time `now` -/
  | charge (now : Nat)
  | yield
  | send (a : SendArgs) (ep : Ptr)
  | fault (f : Fault)
  | reply (reply : Ptr) (grant : Bool)
  | signal (ntfn : Ptr) (badge : Word)
  | receive (c : EndpointCap) (isBlocking : Bool) (reply : Option Ptr)
  | receiveSignal (ntfn : Ptr) (isBlocking : Bool)
  | schedContextBind (sc : Ptr) (cap : Option Cap)
  | schedContextUnbindObject (sc : Ptr) (cap : Option Cap)
  | schedContextUnbind (sc : Ptr)
  | schedContextConsumed (sc : Ptr) (buffer : Option Nat)
  | schedContextYieldTo (sc : Ptr) (buffer : Option Nat)
  | schedControlConfigure (length : Nat) (cap : Option Cap) (a : ConfigureArgs)
  | setSchedParams (tcb : Ptr) (slot : Slot) (message : Option SchedParams)
  | setPriority (tcb auth : Ptr) (prio : Nat)
  | suspend (tcb : Ptr)
  | resume (tcb : Ptr)
  | copyRegisters (dest src : Ptr) (suspendSource resumeTarget : Bool)
      (transfer : (Nat → Word) → (Nat → Word) → Nat → Word)
  | bindNotification (tcb : Ptr) (cap : Option Cap)
  | unbindNotification (tcb : Ptr)
  | finalise (cap : Cap) (final : Bool)
  | cancelBadgedSends (ep : Ptr) (badge : Word)
  | fastCall (cptr msgInfo : Word)
  | fastReplyRecv (cptr msgInfo reply : Word)

/-- A thread runs, or the kernel is at work. -/
inductive Mode where
  | user
  | kernel
  deriving DecidableEq, Repr

/-- The state after a decode function; an error for the caller changes nothing. -/
def decodedState (s : Kernel) (d : Decoded) : Except Stuck Kernel := do
  match ← d with
  | .ok s' => .ok s'
  | .error _ => .ok s

/-- The state after a fast path; the jump to the slow path changes nothing. -/
def fastState (s : Kernel) (d : Except Stuck (Option Kernel)) : Except Stuck Kernel := do
  match ← d with
  | some s' => .ok s'
  | none => .ok s

namespace Event

/-- What a step does. -/
def run (cfg : Config) (s : Kernel) : Event → Except Stuck Kernel
  | .leave t => leaveKernel cfg t s
  | .charge now => do
    let (_, s) ← checkBudgetRestart cfg (updateTimestamp now s)
    .ok s
  | .yield => handleYield cfg s
  | .send a ep => sendIPC cfg a s.ksCurThread ep s
  | .fault f => handleFault cfg s.ksCurThread { s with currentFault := f }
  | .reply r grant => doReplyTransferMcs cfg s.ksCurThread r grant s
  | .signal ntfn badge => sendSignal cfg ntfn badge s
  | .receive c isBlocking r => receiveIPC cfg s.ksCurThread c isBlocking r s
  | .receiveSignal ntfn isBlocking => SeL4Kernel.receiveSignal cfg s.ksCurThread ntfn isBlocking s
  | .schedContextBind sc cap => decodedState s (decodeSchedContextBind cfg sc cap s)
  | .schedContextUnbindObject sc cap =>
    decodedState s (decodeSchedContextUnbindObject cfg sc cap s)
  | .schedContextUnbind sc => decodedState s (decodeSchedContextUnbind cfg sc s)
  | .schedContextConsumed sc buffer =>
    decodedState s (decodeSchedContextConsumed cfg sc buffer s)
  | .schedContextYieldTo sc buffer => decodedState s (decodeSchedContextYieldTo cfg sc buffer s)
  | .schedControlConfigure length cap a =>
    decodedState s (decodeSchedControlConfigure cfg length cap a s)
  | .setSchedParams tcb slot message =>
    decodedState s (decodeSetSchedParams cfg tcb slot message s)
  | .setPriority tcb auth prio => decodedState s (decodeSetPriority cfg tcb auth prio s)
  | .suspend tcb => SeL4Kernel.suspend cfg tcb s
  | .resume tcb => restart cfg tcb s
  | .copyRegisters dest src suspendSource resumeTarget transfer =>
    invokeTCBCopyRegisters cfg dest src suspendSource resumeTarget transfer s
  | .bindNotification tcb cap => decodedState s (decodeBindNotification cfg tcb cap s)
  | .unbindNotification tcb => decodedState s (decodeUnbindNotification cfg tcb s)
  | .finalise cap final => finaliseObject cfg cap final s
  | .cancelBadgedSends ep badge => .ok (SeL4Kernel.cancelBadgedSends cfg ep badge s)
  | .fastCall cptr msgInfo => fastState s (fastpathCall cfg cptr msgInfo s)
  | .fastReplyRecv cptr msgInfo r => fastState s (fastpathReplyRecv cfg cptr msgInfo r s)

/-- When a step can happen. The scheduler ends a kernel entry; the second phase of
a system call, deletions, and interrupts come while the kernel is at work already. -/
def enabled (m : Mode) : Event → Bool
  | .leave _ => m == .kernel
  | .receive _ _ _ | .receiveSignal _ _ | .signal _ _ | .fault _ | .finalise _ _ |
    .cancelBadgedSends _ _ => true
  | _ => m == .user

/-- The mode after a step. -/
def next : Event → Mode
  | .leave _ | .fastCall _ _ | .fastReplyRecv _ _ _ => .user
  | _ => .kernel

/-- The step is clear of the two ways to a null scheduling context. -/
def Clear (s : Kernel) : Event → Prop
  | .fault _ => s.tcbInReleaseQueue s.ksCurThread = false
  | .reply r _ => ReplyClear s r
  | .receive c isBlocking _ => ReceiveClear s s.ksCurThread c isBlocking
  | .receiveSignal ntfn isBlocking =>
    isBlocking = true → s.ntfnState ntfn ≠ .active →
      s.tcbInReleaseQueue s.ksCurThread = false ∧
        (s.ntfnSchedContext ntfn ≠ none ∨ s.tcbSchedContext s.ksCurThread ≠ none)
  | .finalise cap _ => FinaliseClear s cap
  | _ => True

end Event

/-- One step of the system. -/
inductive Step (cfg : Config) : Mode × Kernel → Mode × Kernel → Prop where
  | event {m : Mode} {s s' : Kernel} (e : Event) (he : e.enabled m = true) (hc : e.Clear s)
      (hr : e.run cfg s = .ok s') : Step cfg (m, s) (e.next, s')
  /-- something outside the links -/
  | other {m : Mode} {s s' : Kernel} (hl : s'.links = s.links)
      (ht : s'.ksCurThread = s.ksCurThread) (hsc : s'.ksCurSC = s.ksCurSC) :
      Step cfg (m, s) (m, s')

/-- The links after boot: the initial thread and the idle thread have a scheduling
context each, nothing else has, and the release queue is empty. -/
def Boot (s : Kernel) : Prop :=
  ∃ tcb idle sc idleSc : Ptr, tcb ≠ idle ∧ sc ≠ idleSc ∧
    s.links = ((Links.mk ⟨fun _ => none, fun _ => none, fun _ => none, fun _ => none⟩
      ⟨fun _ => false, []⟩).bindTcb sc tcb).bindTcb idleSc idle

/-- The states of runs whose steps are all clear. -/
def Reachable (cfg : Config) (c : Mode × Kernel) : Prop :=
  ∃ s₀, Boot s₀ ∧ Relation.ReflTransGen (Step cfg) (.kernel, s₀) c

/-! ### Running threads -/

/-- The current thread owns the current scheduling context and is not waiting for a
refill. -/
structure Running (s : Kernel) : Prop where
  owner : s.tcbSchedContext s.ksCurThread = some s.ksCurSC
  awake : s.tcbInReleaseQueue s.ksCurThread = false

variable {cfg : Config} {s : Kernel} (hmcs : cfg.mcs = true) (h : LinkInv s.links) (hr : Running s)
  {c c' : Mode × Kernel} (cptr msgInfo : Word) {s' : Kernel} {recipient : Ptr} {m : Mode}

theorem Running.scTcb_eq (hr : Running s) (h : LinkInv s.links) :
    s.links.scTcb s.ksCurSC = some s.ksCurThread := (h.threads _ _).1 hr.owner

theorem Running.curClear (hr : Running s) (h : LinkInv s.links) : CurClear s := by
  intro tcb ht
  rw [h.threads.eq_of_eq ((h.threads tcb s.ksCurSC).2 ht) hr.owner]
  exact hr.awake

include hr in
theorem Running.senderClear : SenderClear s s.ksCurThread := ⟨by rw [hr.owner]; simp, hr.awake⟩

theorem boot_inv (hb : Boot s) : LinkInv s.links := by
  obtain ⟨tcb, idle, sc, idleSc, ht, hsc, hl⟩ := hb
  rw [hl]
  have hempty : LinkInv (Links.mk ⟨fun _ => none, fun _ => none, fun _ => none, fun _ => none⟩
      ⟨fun _ => false, []⟩) :=
    { threads := paired_none
      notifications := paired_none
      released := by intro t hm; cases hm
      flagged := by intro t; simp
      nodup := List.nodup_nil }
  refine (hempty.bindTcb rfl rfl).bindTcb ?_ ?_
  · simp [Links.bindTcb, ht.symm]
  · simp [Links.bindTcb, hsc.symm]

/-! ### Leaving the kernel -/

theorem sound_awakenLoop : ∀ (queue : List Ptr) (s : Kernel), LinkInv s.links →
    s.ksReleaseQueue = queue → Sound (awakenLoop cfg queue s) := by
  intro queue
  induction queue with
  | nil => intro s h _; exact h
  | cons head rest ih =>
    intro s h hq
    unfold awakenLoop
    cases hsc : s.tcbSchedContext head with
    | none =>
      exact absurd hsc (h.released head (by rw [show s.links.ksReleaseQueue = _ from hq]; simp))
    | some sc =>
      refine Ends.ite (fun _ => ?_) (fun _ => h)
      have hl : (possibleSwitchTo cfg head (tcbReleaseDequeue head rest s)).links =
          s.links.putRelease rest head false := by
        rw [links_possibleSwitchTo, links_tcbReleaseDequeue]
      refine ih _ ?_ ?_
      · show LinkInv (possibleSwitchTo cfg head (tcbReleaseDequeue head rest s)).links
        rw [hl]
        exact h.putRelease_leave hq
      · exact congrArg (fun l : Links => l.ksReleaseQueue) hl

include h in
theorem sound_awaken : Sound (awaken cfg s) := sound_awakenLoop _ s h rfl

/-- The current thread and the current scheduling context. -/
def Kernel.cur (s : Kernel) : Ptr × Ptr := (s.ksCurThread, s.ksCurSC)

theorem cur_setThreadState (tcb : Ptr) (ts : TsType) :
    (setThreadState cfg tcb ts s).cur = s.cur := by
  unfold setThreadState scheduleTCB
  split
  · unfold rescheduleRequired
    split
    · split <;> rfl
    · rfl
    · rfl
  · rfl

theorem cur_schedContextCompleteYieldTo (yielder : Option Ptr) :
    (schedContextCompleteYieldTo cfg yielder s).cur = s.cur := by
  have hmr : ∀ (s : Kernel) (t : Ptr) (b : Option Nat) (i : Nat) (w : Word),
      (setMR t b i w s).2.cur = s.cur := by
    intro s t b i w
    unfold setMR
    split
    · split <;> rfl
    · rfl
  have hset : ∀ sc buffer, (setConsumed cfg sc buffer s).cur = s.cur := by
    intro sc buffer
    unfold setConsumed
    dsimp only
    refine (hmr _ _ _ _ _).trans ?_
    unfold schedContextUpdateConsumed
    dsimp only
    split <;> rfl
  unfold schedContextCompleteYieldTo
  split
  · rfl
  split
  · rfl
  · rw [← hset]
    unfold schedContextCancelYieldTo
    split <;> rfl

include hr in
theorem running_of_eq (hl : s'.links = s.links) (hcur : s'.cur = s.cur) : Running s' := by
  obtain ⟨ht, hsc⟩ := Prod.mk.inj hcur
  refine ⟨?_, ?_⟩
  · rw [toBindings_of_links hl, ht, hsc]
    exact hr.owner
  · rw [inReleaseQueue_of_links hl, ht]
    exact hr.awake

/-- The links are sound and the current thread may run. -/
abbrev SoundRunning : Except Stuck Kernel → Prop :=
  Ends Allowed (fun s' => LinkInv s'.links ∧ Running s')

theorem activateThread_inv (h : LinkInv s.links ∧ Running s) :
    LinkInv (activateThread cfg s).links ∧ Running (activateThread cfg s) := by
  have hframe : (activateThread cfg s).links = s.links ∧ (activateThread cfg s).cur = s.cur := by
    unfold activateThread
    dsimp only
    generalize hs1 : (if cfg.mcs = true ∧ s.tcbYieldTo s.ksCurThread ≠ none then
      schedContextCompleteYieldTo cfg (some s.ksCurThread) s else s) = s1
    have h1 : s1.links = s.links ∧ s1.cur = s.cur := by
      rw [← hs1]
      split
      · exact ⟨links_schedContextCompleteYieldTo cfg s _, cur_schedContextCompleteYieldTo _⟩
      · exact ⟨rfl, rfl⟩
    split
    · rw [links_setThreadState, cur_setThreadState]
      exact h1
    · exact h1
  exact ⟨by rw [hframe.1]; exact h.1, running_of_eq h.2 hframe.1 hframe.2⟩

include h in
/-- `switchSchedContext` makes the scheduling context of the new thread current. -/
theorem soundRunning_switchSchedContext (ht : s.tcbSchedContext s.ksCurThread ≠ none)
    (hq : s.tcbInReleaseQueue s.ksCurThread = false) : SoundRunning (switchSchedContext cfg s) := by
  unfold switchSchedContext
  cases hsc : s.tcbSchedContext s.ksCurThread with
  | none => exact absurd hsc ht
  | some sc =>
    have hunblock : KeepsThread s (if s.ksCurSC ≠ sc ∧ (curRefills s).scRefillMax ≠ 0 then
        refillUnblockCheck cfg sc { s with ksReprogram := true } else .ok s) :=
      Ends.ite (fun _ => keepsThread_refillUnblockCheck sc) (fun _ => ⟨rfl, rfl⟩)
    refine hunblock.bind fun s1 ⟨hl1, ht1⟩ => ?_
    have hcommit : KeepsThread s (if s1.ksReprogram then commitTime cfg s1 else .ok s1) := by
      refine Ends.ite (fun _ => keepsThread_commitTime.mono fun s2 h2 => ?_) (fun _ => ⟨hl1, ht1⟩)
      exact ⟨h2.1.trans hl1, h2.2.trans ht1⟩
    refine hcommit.bind fun s2 ⟨hl2, ht2⟩ => ⟨?_, ?_, ?_⟩
    · show LinkInv s2.links
      rw [hl2]
      exact h
    · show s2.tcbSchedContext s2.ksCurThread = some sc
      rw [toBindings_of_links hl2, ht2]
      exact hsc
    · show s2.tcbInReleaseQueue s2.ksCurThread = false
      rw [inReleaseQueue_of_links hl2, ht2]
      exact hq

include h hr in
theorem ends_setNextInterrupt : Ends Allowed (fun _ => True) (setNextInterrupt cfg s) := by
  unfold setNextInterrupt
  rw [hr.owner]
  cases hq : s.ksReleaseQueue with
  | nil => trivial
  | cons head rest =>
    refine (ends_releaseTime ?_).bind fun _ _ => trivial
    exact h.released head (by rw [show s.links.ksReleaseQueue = _ from hq]; simp)

include h in
theorem soundRunning_leaveKernel (next : Ptr) : SoundRunning (leaveKernel cfg next s) := by
  refine (sound_awaken h).bind fun s1 h1 => ?_
  refine Ends.ite (fun hn => ?_) (fun _ => allowed_assertion)
  refine (soundRunning_switchSchedContext (by exact h1) hn.1 hn.2.1).bind fun s2 h2 => ?_
  have hdeadline : Ends Allowed (fun _ => True)
      (if s2.ksReprogram then setNextInterrupt cfg s2 else .ok 0) :=
    Ends.ite (fun _ => ends_setNextInterrupt h2.1 h2.2) (fun _ => trivial)
  refine hdeadline.bind fun _ _ => ?_
  exact activateThread_inv ⟨h2.1, h2.2.owner, h2.2.awake⟩

/-! ### Fast paths -/

theorem ends_lookupFp (cs : CSpace) (root : Cap) :
    Ends Allowed (fun _ => True) (lookupFp cs root cptr) := by
  have hloop : ∀ (fuel : Nat) (node : CNodeCap) (bits : Nat),
      Ends Allowed (fun _ => True) (lookupFpLoop cs cptr fuel node bits) := by
    intro fuel
    induction fuel with
    | zero => intro node bits; exact allowed_noReturn
    | succ fuel ih =>
      intro node bits
      unfold lookupFpLoop
      dsimp only
      refine Ends.ite (fun _ => trivial) (fun _ => ?_)
      split
      · refine Ends.ite (fun _ => ih _ _) (fun _ => ?_)
        exact Ends.ite (fun _ => trivial) (fun _ => trivial)
      · exact Ends.ite (fun _ => trivial) (fun _ => trivial)
  unfold lookupFp
  split
  · exact hloop _ _ 0
  · trivial

/-- The copy of message registers changes registers only. -/
theorem fastpathCopyMrs_eq (length : Nat) (src dest : Ptr) :
    ∃ regs, fastpathCopyMrs length src dest s = { s with registers := regs } := by
  unfold fastpathCopyMrs
  generalize List.range length = xs
  induction xs generalizing s with
  | nil => exact ⟨s.registers, rfl⟩
  | cons i xs ih =>
    obtain ⟨regs, hregs⟩ := ih (s := s.setRegister dest (msgRegister 0 + i)
      (s.registers src (msgRegister 0 + i)))
    exact ⟨regs, by rw [List.foldl_cons, hregs]; rfl⟩

include h hr in
/-- The current scheduling context goes from the current thread to one that has
none, which runs on with it. -/
theorem running_donate (ht : s.tcbSchedContext recipient = none)
    (hl : s'.links = s.links.donate s.ksCurSC recipient) (hcur : s'.ksCurThread = recipient)
    (hsc : s'.ksCurSC = s.ksCurSC) : LinkInv s'.links ∧ Running s' := by
  have hinv : LinkInv s'.links := by
    rw [hl]
    exact h.donate ht (hr.curClear h)
  have hown : s'.tcbSchedContext recipient = some s.ksCurSC := by
    have : s'.tcbSchedContext = (s.links.donate s.ksCurSC recipient).tcbSchedContext :=
      congrArg (fun l : Links => l.tcbSchedContext) hl
    rw [this]
    simp [Links.donate, Links.bindTcb]
  have hflag : s'.tcbInReleaseQueue recipient = false := by
    have : s'.tcbInReleaseQueue = (s.links.donate s.ksCurSC recipient).tcbInReleaseQueue :=
      congrArg (fun l : Links => l.tcbInReleaseQueue) hl
    have hdonate : (s.links.donate s.ksCurSC recipient).tcbInReleaseQueue =
        s.links.tcbInReleaseQueue := by
      unfold Links.donate
      split <;> rfl
    rw [this, hdonate]
    exact h.flag_of_free ht
  exact ⟨hinv, by rw [hcur, hsc]; exact hown, by rw [hcur]; exact hflag⟩

theorem donate_eq {l : Links} {sc donor : Ptr} (h : l.scTcb sc = some donor) (recipient : Ptr) :
    l.donate sc recipient =
      { l with
        tcbSchedContext := update (update l.tcbSchedContext donor none) recipient
          (some sc)
        scTcb := update l.scTcb sc (some recipient) } := by
  simp [Links.donate, Links.bindTcb, h]

include hmcs in
theorem fastpathBlock_frame (c : EndpointCap) (reply caller : Ptr) :
    (fastpathBlock cfg c reply caller s).links = s.links ∧
      (fastpathBlock cfg c reply caller s).cur = s.cur := by
  unfold fastpathBlock
  simp only [if_pos hmcs]
  exact ⟨rfl, rfl⟩

include h hr

/-- The rest of a fast path: a thread without a scheduling context gets the current one and the
message, and runs. -/
theorem soundRunning_donated {s1 : Kernel} {d : Except Stuck Kernel}
    (ht : s.tcbSchedContext recipient = none) (hl : s1.links = s.links) (hcur : s1.cur = s.cur)
    (hd : LinkInv s1.links → Running s1 → s1.tcbSchedContext recipient = none →
      Ends Allowed (fun s' => s'.links = s1.links.donate s1.ksCurSC recipient ∧
        s'.ksCurSC = s1.ksCurSC) d) (src : Ptr) (length : Nat) (badge : Word) (info : MessageInfo) :
    SoundRunning (d >>= fun s' => .ok (fastpathRestore badge info recipient
      ((fastpathCopyMrs length src recipient s').setTsTypeNp recipient .running))) := by
  have hr1 := running_of_eq hr hl hcur
  have ht1 : s1.tcbSchedContext recipient = none := by
    rw [toBindings_of_links hl]
    exact ht
  rw [← hl] at h
  refine (hd h hr1 ht1).bind fun s2 ⟨hl2, hsc2⟩ => ?_
  obtain ⟨regs, hregs⟩ := fastpathCopyMrs_eq (s := s2) length src recipient
  rw [hregs]
  exact running_donate h hr1 ht1 hl2 rfl hsc2

theorem soundRunning_fastState {d : Except Stuck (Option Kernel)}
    (hd : Ends Allowed (fun r => ∀ s', r = some s' → LinkInv s'.links ∧ Running s') d) :
    SoundRunning (fastState s d) := by
  refine hd.bind fun r hr' => ?_
  split
  · exact hr' _ rfl
  · exact ⟨h, hr⟩

theorem links_fastpathCallMcs {dest : Ptr} (hd : s.tcbSchedContext dest = none) :
    Ends Allowed (fun s' => s'.links = s.links.donate s.ksCurSC dest ∧ s'.ksCurSC = s.ksCurSC)
      (fastpathCallMcs dest s) := by
  have hne : s.ksCurThread ≠ dest := by
    intro he
    rw [← he, hr.owner] at hd
    cases hd
  unfold fastpathCallMcs
  dsimp only
  rw [hr.owner]
  cases (s.tcbState dest).replyObject with
  | none => exact allowed_nullObject
  | some reply =>
    simp only [ends_ok, links_replyLink]
    refine ⟨?_, ?_⟩
    · rw [donate_eq (hr.scTcb_eq h), update_comm hne]
      rfl
    · unfold replyLink
      dsimp only
      split <;> rfl

include hmcs in
theorem soundRunning_fastpathCall :
    SoundRunning (fastState s (fastpathCall cfg cptr msgInfo s)) := by
  have hguard : Ends Allowed (fun r => ∀ c dest queue, r = some (c, dest, queue) →
      s.tcbSchedContext dest = none) (fastpathCallGuard cfg cptr msgInfo s) := by
    refine Ends.ite (fun _ => ?_) (fun _ => ?_)
    · nofun
    refine (ends_lookupFp _ _ _).bind fun cap _ => ?_
    split
    · refine Ends.ite (fun _ => ?_) (fun _ => ?_)
      · nofun
      · split
        · exact allowed_nullObject
        · intro c dest queue hs
          split at hs
          · cases hs
            rename_i hok
            simp [callDestOk, hmcs] at hok
            exact hok.2.1
          · cases hs
    · nofun
  refine soundRunning_fastState h hr (hguard.bind fun r hg => ?_)
  split
  · nofun
  rename_i c dest queue
  unfold fastpathCallCommit
  dsimp only
  rw [if_pos hmcs]
  refine Ends.bind (soundRunning_donated h hr (hg c dest queue rfl) (by rfl)
    (by rfl) (fun h1 hr1 hd1 => links_fastpathCallMcs h1 hr1 hd1) _ _ _ _) fun s2 h2 => ?_
  intro s' hs'
  cases hs'
  exact h2

theorem links_fastpathReplyMcs (reply : Ptr) {caller : Ptr} :
    Ends Allowed (fun s' => s'.links = s.links.donate s.ksCurSC caller ∧ s'.ksCurSC = s.ksCurSC)
      (fastpathReplyMcs reply caller s) := by
  unfold fastpathReplyMcs
  dsimp only
  rw [hr.owner, donate_eq (hr.scTcb_eq h)]
  cases s.replyPrev reply with
  | none => exact ⟨rfl, rfl⟩
  | some prev => exact ⟨rfl, rfl⟩

include hmcs in
theorem soundRunning_fastpathReplyRecv (reply : Word) :
    SoundRunning (fastState s (fastpathReplyRecv cfg cptr msgInfo reply s)) := by
  have hcaller : Ends Allowed (fun _ => True) (replyCaller cfg reply s) := by
    unfold replyCaller
    rw [if_pos hmcs]
    refine (ends_lookupFp _ _ _).bind fun cap _ => ?_
    split <;> trivial
  have hguard : Ends Allowed (fun r => ∀ c ro caller, r = some (c, ro, caller) →
      s.tcbSchedContext caller = none) (fastpathReplyRecvGuard cfg cptr msgInfo reply s) := by
    refine Ends.ite (fun _ => ?_) (fun _ => ?_)
    · nofun
    refine (ends_lookupFp _ _ _).bind fun cap _ => ?_
    split
    · refine Ends.ite (fun _ => ?_) (fun _ => ?_)
      · nofun
      · refine hcaller.bind fun found _ => ?_
        split
        · nofun
        refine Ends.ite (fun hok => ?_) (fun _ => ?_)
        · intro c ro caller hs
          cases hs
          have := hok.2.2
          simp [replyCallerOk, hmcs] at this
          exact this.2
        · nofun
    · nofun
  refine soundRunning_fastState h hr (hguard.bind fun r hg => ?_)
  split
  · nofun
  rename_i c ro caller
  unfold fastpathReplyRecvCommit
  dsimp only
  rw [if_pos hmcs]
  obtain ⟨hl1, hcur1⟩ := fastpathBlock_frame (s := s) hmcs c ro caller
  refine Ends.bind (soundRunning_donated h hr (hg c ro caller rfl) hl1 hcur1
    (fun h1 hr1 _ => links_fastpathReplyMcs h1 hr1 ro) _ _ _ _) fun s2 h2 => ?_
  intro s' hs'
  cases hs'
  exact h2

omit h hr

/-! ### Steps and runs -/

include h in
theorem sound_decodedState {d : Decoded} (hd : SoundDecoded d) : Sound (decodedState s d) := by
  refine hd.bind fun r hr => ?_
  split
  · exact hr _ rfl
  · exact h

/-- What holds between two steps. -/
structure SystemInv (c : Mode × Kernel) : Prop where
  links : LinkInv c.2.links
  running : c.1 = .user → Running c.2

theorem SystemInv.runs {e : Event} (h : SystemInv (m, s)) (he : e.enabled m = true)
    (hkernel : e.enabled .kernel = false) : Running s := by
  refine h.running ?_
  cases m with
  | user => rfl
  | kernel => rw [hkernel] at he; cases he

include hmcs in
/-- **One step.** A clear step of a sound system ends well. -/
theorem event_sound (h : SystemInv (m, s)) (e : Event) (he : e.enabled m = true) (hc : e.Clear s) :
    Ends Allowed (fun s' => SystemInv (e.next, s')) (e.run cfg s) := by
  have hl : LinkInv s.links := h.links
  -- most steps lead into the kernel, where only the links matter
  have hkernel : ∀ {x : Except Stuck Kernel}, e.next = .kernel → Sound x →
      Ends Allowed (fun s' => SystemInv (e.next, s')) x := by
    intro x hn hx
    refine hx.mono fun s' h' => ⟨h', fun hu => ?_⟩
    rw [hn] at hu
    cases hu
  have hdecoded : ∀ {d : Decoded}, e.next = .kernel → SoundDecoded d →
      Ends Allowed (fun s' => SystemInv (e.next, s')) (decodedState s d) :=
    fun hn hd => hkernel hn (sound_decodedState hl hd)
  have huser : ∀ {x : Except Stuck Kernel}, SoundRunning x →
      Ends Allowed (fun s' => SystemInv (e.next, s')) x :=
    fun hx => hx.mono fun s' h' => ⟨h'.1, fun _ => h'.2⟩
  cases e with
  | leave next => exact huser (soundRunning_leaveKernel hl next)
  | charge now =>
    refine hkernel rfl ?_
    refine (sound_checkBudgetRestart (s := updateTimestamp now s) hl ?_).bind fun r hr' => hr'
    exact (h.runs he rfl).curClear hl
  | yield => exact hkernel rfl (sound_handleYield hmcs hl ((h.runs he rfl).curClear hl))
  | send a ep => exact hkernel rfl (sound_sendIPC hl (fun _ => (h.runs he rfl).senderClear) ep)
  | fault f => exact hkernel rfl (sound_handleFault hmcs (by exact hl) hc)
  | reply r grant => exact hkernel rfl (sound_doReplyTransferMcs hl s.ksCurThread grant hc)
  | signal ntfn badge => exact hkernel rfl (sound_sendSignal hmcs hl ntfn badge)
  | receive c isBlocking r => exact hkernel rfl (sound_receiveIPC hmcs hl r hc)
  | receiveSignal ntfn isBlocking => exact hkernel rfl (sound_receiveSignal hmcs hl hc)
  | schedContextBind sc cap => exact hdecoded rfl (soundDecoded_bind hmcs hl sc cap)
  | schedContextUnbindObject sc cap => exact hdecoded rfl (soundDecoded_unbindObject hl sc cap)
  | schedContextUnbind sc => exact hdecoded rfl (soundDecoded_unbind hl sc)
  | schedContextConsumed sc buffer => exact hdecoded rfl (soundDecoded_consumed hl sc buffer)
  | schedContextYieldTo sc buffer => exact hdecoded rfl (soundDecoded_yieldTo hmcs hl sc buffer)
  | schedControlConfigure length cap a =>
    exact hdecoded rfl (soundDecoded_configure hmcs hl cap length a)
  | setSchedParams tcb slot message =>
    exact hdecoded rfl (soundDecoded_setSchedParams hmcs hl tcb slot message)
  | setPriority tcb auth prio => exact hdecoded rfl (soundDecoded_setPriority hl tcb auth prio)
  | suspend tcb => exact hkernel rfl (sound_suspend hl tcb)
  | resume tcb => exact hkernel rfl (sound_restart hmcs hl tcb)
  | copyRegisters dest src suspendSource resumeTarget transfer =>
    exact hkernel rfl (sound_invokeTCBCopyRegisters hmcs hl dest src _ _ transfer)
  | bindNotification tcb cap => exact hdecoded rfl (soundDecoded_bindNotification hl tcb cap)
  | unbindNotification tcb => exact hdecoded rfl (soundDecoded_unbindNotification hl tcb)
  | finalise cap final => exact hkernel rfl (sound_finaliseObject hl final hc)
  | cancelBadgedSends ep badge =>
    refine hkernel rfl ?_
    show LinkInv (cancelBadgedSends cfg ep badge s).links
    rw [links_cancelBadgedSends]
    exact hl
  | fastCall cptr msgInfo =>
    exact huser (soundRunning_fastpathCall hmcs hl (h.runs he rfl) cptr msgInfo)
  | fastReplyRecv cptr msgInfo r =>
    exact huser (soundRunning_fastpathReplyRecv hmcs hl (h.runs he rfl) cptr msgInfo r)

include hmcs in
theorem step_inv (h : SystemInv c) (hs : Step cfg c c') : SystemInv c' := by
  cases hs with
  | event e he hc hr => exact (event_sound hmcs h e he hc).of_ok hr
  | other hl ht hsc =>
    refine ⟨by rw [show _ = _ from hl]; exact h.links, fun hu => ?_⟩
    exact running_of_eq (h.running hu) hl (Prod.ext ht hsc)

include hmcs in
/-- **Every run.** The invariant holds in every reachable state. -/
theorem reachable_inv (h : Reachable cfg c) : SystemInv c := by
  obtain ⟨s₀, hb, hrun⟩ := h
  induction hrun with
  | refl => exact ⟨boot_inv hb, nofun⟩
  | tail _ hs ih => exact step_inv hmcs ih hs

/-- **Main result.** In every state of a run of clear steps, threads and
notifications are paired with their scheduling contexts, and no clear step that
follows uses a null scheduling context. -/
theorem schedContext_binding_symmetric (hmcs : cfg.mcs = true) {m : Mode} {s : Kernel}
    (h : Reachable cfg (m, s)) :
    (∀ tcb sc, s.tcbSchedContext tcb = some sc ↔ s.scTcb sc = some tcb) ∧
      (∀ ntfn sc, s.ntfnSchedContext ntfn = some sc ↔ s.scNotification sc = some ntfn) ∧
      ∀ e : Event, e.enabled m = true → e.Clear s → e.run cfg s ≠ .error .nullSchedContext := by
  have hinv := reachable_inv hmcs h
  refine ⟨hinv.links.threads, hinv.links.notifications, fun e he hc => ?_⟩
  exact (event_sound hmcs hinv e he hc).ne_error (by simp [Allowed])

/-! ### Runs given by their events -/

/-- Runs the events one after another, each where it can happen. -/
def runEvents (cfg : Config) : List Event → Mode × Kernel → Except Stuck (Mode × Kernel)
  | [], c => .ok c
  | e :: events, (m, s) =>
    if e.enabled m then do
      let s ← e.run cfg s
      runEvents cfg events (e.next, s)
    else .error .assertion

/-- A run of events that are clear in every state is a run of the system. -/
theorem reflTransGen_runEvents {events : List Event} (hc : ∀ e ∈ events, ∀ s, e.Clear s)
    (hr : runEvents cfg events c = .ok c') : Relation.ReflTransGen (Step cfg) c c' := by
  induction events generalizing c with
  | nil =>
    cases hr
    exact .refl
  | cons e events ih =>
    obtain ⟨m, s⟩ := c
    unfold runEvents at hr
    split at hr
    · rename_i he
      obtain ⟨s1, hs1, hr⟩ := bind_eq_ok.1 hr
      have hstep : Step cfg (m, s) (e.next, s1) := .event e he (hc e List.mem_cons_self s) hs1
      exact .head hstep (ih (fun e' he' => hc e' (List.mem_cons_of_mem e he')) hr)
    · cases hr

/-- A kernel with one domain, whose ticks are microseconds. -/
def tickConfig : Config where
  mcs := true
  haveFpu := false
  numDomains := 1
  numPriorities := 256
  domSchedule := [(0, 60)]
  timer :=
    { kernelWcetTicks := 1
      kernelWcetScale := 1
      wcet_pos := Nat.one_pos
      scale_pos := Nat.one_pos }
  timerPrecision := 1
  maxTicksToUs := 2 ^ 63
  ticksToUs := id
  usToTicks := id
  minBudgetUs := 2
  maxBudgetUs := 2 ^ 63
  timeSlice := 5
  maxIRQ := 127
  intStateIRQNode := 4
  numDomains_pos := Nat.one_pos
  numPriorities_pos := by decide
  numPriorities_le := by decide
  domSchedule_lt := by decide

/-- The initial thread 1 and the idle thread 2 after boot, with the round robin
scheduling contexts 11 and 12. Thread 3 has the highest priority. -/
def bootState : Kernel :=
  let s := (Kernel.cleared.setTsType 1 .running).setTsType 2 .idleThreadState
  let s := (s.setTcbSchedContext 1 (some 11)).setScTcb 11 (some 1)
  let s := (s.setTcbSchedContext 2 (some 12)).setScTcb 12 (some 2)
  let s := s.setSchedContext 11 (Sporadic.refillNew 0 (s.schedContext 11) 2 100 0)
  let s := s.setSchedContext 12 (Sporadic.refillNew 0 (s.schedContext 12) 2 100 0)
  { s with
    ksCurThread := 1
    ksIdleThread := 2
    ksCurSC := 11
    ksDomainTime := 60
    tcbPriority := fun t => if t = 3 then 200 else 100
    tcbMCP := fun _ => 255 }

theorem boot_bootState : Boot bootState := ⟨1, 2, 11, 12, by decide, by decide, rfl⟩

/-- The initial thread configures the scheduling context 13 and binds it to `tcb`. -/
def configureAndBind (tcb : Ptr) : List Event :=
  [.leave 1,
    .schedControlConfigure 4 (some (.schedContext 13 8))
      { budgetUs := 10, periodUs := 20, extraRefills := 0, badge := 0 },
    .leave 1, .schedContextBind 13 (some (.thread tcb))]

/-- The endpoint 21, with all rights. -/
def serverEndpoint : EndpointCap :=
  { capEPBadge := 0
    capCanGrantReply := true
    capCanGrant := true
    capCanSend := true
    capCanReceive := true
    capEPPtr := 21 }

/-- Thread 3 waits at the endpoint 21, with the reply object `reply`, and loses its
scheduling context. -/
def passiveServer (reply : Option Ptr) : List Event :=
  configureAndBind 3 ++
    [.leave 1, .resume 3, .leave 3, .receive serverEndpoint true reply, .leave 1,
      .schedContextUnbind 13]

/-- The initial thread sends to the server without waiting and waits for a signal: the
server has its scheduling context, and the notification has none to take back. -/
def sendThenWait : List Event :=
  passiveServer none ++
    [.leave 1,
      .send { blocking := false, doCall := false, badge := 0, canGrant := true,
              canGrantReply := true, canDonate := true } 21,
      .receiveSignal 31 true]

/-- Thread 4 calls the server, which uses up the budget; the reply object is deleted
while the server waits in the release queue. -/
def deleteReplyOfPostponed : List Event :=
  passiveServer (some 41) ++
    [.leave 1, .schedContextBind 13 (some (.thread 4)), .leave 1, .resume 4, .leave 4,
      .send { blocking := true, doCall := true, badge := 0, canGrant := true,
              canGrantReply := true, canDonate := true } 21,
      .leave 3, .charge 9, .leave 1, .finalise (.replyObject 41 true) true, .leave 1]

/-- From the state after boot, each of the two runs ends in the use of a null scheduling
context. -/
theorem scheduling_context_null :
    Boot bootState ∧
      errorOf (runEvents tickConfig sendThenWait (.kernel, bootState)) =
        some .nullSchedContext ∧
      errorOf (runEvents tickConfig deleteReplyOfPostponed (.kernel, bootState)) =
        some .nullSchedContext :=
  ⟨boot_bootState, by decide +kernel, by decide +kernel⟩

theorem configureAndBind_clear : ∀ e ∈ configureAndBind 3, ∀ s, e.Clear s := by
  intro e he s
  simp only [configureAndBind, List.mem_cons, List.not_mem_nil, or_false] at he
  rcases he with rfl | rfl | rfl | rfl <;> exact trivial

/-- The thread that a scheduling context is bound to, after the initial thread has
bound it. -/
theorem schedContext_binding_symmetric_bound :
    tickConfig.mcs = true ∧
      ∃ m s, runEvents tickConfig (configureAndBind 3) (.kernel, bootState) = .ok (m, s) ∧
        s.tcbSchedContext 3 = some 13 ∧ s.scTcb 13 = some 3 := by
  have hbound : (runEvents tickConfig (configureAndBind 3) (.kernel, bootState)).toOption.map
      (fun c => c.2.tcbSchedContext 3) = some (some 13) := by
    decide +kernel
  refine ⟨rfl, ?_⟩
  cases hrun : runEvents tickConfig (configureAndBind 3) (.kernel, bootState) with
  | error e =>
    rw [hrun] at hbound
    cases hbound
  | ok c =>
    obtain ⟨m, s⟩ := c
    rw [hrun] at hbound
    have htcb : s.tcbSchedContext 3 = some 13 := Option.some.inj hbound
    have hreach : Reachable tickConfig (m, s) :=
      ⟨bootState, boot_bootState, reflTransGen_runEvents configureAndBind_clear hrun⟩
    exact ⟨m, s, rfl, htcb, ((schedContext_binding_symmetric rfl hreach).1 3 13).1 htcb⟩

end SeL4Kernel
