import SeL4Kernel.Kernel.LinkCalls

/-!
# Replies, budgets, invocations and fast paths keep the links sound

The last part of the lemmas about `LinkInv`. What a decode function has checked is
what the operation on the links needs.
-/

namespace SeL4Kernel

variable {cfg : Config} {s : Kernel} (hmcs : cfg.mcs = true) (h : LinkInv s.links)
  (sc tcb target : Ptr) (extraCap : Option Cap) (buffer : Option Nat)

/-! ### Replies -/

theorem keeps_replyMessage (sender receiver : Ptr) (grant : Bool) :
    Keeps s (replyMessage cfg sender receiver grant s) := by
  refine Ends.ite (fun _ => ?_) (fun _ => ?_)
  · refine (keeps_doIPCTransfer _ _ _ _ _).bind fun s1 h1 => ?_
    simpa using h1
  · simp

include h in
theorem sound_replyResume {receiver : Ptr} (wasTimeout : Bool)
    (hq : s.tcbInReleaseQueue receiver = false) :
    Sound (replyResume cfg receiver wasTimeout s) := by
  unfold replyResume
  cases hsc : s.tcbSchedContext receiver with
  | none => exact h
  | some sc =>
    refine Ends.ite (fun _ => ?_) (fun _ => h)
    refine Ends.ite (fun _ => ?_) (fun _ => ?_)
    · simpa using h
    refine Ends.ite (fun _ => ?_) (fun _ => ?_)
    · exact sound_handleTimeout (by exact h) receiver
    · refine (soundFrom_postpone h fun tcb ht => ?_).sound
      rw [h.threads.eq_of_eq ((h.threads tcb sc).2 ht) hsc]
      exact hq

/-- What a reply needs: neither the thread that gets the reply, nor the one whose
scheduling context goes back, waits for a refill. -/
def ReplyClear (s : Kernel) (reply : Ptr) : Prop :=
  ∀ tcb, s.replyTCB reply = some tcb → s.tsType tcb = .blockedOnReply →
    s.tcbInReleaseQueue tcb = false ∧ PopClear s reply tcb

theorem tcbInReleaseQueue_replyRemove (reply : Ptr) :
    (replyRemove cfg reply tcb s).tcbInReleaseQueue = s.tcbInReleaseQueue := by
  have hdonate : ∀ sc, (s.links.donate sc tcb).tcbInReleaseQueue = s.tcbInReleaseQueue := by
    intro sc
    unfold Links.donate
    split <;> rfl
  have hl := congrArg (fun l : Links => l.tcbInReleaseQueue) (links_replyRemove cfg s reply tcb)
  refine Eq.trans hl ?_
  split
  · split
    · exact hdonate _
    · rfl
  · rfl

include h in
theorem sound_doReplyTransferMcs (sender : Ptr) {reply : Ptr} (grant : Bool)
    (hc : ReplyClear s reply) : Sound (doReplyTransferMcs cfg sender reply grant s) := by
  unfold doReplyTransferMcs
  cases ht : s.replyTCB reply with
  | none => exact h
  | some receiver =>
    refine Ends.ite (fun hb => ?_) (fun _ => h)
    obtain ⟨hq, hpop⟩ := hc receiver ht hb
    have h1 : LinkInv (replyRemove cfg reply receiver s).links := inv_replyRemove h hpop
    have hq1 : (replyRemove cfg reply receiver s).tcbInReleaseQueue receiver = false := by
      rw [tcbInReleaseQueue_replyRemove]
      exact hq
    refine (keeps_replyMessage sender receiver grant).bind fun s2 h2 => ?_
    refine sound_replyResume (by rw [h2]; exact h1) _ ?_
    rw [inReleaseQueue_of_links h2]
    exact hq1

/-! ### Budgets -/

/-- The thread of the current scheduling context does not wait for a refill. -/
def CurClear (s : Kernel) : Prop :=
  ∀ tcb, s.scTcb s.ksCurSC = some tcb → s.tcbInReleaseQueue tcb = false

theorem keepsThread_commitRefills : KeepsThread s (commitRefills cfg s) := by
  refine Ends.ite (fun _ => ⟨rfl, rfl⟩) (fun _ => ?_)
  have hput : KeepsThread s (if 0 < s.ksConsumed then
      putRefills s.ksCurSC (if Sporadic.isRoundRobin (curRefills s) then
          some (roundRobinCommit (curRefills s) s.ksConsumed)
        else Sporadic.refillSplitCheck cfg.timer (curRefills s) s.ksConsumed) s
      else .ok s) :=
    Ends.ite (fun _ => keepsThread_putRefills _ _) (fun _ => ⟨rfl, rfl⟩)
  exact hput.bind fun s1 h1 => h1

theorem keepsThread_commitTime : KeepsThread s (commitTime cfg s) := by
  refine keepsThread_commitRefills.bind fun s1 h1 => ?_
  rw [← h1.1, ← h1.2]
  split <;> exact ⟨rfl, rfl⟩

variable (hc : CurClear s)

include h hc

theorem sound_endTimeslice (canTimeoutFault : Bool) :
    Sound (endTimeslice cfg canTimeoutFault s) := by
  refine Ends.ite (fun _ => ?_) (fun _ => ?_)
  · exact sound_handleTimeout (by exact h) _
  · refine Ends.ite (fun _ => ?_) (fun _ => ?_)
    · exact h
    · exact (soundFrom_postpone h hc).sound

theorem sound_chargeBudget (consumed : Nat) (canTimeoutFault : Bool) :
    Sound (chargeBudget cfg consumed canTimeoutFault s) := by
  unfold chargeBudget putRefills
  split
  · exact allowed_noReturn
  refine Ends.ite (fun _ => ?_) (fun _ => by exact h)
  refine (sound_endTimeslice (by exact h) (by exact hc) canTimeoutFault).bind fun s1 h1 => ?_
  show LinkInv (rescheduleRequired cfg s1).links
  rw [links_rescheduleRequired]
  exact h1

theorem sound_checkBudget : Ends Allowed (fun r => LinkInv r.2.links) (checkBudget cfg s) := by
  refine Ends.ite (fun _ => ?_) (fun _ => ?_)
  · refine Ends.ite (fun _ => ?_) (fun _ => h)
    show LinkInv (rescheduleRequired cfg { s with ksReprogram := true }).links
    rw [links_rescheduleRequired]
    exact h
  · exact (sound_chargeBudget h hc _ true).bind fun s1 h1 => h1

theorem sound_checkBudgetRestart :
    Ends Allowed (fun r => LinkInv r.2.links) (checkBudgetRestart cfg s) := by
  refine (sound_checkBudget h hc).bind fun r hr => ?_
  dsimp only
  split
  · simpa using hr
  · exact hr

include hmcs in
theorem sound_handleYield : Sound (handleYield cfg s) := by
  unfold handleYield
  rw [if_pos hmcs]
  exact (sound_chargeBudget h hc _ false).bind fun s1 h1 => h1

omit h hc

/-! ### Invocations -/

/-- A decode function ends in an error for the caller or with sound links. -/
abbrev SoundDecoded : Decoded → Prop :=
  Ends Allowed (fun r => ∀ s', r = .ok s' → LinkInv s'.links)

theorem soundDecoded_error (e : SyscallError) : SoundDecoded (.ok (.error e)) := by
  intro s' h
  cases h

/-- A test that a decode function makes. -/
theorem soundDecoded_check {c : Prop} [Decidable c] {e : SyscallError} {d : Decoded}
    (h : ¬c → SoundDecoded d) : SoundDecoded (if c then .ok (.error e) else d) :=
  Ends.ite (fun _ => soundDecoded_error _) h

theorem soundDecoded_invoke {f : Kernel → Except Stuck Kernel}
    (hf : ∀ s1, s1.links = s.links → s1.toBindings = s.toBindings → Sound (f s1)) :
    SoundDecoded (invoke cfg f s) := by
  have hl : (setThreadState cfg s.ksCurThread .restart s).links = s.links :=
    links_setThreadState cfg s _ _
  refine (hf _ hl (toBindings_of_links hl)).bind fun s2 h2 => ?_
  intro s' hs'
  cases hs'
  exact h2

include h

theorem soundDecoded_keeps {f : Kernel → Kernel} (hf : ∀ s1 : Kernel, (f s1).links = s1.links) :
    SoundDecoded (invoke cfg (fun s => .ok (f s)) s) :=
  soundDecoded_invoke fun s1 hl _ => by simpa [hf, hl] using h

include hmcs in
theorem soundDecoded_bind : SoundDecoded (decodeSchedContextBind cfg sc extraCap s) := by
  cases extraCap with
  | none => exact soundDecoded_error _
  | some cap =>
    refine soundDecoded_check fun hfree => ?_
    have hsc : s.scTcb sc = none ∧ s.scNotification sc = none := by simpa [not_or] using hfree
    cases cap with
    | thread tcb =>
      refine soundDecoded_check fun ht => ?_
      refine soundDecoded_check fun _ => ?_
      refine soundDecoded_invoke fun s1 hl hb => ?_
      refine sound_schedContextBindTCB hmcs (by rw [hl]; exact h) ?_ ?_
      · rw [hb]
        simpa using ht
      · rw [hb]
        exact hsc.1
    | notification c =>
      refine soundDecoded_check fun hn => ?_
      refine soundDecoded_invoke fun s1 hl hb => ?_
      simpa [invokeSchedContextBind, hl] using h.bindNtfn (not_not.1 hn) hsc.2
    | _ => exact soundDecoded_error _

theorem soundDecoded_unbindObject :
    SoundDecoded (decodeSchedContextUnbindObject cfg sc extraCap s) := by
  cases extraCap with
  | none => exact soundDecoded_error _
  | some cap =>
    cases cap with
    | thread tcb =>
      refine soundDecoded_check fun ht => ?_
      refine soundDecoded_check fun _ => ?_
      refine soundDecoded_invoke fun s1 hl hb => ?_
      simpa [invokeSchedContextUnbindObject, hl] using
        h.unbindTcb ((h.threads tcb sc).2 (not_not.1 ht))
    | notification c =>
      refine soundDecoded_check fun _ => ?_
      refine soundDecoded_invoke fun s1 hl hb => ?_
      simpa [invokeSchedContextUnbindObject, hl] using h.unbindNtfn (some sc)
    | _ => exact soundDecoded_error _

theorem inv_invokeSchedContextUnbind : LinkInv (invokeSchedContextUnbind cfg sc s).links := by
  unfold invokeSchedContextUnbind
  rw [links_dropCallStack, links_schedContextUnbindNtfn]
  exact (inv_schedContextUnbindAllTCBs h).unbindNtfn (some sc)

theorem soundDecoded_unbind : SoundDecoded (decodeSchedContextUnbind cfg sc s) := by
  refine soundDecoded_check fun _ => ?_
  refine soundDecoded_invoke fun s1 hl _ => ?_
  exact inv_invokeSchedContextUnbind (by rw [hl]; exact h) sc

theorem soundDecoded_consumed : SoundDecoded (decodeSchedContextConsumed cfg sc buffer s) :=
  soundDecoded_keeps h fun s1 => links_setConsumed cfg s1 sc buffer

omit h in
theorem links_yieldTo : (yieldTo cfg sc tcb s).links = s.links := by
  unfold yieldTo
  rw [links_rescheduleRequired]
  rfl

include hmcs in
theorem sound_invokeSchedContextYieldTo :
    Sound (invokeSchedContextYieldTo cfg sc tcb buffer s) := by
  have h1 : LinkInv (schedContextCompleteYieldTo cfg (s.scYieldFrom sc) s).links := by simpa using h
  refine (soundFrom_schedContextResume hmcs h1).bind fun s2 ⟨h2, _⟩ => ?_
  refine Ends.ite (fun _ => ?_) (fun _ => ?_)
  · refine (keepsThread_refillUnblockCheck sc).keeps.bind fun s3 h3 => ?_
    have hs3 : LinkInv s3.links := by rw [h3]; exact h2
    refine Ends.ite (fun _ => ?_) (fun _ => ?_)
    · simpa using hs3
    · simp only [ends_ok, links_yieldTo]
      exact hs3
  · simpa using h2

include hmcs in
theorem soundDecoded_yieldTo : SoundDecoded (decodeSchedContextYieldTo cfg sc buffer s) := by
  unfold decodeSchedContextYieldTo
  split
  · exact soundDecoded_error _
  refine soundDecoded_check fun _ => ?_
  refine soundDecoded_check fun _ => ?_
  refine soundDecoded_invoke fun s1 hl _ => ?_
  exact sound_invokeSchedContextYieldTo hmcs (by rw [hl]; exact h) sc _ buffer

theorem sound_settleSchedContext : Sound (settleSchedContext cfg target s) := by
  unfold settleSchedContext
  split
  · exact h
  rename_i tcb _
  have h1 : LinkInv (tcbSchedDequeue cfg tcb (tcbReleaseRemove tcb s)).links := by
    simpa using h.releaseRemove tcb
  exact Ends.ite (fun _ => keepsThread_commitTime.keeps.sound h1) (fun _ => h1)

include hmcs in
theorem sound_invokeSchedControlConfigure (budget period maxRefills : Nat) (badge : Word) :
    Sound (invokeSchedControlConfigure cfg target budget period maxRefills badge s) := by
  refine (sound_settleSchedContext (by exact h) target).bind fun s1 h1 => ?_
  dsimp only
  split
  · exact h1
  rename_i tcb _
  refine (soundFrom_schedContextResume hmcs (by exact h1)).bind fun s2 ⟨h2, _⟩ => ?_
  simp only [ends_ok]
  generalize hs3 : (if isRunnable s2 tcb = true ∧ tcb ≠ s2.ksCurThread then
    possibleSwitchTo cfg tcb s2 else s2) = s3
  have h3 : LinkInv s3.links := by
    rw [← hs3]
    split <;> simpa using h2
  split <;> simpa using h3

include hmcs in
theorem soundDecoded_configure (length : Nat) (a : ConfigureArgs) :
    SoundDecoded (decodeSchedControlConfigure cfg length extraCap a s) := by
  cases extraCap with
  | none => exact soundDecoded_error _
  | some cap =>
    refine soundDecoded_check fun _ => ?_
    cases cap with
    | schedContext target sizeBits =>
      refine soundDecoded_check fun _ => ?_
      refine soundDecoded_check fun _ => ?_
      refine soundDecoded_check fun _ => ?_
      refine soundDecoded_check fun _ => ?_
      refine soundDecoded_invoke fun s1 hl _ => ?_
      exact sound_invokeSchedControlConfigure hmcs (by rw [hl]; exact h) target _ _ _ _
    | _ => exact soundDecoded_error _

/-! ### Threads -/

omit h in
theorem links_installFaultHandler (slot : Slot) (index : Nat) (newCap : Cap) (srcSlot : Slot) :
    (installFaultHandler cfg target slot index newCap srcSlot s).links = s.links := by
  have hdel : (deleteFaultHandler cfg (tcbSlot target index) s).links = s.links := by
    unfold deleteFaultHandler
    split
    · split <;> simp
    · rfl
  unfold installFaultHandler
  dsimp only
  split <;> exact hdel

include hmcs in
theorem sound_updateSchedContext {target : Ptr} {sc : Option Ptr}
    (hc : ∀ x, sc = some x → s.tcbSchedContext target = none ∧ s.scTcb x = none) :
    Sound (updateSchedContext cfg target sc s) := by
  unfold updateSchedContext
  cases sc with
  | some x =>
    refine Ends.ite (fun _ => ?_) (fun _ => h)
    obtain ⟨ht, hx⟩ := hc x rfl
    exact sound_schedContextBindTCB hmcs h ht hx
  | none =>
    cases hold : s.tcbSchedContext target with
    | none => exact h
    | some old =>
      simp only [ends_ok, links_schedContextUnbindTCB]
      exact h.unbindTcb hold

omit h in
theorem checkSchedContextCap_free {tcb : Ptr} {scCap : Cap} {x : Ptr}
    (h : checkSchedContextCap cfg s tcb scCap = .ok (some x)) :
    s.tcbSchedContext tcb = none ∧ s.scTcb x = none := by
  unfold checkSchedContextCap at h
  split at h
  · split at h
    · cases h
    · split at h
      · cases h
      · split at h
        · cases h
        · cases h
          rename_i ht hsc _
          exact ⟨by simpa using ht, by simpa using hsc⟩
  · split at h <;> cases h
  · cases h

include hmcs in
theorem soundDecoded_setSchedParams (slot : Slot) (message : Option SchedParams) :
    SoundDecoded (decodeSetSchedParams cfg tcb slot message s) := by
  unfold decodeSetSchedParams
  split
  · exact soundDecoded_error _
  split
  · refine soundDecoded_check fun _ => ?_
    refine soundDecoded_check fun _ => ?_
    split
    · exact soundDecoded_error _
    rename_i sc hsc
    refine Ends.ite (fun _ => ?_) (fun _ => soundDecoded_error _)
    refine soundDecoded_invoke fun s1 hl hb => ?_
    have hl2 : ∀ (f : Cap) (p : SchedParams),
        (setPriority cfg tcb p.prio (setMCPriority tcb p.mcp
          (installFaultHandler cfg tcb slot tcbFaultHandlerSlot f p.fhSlot s1))).links =
          s.links := by
      intro f p
      rw [links_setPriority, links_setMCPriority, links_installFaultHandler, hl]
    refine sound_updateSchedContext hmcs (by rw [hl2]; exact h) fun x hx => ?_
    subst hx
    rw [toBindings_of_links (hl2 _ _)]
    exact checkSchedContextCap_free hsc
  · exact soundDecoded_error _

theorem soundDecoded_setPriority (auth : Ptr) (prio : Nat) :
    SoundDecoded (decodeSetPriority cfg tcb auth prio s) := by
  refine soundDecoded_check fun _ => ?_
  exact soundDecoded_keeps h fun s1 => links_setPriority cfg s1 tcb prio

include hmcs in
theorem sound_invokeTCBCopyRegisters (dest src : Ptr) (suspendSource resumeTarget : Bool)
    (transfer : (Nat → Word) → (Nat → Word) → Nat → Word) :
    Sound (invokeTCBCopyRegisters cfg dest src suspendSource resumeTarget transfer s) := by
  have hsusp : Sound (if suspendSource then suspend cfg src s else .ok s) :=
    Ends.ite (fun _ => sound_suspend h src) (fun _ => h)
  refine hsusp.bind fun s1 h1 => ?_
  have hres : Sound (if resumeTarget then restart cfg dest s1 else .ok s1) :=
    Ends.ite (fun _ => sound_restart hmcs h1 dest) (fun _ => h1)
  refine hres.bind fun s2 h2 => ?_
  simp only [ends_ok]
  split
  · rw [links_rescheduleRequired]
    exact h2
  · exact h2

theorem soundDecoded_bindNotification :
    SoundDecoded (decodeBindNotification cfg tcb extraCap s) := by
  unfold decodeBindNotification
  split
  · exact soundDecoded_error _
  refine soundDecoded_check fun _ => ?_
  split
  · refine soundDecoded_check fun _ => ?_
    refine soundDecoded_check fun _ => ?_
    exact soundDecoded_keeps h fun _ => rfl
  · exact soundDecoded_error _

theorem soundDecoded_unbindNotification : SoundDecoded (decodeUnbindNotification cfg tcb s) := by
  refine soundDecoded_check fun _ => ?_
  exact soundDecoded_keeps h fun s1 => links_unbindNotification s1 tcb

/-! ### Finalisation -/

/-- What finalisation needs: a reply object that is taken off a call stack does not
return a scheduling context from a thread that waits for a refill. -/
def FinaliseClear (s : Kernel) : Cap → Prop
  | .replyObject reply _ =>
    ∀ tcb, s.replyTCB reply = some tcb → s.tsType tcb = .blockedOnReply → PopClear s reply tcb
  | _ => True

theorem inv_finaliseReply {reply : Ptr}
    (hc : ∀ tcb, s.replyTCB reply = some tcb → s.tsType tcb = .blockedOnReply →
      PopClear s reply tcb) : LinkInv (finaliseReply cfg reply s).links := by
  unfold finaliseReply
  cases ht : s.replyTCB reply with
  | none => exact h
  | some tcb =>
    dsimp only
    split
    · rename_i hb
      exact inv_replyRemove h (hc tcb ht hb)
    · simpa using h
    · exact h

theorem inv_releaseSchedContext : LinkInv (releaseSchedContext cfg tcb s).links := by
  unfold releaseSchedContext
  cases hsc : s.tcbSchedContext tcb with
  | none => exact h
  | some sc => simpa using h.unbindTcb hsc

theorem sound_finaliseThread : Sound (finaliseThread cfg tcb s) := by
  have h1 : LinkInv (unbindNotification tcb s).links := by simpa using h
  refine sound_suspend ?_ tcb
  split
  · exact inv_releaseSchedContext h1 tcb
  · exact h1

theorem inv_finaliseSchedContext : LinkInv (finaliseSchedContext cfg sc s).links := by
  unfold finaliseSchedContext
  rw [Kernel.links_setSchedContext, links_schedContextCompleteYieldTo]
  exact inv_invokeSchedContextUnbind h sc

theorem sound_finaliseObject {cap : Cap} (final : Bool) (hc : FinaliseClear s cap) :
    Sound (finaliseObject cfg cap final s) := by
  refine Ends.ite (fun _ => ?_) (fun _ => h)
  cases cap with
  | endpoint c => simpa using h
  | notification c =>
    simp only [ends_ok, links_cancelAllSignals, links_unbindMaybeNotification]
    split
    · rw [links_schedContextUnbindNtfn]
      exact h.unbindNtfn _
    · exact h
  | replyObject reply canGrant =>
    simp only [ends_ok]
    split
    · exact inv_finaliseReply h hc
    · exact h
  | thread tcb => exact sound_finaliseThread h tcb
  | schedContext sc sizeBits =>
    simp only [ends_ok]
    split
    · exact inv_finaliseSchedContext h sc
    · exact h
  | _ => exact h

end SeL4Kernel
