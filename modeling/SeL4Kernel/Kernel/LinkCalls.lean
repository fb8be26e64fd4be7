import SeL4Kernel.Kernel.LinkSteps

/-!
# Messages, faults, budgets and invocations keep the links sound

The second half of the lemmas about `LinkInv`: sending and receiving, faults,
replies, the charging of budgets, the invocations of scheduling contexts and
threads, finalisation, and the fast paths.
-/

namespace SeL4Kernel

variable {cfg : Config} {s : Kernel} (hmcs : cfg.mcs = true) (h : LinkInv s.links) {a : SendArgs}
  {c : EndpointCap} {s' : Kernel}

/-! ### Sending -/

/-- A sender that may donate has a scheduling context and does not wait for a
refill. -/
def SenderClear (s : Kernel) (thread : Ptr) : Prop :=
  s.tcbSchedContext thread ≠ none ∧ s.tcbInReleaseQueue thread = false

variable {thread : Ptr}

theorem SenderClear.of_links (h : SenderClear s thread) (hl : s'.links = s.links) :
    SenderClear s' thread := by
  have hb := toBindings_of_links hl
  have hr := inReleaseQueue_of_links hl
  unfold SenderClear
  rw [hr, show s'.tcbSchedContext = s.tcbSchedContext from congrArg Bindings.tcbSchedContext hb]
  exact h

include h

theorem sound_sendDonate (hc : a.canDonate = true → SenderClear s thread) (dest : Ptr) :
    Sound (sendDonate cfg a thread dest s) := by
  unfold sendDonate
  have hl : (unlinkReplyObject cfg dest s).links = s.links := links_unlinkReplyObject cfg s dest
  have h1 : LinkInv (unlinkReplyObject cfg dest s).links := by rw [hl]; exact h
  have hc1 := fun hd => (hc hd).of_links hl
  generalize unlinkReplyObject cfg dest s = s1 at h1 hc1
  have hinact : LinkInv (setThreadState cfg thread .inactive s1).links := by
    rw [links_setThreadState]
    exact h1
  refine Ends.ite (fun _ => ?_) (fun _ => ?_)
  · split
    · exact Ends.ite (fun _ => inv_replyPush h1 fun hd => (hc1 hd).2) (fun _ => hinact)
    · exact hinact
  · refine Ends.ite (fun hd => ?_) (fun _ => h1)
    obtain ⟨hsc, hq⟩ := hc1 hd.1
    cases ht : s1.tcbSchedContext thread with
    | none => exact absurd ht hsc
    | some sc =>
      refine inv_schedContextDonate h1 rfl hd.2 fun donor hdonor => ?_
      rw [h1.threads.eq_of_eq ((h1.threads donor sc).2 hdonor) ht]
      exact hq

theorem sound_sendIPC (hc : a.canDonate = true → SenderClear s thread) (ep : Ptr) :
    Sound (sendIPC cfg a thread ep s) := by
  have hblock : LinkInv (if a.blocking then blockOnSend cfg a thread ep s else s).links := by
    split
    · rw [links_blockOnSend]
      exact h
    · exact h
  unfold sendIPC
  split
  · exact hblock
  · exact hblock
  split
  · exact allowed_nullObject
  refine (keeps_doIPCTransfer _ _ _ _ _).bind fun s1 h1 => ?_
  have hl : s1.links = s.links := by rw [h1, links_epDequeue]
  have hs1 : LinkInv s1.links := by rw [hl]; exact h
  refine Ends.ite (fun _ => ?_) (fun _ => ?_)
  · refine (sound_sendDonate hs1 (fun hd => (hc hd).of_links hl) _).bind fun s2 h2 => ?_
    simpa using h2
  · simpa using hs1

/-! ### Faults -/

theorem sound_sendFaultIPC {tcb : Ptr} {canDonate : Bool}
    (hc : canDonate = true → SenderClear s tcb) (handler : Cap) :
    Ends Allowed (fun r => LinkInv r.2.links) (sendFaultIPC cfg tcb handler canDonate s) := by
  unfold sendFaultIPC
  split
  · have h1 : LinkInv (s.setTcbFault tcb s.currentFault).links := h
    exact (sound_sendIPC h1 (fun hd => hc hd) _).bind fun s2 h2 => h2
  · exact h

theorem sound_handleTimeout (tcb : Ptr) : Sound (handleTimeout cfg tcb s) := by
  exact (sound_sendFaultIPC h (fun hd => by cases hd) _).bind fun r hr => hr

include hmcs in
theorem sound_handleFault {tcb : Ptr} (hq : s.tcbInReleaseQueue tcb = false) :
    Sound (handleFault cfg tcb s) := by
  unfold handleFault handleFaultMcs
  rw [if_pos hmcs]
  refine (sound_sendFaultIPC h (fun hd => ?_) _).bind fun r hr => ?_
  · exact ⟨by simpa using hd, hq⟩
  simp only [ends_ok]
  split
  · exact hr
  · unfold handleNoFaultHandler
    rw [links_setThreadState]
    exact hr

/-! ### Receiving -/

theorem inv_receiveReply {sender thread : Ptr} (reply : Option Ptr)
    (hq : s.tcbInReleaseQueue sender = false) :
    LinkInv (receiveReply cfg sender thread reply s).links := by
  unfold receiveReply
  dsimp only
  split
  · split
    · split
      · exact inv_replyPush h fun _ => hq
      · rw [links_setThreadState]
        exact h
    · rw [links_setThreadState]
      exact h
  · rw [links_possibleSwitchTo, links_setThreadState]
    exact h

variable {isBlocking : Bool}

include hmcs in
theorem sound_receiveMessage {reply : Option Ptr}
    (hq : ∀ t ∈ s.epQueue c.capEPPtr, s.tcbInReleaseQueue t = false) :
    Sound (receiveMessage cfg thread c isBlocking reply s) := by
  have hblock : LinkInv (if isBlocking then blockOnReceive cfg thread c reply s
      else doNBRecvFailedTransfer thread s).links := by
    split
    · rw [links_blockOnReceive]
      exact h
    · exact h
  unfold receiveMessage
  split
  · exact hblock
  · exact hblock
  cases hqueue : s.epQueue c.capEPPtr with
  | nil => exact allowed_nullObject
  | cons sender rest =>
    refine (keeps_doIPCTransfer _ _ _ _ _).bind fun s1 h1 => ?_
    have hl : s1.links = s.links := by rw [h1, links_epDequeue]
    rw [if_pos hmcs]
    refine inv_receiveReply (by rw [hl]; exact h) reply ?_
    rw [inReleaseQueue_of_links hl]
    exact hq sender (by rw [hqueue]; exact List.mem_cons_self)

omit h

/-! What withdrawing a reply object from another thread leaves alone: the links, the
bound notifications, and the endpoint queues but for the thread that leaves. -/

theorem toEndpoints_setThreadState (tcb : Ptr) (ts : TsType) :
    (setThreadState cfg tcb ts s).toEndpoints = s.toEndpoints ∧
      (setThreadState cfg tcb ts s).toNotifications = s.toNotifications := by
  unfold setThreadState scheduleTCB
  split
  · unfold rescheduleRequired
    split
    · split <;> exact ⟨rfl, rfl⟩
    · exact ⟨rfl, rfl⟩
    · exact ⟨rfl, rfl⟩
  · exact ⟨rfl, rfl⟩

/-- The queues of `s'` are those of `s`, perhaps with fewer threads, and bound
notifications are the same. -/
def Fewer (s s' : Kernel) : Prop :=
  (∀ ep, s'.epQueue ep ⊆ s.epQueue ep) ∧ s'.tcbBoundNotification = s.tcbBoundNotification

theorem Fewer.of_eq (he : s'.toEndpoints = s.toEndpoints)
    (hn : s'.toNotifications = s.toNotifications) : Fewer s s' := by
  refine ⟨fun ep => ?_, congrArg Notifications.tcbBoundNotification hn⟩
  rw [show s'.epQueue = s.epQueue from congrArg Endpoints.epQueue he]
  exact List.Subset.refl _

theorem Fewer.trans {s1 s2 s3 : Kernel} (h : Fewer s1 s2) (h' : Fewer s2 s3) : Fewer s1 s3 :=
  ⟨fun ep => List.Subset.trans (h'.1 ep) (h.1 ep), h'.2.trans h.2⟩

theorem fewer_setThreadState (tcb : Ptr) (ts : TsType) : Fewer s (setThreadState cfg tcb ts s) :=
  Fewer.of_eq (toEndpoints_setThreadState tcb ts).1 (toEndpoints_setThreadState tcb ts).2

theorem fewer_replyUnlink (reply tcb : Ptr) : Fewer s (replyUnlink cfg reply tcb s) := by
  exact (Fewer.of_eq rfl rfl).trans (fewer_setThreadState tcb .inactive)

theorem fewer_replyDetach (reply : Ptr) : Fewer s (replyDetach reply s) := by
  unfold replyDetach
  split <;> exact Fewer.of_eq rfl rfl

theorem fewer_epDequeue (ep tcb : Ptr) : Fewer s (epDequeue ep tcb s) := by
  refine ⟨fun e t ht => ?_, rfl⟩
  by_cases he : e = ep
  · subst he
    simp only [epDequeue, Kernel.setEp, Function.update_self] at ht
    exact List.mem_of_mem_erase ht
  · simpa [epDequeue, Kernel.setEp, he] using ht

theorem fewer_replyRemoveTcb (tcb : Ptr) : Ends Allowed (Fewer s) (replyRemoveTcb cfg tcb s) := by
  unfold replyRemoveTcb
  split
  · exact allowed_nullObject
  · refine Fewer.trans ?_ (fewer_replyUnlink _ tcb)
    refine Fewer.trans ?_ (fewer_replyDetach _)
    split <;> exact Fewer.of_eq rfl rfl

include hmcs in
theorem fewer_cancelIPC (tcb : Ptr) : Ends Allowed (Fewer s) (cancelIPC cfg tcb s) := by
  have hblocked : ∀ s1 : Kernel, Fewer s s1 →
      Fewer s (setThreadState cfg tcb .inactive (unlinkReplyObject cfg tcb
        (epDequeue (s1.tcbState tcb).blockingObject tcb s1))) := by
    intro s1 h1
    refine Fewer.trans ?_ (fewer_setThreadState tcb .inactive)
    refine Fewer.trans (h1.trans (fewer_epDequeue (s1.tcbState tcb).blockingObject tcb)) ?_
    unfold unlinkReplyObject
    split
    · exact Fewer.of_eq rfl rfl
    · exact fewer_replyUnlink _ tcb
  have hfault : Fewer s (s.setTcbFault tcb .null) := Fewer.of_eq rfl rfl
  unfold cancelIPC
  simp only [if_pos hmcs]
  split
  · exact hblocked _ hfault
  · exact hblocked _ hfault
  · refine Fewer.trans (hfault.trans ?_) (fewer_setThreadState tcb .inactive)
    exact ⟨fun ep => List.Subset.refl _, rfl⟩
  · exact (fewer_replyRemoveTcb tcb).mono fun s' h' => hfault.trans h'
  all_goals exact hfault

/-- What a receive on an endpoint needs: neither the receiver nor a waiting sender
waits for a refill, and a blocking receive has a scheduling context to compare with
that of the bound notification. -/
structure ReceiveClear (s : Kernel) (thread : Ptr) (c : EndpointCap) (isBlocking : Bool) :
    Prop where
  receiver : s.tcbInReleaseQueue thread = false
  senders : ∀ t ∈ s.epQueue c.capEPPtr, s.tcbInReleaseQueue t = false
  bound : isBlocking = true → ∀ ntfn, s.tcbBoundNotification thread = some ntfn →
    s.ntfnSchedContext ntfn ≠ none ∨ s.tcbSchedContext thread ≠ none

theorem ReceiveClear.of_fewer (h : ReceiveClear s thread c isBlocking) (hl : s'.links = s.links)
    (hf : Fewer s s') : ReceiveClear s' thread c isBlocking := by
  have hr := inReleaseQueue_of_links hl
  have hb := toBindings_of_links hl
  refine ⟨by rw [hr]; exact h.receiver, fun t ht => ?_, fun hi ntfn hn => ?_⟩
  · rw [hr]
    exact h.senders t (hf.1 _ ht)
  · rw [show s'.ntfnSchedContext = s.ntfnSchedContext from congrArg Bindings.ntfnSchedContext hb,
      show s'.tcbSchedContext = s.tcbSchedContext from congrArg Bindings.tcbSchedContext hb]
    exact h.bound hi ntfn (by rw [← hf.2]; exact hn)

include hmcs in
theorem ends_takeReply (thread : Ptr) (reply : Option Ptr) :
    Ends Allowed (fun s' => s'.links = s.links ∧ Fewer s s') (takeReply cfg thread reply s) := by
  have hrefl : s.links = s.links ∧ Fewer s s := ⟨rfl, Fewer.of_eq rfl rfl⟩
  unfold takeReply
  split
  · exact hrefl
  split
  · exact hrefl
  · rename_i tcb _
    refine Ends.ite (fun _ => hrefl) (fun _ => ?_)
    exact (keeps_cancelIPC tcb).and (fewer_cancelIPC hmcs tcb).weaken

/-- Giving back a scheduling context leaves the endpoint queues and the release
queue alone. -/
theorem frame_maybeReturnSchedContext (ntfn tcb : Ptr) :
    Ends (fun _ => True) (fun s' : Kernel => s'.epQueue = s.epQueue ∧
      s'.tcbInReleaseQueue = s.tcbInReleaseQueue) (maybeReturnSchedContext cfg ntfn tcb s) := by
  refine Ends.ite (fun _ => ?_) (fun _ => ⟨rfl, rfl⟩)
  split
  · trivial
  simp only [ends_ok]
  split
  · unfold rescheduleRequired
    split
    · split <;> exact ⟨rfl, rfl⟩
    · exact ⟨rfl, rfl⟩
    · exact ⟨rfl, rfl⟩
  · exact ⟨rfl, rfl⟩

include hmcs h in
theorem sound_receiveIPC (reply : Option Ptr) (hc : ReceiveClear s thread c isBlocking) :
    Sound (receiveIPC cfg thread c isBlocking reply s) := by
  unfold receiveIPC
  rw [if_pos hmcs]
  refine (ends_takeReply hmcs thread reply).bind fun s1 ⟨hl, hf⟩ => ?_
  have h1 : LinkInv s1.links := by rw [hl]; exact h
  have hc1 := hc.of_fewer hl hf
  cases hb : s1.tcbBoundNotification thread with
  | none => exact sound_receiveMessage hmcs h1 hc1.senders
  | some ntfn =>
    refine Ends.ite (fun _ => sound_completeSignal hmcs h1 thread ntfn) (fun _ => ?_)
    have hret : Ends Allowed (fun s' => LinkInv s'.links ∧
        s'.epQueue = s1.epQueue ∧ s'.tcbInReleaseQueue = s1.tcbInReleaseQueue)
        (if cfg.mcs = true ∧ isBlocking = true then maybeReturnSchedContext cfg ntfn thread s1
          else .ok s1) := by
      refine Ends.ite (fun hi => ?_) (fun _ => ⟨h1, rfl, rfl⟩)
      exact (sound_maybeReturnSchedContext h1 hc1.receiver (hc1.bound hi.2 ntfn hb)).and
        (frame_maybeReturnSchedContext ntfn thread)
    refine hret.bind fun s2 ⟨h2, hq, hr⟩ => ?_
    refine sound_receiveMessage hmcs h2 fun t ht => ?_
    rw [hr]
    exact hc1.senders t (by rw [← hq]; exact ht)

end SeL4Kernel
