import SeL4Kernel.Kernel.LinkFrame

/-!
# Kernel functions keep the links of scheduling contexts sound

One lemma for each function that can get stuck, under what its callers provide: it
does not use a null scheduling context, and the invariant `LinkInv` holds
afterwards. What a caller has to provide is that no scheduling context is taken
from a thread in the release queue, since such a thread would stay there without
one.
-/

namespace SeL4Kernel

/-- Any end but the use of a null scheduling context. -/
def Allowed (e : Stuck) : Prop := e ≠ .nullSchedContext

@[simp] theorem allowed_nullObject : Allowed .nullObject := by simp [Allowed]

@[simp] theorem allowed_noReturn : Allowed .noReturn := by simp [Allowed]

@[simp] theorem allowed_assertion : Allowed .assertion := by simp [Allowed]

/-- The computation leaves the links of `s` alone. -/
abbrev Keeps (s : Kernel) : Except Stuck Kernel → Prop :=
  Ends Allowed (fun s' => s'.links = s.links)

/-- The computation ends with sound links. -/
abbrev Sound : Except Stuck Kernel → Prop := Ends Allowed (fun s' => LinkInv s'.links)

/-- Sound links, and the bindings are those of `s`: at most the release queue has
changed. -/
abbrev SoundFrom (s : Kernel) : Except Stuck Kernel → Prop :=
  Ends Allowed (fun s' => LinkInv s'.links ∧ s'.toBindings = s.toBindings)

variable {cfg : Config} {s : Kernel} {tcb sc ntfn reply : Ptr} (hmcs : cfg.mcs = true)
  (h : LinkInv s.links) (sender thread target : Ptr) (endpoint : Option Ptr) (receiver : Ptr)
  (buffer : Option Nat) {x : Except Stuck Kernel}

theorem Keeps.sound (h : Keeps s x) (hs : LinkInv s.links) : Sound x :=
  h.mono fun s' h' => by rw [h']; exact hs

theorem SoundFrom.sound (h : SoundFrom s x) : Sound x := h.mono fun _ h' => h'.1

variable {s' : Kernel}

theorem toBindings_of_links (h : s'.links = s.links) :
    s'.toBindings = s.toBindings := congrArg Links.toBindings h

theorem inReleaseQueue_of_links (h : s'.links = s.links) :
    s'.tcbInReleaseQueue = s.tcbInReleaseQueue := congrArg (fun l : Links => l.tcbInReleaseQueue) h

/-! ### Waiting for a refill -/

theorem ends_releaseTime (h : s.tcbSchedContext tcb ≠ none) :
    Ends Allowed (fun _ => True) (releaseTime s tcb) := by
  unfold releaseTime
  split
  · rename_i hn
    exact absurd hn h
  · trivial

theorem ends_releaseInsert (ht : s.tcbSchedContext tcb ≠ none) :
    ∀ queue : List Ptr, (∀ t ∈ queue, s.tcbSchedContext t ≠ none) →
      Ends Allowed (fun q => q.Perm (tcb :: queue)) (releaseInsert s tcb queue) := by
  intro queue
  induction queue with
  | nil => intro _; exact List.Perm.refl [tcb]
  | cons after rest ih =>
    intro hq
    have hrest := ih fun t hm => hq t (List.mem_cons_of_mem after hm)
    refine (ends_releaseTime ht).bind fun time _ => ?_
    refine (ends_releaseTime (hq after List.mem_cons_self)).bind fun afterTime _ => ?_
    refine Ends.ite (fun _ => ?_) (fun _ => List.Perm.refl _)
    refine hrest.bind fun q hp => ?_
    exact (List.Perm.cons after hp).trans (List.Perm.swap tcb after rest)

include h in
theorem soundFrom_tcbReleaseEnqueue (ht : s.tcbSchedContext tcb ≠ none)
    (hq : s.tcbInReleaseQueue tcb = false) : SoundFrom s (tcbReleaseEnqueue tcb s) := by
  refine (ends_releaseInsert ht _ h.released).bind fun queue hp => ⟨?_, rfl⟩
  exact h.putRelease_enter hp hq ht

include h in
theorem soundFrom_postpone (hq : ∀ tcb, s.scTcb sc = some tcb → s.tcbInReleaseQueue tcb = false) :
    SoundFrom s (postpone cfg sc s) := by
  unfold postpone
  cases ht : s.scTcb sc with
  | none => exact allowed_nullObject
  | some tcb =>
    have hsc : s.tcbSchedContext tcb = some sc := (h.threads tcb sc).2 ht
    have hl : (tcbSchedDequeue cfg tcb s).links = s.links := rfl
    refine (soundFrom_tcbReleaseEnqueue (s := tcbSchedDequeue cfg tcb s) (by rw [hl]; exact h)
      ?_ (hq tcb ht)).bind fun s' h' => h'
    rw [show (tcbSchedDequeue cfg tcb s).tcbSchedContext tcb = s.tcbSchedContext tcb from rfl, hsc]
    simp

include hmcs in
theorem not_queued_of_isSchedulable (h : isSchedulable cfg s tcb = true) :
    s.tcbInReleaseQueue tcb = false := by
  unfold isSchedulable at h
  rw [if_pos hmcs] at h
  cases hsc : s.tcbSchedContext tcb with
  | none => simp [hsc] at h
  | some sc =>
    simp [hsc] at h
    exact h.2.2

include hmcs h in
theorem soundFrom_schedContextResume {sc : Option Ptr} :
    SoundFrom s (schedContextResume cfg sc s) := by
  unfold schedContextResume
  cases sc with
  | none => exact ⟨h, rfl⟩
  | some sc =>
    dsimp only
    cases ht : s.scTcb sc with
    | none => exact allowed_nullObject
    | some tcb =>
      refine Ends.ite (fun hc => ?_) (fun _ => ⟨h, rfl⟩)
      refine soundFrom_postpone h fun t htt => ?_
      rw [ht] at htt
      cases htt
      exact not_queued_of_isSchedulable hmcs hc.1

/-- The computation leaves the links and the current thread alone. -/
abbrev KeepsThread (s : Kernel) : Except Stuck Kernel → Prop :=
  Ends Allowed (fun s' => s'.links = s.links ∧ s'.ksCurThread = s.ksCurThread)

theorem KeepsThread.keeps (h : KeepsThread s x) : Keeps s x := h.mono fun _ h' => h'.1

theorem keepsThread_putRefills (sc : Ptr) (refills : Option Sporadic.SchedContext) :
    KeepsThread s (putRefills sc refills s) := by
  unfold putRefills
  split
  · exact allowed_noReturn
  · exact ⟨rfl, rfl⟩

theorem keepsThread_refillUnblockCheck (sc : Ptr) :
    KeepsThread s (refillUnblockCheck cfg sc s) :=
  (keepsThread_putRefills sc _).mono fun _ h => h

/-! ### Binding -/

include hmcs h in
theorem sound_schedContextBindTCB (ht : s.tcbSchedContext tcb = none) (hsc : s.scTcb sc = none) :
    Sound (schedContextBindTCB cfg sc tcb s) := by
  have hb : LinkInv ((s.setTcbSchedContext tcb (some sc)).setScTcb sc (some tcb)).links :=
    h.bindTcb ht hsc
  refine (soundFrom_schedContextResume hmcs hb).bind fun s' h' => ?_
  refine Ends.ite (fun _ => ?_) (fun _ => h'.1)
  simpa using h'.1

include h in
theorem inv_schedContextUnbindAllTCBs : LinkInv (schedContextUnbindAllTCBs cfg sc s).links := by
  unfold schedContextUnbindAllTCBs
  cases ht : s.scTcb sc with
  | none => exact h
  | some tcb =>
    rw [links_schedContextUnbindTCB]
    exact h.unbindTcb ((h.threads tcb sc).2 ht)

/-! ### Lookups and messages -/

theorem ends_lookupSlot (capptr : Word) :
    Ends Allowed (fun _ => True) (lookupSlot s thread capptr) := by
  unfold lookupSlot
  split
  · trivial
  · trivial
  · exact allowed_noReturn

theorem ends_lookupTargetSlot (root : Cap) (capptr : Word) (depth : Nat) :
    Ends Allowed (fun _ => True) (lookupTargetSlot s root capptr depth) := by
  unfold lookupTargetSlot
  split
  · split
    · trivial
    · split
      · trivial
      · trivial
      · exact allowed_noReturn
  · trivial

theorem ends_lookupExtraCapsLoop (buffer : Nat) : ∀ n i : Nat,
    Ends Allowed (fun _ => True) (lookupExtraCapsLoop s thread buffer n i) := by
  intro n
  induction n with
  | zero => intro i; trivial
  | succ n ih =>
    intro i
    refine (ends_lookupSlot thread _).bind fun r _ => ?_
    cases r with
    | error luf => trivial
    | ok slot =>
      refine (ih (i + 1)).bind fun r _ => ?_
      cases r <;> trivial

theorem ends_lookupExtraCaps (info : MessageInfo) :
    Ends Allowed (fun _ => True) (lookupExtraCaps s thread buffer info) := by
  unfold lookupExtraCaps
  split
  · trivial
  · exact ends_lookupExtraCapsLoop thread _ _ 0

theorem ends_getReceiveSlots (buffer : Nat) :
    Ends Allowed (fun _ => True) (getReceiveSlots s thread buffer) := by
  refine (ends_lookupSlot thread _).bind fun r _ => ?_
  cases r with
  | error luf => trivial
  | ok root =>
    refine (ends_lookupTargetSlot _ _ _).bind fun r _ => ?_
    cases r <;> trivial

theorem ends_transferCaps (info : MessageInfo) (slots : List Slot) :
    Ends Allowed (fun r => r.2.links = s.links)
      (transferCaps cfg info slots endpoint receiver buffer s) := by
  unfold transferCaps
  split
  · rfl
  · rfl
  · refine (ends_getReceiveSlots receiver _).bind fun dest _ => ?_
    exact links_transferCapsLoop cfg endpoint _ _ 0 dest 0 s

theorem ends_grantedCaps (canGrant : Bool) (tag : MessageInfo) :
    Ends Allowed (fun _ => True) (grantedCaps s sender buffer canGrant tag) := by
  refine Ends.ite (fun _ => ?_) (fun _ => trivial)
  refine (ends_lookupExtraCaps sender buffer tag).bind fun r _ => ?_
  cases r <;> trivial

theorem keeps_doNormalTransfer (sendBuffer : Option Nat) (badge : Word) (canGrant : Bool)
    (receiveBuffer : Option Nat) :
    Keeps s (doNormalTransfer cfg sender sendBuffer endpoint badge canGrant receiver receiveBuffer
      s) := by
  refine (ends_grantedCaps _ _ _ _).bind fun slots _ => ?_
  dsimp only
  refine (ends_transferCaps endpoint receiver receiveBuffer _ slots).bind fun r hr => ?_
  simp only [ends_ok, links_deliver]
  rw [hr, links_copyMRs]

theorem keeps_doIPCTransfer (badge : Word) (grant : Bool) :
    Keeps s (doIPCTransfer cfg sender endpoint badge grant receiver s) := by
  refine Ends.ite (fun _ => keeps_doNormalTransfer _ _ _ _ _ _ _) (fun _ => ?_)
  exact links_doFaultTransfer cfg s badge sender receiver _

/-! ### Cancelling -/

theorem keeps_replyRemoveTcb (tcb : Ptr) : Keeps s (replyRemoveTcb cfg tcb s) := by
  unfold replyRemoveTcb
  split
  · exact allowed_nullObject
  · simp only [ends_ok, links_replyUnlink, links_replyDetach]
    split <;> rfl

theorem keeps_cancelIPC (tcb : Ptr) : Keeps s (cancelIPC cfg tcb s) := by
  have hfault : (if cfg.mcs then s.setTcbFault tcb .null else s).links = s.links := by split <;> rfl
  unfold cancelIPC
  dsimp only
  generalize (if cfg.mcs then s.setTcbFault tcb .null else s) = s1 at hfault ⊢
  unfold Keeps
  rw [← hfault]
  split
  · split <;> simp
  · split <;> simp
  · exact links_setThreadState cfg _ tcb .inactive
  · refine Ends.ite (fun _ => keeps_replyRemoveTcb tcb) (fun _ => ?_)
    split <;> rfl
  all_goals rfl

theorem ends_suspend :
    Ends Allowed (fun s' => s'.links = s.links ∨ s'.links = s.links.releaseRemove target)
      (suspend cfg target s) := by
  refine (keeps_cancelIPC target).bind fun s1 h1 => ?_
  dsimp only
  have hpc : (if s1.tsType target = .running then updateRestartPC target s1 else s1).links =
      s.links := by
    split <;> simp [h1]
  split
  · right
    rw [links_schedContextCancelYieldTo, links_tcbReleaseRemove, links_tcbSchedDequeue,
      links_setThreadState, hpc]
  · left
    rw [links_tcbSchedDequeue, links_setThreadState, hpc]

include h in
theorem sound_suspend : Sound (suspend cfg target s) := by
  refine (ends_suspend target).mono fun s' h' => ?_
  rcases h' with h' | h'
  · rw [h']
    exact h
  · rw [h']
    exact h.releaseRemove target

include hmcs h in
theorem sound_restart : Sound (restart cfg target s) := by
  refine Ends.ite (fun _ => ?_) (fun _ => h)
  refine (keeps_cancelIPC target).bind fun s1 h1 => ?_
  rw [if_pos hmcs]
  have h2 : LinkInv (setThreadState cfg target .restart s1).links := by
    rw [links_setThreadState, h1]
    exact h
  refine (soundFrom_schedContextResume hmcs h2).bind fun s3 h3 => ?_
  simp only [ends_ok]
  split
  · rw [links_possibleSwitchTo]
    exact h3.1
  · exact h3.1

/-! ### Signals -/

include h

include hmcs in
theorem sound_maybeDonateSchedContext (tcb ntfn : Ptr) :
    Sound (maybeDonateSchedContext cfg tcb ntfn s) := by
  refine Ends.ite (fun ht => ?_) (fun _ => h)
  cases hn : s.ntfnSchedContext ntfn with
  | none => exact h
  | some sc =>
    refine Ends.ite (fun hsc => ?_) (fun _ => h)
    have hd : LinkInv (schedContextDonate cfg sc tcb s).links := by
      rw [links_schedContextDonate]
      refine h.donate ht fun donor hdonor => ?_
      have : s.scTcb sc = some donor := hdonor
      rw [hsc] at this
      cases this
    have hub : Sound
        (if sc = (schedContextDonate cfg sc tcb s).ksCurSC then
          (.ok (schedContextDonate cfg sc tcb s) : Except Stuck Kernel)
        else refillUnblockCheck cfg sc (schedContextDonate cfg sc tcb s)) :=
      Ends.ite (fun _ => hd) (fun _ => (keepsThread_refillUnblockCheck sc).keeps.sound hd)
    exact hub.bind fun s' h' => (soundFrom_schedContextResume hmcs h').sound

/-- A thread with a scheduling context, or a notification with one, is no null
pointer at `maybeReturnSchedContext`. -/
theorem sound_maybeReturnSchedContext (hq : s.tcbInReleaseQueue tcb = false)
    (hn : s.ntfnSchedContext ntfn ≠ none ∨ s.tcbSchedContext tcb ≠ none) :
    Sound (maybeReturnSchedContext cfg ntfn tcb s) := by
  refine Ends.ite (fun heq => ?_) (fun _ => h)
  cases hsc : s.ntfnSchedContext ntfn with
  | none =>
    rw [hsc] at heq hn
    rcases hn with hn | hn
    · exact absurd rfl hn
    · exact absurd heq.symm hn
  | some sc =>
    have ht : s.tcbSchedContext tcb = some sc := by rw [← heq, hsc]
    have hf : LinkInv ((s.setTcbSchedContext tcb none).setScTcb sc none).links := h.freeTcb ht hq
    simp only [ends_ok]
    split
    · rw [links_rescheduleRequired]
      exact hf
    · exact hf

include hmcs in
theorem sound_wakeBySignal (tcb ntfn : Ptr) (badge : Word) :
    Sound (wakeBySignal cfg tcb ntfn badge s) := by
  unfold wakeBySignal
  rw [if_pos hmcs]
  have h1 : LinkInv
      ((setThreadState cfg tcb .running s).setRegister tcb badgeRegister badge).links := by
    simpa using h
  refine (sound_maybeDonateSchedContext hmcs h1 tcb ntfn).bind fun s2 h2 => ?_
  simp only [ends_ok]
  split
  · rw [links_possibleSwitchTo]
    exact h2
  · exact h2

include hmcs in
theorem sound_sendSignal (ntfn : Ptr) (badge : Word) : Sound (sendSignal cfg ntfn badge s) := by
  unfold sendSignal
  split
  · split
    · exact h
    · refine Ends.ite (fun _ => ?_) (fun _ => h)
      refine (keeps_cancelIPC _).bind fun s1 h1 => ?_
      exact sound_wakeBySignal hmcs (by rw [h1]; exact h) _ ntfn badge
  · split
    · exact allowed_nullObject
    · exact sound_wakeBySignal hmcs (by rw [links_ntfnDequeue]; exact h) _ ntfn badge
  · exact h

include hmcs in
theorem sound_completeSignal (ntfn : Ptr) : Sound (completeSignal cfg ntfn thread s) := by
  unfold completeSignal
  rw [if_pos hmcs]
  exact sound_maybeDonateSchedContext hmcs (by exact h) thread ntfn

include hmcs in
theorem sound_receiveSignal {thread : Ptr} {isBlocking : Bool}
    (hc : isBlocking = true → s.ntfnState ntfn ≠ .active →
      s.tcbInReleaseQueue thread = false ∧
        (s.ntfnSchedContext ntfn ≠ none ∨ s.tcbSchedContext thread ≠ none)) :
    Sound (receiveSignal cfg thread ntfn isBlocking s) := by
  have hblock : s.ntfnState ntfn ≠ .active → isBlocking = true →
      Sound (maybeReturnSchedContext cfg ntfn thread (s.setTcbState thread
        { s.tcbState thread with tsType := .blockedOnNotification, blockingObject := ntfn })) := by
    intro hn hb
    obtain ⟨hq, hsc⟩ := hc hb hn
    exact sound_maybeReturnSchedContext (by exact h) hq hsc
  unfold receiveSignal
  split
  · rename_i hn
    refine Ends.ite (fun hb => ?_) (fun _ => h)
    dsimp only
    rw [if_pos hmcs]
    refine (hblock (by simp [hn]) hb).bind fun s1 h1 => ?_
    simpa using h1
  · rename_i hn
    refine Ends.ite (fun hb => ?_) (fun _ => h)
    dsimp only
    rw [if_pos hmcs]
    refine (hblock (by simp [hn]) hb).bind fun s1 h1 => ?_
    simpa using h1
  · exact sound_completeSignal hmcs h thread ntfn

/-! ### The call stack -/

/-- `schedContextDonate` from a state whose links are those of `s`. -/
theorem inv_schedContextDonate {recipient : Ptr} (hl : s'.links = s.links)
    (hr : s.tcbSchedContext recipient = none)
    (hq : ∀ donor, s.scTcb sc = some donor → s.tcbInReleaseQueue donor = false) :
    LinkInv (schedContextDonate cfg sc recipient s').links := by
  rw [links_schedContextDonate, hl]
  exact h.donate hr hq

theorem inv_replyPush {caller callee : Ptr} {canDonate : Bool}
    (hq : canDonate = true → s.tcbInReleaseQueue caller = false) :
    LinkInv (replyPush cfg caller callee reply canDonate s).links := by
  rw [links_replyPush]
  cases hsc : s.tcbSchedContext caller with
  | none => exact h
  | some sc =>
    dsimp only
    split
    · rename_i hc
      refine h.donate hc.1 fun donor hd => ?_
      rw [h.threads.eq_of_eq ((h.threads donor sc).2 hd) hsc]
      exact hq hc.2
    · exact h

/-- What has to hold when the reply object of `tcb` is taken off a call stack: the
thread whose scheduling context goes back does not wait for a refill. -/
def PopClear (s : Kernel) (reply tcb : Ptr) : Prop :=
  ∀ sc donor, s.replyNext reply = .schedContext sc → s.tcbSchedContext tcb = none →
    s.scTcb sc = some donor → s.tcbInReleaseQueue donor = false

theorem inv_replyRemove (hq : PopClear s reply tcb) :
    LinkInv (replyRemove cfg reply tcb s).links := by
  rw [links_replyRemove]
  cases hn : s.replyNext reply with
  | schedContext sc =>
    dsimp only
    split
    · rename_i ht
      exact h.donate ht fun donor hd => hq sc donor hn ht hd
    · exact h
  | reply next => exact h
  | null => exact h

end SeL4Kernel
