import SeL4Kernel.Lib.Outcome
import SeL4Kernel.Lib.Paired
import SeL4Kernel.Fastpath.Fastpath

/-!
# The links of scheduling contexts

The part of the kernel state that says which thread and which notification a
scheduling context belongs to, and which threads wait for a refill: `Links`. Most
kernel functions leave it alone; the others act on it by one of a few operations,
each of which keeps the invariant `LinkInv`:

* threads and scheduling contexts are paired, and so are notifications and
  scheduling contexts;
* every thread in the release queue has a scheduling context, is there once, and is
  marked as being there.
-/

namespace SeL4Kernel

open Function

/-- Bindings and release queue. -/
structure Links extends Bindings, ReleaseQueue

def Kernel.links (s : Kernel) : Links :=
  { toBindings := s.toBindings, toReleaseQueue := s.toReleaseQueue }

/-- The invariant of the links. -/
structure LinkInv (l : Links) : Prop where
  threads : Paired l.tcbSchedContext l.scTcb
  notifications : Paired l.ntfnSchedContext l.scNotification
  released : ∀ t ∈ l.ksReleaseQueue, l.tcbSchedContext t ≠ none
  flagged : ∀ t, l.tcbInReleaseQueue t = true ↔ t ∈ l.ksReleaseQueue
  nodup : l.ksReleaseQueue.Nodup

/-! ### Operations on links -/

namespace Links

variable (l : Links)

/-- Thread and scheduling context point at each other. -/
def bindTcb (sc tcb : Ptr) : Links :=
  { l with
    tcbSchedContext := update l.tcbSchedContext tcb (some sc)
    scTcb := update l.scTcb sc (some tcb) }

/-- Neither points at the other. -/
def freeTcb (sc tcb : Ptr) : Links :=
  { l with
    tcbSchedContext := update l.tcbSchedContext tcb none
    scTcb := update l.scTcb sc none }

/-- The scheduling context goes to `recipient`, from the thread that has it. -/
def donate (sc recipient : Ptr) : Links :=
  let l :=
    match l.scTcb sc with
    | none => l
    | some donor =>
      { l with tcbSchedContext := update l.tcbSchedContext donor none }
  l.bindTcb sc recipient

def bindNtfn (sc ntfn : Ptr) : Links :=
  { l with
    ntfnSchedContext := update l.ntfnSchedContext ntfn (some sc)
    scNotification := update l.scNotification sc (some ntfn) }

def unbindNtfn (sc : Option Ptr) : Links :=
  match sc with
  | none => l
  | some sc =>
    match l.scNotification sc with
    | none => l
    | some ntfn =>
      { l with
        ntfnSchedContext := update l.ntfnSchedContext ntfn none
        scNotification := update l.scNotification sc none }

/-- The thread leaves the release queue. -/
def releaseRemove (tcb : Ptr) : Links :=
  if l.tcbInReleaseQueue tcb then
    { l with
      ksReleaseQueue := l.ksReleaseQueue.filter (· ≠ tcb)
      tcbInReleaseQueue := update l.tcbInReleaseQueue tcb false }
  else l

/-- The thread is set free and leaves the release queue. -/
def unbindTcb (sc tcb : Ptr) : Links := (l.releaseRemove tcb).freeTcb sc tcb

/-- The release queue is `queue` from now on, with `tcb` in it or not. -/
def putRelease (queue : List Ptr) (tcb : Ptr) (inQueue : Bool) : Links :=
  { l with
    ksReleaseQueue := queue
    tcbInReleaseQueue := update l.tcbInReleaseQueue tcb inQueue }

end Links

/-! ### The operations keep the invariant -/

namespace LinkInv

variable {l : Links} {sc tcb ntfn : Ptr} (h : LinkInv l)

include h

theorem not_queued_of_free (ht : l.tcbSchedContext tcb = none) :
    tcb ∉ l.ksReleaseQueue := fun hm => h.released tcb hm ht

theorem flag_of_free (ht : l.tcbSchedContext tcb = none) : l.tcbInReleaseQueue tcb = false := by
  cases hf : l.tcbInReleaseQueue tcb with
  | false => rfl
  | true => exact absurd ((h.flagged tcb).1 hf) (h.not_queued_of_free ht)

theorem not_mem_of_flag (hf : l.tcbInReleaseQueue tcb = false) : tcb ∉ l.ksReleaseQueue := by
  intro hm
  rw [(h.flagged tcb).2 hm] at hf
  cases hf

theorem bindTcb (ht : l.tcbSchedContext tcb = none) (hsc : l.scTcb sc = none) :
    LinkInv (l.bindTcb sc tcb) where
  threads := h.threads.bind ht hsc
  notifications := h.notifications
  released := by
    intro t hm
    by_cases htt : t = tcb
    · subst htt
      simp [Links.bindTcb]
    · simpa [Links.bindTcb, htt] using h.released t hm
  flagged := h.flagged
  nodup := h.nodup

theorem freeTcb (ht : l.tcbSchedContext tcb = some sc) (hq : l.tcbInReleaseQueue tcb = false) :
    LinkInv (l.freeTcb sc tcb) where
  threads := h.threads.unbind ht
  notifications := h.notifications
  released := by
    intro t hm
    have htt : t ≠ tcb := by
      rintro rfl
      exact h.not_mem_of_flag hq hm
    simpa [Links.freeTcb, htt] using h.released t hm
  flagged := h.flagged
  nodup := h.nodup

/-- A scheduling context may be taken from a thread that is not waiting for a
refill, and given to one that has none. -/
theorem donate (ht : l.tcbSchedContext tcb = none)
    (hq : ∀ donor, l.scTcb sc = some donor → l.tcbInReleaseQueue donor = false) :
    LinkInv (l.donate sc tcb) := by
  cases hd : l.scTcb sc with
  | none =>
    have heq : l.donate sc tcb = l.bindTcb sc tcb := by simp [Links.donate, hd]
    rw [heq]
    exact h.bindTcb ht hd
  | some donor =>
    have hds : l.tcbSchedContext donor = some sc := (h.threads donor sc).2 hd
    have hne : tcb ≠ donor := by
      rintro rfl
      rw [hds] at ht
      cases ht
    have heq : l.donate sc tcb = (l.freeTcb sc donor).bindTcb sc tcb := by
      simp [Links.donate, Links.freeTcb, Links.bindTcb, hd]
    rw [heq]
    refine (h.freeTcb hds (hq donor hd)).bindTcb ?_ ?_
    · simpa [Links.freeTcb, hne] using ht
    · simp [Links.freeTcb]

theorem bindNtfn (hn : l.ntfnSchedContext ntfn = none) (hsc : l.scNotification sc = none) :
    LinkInv (l.bindNtfn sc ntfn) where
  threads := h.threads
  notifications := h.notifications.bind hn hsc
  released := h.released
  flagged := h.flagged
  nodup := h.nodup

theorem unbindNtfn (sc : Option Ptr) : LinkInv (l.unbindNtfn sc) := by
  cases sc with
  | none => exact h
  | some sc =>
    cases hn : l.scNotification sc with
    | none =>
      simp only [Links.unbindNtfn, hn]
      exact h
    | some ntfn =>
      simp only [Links.unbindNtfn, hn]
      exact
        { threads := h.threads
          notifications := h.notifications.unbind ((h.notifications ntfn sc).2 hn)
          released := h.released
          flagged := h.flagged
          nodup := h.nodup }

theorem releaseRemove (tcb : Ptr) : LinkInv (l.releaseRemove tcb) := by
  unfold Links.releaseRemove
  split
  · refine ⟨h.threads, h.notifications, ?_, ?_, h.nodup.filter _⟩
    · intro t hm
      exact h.released t (List.mem_filter.1 hm).1
    · intro t
      by_cases ht : t = tcb
      · subst ht
        simp
      · simp [ht, h.flagged t]
  · exact h

omit h

theorem releaseRemove_flag (l : Links) (tcb : Ptr) :
    (l.releaseRemove tcb).tcbInReleaseQueue tcb = false := by
  unfold Links.releaseRemove
  split
  · simp
  · rename_i hf
    simpa using hf

include h

theorem unbindTcb (ht : l.tcbSchedContext tcb = some sc) : LinkInv (l.unbindTcb sc tcb) := by
  refine (h.releaseRemove tcb).freeTcb ?_ (releaseRemove_flag l tcb)
  unfold Links.releaseRemove
  split <;> exact ht

/-- A thread with a scheduling context enters the release queue. -/
theorem putRelease_enter {queue : List Ptr} (hp : queue.Perm (tcb :: l.ksReleaseQueue))
    (hq : l.tcbInReleaseQueue tcb = false) (ht : l.tcbSchedContext tcb ≠ none) :
    LinkInv (l.putRelease queue tcb true) where
  threads := h.threads
  notifications := h.notifications
  released := by
    intro t hm
    rcases List.mem_cons.1 (hp.mem_iff.1 hm) with rfl | hm
    · exact ht
    · exact h.released t hm
  flagged := by
    intro t
    have hmem : t ∈ queue ↔ t = tcb ∨ t ∈ l.ksReleaseQueue := by rw [hp.mem_iff, List.mem_cons]
    by_cases htt : t = tcb
    · subst htt
      simp [Links.putRelease, hmem]
    · simp [Links.putRelease, hmem, htt, h.flagged t]
  nodup := hp.nodup_iff.2 (List.nodup_cons.2 ⟨h.not_mem_of_flag hq, h.nodup⟩)

/-- The head of the release queue leaves it. -/
theorem putRelease_leave {rest : List Ptr} (hq : l.ksReleaseQueue = tcb :: rest) :
    LinkInv (l.putRelease rest tcb false) where
  threads := h.threads
  notifications := h.notifications
  released := by
    intro t hm
    exact h.released t (by rw [hq]; exact List.mem_cons_of_mem tcb hm)
  flagged := by
    have hnd := h.nodup
    rw [hq] at hnd
    intro t
    by_cases ht : t = tcb
    · subst ht
      simp [Links.putRelease, (List.nodup_cons.1 hnd).1]
    · have := h.flagged t
      rw [hq] at this
      simpa [Links.putRelease, ht] using this
  nodup := by
    have hnd := h.nodup
    rw [hq] at hnd
    exact (List.nodup_cons.1 hnd).2

end LinkInv

end SeL4Kernel
