import Mathlib.Data.List.Sort
import SeL4Kernel.Kernel.State

/-!
# Queues of threads

The queue functions of `src/object/tcb.c` and `include/kernel/thread.h`: the ready
queues with the two-level bitmap that finds the highest priority in use, the
queues of endpoints and notifications, and the release queue of the MCS kernel.

Each function changes its own part of the state only, which the definitions show
by updating that one group of fields.
-/

namespace SeL4Kernel

open Function

/-! ### The bitmap of priorities -/

/-- `clzl`. -/
def clzl (w : Word) : Nat := w.clz.toNat

/-- `wordRadix`. -/
def wordRadix : Nat := 6

def prioToL1index (prio : Nat) : Nat := prio / 2 ^ wordRadix

def l1indexToPrio (l1index : Nat) : Nat := l1index * 2 ^ wordRadix

/-- `L2_BITMAP_SIZE`. -/
def l2BitmapSize (cfg : Config) : Nat := (cfg.numPriorities + wordBits - 1) / wordBits

def invertL1index (cfg : Config) (l1index : Nat) : Nat := l2BitmapSize cfg - 1 - l1index

/-- `BIT(n)`. -/
def bit (n : Nat) : Word := 1#64 <<< n

/-- `ready_queues_index`. -/
def readyQueuesIndex (cfg : Config) (dom prio : Nat) : Nat :=
  if 1 < cfg.numDomains then dom * cfg.numPriorities + prio else prio

namespace ReadyQueues

def addToBitmap (cfg : Config) (dom prio : Nat) (q : ReadyQueues) : ReadyQueues :=
  let l1index := prioToL1index prio
  let l1indexInverted := invertL1index cfg l1index
  { q with
    ksReadyQueuesL1Bitmap := update q.ksReadyQueuesL1Bitmap dom
      (q.ksReadyQueuesL1Bitmap dom ||| bit l1index)
    ksReadyQueuesL2Bitmap := update q.ksReadyQueuesL2Bitmap dom
      (update (q.ksReadyQueuesL2Bitmap dom) l1indexInverted
        (q.ksReadyQueuesL2Bitmap dom l1indexInverted ||| bit (prio % 2 ^ wordRadix))) }

def removeFromBitmap (cfg : Config) (dom prio : Nat) (q : ReadyQueues) : ReadyQueues :=
  let l1index := prioToL1index prio
  let l1indexInverted := invertL1index cfg l1index
  let l2 := q.ksReadyQueuesL2Bitmap dom l1indexInverted &&& ~~~bit (prio % 2 ^ wordRadix)
  let q := { q with
    ksReadyQueuesL2Bitmap := update q.ksReadyQueuesL2Bitmap dom
      (update (q.ksReadyQueuesL2Bitmap dom) l1indexInverted l2) }
  if l2 = 0 then
    { q with
      ksReadyQueuesL1Bitmap := update q.ksReadyQueuesL1Bitmap dom
        (q.ksReadyQueuesL1Bitmap dom &&& ~~~bit l1index) }
  else q

/-- The highest priority with a thread in it; meant for a domain whose bitmap is
not empty. -/
def getHighestPrio (cfg : Config) (dom : Nat) (q : ReadyQueues) : Nat :=
  let l1index := wordBits - 1 - clzl (q.ksReadyQueuesL1Bitmap dom)
  let l1indexInverted := invertL1index cfg l1index
  let l2index := wordBits - 1 - clzl (q.ksReadyQueuesL2Bitmap dom l1indexInverted)
  l1indexToPrio l1index ||| l2index

def isHighestPrio (cfg : Config) (dom prio : Nat) (q : ReadyQueues) : Bool :=
  q.ksReadyQueuesL1Bitmap dom == 0 || decide (q.getHighestPrio cfg dom ≤ prio)

/-! ### The ready queues -/

/-- Write queue `(dom, prio)` back with `tcb` marked as queued or not, and keep the
bitmap in step when the queue became non-empty or empty. -/
def putQueue (cfg : Config) (tcb dom prio : Nat) (queue : List Ptr) (queued : Bool)
    (q : ReadyQueues) : ReadyQueues :=
  { q with
    ksReadyQueues := update q.ksReadyQueues (readyQueuesIndex cfg dom prio) queue
    tcbQueued := update q.tcbQueued tcb queued }

def schedEnqueue (cfg : Config) (tcb dom prio : Nat) (q : ReadyQueues) : ReadyQueues :=
  if q.tcbQueued tcb then q
  else
    let queue := q.ksReadyQueues (readyQueuesIndex cfg dom prio)
    let q := if queue = [] then q.addToBitmap cfg dom prio else q
    q.putQueue cfg tcb dom prio (tcb :: queue) true

def schedAppend (cfg : Config) (tcb dom prio : Nat) (q : ReadyQueues) : ReadyQueues :=
  if q.tcbQueued tcb then q
  else
    let queue := q.ksReadyQueues (readyQueuesIndex cfg dom prio)
    let q := if queue = [] then q.addToBitmap cfg dom prio else q
    q.putQueue cfg tcb dom prio (queue ++ [tcb]) true

def schedDequeue (cfg : Config) (tcb dom prio : Nat) (q : ReadyQueues) : ReadyQueues :=
  if q.tcbQueued tcb then
    let queue := (q.ksReadyQueues (readyQueuesIndex cfg dom prio)).erase tcb
    let q := if queue = [] then q.removeFromBitmap cfg dom prio else q
    q.putQueue cfg tcb dom prio queue false
  else q

end ReadyQueues

/-- Add a thread to the head of its ready queue. -/
def tcbSchedEnqueue (cfg : Config) (tcb : Ptr) (s : Kernel) : Kernel :=
  { s with toReadyQueues :=
      s.toReadyQueues.schedEnqueue cfg tcb (s.tcbDomain tcb) (s.tcbPriority tcb) }

/-- Add a thread to the end of its ready queue. -/
def tcbSchedAppend (cfg : Config) (tcb : Ptr) (s : Kernel) : Kernel :=
  { s with toReadyQueues :=
      s.toReadyQueues.schedAppend cfg tcb (s.tcbDomain tcb) (s.tcbPriority tcb) }

/-- Remove a thread from its ready queue. -/
def tcbSchedDequeue (cfg : Config) (tcb : Ptr) (s : Kernel) : Kernel :=
  { s with toReadyQueues :=
      s.toReadyQueues.schedDequeue cfg tcb (s.tcbDomain tcb) (s.tcbPriority tcb) }

/-! ### Queues of endpoints and notifications -/

/-- `tcbEPAppend`. The MCS kernel walks from the end over the threads of lower
priority and inserts there. -/
def tcbEPAppend (cfg : Config) (s : Kernel) (tcb : Ptr) (queue : List Ptr) : List Ptr :=
  if cfg.mcs then
    let lower := fun other => decide (s.tcbPriority other < s.tcbPriority tcb)
    (queue.reverse.dropWhile lower).reverse ++ tcb :: (queue.reverse.takeWhile lower).reverse
  else queue ++ [tcb]

/-- `tcbEPDequeue`. -/
def tcbEPDequeue (tcb : Ptr) (queue : List Ptr) : List Ptr := queue.erase tcb

/-! ### The release queue -/

/-- `refill_head(tcb->tcbSchedContext)->rTime`. -/
def releaseTime (s : Kernel) (tcb : Ptr) : Except Stuck Nat :=
  match s.tcbSchedContext tcb with
  | none => .error .nullSchedContext
  | some sc => .ok (Sporadic.refillHead (s.schedContext sc)).rTime

/-- The place of `tcb` in the release queue, which is ordered by the time of the
next refill. Times are read only while there is a thread to compare with. -/
def releaseInsert (s : Kernel) (tcb : Ptr) : List Ptr → Except Stuck (List Ptr)
  | [] => .ok [tcb]
  | after :: rest => do
    let time ← releaseTime s tcb
    let afterTime ← releaseTime s after
    if afterTime ≤ time then
      let rest ← releaseInsert s tcb rest
      .ok (after :: rest)
    else .ok (tcb :: after :: rest)

def tcbReleaseEnqueue (tcb : Ptr) (s : Kernel) : Except Stuck Kernel := do
  let queue ← releaseInsert s tcb s.ksReleaseQueue
  .ok { s with
    ksReleaseQueue := queue
    tcbInReleaseQueue := update s.tcbInReleaseQueue tcb true
    -- a new head needs a new deadline
    ksReprogram := s.ksReprogram || queue.head? == some tcb }

def tcbReleaseRemove (tcb : Ptr) (s : Kernel) : Kernel :=
  if s.tcbInReleaseQueue tcb then
    { s with
      ksReleaseQueue := s.ksReleaseQueue.filter (· ≠ tcb)
      tcbInReleaseQueue := update s.tcbInReleaseQueue tcb false
      ksReprogram := s.ksReprogram || s.ksReleaseQueue.head? == some tcb }
  else s

/-- `tcbReleaseDequeue`, given the queue as its head and the rest. -/
def tcbReleaseDequeue (detachedHead : Ptr) (rest : List Ptr) (s : Kernel) : Kernel :=
  { s with
    ksReleaseQueue := rest
    tcbInReleaseQueue := update s.tcbInReleaseQueue detachedHead false
    ksReprogram := true }

/-! ### Waiting in the MCS kernel -/

/-- The queue after threads came (`inl`) and left (`inr`), the last of them first. -/
def waiting (cfg : Config) (s : Kernel) (ops : List (Ptr ⊕ Ptr)) : List Ptr :=
  ops.foldr (Sum.elim (tcbEPAppend { cfg with mcs := true } s) tcbEPDequeue) []

variable (cfg : Config) (s : Kernel) (ops : List (Ptr ⊕ Ptr)) (tcb : Ptr)

theorem waiting_sorted : (waiting cfg s ops).Pairwise (s.tcbPriority · ≥ s.tcbPriority ·) := by
  induction ops with
  | nil => exact .nil
  | cons op ops ih =>
    cases op with
    | inl tcb =>
      -- the walk from the end is an insertion into the reversed queue
      have hinsert : waiting cfg s (.inl tcb :: ops) = ((waiting cfg s ops).reverse.orderedInsert
          (s.tcbPriority · ≤ s.tcbPriority ·) tcb).reverse := by
        rw [List.orderedInsert_eq_take_drop]
        simp [waiting, tcbEPAppend]
      rw [hinsert, List.pairwise_reverse]
      exact (List.pairwise_reverse.2 ih).orderedInsert _ _
    | inr tcb => exact ih.sublist List.erase_sublist

/-- **Places in a queue.** A thread that comes goes behind all threads of its own or a higher
priority and before all others, which keep their order. -/
theorem waiting_in_order :
    ∃ front back, waiting cfg s ops = front ++ back ∧
      waiting cfg s (.inl tcb :: ops) = front ++ tcb :: back ∧
      (∀ t ∈ front, s.tcbPriority tcb ≤ s.tcbPriority t) ∧
      ∀ t ∈ back, s.tcbPriority t < s.tcbPriority tcb := by
  have hsorted := waiting_sorted cfg s (.inl tcb :: ops)
  refine ⟨_, _, ?_, rfl, fun t ht => ?_, fun t ht => ?_⟩
  · rw [← List.reverse_append, List.takeWhile_append_dropWhile, List.reverse_reverse]
    rfl
  · exact (List.pairwise_append.1 hsorted).2.2 t ht tcb List.mem_cons_self
  · simpa using List.all_eq_true.1 List.all_takeWhile t (List.mem_reverse.1 ht)

end SeL4Kernel
