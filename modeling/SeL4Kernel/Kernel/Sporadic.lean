import SeL4Kernel.Lib.Ring
import SeL4Kernel.Lib.Loop

/-!
# Sporadic servers

`src/kernel/sporadic.c` and `include/kernel/sporadic.h`: a scheduling context
carries a circular buffer of refills, each an amount of budget and the time from
which it may be used. The functions below are the ones of the source, on the
buffer itself; `ksCurTime` is passed as `now`.

Ticks are 64-bit words: every sum and difference the code forms is taken modulo
`2 ^ 64` (`tickAdd`, `tickSub`). Assertions are compiled out of a release
kernel and are not part of the functions. The two loops whose length depends
on data are `whileLoop`s, so a function that would not return is `none`.
-/

namespace SeL4Kernel.Sporadic

/-- `ticks_t` addition. -/
def tickAdd (a b : Nat) : Nat := (a + b) % 2 ^ 64

/-- `ticks_t` subtraction. -/
def tickSub (a b : Nat) : Nat := (a + (2 ^ 64 - b)) % 2 ^ 64

/-- The timer constants of a platform: `getKernelWcetTicks()` and
`CONFIG_KERNEL_WCET_SCALE`, neither of which is zero on any of them. -/
structure TimerConfig where
  kernelWcetTicks : Nat
  kernelWcetScale : Nat
  wcet_pos : 0 < kernelWcetTicks
  scale_pos : 0 < kernelWcetScale

/-- `MIN_BUDGET`: what a thread needs to enter and leave the kernel. -/
def TimerConfig.minBudget (cfg : TimerConfig) : Nat :=
  2 * cfg.kernelWcetTicks * cfg.kernelWcetScale

/-- `MIN_REFILLS`. -/
def minRefills : Nat := 2

/-- `refill_t`. -/
structure Refill where
  rTime : Nat
  rAmount : Nat
  deriving DecidableEq, Repr

/-- The part of `sched_context_t` that the refill functions use, with the
buffer of refills that follows the object in memory. -/
structure SchedContext where
  scPeriod : Nat
  scRefillMax : Nat
  scRefillHead : Nat
  scRefillTail : Nat
  refills : Nat → Refill

variable (cfg : TimerConfig) (now : Nat)

/-! ### Access to the buffer -/

def refillIndex (sc : SchedContext) (index : Nat) : Refill := sc.refills index

def refillHead (sc : SchedContext) : Refill := refillIndex sc sc.scRefillHead

def refillTail (sc : SchedContext) : Refill := refillIndex sc sc.scRefillTail

/-- `*refill_index(sc, index) = refill`. -/
def setRefillIndex (sc : SchedContext) (index : Nat) (refill : Refill) : SchedContext :=
  { sc with refills := Function.update sc.refills index refill }

def setRefillHead (sc : SchedContext) (refill : Refill) : SchedContext :=
  setRefillIndex sc sc.scRefillHead refill

def setRefillTail (sc : SchedContext) (refill : Refill) : SchedContext :=
  setRefillIndex sc sc.scRefillTail refill

def refillNext (sc : SchedContext) (index : Nat) : Nat :=
  if index = sc.scRefillMax - 1 then 0 else index + 1

def refillSize (sc : SchedContext) : Nat :=
  if sc.scRefillHead ≤ sc.scRefillTail then sc.scRefillTail - sc.scRefillHead + 1
  else sc.scRefillTail + 1 + (sc.scRefillMax - sc.scRefillHead)

def refillFull (sc : SchedContext) : Bool := refillSize sc = sc.scRefillMax

def refillSingle (sc : SchedContext) : Bool := sc.scRefillHead = sc.scRefillTail

/-- What is left of the head refill once `usage` is charged to it. -/
def refillCapacity (sc : SchedContext) (usage : Nat) : Nat :=
  if (refillHead sc).rAmount < usage then 0 else tickSub (refillHead sc).rAmount usage

def refillSufficient (sc : SchedContext) (usage : Nat) : Bool :=
  cfg.minBudget ≤ refillCapacity sc usage

/-- The head refill is usable up to one kernel WCET before its time. -/
def refillReady (sc : SchedContext) : Bool :=
  (refillHead sc).rTime ≤ tickAdd now cfg.kernelWcetTicks

def isRoundRobin (sc : SchedContext) : Bool := sc.scPeriod = 0

/-! ### Both ends of the queue -/

def refillPopHead (sc : SchedContext) : Refill × SchedContext :=
  (refillHead sc, { sc with scRefillHead := refillNext sc sc.scRefillHead })

def refillAddTail (sc : SchedContext) (refill : Refill) : SchedContext :=
  setRefillTail { sc with scRefillTail := refillNext sc sc.scRefillTail } refill

def maybeAddEmptyTail (sc : SchedContext) : SchedContext :=
  -- round robin contexts track their used up time in the tail
  if isRoundRobin sc then refillAddTail sc { rTime := now, rAmount := 0 } else sc

/-! ### Configuration -/

def refillNew (sc : SchedContext) (maxRefills budget period : Nat) : SchedContext :=
  let sc := { sc with
    scPeriod := period, scRefillHead := 0, scRefillTail := 0, scRefillMax := maxRefills }
  let sc := setRefillHead sc { refillHead sc with rAmount := budget }
  let sc := setRefillHead sc { refillHead sc with rTime := now }
  maybeAddEmptyTail now sc

def refillUpdate (sc : SchedContext) (newPeriod newBudget newMaxRefills : Nat) : SchedContext :=
  -- the queue is cut down to its head, which moves to the first cell
  let sc := setRefillIndex sc 0 (refillHead sc)
  let sc := { sc with scRefillHead := 0 }
  let sc := { sc with scRefillTail := sc.scRefillHead }
  let sc := { sc with scRefillMax := newMaxRefills }
  let sc := { sc with scPeriod := newPeriod }
  let sc :=
    if refillReady cfg now sc then setRefillHead sc { refillHead sc with rTime := now } else sc
  if newBudget ≤ (refillHead sc).rAmount then
    maybeAddEmptyTail now (setRefillHead sc { refillHead sc with rAmount := newBudget })
  else
    refillAddTail sc
      { rAmount := tickSub newBudget (refillHead sc).rAmount
        rTime := tickAdd (refillHead sc).rTime newPeriod }

/-! ### Charging -/

def scheduleUsed (sc : SchedContext) (new : Refill) : SchedContext :=
  if new.rAmount < cfg.minBudget ∧ refillSingle sc = false then
    -- too small to stand alone: merge with the last refill and delay it
    let sc := setRefillTail sc
      { refillTail sc with rAmount := tickAdd (refillTail sc).rAmount new.rAmount }
    setRefillTail sc { refillTail sc with rTime := max new.rTime (refillTail sc).rTime }
  else if new.rTime ≤ (refillTail sc).rTime then
    setRefillTail sc { refillTail sc with rAmount := tickAdd (refillTail sc).rAmount new.rAmount }
  else refillAddTail sc new

/-- One round of `ensure_sufficient_head`: the head is merged into its
successor. -/
def mergeHead (sc : SchedContext) : SchedContext :=
  let (refill, sc) := refillPopHead sc
  setRefillHead sc
    { refillHead sc with rAmount := tickAdd (refillHead sc).rAmount refill.rAmount }

def ensureSufficientHead (sc : SchedContext) : Option SchedContext :=
  whileLoop
    (fun sc => decide ((refillHead sc).rAmount < cfg.minBudget) || refillFull sc)
    mergeHead sc.scRefillMax sc

def refillHeadOverlapping (sc : SchedContext) : Bool :=
  if refillSingle sc then false
  else
    let amount := (refillHead sc).rAmount
    let tail := tickAdd (refillHead sc).rTime amount
    (refillIndex sc (refillNext sc sc.scRefillHead)).rTime ≤ tail

def refillSplitCheck (sc : SchedContext) (usage : Nat) : Option SchedContext :=
  let remnant := tickSub (refillHead sc).rAmount usage
  let new : Refill := { rAmount := usage, rTime := tickAdd (refillHead sc).rTime sc.scPeriod }
  if refillSize sc = sc.scRefillMax ∨ remnant < cfg.minBudget then
    if refillSingle sc then
      some (setRefillHead sc { new with rAmount := tickAdd new.rAmount remnant })
    else
      let (_, sc) := refillPopHead sc
      let sc := setRefillHead sc
        { refillHead sc with rAmount := tickAdd (refillHead sc).rAmount remnant }
      ensureSufficientHead cfg (scheduleUsed cfg sc new)
  else
    some (scheduleUsed cfg (setRefillHead sc { refillHead sc with rAmount := remnant }) new)

/-- One round of the exhaustion loop of `refill_budget_check`: the head is used
up and scheduled one period later. -/
def exhaustHead (s : SchedContext × Nat) : SchedContext × Nat :=
  let (sc, usage) := s
  let usage := tickSub usage (refillHead sc).rAmount
  if refillSingle sc then
    (setRefillHead sc { refillHead sc with rTime := tickAdd (refillHead sc).rTime sc.scPeriod },
      usage)
  else
    let (oldHead, sc) := refillPopHead sc
    (scheduleUsed cfg sc { oldHead with rTime := tickAdd oldHead.rTime sc.scPeriod }, usage)

/-- The loop itself. A round uses up some of `usage` or removes an empty head,
which bounds its length (`exhaustLoop_exists`). -/
def exhaustLoop (sc : SchedContext) (usage : Nat) : Option (SchedContext × Nat) :=
  whileLoop (fun s => decide ((refillHead s.1).rAmount ≤ s.2)) (exhaustHead cfg)
    ((usage + 1) * (sc.scRefillMax + 1)) (sc, usage)

/-- The budget overrun branch: the next replenishment is delayed, and merged
with its successor when the two overlap. -/
def delayHead (sc : SchedContext) (usage : Nat) : SchedContext :=
  if 0 < usage then
    let sc := setRefillHead sc { refillHead sc with rTime := tickAdd (refillHead sc).rTime usage }
    if refillSingle sc = false ∧
        (refillIndex sc (refillNext sc sc.scRefillHead)).rTime ≤
          tickAdd (refillHead sc).rTime (refillHead sc).rAmount then
      let (refill, sc) := refillPopHead sc
      let sc := setRefillHead sc
        { refillHead sc with rAmount := tickAdd (refillHead sc).rAmount refill.rAmount }
      setRefillHead sc { refillHead sc with rTime := refill.rTime }
    else sc
  else sc

/-- The end of `refill_budget_check`: what is left of the usage is charged when
the head is ready, and the head is made sufficient. -/
def settle (sc : SchedContext) (usage : Nat) : Option SchedContext :=
  (if 0 < refillCapacity sc usage ∧ refillReady cfg now sc = true then
      refillSplitCheck cfg sc usage
    else some sc).bind (ensureSufficientHead cfg)

def refillBudgetCheck (sc : SchedContext) (usage : Nat) : Option SchedContext :=
  if refillCapacity sc usage = 0 then
    (exhaustLoop cfg sc usage).bind fun (sc, usage) => settle cfg now (delayHead sc usage) usage
  else settle cfg now sc usage

/-- One round of the merge loop of `refill_unblock_check`. -/
def mergeAvailable (sc : SchedContext) : SchedContext :=
  let amount := (refillHead sc).rAmount
  let (_, sc) := refillPopHead sc
  let sc := setRefillHead sc
    { refillHead sc with rAmount := tickAdd (refillHead sc).rAmount amount }
  setRefillHead sc { refillHead sc with rTime := now }

def refillUnblockCheck (sc : SchedContext) : Option SchedContext :=
  if isRoundRobin sc then some sc
  else if refillReady cfg now sc then
    whileLoop refillHeadOverlapping (mergeAvailable now) sc.scRefillMax
      (setRefillHead sc { refillHead sc with rTime := now })
  else some sc

end SeL4Kernel.Sporadic
