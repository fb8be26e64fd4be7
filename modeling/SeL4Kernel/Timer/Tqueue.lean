import Mathlib.Algebra.Group.Nat.Defs
import Mathlib.Data.List.Sort
import Mathlib.Data.Finset.Basic

/-!
# The timeout queue

`tqueue.c` of `libplatsupport`: timeouts by identifier, and a list of the active ones that is
sorted by their time. The list is that of `sglib.h`; a node that is not in it cannot be deleted.

A callback may register and cancel timeouts. What the callbacks do is a parameter of
`tqueueUpdate`: the `k`-th callback that is run, for an identifier, makes a list of calls. The
result has a log of the callbacks that were run and of what they did.
-/

namespace SeL4Kernel.Timer

open Function

/-- `timeout_t`. -/
structure Timeout where
  absTime : ℕ
  period : ℕ
  token : ℕ
  callback : ℕ
  deriving DecidableEq, Repr

/-- `tqueue_node_t`. -/
structure Node where
  timeout : Timeout
  allocated : Bool
  active : Bool
  deriving DecidableEq, Repr

/-- `tqueue_t`, with the list as the identifiers of its nodes. -/
structure Tqueue where
  queue : List ℕ
  array : ℕ → Node
  n : ℕ

inductive Failure where
  | assertion
  | outOfBounds
  | noReturn
  deriving DecidableEq, Repr

inductive Errno where
  | einval
  | enomem
  | eaddrinuse
  deriving DecidableEq, Repr

/-- The time of a node. -/
def absTime (tq : Tqueue) (id : ℕ) : ℕ := (tq.array id).timeout.absTime

/-- `tq->array[id]`. -/
def node (id : ℕ) (tq : Tqueue) : Except Failure Node :=
  if id < tq.n then .ok (tq.array id) else .error .outOfBounds

def setNode (id : ℕ) (node : Node) (tq : Tqueue) : Tqueue :=
  { tq with array := update tq.array id node }

/-- `sglib_tqueue_node_t_delete`. -/
def delete (id : ℕ) (tq : Tqueue) : Except Failure Tqueue :=
  if id ∈ tq.queue then .ok { tq with queue := tq.queue.erase id } else .error .assertion

/-- `sglib_tqueue_node_t_add`: in front of the first node whose time is not earlier. -/
def add (id : ℕ) (tq : Tqueue) : Tqueue :=
  { tq with queue := tq.queue.orderedInsert (fun a b => absTime tq a ≤ absTime tq b) id }

/-- The common part of the functions that take a node out of the list. -/
def deleteIfActive (id : ℕ) (tq : Tqueue) : Except Failure Tqueue :=
  if (tq.array id).active then delete id tq else .ok tq

/-! ### Identifiers -/

/-- `tqueue_init_static`. -/
def tqueueInitStatic (size : ℕ) : Tqueue where
  queue := []
  array := fun _ => ⟨⟨0, 0, 0, 0⟩, false, false⟩
  n := size

def tqueueAllocId (tq : Tqueue) : Except Errno ℕ × Tqueue :=
  match (List.range tq.n).find? fun i => !(tq.array i).allocated with
  | some i => (.ok i, setNode i { tq.array i with allocated := true } tq)
  | none => (.error .enomem, tq)

def tqueueAllocIdAt (id : ℕ) (tq : Tqueue) : Option Errno × Tqueue :=
  if id ≥ tq.n then (some .einval, tq)
  else if (tq.array id).allocated then (some .eaddrinuse, tq)
  else (none, setNode id { tq.array id with allocated := true } tq)

def tqueueFreeId (id : ℕ) (tq : Tqueue) : Except Failure (Option Errno × Tqueue) :=
  if id ≥ tq.n then .ok (some .einval, tq)
  else if (tq.array id).allocated = false then .ok (some .einval, tq)
  else do
    let tq ← deleteIfActive id tq
    return (none, setNode id { tq.array id with active := false, allocated := false } tq)

/-! ### Timeouts -/

def tqueueRegister (id : ℕ) (timeout : Timeout) (tq : Tqueue) :
    Except Failure (Option Errno × Tqueue) :=
  if id > tq.n then .ok (some .einval, tq)
  else do
    let entry ← node id tq
    if entry.allocated = false then return (some .einval, tq)
    else do
      let tq ← deleteIfActive id tq
      return (none, add id (setNode id { entry with active := true, timeout := timeout } tq))

def tqueueCancel (id : ℕ) (tq : Tqueue) : Except Failure (Option Errno × Tqueue) :=
  if id > tq.n then .ok (some .einval, tq)
  else do
    let entry ← node id tq
    let tq ← deleteIfActive id tq
    return (none, setNode id { entry with active := false } tq)

/-- A call that a callback makes. -/
inductive Op where
  | register (id : ℕ) (timeout : Timeout)
  | cancel (id : ℕ)
  deriving DecidableEq, Repr

/-- What happens in an update: a callback is run for a timeout, or a call of a callback succeeds. -/
inductive Event where
  | ran (id : ℕ) (timeout : Timeout)
  | registered (id : ℕ) (timeout : Timeout)
  | cancelled (id : ℕ)
  deriving DecidableEq, Repr

def Op.event : Op → Event
  | .register id timeout => .registered id timeout
  | .cancel id => .cancelled id

def Op.perform : Op → Tqueue → Except Failure (Option Errno × Tqueue)
  | .register id timeout => tqueueRegister id timeout
  | .cancel id => tqueueCancel id

/-- The calls of one callback. -/
def runOps : List Op → Tqueue → Except Failure (List Event × Tqueue)
  | [], tq => .ok ([], tq)
  | op :: ops, tq => do
    let (error, tq) ← op.perform tq
    let (log, tq) ← runOps ops tq
    return (if error.isSome then log else op.event :: log, tq)

/-- The timeout of a node whose callback has been run. -/
def rearm (id : ℕ) (tq : Tqueue) : Except Failure Tqueue :=
  let entry := tq.array id
  if entry.active then do
    let tq ← delete id tq
    if entry.timeout.period > 0 then
      let absTime := (entry.timeout.absTime + entry.timeout.period) % 2 ^ 64
      return add id
        (setNode id { entry with timeout := { entry.timeout with absTime := absTime } } tq)
    else return setNode id { entry with active := false } tq
  else return tq

/-- The loop of `tqueue_update`, from the `k`-th callback on. -/
def updateLoop (calls : ℕ → ℕ → List Op) (currTime : ℕ) :
    ℕ → ℕ → Tqueue → Except Failure (List Event × Tqueue)
  | 0, _, _ => .error .noReturn
  | fuel + 1, k, tq =>
    match tq.queue.head? with
    | none => .ok ([], tq)
    | some t =>
      if absTime tq t ≤ currTime then
        if (tq.array t).active then do
          let (events, tq') ← runOps (calls k t) tq
          let tq' ← rearm t tq'
          let (log, tq') ← updateLoop calls currTime fuel (k + 1) tq'
          return (.ran t (tq.array t).timeout :: (events ++ log), tq')
        else updateLoop calls currTime fuel k tq
      else .ok ([], tq)

/-- `next_time`. -/
def nextTime (tq : Tqueue) : ℕ :=
  match tq.queue.head? with
  | none => 0
  | some t => absTime tq t

/-- `tqueue_update`. -/
def tqueueUpdate (calls : ℕ → ℕ → List Op) (currTime fuel : ℕ) (tq : Tqueue) :
    Except Failure (ℕ × List Event × Tqueue) := do
  let (log, tq) ← updateLoop calls currTime fuel 0 tq
  return (nextTime tq, log, tq)

/-! ### The invariant -/

/-- The list is sorted and has the active nodes. -/
structure Inv (tq : Tqueue) : Prop where
  sorted : tq.queue.Pairwise fun a b => absTime tq a ≤ absTime tq b
  nodup : tq.queue.Nodup
  mem : ∀ id, id ∈ tq.queue ↔ (tq.array id).active = true
  active : ∀ id, (tq.array id).active = true → id < tq.n ∧ (tq.array id).allocated = true

/-- The timeout of a node that is active. -/
def Node.armed (entry : Node) : Option Timeout :=
  if entry.active then some entry.timeout else none

def armed (tq : Tqueue) (id : ℕ) : Option Timeout := (tq.array id).armed

variable {tq tq' : Tqueue} {id : ℕ} {timeout : Timeout}

theorem armed_eq_some : armed tq id = some timeout ↔
    (tq.array id).active = true ∧ (tq.array id).timeout = timeout := by
  unfold armed Node.armed
  by_cases h : (tq.array id).active = true
  · simp [h]
  · simp [h]

theorem armed_eq_none : armed tq id = none ↔ (tq.array id).active = false := by
  unfold armed Node.armed
  by_cases h : (tq.array id).active = true
  · simp [h]
  · simp

/-- The node is taken out of the list. -/
def disarmed (id : ℕ) (tq : Tqueue) : Tqueue :=
  { setNode id { tq.array id with active := false } tq with queue := tq.queue.erase id }

/-- The node gets a timeout and is in the list. -/
def rearmed (id : ℕ) (timeout : Timeout) (tq : Tqueue) : Tqueue :=
  add id (setNode id { tq.array id with active := true, timeout := timeout }
    { tq with queue := tq.queue.erase id })

theorem deleteIfActive_eq (h : Inv tq) (id : ℕ) :
    deleteIfActive id tq = .ok { tq with queue := tq.queue.erase id } := by
  unfold deleteIfActive
  split
  next hid => exact if_pos ((h.mem id).2 hid)
  next hid => rw [List.erase_of_not_mem fun hc => hid ((h.mem id).1 hc)]

theorem absTime_setNode_of_ne {entry : Node} {x : ℕ} (hx : x ≠ id) :
    absTime (setNode id entry tq) x = absTime tq x := by
  unfold absTime setNode
  dsimp only
  rw [update_of_ne hx]

/-- The rest of the list stays sorted when the node that was taken out changes. -/
theorem Inv.sorted_erase (h : Inv tq) (id : ℕ) (entry : Node) :
    (tq.queue.erase id).Pairwise fun a b =>
      absTime (setNode id entry tq) a ≤ absTime (setNode id entry tq) b := by
  refine List.Pairwise.imp_of_mem ?_ (h.sorted.sublist List.erase_sublist)
  intro a b ha hb hab
  have hne : ∀ x ∈ tq.queue.erase id, x ≠ id := fun x hx => (h.nodup.mem_erase_iff.1 hx).1
  rw [absTime_setNode_of_ne (hne a ha), absTime_setNode_of_ne (hne b hb)]
  exact hab

/-- A node that is taken out of the list and is not active any more. -/
theorem Inv.setIdle (h : Inv tq) (id : ℕ) {entry : Node} (hidle : entry.active = false) :
    Inv (setNode id entry { tq with queue := tq.queue.erase id }) where
  sorted := h.sorted_erase id _
  nodup := h.nodup.erase id
  mem := by
    intro x
    unfold setNode
    dsimp only
    rw [h.nodup.mem_erase_iff]
    by_cases hx : x = id
    · rw [hx, update_self, hidle]
      simp
    · rw [update_of_ne hx, and_iff_right hx]
      exact h.mem x
  active := by
    intro x hactive
    unfold setNode at hactive ⊢
    dsimp only at hactive ⊢
    by_cases hx : x = id
    · rw [hx, update_self, hidle] at hactive
      cases hactive
    · rw [update_of_ne hx] at hactive ⊢
      exact h.active x hactive

theorem Inv.disarmed (h : Inv tq) (id : ℕ) : Inv (disarmed id tq) := h.setIdle id rfl

theorem Inv.rearmed (h : Inv tq) (hid : id < tq.n) (halloc : (tq.array id).allocated = true)
    (timeout : Timeout) : Inv (rearmed id timeout tq) := by
  have hnot : id ∉ tq.queue.erase id := h.nodup.not_mem_erase
  refine ⟨?_, ?_, ?_, ?_⟩
  · have : Std.Total fun a b => absTime (setNode id { tq.array id with
        active := true, timeout := timeout } tq) a ≤ absTime (setNode id { tq.array id with
        active := true, timeout := timeout } tq) b := ⟨fun a b => Nat.le_total _ _⟩
    exact (h.sorted_erase id _).orderedInsert _ _
  · refine (List.perm_orderedInsert _ _ _).nodup_iff.2 (List.nodup_cons.2 ⟨hnot, h.nodup.erase id⟩)
  · intro x
    unfold Timer.rearmed add setNode
    dsimp only
    rw [List.mem_orderedInsert, h.nodup.mem_erase_iff]
    by_cases hx : x = id
    · rw [hx]
      simp
    · rw [update_of_ne hx, or_iff_right hx, and_iff_right hx]
      exact h.mem x
  · intro x hactive
    unfold Timer.rearmed add setNode at hactive ⊢
    dsimp only at hactive ⊢
    by_cases hx : x = id
    · rw [hx, update_self]
      exact ⟨hid, halloc⟩
    · rw [update_of_ne hx] at hactive ⊢
      exact h.active x hactive

theorem armed_disarmed (id : ℕ) (tq : Tqueue) :
    armed (disarmed id tq) = update (armed tq) id none :=
  comp_update Node.armed tq.array id _

theorem armed_rearmed (id : ℕ) (timeout : Timeout) (tq : Tqueue) :
    armed (rearmed id timeout tq) = update (armed tq) id (some timeout) :=
  comp_update Node.armed tq.array id _

/-- The identifiers that are allocated. -/
def allocated (tq : Tqueue) (id : ℕ) : Bool := (tq.array id).allocated

/-- A change of a node that leaves what `f` reads as it is. -/
theorem apply_setNode {β : Type} (f : Node → β) {entry : Node} (hf : f entry = f (tq.array id))
    (x : ℕ) : f ((setNode id entry tq).array x) = f (tq.array x) := by
  unfold setNode
  rw [apply_update fun _ => f, hf, update_eq_self]

theorem allocated_disarmed (id : ℕ) (tq : Tqueue) : allocated (disarmed id tq) = allocated tq :=
  funext (apply_setNode Node.allocated rfl)

theorem allocated_rearmed (id : ℕ) (timeout : Timeout) (tq : Tqueue) :
    allocated (rearmed id timeout tq) = allocated tq :=
  funext (apply_setNode Node.allocated rfl)

/-! ### What the functions do -/

theorem tqueueRegister_eq (h : Inv tq) (hid : id < tq.n) (halloc : allocated tq id = true)
    (timeout : Timeout) : tqueueRegister id timeout tq = .ok (none, rearmed id timeout tq) := by
  unfold allocated at halloc
  unfold tqueueRegister node
  rw [if_neg (Nat.not_lt.2 hid.le), if_pos hid, deleteIfActive_eq h]
  change (if (tq.array id).allocated = false then _ else _) = _
  rw [if_neg (by rw [halloc]; simp)]
  rfl

theorem tqueueRegister_einval (hid : id ≠ tq.n) (halloc : tq.n ≤ id ∨ allocated tq id = false)
    (timeout : Timeout) : tqueueRegister id timeout tq = .ok (some .einval, tq) := by
  unfold allocated at halloc
  unfold tqueueRegister node
  by_cases hlt : id < tq.n
  · rw [if_neg (Nat.not_lt.2 hlt.le), if_pos hlt]
    change (if (tq.array id).allocated = false then _ else _) = _
    rw [if_pos (halloc.resolve_left (Nat.not_le.2 hlt))]
    rfl
  · rw [if_pos (show id > tq.n by omega)]

theorem tqueueCancel_eq (h : Inv tq) (hid : id < tq.n) :
    tqueueCancel id tq = .ok (none, disarmed id tq) := by
  unfold tqueueCancel node
  rw [if_neg (Nat.not_lt.2 hid.le), if_pos hid, deleteIfActive_eq h]
  rfl

theorem tqueueCancel_einval (hid : tq.n < id) : tqueueCancel id tq = .ok (some .einval, tq) :=
  if_pos hid

/-- A node that is active is advanced or taken out of the list. -/
theorem rearm_eq (h : Inv tq) (harmed : armed tq id = some timeout) :
    rearm id tq = .ok (if timeout.period > 0 then
      rearmed id { timeout with absTime := (timeout.absTime + timeout.period) % 2 ^ 64 } tq
      else disarmed id tq) := by
  obtain ⟨hactive, rfl⟩ := armed_eq_some.1 harmed
  unfold rearm delete
  rw [if_pos hactive, if_pos ((h.mem id).2 hactive)]
  by_cases hperiod : (tq.array id).timeout.period > 0
  · rw [if_pos hperiod]
    change (if (tq.array id).timeout.period > 0 then _ else _) = _
    rw [if_pos hperiod]
    unfold rearmed
    rw [← hactive]
    rfl
  · rw [if_neg hperiod]
    change (if (tq.array id).timeout.period > 0 then _ else _) = _
    rw [if_neg hperiod]
    rfl

theorem rearm_eq_self (harmed : armed tq id = none) : rearm id tq = .ok tq := by
  have hactive := armed_eq_none.1 harmed
  unfold rearm
  rw [if_neg (by rw [hactive]; simp)]
  rfl

end SeL4Kernel.Timer
