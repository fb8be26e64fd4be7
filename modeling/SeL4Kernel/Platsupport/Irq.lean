import SeL4Kernel.Lib.Bits
import SeL4Kernel.Lib.Outcome

/-!
# Interrupts of user-level drivers

`irq.c` of `libsel4platsupport`, on a machine with words of 64 bits. Drivers register interrupts
with a callback. An interrupt is paired with a notification and gets a bit of its badge; when a
badge is received, the callbacks of its bits are run.

There is a table of interrupts and a table of notifications. Identifiers are numbers of type `int`,
and a table that is read at a place that it does not have is a failure of the model. The calls to
the kernel and to the allocator of capabilities are taken to succeed.
-/

namespace SeL4Kernel.Platsupport

open Function

inductive Failure where
  | outOfBounds (id : ℤ)
  | assertion
  | noReturn
  deriving DecidableEq, Repr

inductive ErrorCode where
  | einval
  | emfile
  | enospc
  | eperm
  | eaddrinuse
  deriving DecidableEq, Repr

/-- What a function returns, besides the callbacks that it runs. -/
inductive Reply where
  | error (code : ErrorCode)
  | done
  | id (id : ℤ)
  | badge (badge : BitVec 64)
  | cptr (ntfn : ℕ)
  | leftover (bits : BitVec 64)
  deriving DecidableEq, Repr

/-- `irq_iface_type_t`. -/
inductive IfaceType where
  | standard
  | mini
  deriving DecidableEq, Repr

/-- `irq_entry_t`. A number stands for a callback with its data. -/
structure IrqEntry where
  allocated : Bool
  callback : Option ℕ
  pairedNtfn : ℤ
  allocatedBadgeIndex : ℤ
  deriving DecidableEq, Repr

/-- `ntfn_entry_t`. -/
structure NtfnEntry where
  allocated : Bool
  rootNtfn : ℕ
  numIrqsBound : ℕ
  usableMask : BitVec 64
  /-- The bits of the badge that are allocated. -/
  statusBitfield : BitVec 64
  /-- The interrupts that have arrived and were not served. -/
  pendingBitfield : BitVec 64
  boundIrqs : ℕ → ℤ

/-- `irq_cookie_t`. -/
structure IrqCookie where
  ifaceType : IfaceType
  numRegisteredIrqs : ℕ
  numAllocatedNtfns : ℕ
  maxIrqIds : ℕ
  maxNtfnIds : ℕ
  numIrqBitfields : ℕ
  numNtfnBitfields : ℕ
  allocatedIrqBitfields : ℕ → BitVec 64
  allocatedNtfnBitfields : ℕ → BitVec 64
  irqTable : ℕ → IrqEntry
  ntfnTable : ℕ → NtfnEntry

/-- `UNPAIRED_ID` and `UNALLOCATED_BADGE_INDEX`. -/
def unpairedId : ℤ := -1

/-- `MAX_INTERRUPTS_TO_NOTIFICATIONS`. -/
def maxInterruptsToNotifications : ℕ := 64

def emptyIrq : IrqEntry := ⟨false, none, unpairedId, unpairedId⟩

def emptyNtfn : NtfnEntry := ⟨false, 0, 0, 0, 0, 0, fun _ => unpairedId⟩

/-- The words that are allocated for the bits of the identifiers: eight times too many, as a number
of bits is divided by a number of bytes. -/
def numBitfields (maxIds : ℕ) : ℕ := (maxIds + 63) / 64 * 64 / 8

/-- `new_irq_ops_common`. -/
def newIrqOpsCommon (maxIrqIds maxNtfnIds : ℕ) (ifaceType : IfaceType) : IrqCookie where
  ifaceType := ifaceType
  numRegisteredIrqs := 0
  numAllocatedNtfns := 0
  maxIrqIds := maxIrqIds
  maxNtfnIds := maxNtfnIds
  numIrqBitfields := numBitfields maxIrqIds
  numNtfnBitfields := numBitfields maxNtfnIds
  allocatedIrqBitfields := fun _ => 0
  allocatedNtfnBitfields := fun _ => 0
  irqTable := fun _ => emptyIrq
  ntfnTable := fun _ => emptyNtfn

/-! ### Tables -/

namespace IrqCookie

variable (c : IrqCookie)

/-- `check_irq_id_is_valid`. -/
def ValidIrq (id : ℤ) : Prop := 0 ≤ id ∧ id < c.maxIrqIds

/-- `check_ntfn_id_is_valid`. -/
def ValidNtfn (id : ℤ) : Prop := 0 ≤ id ∧ id < c.maxNtfnIds

instance (id : ℤ) : Decidable (c.ValidIrq id) := inferInstanceAs (Decidable (_ ∧ _))

instance (id : ℤ) : Decidable (c.ValidNtfn id) := inferInstanceAs (Decidable (_ ∧ _))

/-- The place of the table of interrupts that is read or written. -/
def irqIndex (id : ℤ) : Except Failure ℕ :=
  if c.ValidIrq id then .ok id.toNat else .error (.outOfBounds id)

/-- The place of the table of notifications that is read or written. -/
def ntfnIndex (id : ℤ) : Except Failure ℕ :=
  if c.ValidNtfn id then .ok id.toNat else .error (.outOfBounds id)

def setIrq (irq : ℕ) (e : IrqEntry) : IrqCookie :=
  { c with irqTable := update c.irqTable irq e }

def setNtfn (ntfn : ℕ) (e : NtfnEntry) : IrqCookie :=
  { c with ntfnTable := update c.ntfnTable ntfn e }

end IrqCookie

/-- The place of the table of bound interrupts. -/
def IrqEntry.badgeIndex (e : IrqEntry) : Except Failure ℕ :=
  if 0 ≤ e.allocatedBadgeIndex ∧ e.allocatedBadgeIndex < maxInterruptsToNotifications then
    .ok e.allocatedBadgeIndex.toNat
  else .error (.outOfBounds e.allocatedBadgeIndex)

/-- `fill_bit_in_bitfield`. -/
def fillBitInBitfield (words : ℕ → BitVec 64) (index : ℕ) : ℕ → BitVec 64 :=
  update words (index / 64) (words (index / 64) ||| 1#64 <<< (index % 64))

/-- `unfill_bit_in_bitfield`. -/
def unfillBitInBitfield (words : ℕ → BitVec 64) (index : ℕ) : ℕ → BitVec 64 :=
  update words (index / 64) (words (index / 64) &&& ~~~(1#64 <<< (index % 64)))

/-- `BSWAP_WORD`. -/
def bswapWord (x : BitVec 64) : BitVec 64 :=
  (List.range 8).foldl (fun acc i => acc ||| ((x >>> (8 * i)) &&& 0xff#64) <<< (8 * (7 - i))) 0

/-- `MASK`, with its assertions. -/
def maskBits (n : ℕ) : Except Failure (BitVec 64) :=
  if n ≤ 64 ∧ 0 < n then .ok ((1#64 <<< (n - 1) - 1) ||| 1#64 <<< (n - 1))
  else .error .assertion

/-- The loops of `find_free_irq_id` and `find_free_ntfn_id`, with the rounds that are left. In the
word before `last` bits are hidden. -/
def findFreeId (num last maxIds : ℕ) (words : ℕ → BitVec 64) : ℕ → ℕ → Except Failure ℤ
  | 0, _ => .ok (-1)
  | left + 1, i => do
    let unallocated ←
      if i + 1 = last then do
        let mask ← maskBits (num * 8 - maxIds)
        .ok (~~~(words i) &&& bswapWord mask)
      else .ok (~~~(words i))
    if unallocated ≠ 0 then .ok (lowestBit unallocated + i * 64 : ℕ)
    else findFreeId num last maxIds words left (i + 1)

/-- `find_free_irq_id`. -/
def findFreeIrqId (c : IrqCookie) : Except Failure ℤ :=
  findFreeId c.numIrqBitfields c.numIrqBitfields c.maxIrqIds c.allocatedIrqBitfields
    c.numIrqBitfields 0

/-- `find_free_ntfn_id`. The word in which bits are hidden is the last one of the interrupts. -/
def findFreeNtfnId (c : IrqCookie) : Except Failure ℤ :=
  findFreeId c.numNtfnBitfields c.numIrqBitfields c.maxNtfnIds c.allocatedNtfnBitfields
    c.numNtfnBitfields 0

/-- `find_free_ntfn_badge_index`. -/
def findFreeNtfnBadgeIndex (e : NtfnEntry) : Option ℕ :=
  let unallocated := ~~~e.statusBitfield &&& e.usableMask
  if unallocated = 0 then none else some (lowestBit unallocated)

/-! ### Pairs -/

/-- The entries of an interrupt and of a notification that are paired. -/
def IrqCookie.bind (c : IrqCookie) (ntfn irq badgeIndex : ℕ) : IrqCookie :=
  let e := c.ntfnTable ntfn
  (c.setNtfn ntfn
    { e with
      numIrqsBound := e.numIrqsBound + 1
      statusBitfield := e.statusBitfield ||| 1#64 <<< badgeIndex
      boundIrqs := update e.boundIrqs badgeIndex irq }).setIrq irq
    { c.irqTable irq with pairedNtfn := ntfn, allocatedBadgeIndex := badgeIndex }

/-- The entry of a notification that gets a bit of its badge back. -/
def IrqCookie.release (c : IrqCookie) (ntfn badgeIndex : ℕ) : IrqCookie :=
  let e := c.ntfnTable ntfn
  c.setNtfn ntfn
    { e with
      statusBitfield := e.statusBitfield &&& ~~~(1#64 <<< badgeIndex)
      pendingBitfield := e.pendingBitfield &&& ~~~(1#64 <<< badgeIndex)
      boundIrqs := update e.boundIrqs badgeIndex unpairedId
      numIrqsBound := e.numIrqsBound - 1 }

/-- An interrupt that is not paired any more. -/
def IrqCookie.unpair (c : IrqCookie) (irq : ℕ) : IrqCookie :=
  c.setIrq irq
    { c.irqTable irq with pairedNtfn := unpairedId, allocatedBadgeIndex := unpairedId }

/-- `irq_set_ntfn_common`. -/
def irqSetNtfnCommon (ntfnId irqId : ℤ) (c : IrqCookie) : Except Failure (Reply × IrqCookie) := do
  let irq ← c.irqIndex irqId
  if (c.irqTable irq).pairedNtfn > unpairedId then .ok (.error .einval, c)
  else
    let ntfn ← c.ntfnIndex ntfnId
    if (c.ntfnTable ntfn).numIrqsBound ≥ maxInterruptsToNotifications then
      .ok (.error .enospc, c)
    else
      match findFreeNtfnBadgeIndex (c.ntfnTable ntfn) with
      | none => .ok (.error .enospc, c)
      | some badgeIndex => .ok (.badge (1#64 <<< badgeIndex), c.bind ntfn irq badgeIndex)

/-! ### Interrupts -/

/-- `irq_register_common`. -/
def irqRegisterCommon (callback : Option ℕ) (c : IrqCookie) :
    Except Failure (Reply × IrqCookie) := do
  if c.numRegisteredIrqs ≥ c.maxIrqIds then .ok (.error .emfile, c)
  else if callback = none then .ok (.error .einval, c)
  else
    let freeId ← findFreeIrqId c
    if freeId = -1 then .ok (.error .emfile, c)
    else
      let irq ← c.irqIndex freeId
      .ok (.id freeId,
        { c.setIrq irq { c.irqTable irq with allocated := true, callback := callback } with
          numRegisteredIrqs := c.numRegisteredIrqs + 1
          allocatedIrqBitfields := fillBitInBitfield c.allocatedIrqBitfields irq })

/-- The pair of an interrupt is taken back in the table of notifications. -/
def releasePair (e : IrqEntry) (c : IrqCookie) : Except Failure IrqCookie := do
  let ntfn ← c.ntfnIndex e.pairedNtfn
  let badgeIndex ← e.badgeIndex
  .ok (c.release ntfn badgeIndex)

/-- `sel4platsupport_irq_unregister`. -/
def irqUnregister (irqId : ℤ) (c : IrqCookie) : Except Failure (Reply × IrqCookie) := do
  if ¬c.ValidIrq irqId then .ok (.error .einval, c)
  else
    let irq ← c.irqIndex irqId
    if ¬(c.irqTable irq).allocated then .ok (.error .einval, c)
    else
      let c ← if (c.irqTable irq).pairedNtfn > unpairedId then releasePair (c.irqTable irq) c
        else .ok c
      .ok (.done,
        { c.setIrq irq emptyIrq with
          numRegisteredIrqs := c.numRegisteredIrqs - 1
          allocatedIrqBitfields := unfillBitInBitfield c.allocatedIrqBitfields irq })

/-- `sel4platsupport_irq_register` and `sel4platsupport_irq_register_mini`. -/
def irqRegister (callback : Option ℕ) (c : IrqCookie) : Except Failure (Reply × IrqCookie) := do
  let (reply, c) ← irqRegisterCommon callback c
  match c.ifaceType, reply with
  | .mini, .id assignedId =>
    let (paired, c) ← irqSetNtfnCommon 0 assignedId c
    match paired with
    | .error code =>
      let (_, c) ← irqUnregister assignedId c
      .ok (.error code, c)
    | _ => .ok (.id assignedId, c)
  | _, _ => .ok (reply, c)

/-! ### Notifications -/

/-- `provide_ntfn_common`. The table of bound interrupts is set to zero. -/
def provideNtfnCommon (ntfn : ℕ) (usableMask : BitVec 64) (allocatedId : ℤ) (c : IrqCookie) :
    Except Failure IrqCookie := do
  let id ← c.ntfnIndex allocatedId
  .ok { c.setNtfn id ⟨true, ntfn, 0, usableMask, 0, 0, fun _ => 0⟩ with
    numAllocatedNtfns := c.numAllocatedNtfns + 1
    allocatedNtfnBitfields := fillBitInBitfield c.allocatedNtfnBitfields id }

/-- `sel4platsupport_irq_provide_ntfn`. -/
def irqProvideNtfn (ntfn : ℕ) (usableMask : BitVec 64) (c : IrqCookie) :
    Except Failure (Reply × IrqCookie) := do
  if ntfn = 0 ∨ usableMask = 0 then .ok (.error .einval, c)
  else if c.ifaceType = .mini then .ok (.error .eperm, c)
  else if c.numAllocatedNtfns ≥ c.maxNtfnIds then .ok (.error .emfile, c)
  else
    let freeId ← findFreeNtfnId c
    if freeId = -1 then .ok (.error .emfile, c)
    else
      let c ← provideNtfnCommon ntfn usableMask freeId c
      .ok (.id freeId, c)

/-- `sel4platsupport_irq_provide_ntfn_with_id`. -/
def irqProvideNtfnWithId (ntfn : ℕ) (usableMask : BitVec 64) (idHint : ℤ) (c : IrqCookie) :
    Except Failure (Reply × IrqCookie) := do
  if ntfn = 0 ∨ usableMask = 0 then .ok (.error .einval, c)
  else if c.ifaceType = .mini then .ok (.error .eperm, c)
  else if c.numAllocatedNtfns ≥ c.maxNtfnIds then .ok (.error .emfile, c)
  else
    let id ← c.ntfnIndex idHint
    if (c.ntfnTable id).allocated then .ok (.error .eaddrinuse, c)
    else
      let c ← provideNtfnCommon ntfn usableMask idHint c
      .ok (.done, c)

/-- A round of the loop of `sel4platsupport_irq_return_ntfn`. -/
def unpairBit (e : NtfnEntry) (index : ℕ) (c : IrqCookie) : Except Failure IrqCookie := do
  let irq ← c.irqIndex (e.boundIrqs index)
  .ok (c.unpair irq)

/-- The loop of `sel4platsupport_irq_return_ntfn`. -/
def unpairBits (e : NtfnEntry) (c : IrqCookie) : Except Failure IrqCookie :=
  if e.numIrqsBound > 0 then forBits .noReturn (unpairBit e) 65 e.statusBitfield c else .ok c

/-- `sel4platsupport_irq_return_ntfn`. -/
def irqReturnNtfn (ntfnId : ℤ) (c : IrqCookie) : Except Failure (Reply × IrqCookie) := do
  if c.ifaceType = .mini then .ok (.error .eperm, c)
  else if ¬c.ValidNtfn ntfnId then .ok (.error .einval, c)
  else
    let ntfn ← c.ntfnIndex ntfnId
    let e := c.ntfnTable ntfn
    if ¬e.allocated then .ok (.error .einval, c)
    else
      let c ← unpairBits e c
      .ok (.cptr e.rootNtfn,
        { c.setNtfn ntfn emptyNtfn with
          numAllocatedNtfns := c.numAllocatedNtfns - 1
          allocatedNtfnBitfields := unfillBitInBitfield c.allocatedNtfnBitfields ntfn })

/-- `sel4platsupport_irq_set_ntfn`. -/
def irqSetNtfn (ntfnId irqId : ℤ) (c : IrqCookie) : Except Failure (Reply × IrqCookie) := do
  if c.ifaceType = .mini then .ok (.error .eperm, c)
  else if ¬c.ValidNtfn ntfnId then .ok (.error .einval, c)
  else
    let ntfn ← c.ntfnIndex ntfnId
    if ¬(c.ntfnTable ntfn).allocated then .ok (.error .einval, c)
    else if ¬c.ValidIrq irqId then .ok (.error .einval, c)
    else
      let irq ← c.irqIndex irqId
      if ¬(c.irqTable irq).allocated then .ok (.error .einval, c)
      else irqSetNtfnCommon ntfnId irqId c

/-- `sel4platsupport_irq_unset_ntfn`. -/
def irqUnsetNtfn (irqId : ℤ) (c : IrqCookie) : Except Failure (Reply × IrqCookie) := do
  if c.ifaceType = .mini then .ok (.error .eperm, c)
  else if ¬c.ValidIrq irqId then .ok (.error .einval, c)
  else
    let irq ← c.irqIndex irqId
    if ¬(c.irqTable irq).allocated then .ok (.error .einval, c)
    else if (c.irqTable irq).pairedNtfn = unpairedId then .ok (.error .einval, c)
    else
      let c ← releasePair (c.irqTable irq) c
      .ok (.done, c.unpair irq)

/-! ### Callbacks -/

/-- `perform_callback`: whether there is a callback. -/
def performCallback (irqId : ℤ) (c : IrqCookie) : Except Failure Bool := do
  let irq ← c.irqIndex irqId
  .ok (c.irqTable irq).callback.isSome

/-- The interrupts whose callbacks were run, and a word that is kept in a loop. -/
structure Serving where
  called : List ℤ
  bits : BitVec 64
  deriving DecidableEq, Repr

/-- A round of the loop of `sel4platsupport_irq_handle`, which keeps the pending bits. -/
def handleBit (c : IrqCookie) (e : NtfnEntry) (index : ℕ) (s : Serving) :
    Except Failure Serving := do
  let called ← performCallback (e.boundIrqs index) c
  if called then
    .ok ⟨s.called ++ [e.boundIrqs index],
      if s.bits.getLsbD index then s.bits &&& ~~~(1#64 <<< index) else s.bits⟩
  else .ok s

/-- What an operation gives back: the callbacks that were run are in `called`. -/
structure Result where
  reply : Reply
  called : List ℤ
  cookie : IrqCookie

/-- `sel4platsupport_irq_handle`. -/
def irqHandle (ntfnId : ℤ) (handleMask : BitVec 64) (c : IrqCookie) : Except Failure Result := do
  if ¬c.ValidNtfn ntfnId then .ok ⟨.error .einval, [], c⟩
  else
    let ntfn ← c.ntfnIndex ntfnId
    let e := c.ntfnTable ntfn
    if ¬e.allocated then .ok ⟨.error .einval, [], c⟩
    else
      let s ← forBits .noReturn (handleBit c e) 65 (handleMask &&& e.usableMask)
        ⟨[], e.pendingBitfield⟩
      .ok ⟨.done, s.called, c.setNtfn ntfn { e with pendingBitfield := s.bits }⟩

/-- A round of the loop of `serve_irq`, which keeps the bits that were served. -/
def serveBit (c : IrqCookie) (e : NtfnEntry) (mask : BitVec 64) (index : ℕ) (s : Serving) :
    Except Failure Serving := do
  if mask.getLsbD index then
    let called ← performCallback (e.boundIrqs index) c
    if called then .ok ⟨s.called ++ [e.boundIrqs index], s.bits ||| 1#64 <<< index⟩
    else .ok s
  else .ok s

/-- `serve_irq`. -/
def serveIrq (ntfn : ℕ) (mask badge : BitVec 64) (c : IrqCookie) : Except Failure Result := do
  let e := c.ntfnTable ntfn
  let s ← forBits .noReturn (serveBit c e mask) 65 (badge &&& e.usableMask ||| e.pendingBitfield)
    ⟨[], 0⟩
  .ok ⟨.leftover (badge &&& ~~~s.bits), s.called,
    c.setNtfn ntfn { e with
      pendingBitfield := e.pendingBitfield ^^^ (badge &&& e.usableMask &&& ~~~s.bits) }⟩

/-- What `sel4platsupport_irq_wait` and `sel4platsupport_irq_poll` do with the badge that they
receive. -/
def irqReceive (ntfnId : ℤ) (mask badge : BitVec 64) (c : IrqCookie) : Except Failure Result := do
  if ¬c.ValidNtfn ntfnId then .ok ⟨.error .einval, [], c⟩
  else
    let ntfn ← c.ntfnIndex ntfnId
    if ¬(c.ntfnTable ntfn).allocated then .ok ⟨.error .einval, [], c⟩
    else serveIrq ntfn mask badge c

/-- `sel4platsupport_irq_wait`. -/
def irqWait (ntfnId : ℤ) (waitMask badge : BitVec 64) (c : IrqCookie) : Except Failure Result :=
  irqReceive ntfnId waitMask badge c

/-- `sel4platsupport_irq_poll`. -/
def irqPoll (ntfnId : ℤ) (pollMask badge : BitVec 64) (c : IrqCookie) : Except Failure Result :=
  irqReceive ntfnId pollMask badge c

/-- `sel4platsupport_new_irq_ops`. -/
def newIrqOps (maxIrqIds maxNtfnIds : ℕ) : Option IrqCookie :=
  if maxIrqIds = 0 ∨ maxNtfnIds = 0 then none
  else some (newIrqOpsCommon maxIrqIds maxNtfnIds .standard)

/-- `sel4platsupport_new_mini_irq_ops`. -/
def newMiniIrqOps (ntfn : ℕ) (usableMask : BitVec 64) : Option IrqCookie :=
  if usableMask = 0 ∨ ntfn = 0 then none
  else
    (provideNtfnCommon ntfn usableMask 0
      (newIrqOpsCommon (setBits usableMask).length 1 .mini)).toOption

end SeL4Kernel.Platsupport
