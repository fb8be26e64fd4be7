import SeL4Kernel.Object.CNodeInvocation

/-!
# Retyping untyped memory

`src/object/untyped.c` and `createNewObjects` of `src/object/objecttype.c`: the checks of
`decodeUntypedInvocation`, the reset of an untyped capability without children, which
clears its memory in chunks and can be preempted between them, and the creation of the
objects with their capabilities.

Addresses are computed in words, as in the source.
-/

namespace SeL4Kernel

/-- `object_t` of the 64-bit RISC-V kernel. -/
inductive ObjectType where
  | untyped
  | tcb
  | endpoint
  | notification
  | capTable
  | schedContext
  | reply
  | gigaPage
  | page4K
  | megaPage
  | pageTable
  deriving DecidableEq, Repr

/-- What a preemptible operation works on. `preemptionPoint` answers from the list: its next
entry, or that there is no interrupt pending when the list is empty. -/
structure Work where
  kernel : Kernel
  /-- the answers of the calls of `preemptionPoint` to come -/
  preempt : List Bool

/-- A slot gets a capability without a change of the mapping database. -/
def Work.setCap (w : Work) (slot : Slot) (cap : Cap) : Work :=
  { w with kernel := { w.kernel with cspace := w.kernel.cspace.setCap slot cap } }

/-- `preemptionPoint` of the standard kernel; true if the operation is preempted. -/
def preemptionPoint (w : Work) : Bool × Work :=
  match w.preempt with
  | [] => (false, w)
  | answer :: rest => (answer, { w with preempt := rest })

/-- `exception_t` of a preemptible operation. -/
inductive Status where
  | none
  | preempted
  deriving DecidableEq, Repr

variable (cfg : Config)

/-- The object types in the order of their numbers. -/
def objectTypes : List ObjectType :=
  [.untyped, .tcb, .endpoint, .notification, .capTable] ++
    (if cfg.mcs then [.schedContext, .reply] else []) ++ [.gigaPage, .page4K, .megaPage, .pageTable]

/-! ### Sizes and addresses -/

/-- `seL4_MinUntypedBits`. -/
def minUntypedBits : Nat := 4

/-- `seL4_MaxUntypedBits`. -/
def maxUntypedBits : Nat := 38

/-- `seL4_MinSchedContextBits`. -/
def minSchedContextBits : Nat := 8

/-- `CONFIG_RETYPE_FAN_OUT_LIMIT`. -/
def retypeFanOutLimit : Nat := 256

/-- `CONFIG_RESET_CHUNK_BITS`. -/
def resetChunkBits : Nat := 8

def getObjectSize (t : ObjectType) (userObjSize : Nat) : Nat :=
  match t with
  | .tcb => tcbBits cfg
  | .endpoint => endpointBits
  | .notification => notificationBits cfg
  | .capTable => (slotBits + userObjSize) % 2 ^ 64
  | .untyped => userObjSize
  | .schedContext => userObjSize
  | .reply => replyBits
  | .gigaPage => pageBitsForSize .giga
  | .page4K => pageBitsForSize .page4K
  | .megaPage => pageBitsForSize .mega
  | .pageTable => 12

/-- `Arch_isFrameType`. -/
def ObjectType.isFrame : ObjectType → Bool
  | .gigaPage | .page4K | .megaPage => true
  | _ => false

/-- `FREE_INDEX_TO_OFFSET`. -/
def freeIndexToOffset (freeIndex : Nat) : Nat := freeIndex * 2 ^ minUntypedBits % 2 ^ 64

/-- `OFFSET_TO_FREE_INDEX`. -/
def offsetToFreeIndex (offset : Nat) : Nat := offset / 2 ^ minUntypedBits

/-- `GET_FREE_REF`. -/
def getFreeRef (base freeIndex : Nat) : Nat := (base + freeIndexToOffset freeIndex) % 2 ^ 64

/-- `GET_FREE_INDEX`. -/
def getFreeIndex (base free : Nat) : Nat := offsetToFreeIndex ((free + 2 ^ 64 - base) % 2 ^ 64)

def alignUp (baseValue alignment : Nat) : Nat :=
  (baseValue + mask alignment) % 2 ^ 64 / 2 ^ alignment * 2 ^ alignment

/-! ### Decoding -/

/-- What `decodeUntypedInvocation` lets through. -/
structure RetypeOp where
  reset : Bool
  retypeBase : Ptr
  newType : ObjectType
  userSize : Nat
  destCNode : Ptr
  destOffset : Nat
  destLength : Nat
  deviceMemory : Bool
  deriving DecidableEq, Repr

/-- The object type and its size in bits, if they are possible. -/
def checkNewType (newType userObjSize : Nat) : Decode (ObjectType × Nat) :=
  match (objectTypes cfg)[newType]? with
  | none => syscallError (.invalidArgument 0)
  | some t =>
    let objectSize := getObjectSize cfg t userObjSize
    if wordBits ≤ userObjSize ∨ maxUntypedBits < objectSize then
      syscallError (.rangeError 0 maxUntypedBits)
    else if t = .capTable ∧ userObjSize = 0 then syscallError (.invalidArgument 1)
    else if t = .untyped ∧ userObjSize < minUntypedBits then syscallError (.invalidArgument 1)
    else if t = .schedContext ∧ userObjSize < minSchedContextBits then
      syscallError (.invalidArgument 1)
    else pure (t, objectSize)

/-- The CNode for the new capabilities. -/
def retypeNode (s : Kernel) (root : Slot) (nodeIndex : Word) (nodeDepth : Nat) :
    Decode CNodeCap := do
  let nodeCap ←
    if nodeDepth = 0 then pure (s.cap root)
    else do
      let slot ← lookupSlotForCNodeOp false s (s.cap root) nodeIndex nodeDepth
      pure (s.cap slot)
  match nodeCap with
  | .cnode node => pure node
  | _ => lookupError false (.missingCapability nodeDepth)

/-- The window of destination slots is within the CNode and empty. -/
def checkWindow (s : Kernel) (node : CNodeCap) (nodeOffset nodeWindow : Nat) : Decode Unit :=
  let nodeSize := 2 ^ node.capCNodeRadix
  if nodeSize - 1 < nodeOffset then syscallError (.rangeError 0 (nodeSize - 1))
  else if nodeWindow < 1 ∨ retypeFanOutLimit < nodeWindow then
    syscallError (.rangeError 1 retypeFanOutLimit)
  else if nodeSize - nodeOffset < nodeWindow then
    syscallError (.rangeError 1 (nodeSize - nodeOffset))
  else if (List.range nodeWindow).all fun i =>
      ensureEmptySlot s.cspace { base := node.capCNodePtr, index := nodeOffset + i } then
    pure ()
  else syscallError .deleteFirst

/-- The free index to start from, and whether the untyped is reset. -/
def retypeStart (slot : Slot) (c : UntypedCap) (s : Kernel) : Nat × Bool :=
  if ensureNoChildren cfg s.cspace slot then (0, true) else (c.capFreeIndex, false)

/-- `decodeUntypedInvocation`, for the capability `c` in `slot`. -/
def decodeUntypedInvocation (m : Message) (slot : Slot) (c : UntypedCap) (s : Kernel) :
    Decode RetypeOp :=
  match m.extraCaps with
  | [] => syscallError .truncatedMessage
  | root :: _ =>
    if m.words.length < 6 then syscallError .truncatedMessage
    else do
      let userObjSize := (m.arg 1).toNat
      let nodeOffset := (m.arg 4).toNat
      let nodeWindow := (m.arg 5).toNat
      let (newType, objectSize) ← checkNewType cfg (m.arg 0).toNat userObjSize
      let node ← retypeNode s root (m.arg 2) (m.arg 3).toNat
      checkWindow s node nodeOffset nodeWindow
      let (freeIndex, reset) := retypeStart cfg slot c s
      let untypedFreeBytes := (2 ^ c.capBlockSize + 2 ^ 64 - freeIndexToOffset freeIndex) % 2 ^ 64
      if untypedFreeBytes / 2 ^ objectSize < nodeWindow then
        syscallError (.notEnoughMemory untypedFreeBytes)
      else if c.capIsDevice = true ∧ newType.isFrame = false ∧ newType ≠ .untyped then
        syscallError (.invalidArgument 1)
      else
        pure
          { reset := reset
            retypeBase := alignUp (getFreeRef c.capPtr freeIndex) objectSize
            newType := newType
            userSize := userObjSize
            destCNode := node.capCNodePtr
            destOffset := nodeOffset
            destLength := nodeWindow
            deviceMemory := c.capIsDevice }

/-! ### Creating objects -/

/-- The capability that `createObject` returns. -/
def newObjectCap (t : ObjectType) (regionBase : Ptr) (userSize : Nat) (deviceMemory : Bool) : Cap :=
  let frame (size : PageSize) : Cap :=
    .frame
      { capFMappedASID := 0
        capFBasePtr := regionBase
        capFSize := size
        capFVMRights := .readWrite
        capFIsDevice := deviceMemory
        capFMappedAddress := 0 }
  match t with
  | .tcb => .thread regionBase
  | .endpoint =>
    .endpoint
      { capEPBadge := 0
        capCanGrantReply := true
        capCanGrant := true
        capCanSend := true
        capCanReceive := true
        capEPPtr := regionBase }
  | .notification =>
    .notification
      { capNtfnBadge := 0
        capNtfnCanReceive := true
        capNtfnCanSend := true
        capNtfnPtr := regionBase }
  | .capTable =>
    .cnode
      { capCNodeRadix := userSize
        capCNodeGuardSize := 0
        capCNodeGuard := 0
        capCNodePtr := regionBase }
  | .untyped =>
    .untyped
      { capFreeIndex := 0
        capIsDevice := deviceMemory
        capBlockSize := userSize
        capPtr := regionBase }
  | .schedContext => .schedContext regionBase userSize
  | .reply => .replyObject regionBase true
  | .gigaPage => frame .giga
  | .page4K => frame .page4K
  | .megaPage => frame .mega
  | .pageTable =>
    .pageTable
      { capPTMappedASID := 0
        capPTBasePtr := regionBase
        capPTIsMapped := false
        capPTMappedAddress := 0 }

/-- The register `SSTATUS`, and its bit `SPIE`. -/
def sstatus : Nat := 32

def sstatusSPIE : Word := 0x20

/-- The non-zero fields of a new thread; the memory of the other objects is as it was
cleared. -/
def initObject (t : ObjectType) (regionBase : Ptr) (s : Kernel) : Kernel :=
  match t with
  | .tcb =>
    { s.setRegister regionBase sstatus sstatusSPIE with
      tcbTimeSlice :=
        if cfg.mcs then s.tcbTimeSlice
        else Function.update s.tcbTimeSlice regionBase cfg.timeSlice
      tcbDomain := Function.update s.tcbDomain regionBase s.ksCurDomain }
  | _ => s

/-- The address of the object with number `i` of a retype. -/
def RetypeOp.address (op : RetypeOp) (i : Nat) : Ptr :=
  op.retypeBase + i * 2 ^ getObjectSize cfg op.newType op.userSize

/-- One round of `createNewObjects`. -/
def createNewObject (op : RetypeOp) (parent : Slot) (s : Kernel) (i : Nat) : Kernel :=
  let regionBase := op.address cfg i
  let s := initObject cfg op.newType regionBase s
  { s with
    cspace := (insertNewCap parent { base := op.destCNode, index := op.destOffset + i }
      (newObjectCap op.newType regionBase op.userSize op.deviceMemory) s.cspace) }

def createNewObjects (op : RetypeOp) (parent : Slot) (s : Kernel) : Kernel :=
  (List.range op.destLength).foldl (createNewObject cfg op parent) s

/-! ### Carrying out a retype -/

/-- `clearMemory`. -/
def clearMemory (ptr bits : Nat) (s : Kernel) : Kernel :=
  { s with memory := fun a => if ptr ≤ a ∧ a < ptr + 2 ^ bits then 0 else s.memory a }

/-- The loop of `resetUntypedCap` for the first `k` chunks, from the last one on. -/
def resetChunks (srcSlot : Slot) (c : UntypedCap) : Nat → Work → Status × Work
  | 0, w => (.none, w)
  | k + 1, w =>
    let offset := k * 2 ^ resetChunkBits
    let w := { w with kernel := clearMemory (c.capPtr + offset) resetChunkBits w.kernel }
    let w := w.setCap srcSlot (.untyped { c with capFreeIndex := offsetToFreeIndex offset })
    let (preempted, w) := preemptionPoint w
    if preempted then (.preempted, w) else resetChunks srcSlot c k w

def resetUntypedCap (srcSlot : Slot) (c : UntypedCap) (w : Work) : Status × Work :=
  let offset := freeIndexToOffset c.capFreeIndex
  if offset = 0 then (.none, w)
  else if c.capIsDevice = true ∨ c.capBlockSize < resetChunkBits then
    let s := if c.capIsDevice then w.kernel else clearMemory c.capPtr c.capBlockSize w.kernel
    (.none, { w with kernel := s }.setCap srcSlot (.untyped { c with capFreeIndex := 0 }))
  else resetChunks srcSlot c ((offset - 1) / 2 ^ resetChunkBits + 1) w

/-- The end of `invokeUntyped_Retype`: the free index moves behind the new objects. -/
def retypeObjects (op : RetypeOp) (srcSlot : Slot) (c : UntypedCap) (s : Kernel) : Kernel :=
  let freeRef := op.address cfg op.destLength % 2 ^ 64
  createNewObjects cfg op srcSlot
    { s with
      cspace := (s.cspace.setCap srcSlot
        (.untyped { c with capFreeIndex := getFreeIndex c.capPtr freeRef })) }

def invokeUntypedRetype (op : RetypeOp) (srcSlot : Slot) (c : UntypedCap) (w : Work) :
    Status × Work :=
  let (status, w) := if op.reset then resetUntypedCap srcSlot c w else (.none, w)
  match status with
  | .preempted => (.preempted, w)
  | .none => (.none, { w with kernel := retypeObjects cfg op srcSlot c w.kernel })

end SeL4Kernel
