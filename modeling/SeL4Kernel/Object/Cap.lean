import SeL4Kernel.Kernel.Sporadic

/-!
# Capabilities

The capability types of `structures_64.bf` and of the RISC-V port, and the
functions of `src/object/objecttype.c` that look at capabilities only.

An object is named by its address. A thread is named by the address of its
block, whose first part holds the thread's own slots (`TCB_PTR_CTE_PTR`), and a
slot by its CNode or thread and its index there. A zombie keeps its pointer and
its count in one word, the count in bits that the alignment of the object leaves
free; here they are two fields.

* `sameRegionAs`, `sameObjectAs`: the two tests by which the mapping database
  tells ancestors and copies.
* `isCapRevocable`: whether an inserted capability starts a subtree of its own.
* `updateCapData`, `maskCapRights`: what copying and minting do to the fields.
-/

namespace SeL4Kernel

/-- `word_t`. -/
abbrev Word := BitVec 64

/-- The address of a kernel object. -/
abbrev Ptr := Nat

/-- The build options the modelled code depends on: `CONFIG_KERNEL_MCS`,
`CONFIG_HAVE_FPU`, `CONFIG_NUM_DOMAINS`, `CONFIG_NUM_PRIORITIES`, the domain
schedule `ksDomSchedule` (domains and lengths), the timer with its conversions
between ticks and microseconds, and the range of budgets in microseconds;
`CONFIG_TIME_SLICE` of the standard kernel; the highest interrupt number and the
node that holds the notifications of interrupts. -/
structure Config where
  mcs : Bool
  haveFpu : Bool
  numDomains : Nat
  numPriorities : Nat
  domSchedule : List (Nat × Nat)
  timer : Sporadic.TimerConfig
  timerPrecision : Nat
  maxTicksToUs : Nat
  ticksToUs : Nat → Nat
  usToTicks : Nat → Nat
  minBudgetUs : Nat
  maxBudgetUs : Nat
  timeSlice : Nat
  maxIRQ : Nat
  intStateIRQNode : Ptr
  numDomains_pos : 0 < numDomains
  numPriorities_pos : 0 < numPriorities
  numPriorities_le : numPriorities ≤ 256
  domSchedule_lt : ∀ entry ∈ domSchedule, entry.1 < numDomains

/-- `wordBits`. -/
def wordBits : Nat := 64

/-- `MASK(n)`. -/
def mask (n : Nat) : Nat := 2 ^ n - 1

/-! ### Slots and capabilities -/

/-- A capability table entry, by its CNode (or thread) and its index. -/
structure Slot where
  base : Ptr
  index : Nat
  deriving DecidableEq, Repr

structure UntypedCap where
  capFreeIndex : Nat
  capIsDevice : Bool
  capBlockSize : Nat
  capPtr : Ptr
  deriving DecidableEq, Repr

structure EndpointCap where
  capEPBadge : Word
  capCanGrantReply : Bool
  capCanGrant : Bool
  capCanSend : Bool
  capCanReceive : Bool
  capEPPtr : Ptr
  deriving DecidableEq, Repr

structure NotificationCap where
  capNtfnBadge : Word
  capNtfnCanReceive : Bool
  capNtfnCanSend : Bool
  capNtfnPtr : Ptr
  deriving DecidableEq, Repr

structure CNodeCap where
  capCNodeRadix : Nat
  capCNodeGuardSize : Nat
  capCNodeGuard : Nat
  capCNodePtr : Ptr
  deriving DecidableEq, Repr

inductive ZombieType where
  | zombieTCB
  | zombieCNode (radix : Nat)
  deriving DecidableEq, Repr

structure ZombieCap where
  capZombieType : ZombieType
  capZombieNumber : Nat
  capZombiePtr : Ptr
  deriving DecidableEq, Repr

/-- `vm_page_size_t`. -/
inductive PageSize where
  | page4K
  | mega
  | giga
  deriving DecidableEq, Repr

/-- `vm_rights_t`. -/
inductive VMRights where
  | kernelOnly
  | readOnly
  | readWrite
  deriving DecidableEq, Repr

structure FrameCap where
  capFMappedASID : Nat
  capFBasePtr : Ptr
  capFSize : PageSize
  capFVMRights : VMRights
  capFIsDevice : Bool
  capFMappedAddress : Word
  deriving DecidableEq, Repr

structure PageTableCap where
  capPTMappedASID : Nat
  capPTBasePtr : Ptr
  capPTIsMapped : Bool
  capPTMappedAddress : Word
  deriving DecidableEq, Repr

/-- `cap_t`. The reply capability names the thread that waits for the reply in
the standard kernel (`reply`) and a reply object in the MCS kernel
(`replyObject`). -/
inductive Cap where
  | null
  | untyped (c : UntypedCap)
  | endpoint (c : EndpointCap)
  | notification (c : NotificationCap)
  | reply (capReplyCanGrant capReplyMaster : Bool) (capTCBPtr : Ptr)
  | replyObject (capReplyPtr : Ptr) (capReplyCanGrant : Bool)
  | cnode (c : CNodeCap)
  | thread (capTCBPtr : Ptr)
  | irqControl
  | irqHandler (capIRQ : Nat)
  | zombie (c : ZombieCap)
  | domain
  | schedContext (capSCPtr : Ptr) (capSCSizeBits : Nat)
  | schedControl (core : Nat)
  | frame (c : FrameCap)
  | pageTable (c : PageTableCap)
  | asidControl
  | asidPool (capASIDBase : Nat) (capASIDPool : Ptr)
  deriving DecidableEq, Repr

/-- `isArchCap`: the odd capability tags. -/
def isArchCap : Cap → Bool
  | .frame _ | .pageTable _ | .asidControl | .asidPool _ _ => true
  | _ => false

/-! ### The memory of an object -/

/-- `seL4_SlotBits`. -/
def slotBits : Nat := 5

def endpointBits : Nat := 4

def notificationBits (cfg : Config) : Nat := if cfg.mcs then 6 else 5

def replyBits : Nat := 5

def tcbBits (cfg : Config) : Nat := if cfg.haveFpu then 11 else 10

/-- `pageBitsForSize`. -/
def pageBitsForSize : PageSize → Nat
  | .page4K => 12
  | .mega => 21
  | .giga => 30

/-- `cap_get_capSizeBits`. -/
def capSizeBits (cfg : Config) : Cap → Nat
  | .untyped c => c.capBlockSize
  | .endpoint _ => endpointBits
  | .notification _ => notificationBits cfg
  | .cnode c => c.capCNodeRadix + slotBits
  | .thread _ => tcbBits cfg
  | .zombie c =>
    match c.capZombieType with
    | .zombieTCB => tcbBits cfg
    | .zombieCNode radix => radix + slotBits
  | .replyObject _ _ => replyBits
  | .schedContext _ sizeBits => sizeBits
  | .frame c => pageBitsForSize c.capFSize
  | .pageTable _ => 12
  | .asidPool _ _ => 12
  | .null | .domain | .reply _ _ _ | .irqControl | .irqHandler _ | .schedControl _
  | .asidControl => 0

/-- `cap_get_capIsPhysical`. -/
def capIsPhysical : Cap → Bool
  | .untyped _ | .endpoint _ | .notification _ | .cnode _ | .thread _ | .zombie _
  | .replyObject _ _ | .schedContext _ _ | .frame _ | .pageTable _ | .asidPool _ _ => true
  | .null | .domain | .reply _ _ _ | .irqControl | .irqHandler _ | .schedControl _
  | .asidControl => false

/-- `cap_get_capPtr`. -/
def capPtr : Cap → Ptr
  | .untyped c => c.capPtr
  | .endpoint c => c.capEPPtr
  | .notification c => c.capNtfnPtr
  | .cnode c => c.capCNodePtr
  | .thread tcb => tcb
  | .zombie c => c.capZombiePtr
  | .replyObject r _ => r
  | .schedContext sc _ => sc
  | .frame c => c.capFBasePtr
  | .pageTable c => c.capPTBasePtr
  | .asidPool _ pool => pool
  | .null | .domain | .reply _ _ _ | .irqControl | .irqHandler _ | .schedControl _
  | .asidControl => 0

/-! ### Comparing capabilities -/

/-- The address of the last byte, as the code computes it in a word. -/
def regionTop (base bits : Nat) : Nat := (base + mask bits) % 2 ^ 64

/-- The region test both `sameRegionAs` and `Arch_sameRegionAs` make. -/
def regionIn (aBase aBits bBase bBits : Nat) : Bool :=
  aBase ≤ bBase && regionTop bBase bBits ≤ regionTop aBase aBits &&
    bBase ≤ regionTop bBase bBits

/-- `Arch_sameRegionAs`. -/
def archSameRegionAs : Cap → Cap → Bool
  | .frame a, .frame b =>
    regionIn a.capFBasePtr (pageBitsForSize a.capFSize) b.capFBasePtr (pageBitsForSize b.capFSize)
  | .pageTable a, .pageTable b => a.capPTBasePtr == b.capPTBasePtr
  | .asidControl, .asidControl => true
  | .asidPool _ a, .asidPool _ b => a == b
  | _, _ => false

def sameRegionAs (cfg : Config) (capA capB : Cap) : Bool :=
  match capA, capB with
  | .untyped a, b =>
    capIsPhysical b && regionIn a.capPtr a.capBlockSize (capPtr b) (capSizeBits cfg b)
  | .endpoint a, .endpoint b => a.capEPPtr == b.capEPPtr
  | .notification a, .notification b => a.capNtfnPtr == b.capNtfnPtr
  | .cnode a, .cnode b =>
    a.capCNodePtr == b.capCNodePtr && a.capCNodeRadix == b.capCNodeRadix
  | .thread a, .thread b => a == b
  | .reply _ _ a, .reply _ _ b => a == b
  | .replyObject a _, .replyObject b _ => a == b
  | .domain, .domain => true
  | .irqControl, .irqControl => true
  | .irqControl, .irqHandler _ => true
  | .irqHandler a, .irqHandler b => a == b
  | .schedContext a aBits, .schedContext b bBits => a == b && aBits == bBits
  | .schedControl _, .schedControl _ => true
  | a, b => isArchCap a && isArchCap b && archSameRegionAs a b

/-- `Arch_sameObjectAs`. -/
def archSameObjectAs (capA capB : Cap) : Bool :=
  match capA, capB with
  | .frame a, .frame b =>
    a.capFBasePtr == b.capFBasePtr && a.capFSize == b.capFSize && a.capFIsDevice == b.capFIsDevice
  | a, b => archSameRegionAs a b

def sameObjectAs (cfg : Config) (capA capB : Cap) : Bool :=
  match capA, capB with
  | .untyped _, _ => false
  | .irqControl, .irqHandler _ => false
  | a, b =>
    if isArchCap a && isArchCap b then archSameObjectAs a b else sameRegionAs cfg a b

/-- Whether `derivedCap`, made from `srcCap`, starts a subtree of its own. -/
def isCapRevocable (derivedCap srcCap : Cap) : Bool :=
  match derivedCap, srcCap with
  | .endpoint d, .endpoint s => d.capEPBadge != s.capEPBadge
  | .notification d, .notification s => d.capNtfnBadge != s.capNtfnBadge
  | .irqHandler _, .irqControl => true
  | .untyped _, _ => true
  | _, _ => false

/-! ### Changing the fields of a capability -/

/-- `seL4_CapRights_t`. -/
structure CapRights where
  capAllowGrantReply : Bool
  capAllowGrant : Bool
  capAllowRead : Bool
  capAllowWrite : Bool
  deriving DecidableEq, Repr

/-- `maskVMRights`. -/
def maskVMRights (rights : VMRights) (capRights : CapRights) : VMRights :=
  match rights with
  | .readOnly => if capRights.capAllowRead then .readOnly else .kernelOnly
  | .readWrite =>
    if capRights.capAllowRead then
      if capRights.capAllowWrite then .readWrite else .readOnly
    else .kernelOnly
  | .kernelOnly => .kernelOnly

def maskCapRights (rights : CapRights) : Cap → Cap
  | .endpoint c => .endpoint { c with
      capCanSend := c.capCanSend && rights.capAllowWrite
      capCanReceive := c.capCanReceive && rights.capAllowRead
      capCanGrant := c.capCanGrant && rights.capAllowGrant
      capCanGrantReply := c.capCanGrantReply && rights.capAllowGrantReply }
  | .notification c => .notification { c with
      capNtfnCanSend := c.capNtfnCanSend && rights.capAllowWrite
      capNtfnCanReceive := c.capNtfnCanReceive && rights.capAllowRead }
  | .reply canGrant master tcb => .reply (canGrant && rights.capAllowGrant) master tcb
  | .replyObject r canGrant => .replyObject r (canGrant && rights.capAllowGrant)
  | .frame c => .frame { c with capFVMRights := maskVMRights c.capFVMRights rights }
  | cap => cap

/-- `updateCapData`. The data word of a CNode capability is
`seL4_CNode_CapData_t`: six bits of guard size below the guard. -/
def updateCapData (preserve : Bool) (newData : Word) : Cap → Cap
  | .endpoint c =>
    if preserve = false ∧ c.capEPBadge = 0 then .endpoint { c with capEPBadge := newData }
    else .null
  | .notification c =>
    if preserve = false ∧ c.capNtfnBadge = 0 then .notification { c with capNtfnBadge := newData }
    else .null
  | .cnode c =>
    let guardSize := newData.toNat % 2 ^ 6
    if wordBits < guardSize + c.capCNodeRadix then .null
    else .cnode { c with
      capCNodeGuard := newData.toNat / 2 ^ 6 % 2 ^ guardSize, capCNodeGuardSize := guardSize }
  | cap => cap

end SeL4Kernel
