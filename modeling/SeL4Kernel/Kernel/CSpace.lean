import SeL4Kernel.Object.Tcb

/-!
# Looking up capabilities

`src/kernel/cspace.c`: a capability address is resolved from its most significant
bit, one CNode after the other; each strips its guard and indexes by its radix.

The loop ends because every CNode resolves at least one bit; a CNode that
resolves none would make it run for ever (`noReturn`).
-/

namespace SeL4Kernel

/-- `resolveAddressBits_ret_t`. -/
inductive LookupResult where
  | found (slot : Slot) (bitsRemaining : Nat)
  | fault (luf : LookupFault)
  | noReturn
  deriving DecidableEq, Repr

/-- The loop of `resolveAddressBits`, at CNode `node` with `nBits` bits left. -/
def resolveLoop (cs : CSpace) (capptr : Word) : Nat → CNodeCap → Nat → LookupResult
  | 0, _, _ => .noReturn
  | fuel + 1, node, nBits =>
    let radixBits := node.capCNodeRadix
    let guardBits := node.capCNodeGuardSize
    let levelBits := radixBits + guardBits
    -- the shift is masked to a word's width, so it may wrap before the next test
    let guard := capptr.toNat / 2 ^ ((nBits + 2 ^ 64 - guardBits) % 2 ^ wordRadix) % 2 ^ guardBits
    if nBits < guardBits ∨ guard ≠ node.capCNodeGuard then
      .fault (.guardMismatch node.capCNodeGuard nBits guardBits)
    else if nBits < levelBits then .fault (.depthMismatch levelBits nBits)
    else
      let offset := capptr.toNat / 2 ^ (nBits - levelBits) % 2 ^ radixBits
      let slot : Slot := { base := node.capCNodePtr, index := offset }
      if nBits ≤ levelBits then .found slot 0
      else
        match cs.cap slot with
        | .cnode next => resolveLoop cs capptr fuel next (nBits - levelBits)
        | _ => .found slot (nBits - levelBits)

def resolveAddressBits (cs : CSpace) (nodeCap : Cap) (capptr : Word) (nBits : Nat) :
    LookupResult :=
  match nodeCap with
  | .cnode node => resolveLoop cs capptr (nBits + 1) node nBits
  | _ => .fault .invalidRoot

/-- `lookupSlot`, from the root of the thread's capability space. A lookup that
stops early at a slot that is no CNode is a success here. -/
def lookupSlot (s : Kernel) (thread : Ptr) (capptr : Word) :
    Except Stuck (Except LookupFault Slot) :=
  match resolveAddressBits s.cspace (s.cap (tcbSlot thread tcbCTable)) capptr wordBits with
  | .found slot _ => .ok (.ok slot)
  | .fault luf => .ok (.error luf)
  | .noReturn => .error .noReturn

/-- `lookupTargetSlot`: a lookup that has to use up all bits; `none` is an error. -/
def lookupTargetSlot (s : Kernel) (root : Cap) (capptr : Word) (depth : Nat) :
    Except Stuck (Option Slot) :=
  match root with
  | .cnode _ =>
    if depth < 1 ∨ wordBits < depth then .ok none
    else
      match resolveAddressBits s.cspace root capptr depth with
      | .found slot bitsRemaining => .ok (if bitsRemaining = 0 then some slot else none)
      | .fault _ => .ok none
      | .noReturn => .error .noReturn
  | _ => .ok none

/-- `lookupIPCBuffer`: the address of a thread's IPC buffer in kernel memory. -/
def lookupIPCBuffer (cfg : Config) (s : Kernel) (isReceiver : Bool) (thread : Ptr) :
    Option Nat :=
  match s.cap (tcbSlot thread (tcbBuffer cfg)) with
  | .frame c =>
    if c.capFIsDevice then none
    else if c.capFVMRights = .readWrite ∨ (isReceiver = false ∧ c.capFVMRights = .readOnly) then
      some (c.capFBasePtr + (s.tcbIPCBuffer thread).toNat % 2 ^ pageBitsForSize c.capFSize)
    else none
  | _ => none

end SeL4Kernel
