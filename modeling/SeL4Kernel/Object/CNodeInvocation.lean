import SeL4Kernel.Object.Invocation

/-!
# Invocations of CNodes

`decodeCNodeInvocation` of `src/object/cnode.c`: the checks before a capability is
copied, minted, moved, mutated, rotated, deleted or revoked, with the errors sent
back to the caller, and the functions that then change the capability space.
Of deletion, revocation and the cancelling of badged sends only the checks are here.
-/

namespace SeL4Kernel

/-- What the failure of a decode function leaves behind: `current_syscall_error` and,
after a failed lookup, `current_lookup_fault`. -/
structure DecodeError where
  error : SyscallError
  lookupFault : Option LookupFault
  deriving DecidableEq, Repr

/-- A decode function: it may get stuck, fail for the caller, or return. -/
abbrev Decode := ExceptT DecodeError (Except Stuck)

/-- Fail with an error that has no lookup fault. -/
def syscallError {α : Type} (e : SyscallError) : Decode α :=
  throw { error := e, lookupFault := none }

/-- Fail because of a lookup. -/
def lookupError {α : Type} (isSource : Bool) (luf : LookupFault) : Decode α :=
  throw { error := .failedLookup isSource, lookupFault := some luf }

/-- A message to the kernel: its words and the slots of its extra capabilities. -/
structure Message where
  words : List Word
  extraCaps : List Slot
  deriving DecidableEq, Repr

/-- `getSyscallArg`. -/
def Message.arg (m : Message) (i : Nat) : Word := m.words.getD i 0

/-- The invocation labels of a CNode. -/
inductive CNodeLabel where
  | revoke
  | delete
  | cancelBadgedSends
  | copy
  | mint
  | move
  | mutate
  | rotate
  | saveCaller
  deriving DecidableEq, Repr

/-- What `decodeCNodeInvocation` lets through. -/
inductive CNodeOp where
  | revoke (destSlot : Slot)
  | delete (destSlot : Slot)
  | cancelBadgedSends (c : EndpointCap)
  | insert (newCap : Cap) (srcSlot destSlot : Slot)
  | move (newCap : Cap) (srcSlot destSlot : Slot)
  | rotate (cap1 cap2 : Cap) (slot1 slot2 slot3 : Slot)
  | saveCaller (destSlot : Slot)
  deriving DecidableEq, Repr

/-- `lookupSlotForCNodeOp`. -/
def lookupSlotForCNodeOp (isSource : Bool) (s : Kernel) (root : Cap) (capptr : Word)
    (depth : Nat) : Decode Slot :=
  match root with
  | .cnode _ =>
    if depth < 1 ∨ wordBits < depth then syscallError (.rangeError 1 wordBits)
    else
      match resolveAddressBits s.cspace root capptr depth with
      | .found slot bitsRemaining =>
        if bitsRemaining = 0 then pure slot
        else lookupError isSource (.depthMismatch 0 bitsRemaining)
      | .fault luf => lookupError isSource luf
      | .noReturn => ExceptT.lift (.error .noReturn)
  | _ => lookupError isSource .invalidRoot

/-- `rightsFromWord`. -/
def rightsFromWord (w : Word) : CapRights :=
  { capAllowGrantReply := w.getLsbD 3
    capAllowGrant := w.getLsbD 2
    capAllowRead := w.getLsbD 1
    capAllowWrite := w.getLsbD 0 }

/-- `hasCancelSendRights`: the endpoint capability has all rights. -/
def hasCancelSendRights : Cap → Option EndpointCap
  | .endpoint c =>
    if c.capCanSend && c.capCanReceive && c.capCanGrantReply && c.capCanGrant then some c else none
  | _ => none

variable (cfg : Config)

/-- `deriveCap` with the error of a failure. -/
def deriveCapOrError (cs : CSpace) (slot : Slot) (cap : Cap) : Decode Cap :=
  match deriveCap cfg cs slot cap with
  | some newCap => pure newCap
  | none =>
    match cap with
    | .untyped _ => syscallError .revokeFirst
    | _ => syscallError .illegalOperation

/-- The capability for the destination of `CNodeCopy`, `CNodeMint`, `CNodeMove` and
`CNodeMutate`, and whether the source is given up. -/
def newCapFor (label : CNodeLabel) (srcSlot : Slot) (m : Message) (cs : CSpace) :
    Decode (Cap × Bool) :=
  let srcCap := cs.cap srcSlot
  match label with
  | .copy =>
    if m.words.length < 5 then syscallError .truncatedMessage
    else do
      let newCap ← deriveCapOrError cfg cs srcSlot
        (maskCapRights (rightsFromWord (m.arg 4)) srcCap)
      pure (newCap, false)
  | .mint =>
    if m.words.length < 6 then syscallError .truncatedMessage
    else do
      let newCap ← deriveCapOrError cfg cs srcSlot
        (updateCapData false (m.arg 5) (maskCapRights (rightsFromWord (m.arg 4)) srcCap))
      pure (newCap, false)
  | .mutate =>
    if m.words.length < 5 then syscallError .truncatedMessage
    else pure (updateCapData true (m.arg 4) srcCap, true)
  | _ => pure (srcCap, true)

/-- `CNodeCopy`, `CNodeMint`, `CNodeMove` and `CNodeMutate`. -/
def decodeCNodeCopy (label : CNodeLabel) (destSlot : Slot) (m : Message) (s : Kernel) :
    Decode CNodeOp :=
  match m.extraCaps with
  | [] => syscallError .truncatedMessage
  | srcRoot :: _ =>
    let srcDepth := (m.arg 3).toNat
    if m.words.length < 4 then syscallError .truncatedMessage
    else if ensureEmptySlot s.cspace destSlot = false then syscallError .deleteFirst
    else do
      let srcSlot ← lookupSlotForCNodeOp true s (s.cap srcRoot) (m.arg 2) srcDepth
      if s.cap srcSlot = .null then lookupError true (.missingCapability srcDepth)
      else do
        let (newCap, isMove) ← newCapFor cfg label srcSlot m s.cspace
        if newCap = .null then syscallError .illegalOperation
        else if isMove then pure (.move newCap srcSlot destSlot)
        else pure (.insert newCap srcSlot destSlot)

/-- `CNodeRotate`. -/
def decodeCNodeRotate (destSlot : Slot) (m : Message) (s : Kernel) : Decode CNodeOp :=
  match m.extraCaps with
  | pivotRoot :: srcRoot :: _ =>
    let pivotDepth := (m.arg 4).toNat
    let srcDepth := (m.arg 7).toNat
    if m.words.length < 8 then syscallError .truncatedMessage
    else do
      let srcSlot ← lookupSlotForCNodeOp true s (s.cap srcRoot) (m.arg 6) srcDepth
      let pivotSlot ← lookupSlotForCNodeOp true s (s.cap pivotRoot) (m.arg 3) pivotDepth
      if pivotSlot = srcSlot ∨ pivotSlot = destSlot then syscallError .illegalOperation
      else if srcSlot ≠ destSlot ∧ ensureEmptySlot s.cspace destSlot = false then
        syscallError .deleteFirst
      else if s.cap srcSlot = .null then lookupError true (.missingCapability srcDepth)
      else if s.cap pivotSlot = .null then lookupError false (.missingCapability pivotDepth)
      else
        let newSrcCap := updateCapData true (m.arg 5) (s.cap srcSlot)
        let newPivotCap := updateCapData true (m.arg 2) (s.cap pivotSlot)
        if newSrcCap = .null then syscallError .illegalOperation
        else if newPivotCap = .null then syscallError .illegalOperation
        else pure (.rotate newSrcCap newPivotCap srcSlot pivotSlot destSlot)
  | _ => syscallError .truncatedMessage

def decodeCNodeInvocation (label : CNodeLabel) (cap : Cap) (m : Message) (s : Kernel) :
    Decode CNodeOp :=
  if label = .saveCaller ∧ cfg.mcs = true then syscallError .illegalOperation
  else if m.words.length < 2 then syscallError .truncatedMessage
  else do
    let destSlot ← lookupSlotForCNodeOp false s cap (m.arg 0) (m.arg 1).toNat
    match label with
    | .copy | .mint | .move | .mutate => decodeCNodeCopy cfg label destSlot m s
    | .revoke => pure (.revoke destSlot)
    | .delete => pure (.delete destSlot)
    | .saveCaller =>
      if ensureEmptySlot s.cspace destSlot = false then syscallError .deleteFirst
      else pure (.saveCaller destSlot)
    | .cancelBadgedSends =>
      match hasCancelSendRights (s.cap destSlot) with
      | some c => pure (.cancelBadgedSends c)
      | none => syscallError .illegalOperation
    | .rotate => decodeCNodeRotate destSlot m s

/-! ### Carrying out an invocation -/

def invokeCNodeRotate (cap1 cap2 : Cap) (slot1 slot2 slot3 : Slot) (cs : CSpace) : CSpace :=
  if slot1 = slot3 then cteSwap cap1 slot1 cap2 slot2 cs
  else cteMove cap1 slot1 slot2 (cteMove cap2 slot2 slot3 cs)

/-- `invokeCNodeSaveCaller`, for the current thread `thread`. -/
def invokeCNodeSaveCaller (thread : Ptr) (destSlot : Slot) (cs : CSpace) : CSpace :=
  let srcSlot := tcbSlot thread tcbCaller
  match cs.cap srcSlot with
  | .reply canGrant false tcb => cteMove (.reply canGrant false tcb) srcSlot destSlot cs
  | _ => cs

end SeL4Kernel
