import SeL4Kernel.Kernel.Thread

/-!
# Messages

How a message gets from one thread to another: message registers, the IPC
buffer, the transfer of capabilities, and the messages the kernel makes itself
for a fault. The functions are those of `src/kernel/thread.c` (`doIPCTransfer`
and below), of `src/api/faults.c` and of the message part of `src/object/tcb.c`,
with the register numbers of the RISC-V port.
-/

namespace SeL4Kernel

variable (cfg : Config)

/-! ### The message information word -/

/-- `seL4_MessageInfo_t`, a word with fields of 52, 3, 2 and 7 bits. -/
structure MessageInfo where
  label : Nat
  capsUnwrapped : Nat
  extraCaps : Nat
  length : Nat
  deriving DecidableEq, Repr

/-- `seL4_MsgMaxLength`. -/
def msgMaxLength : Nat := 120

/-- `seL4_MsgMaxExtraCaps`. -/
def msgMaxExtraCaps : Nat := 3

def messageInfoFromWordRaw (w : Word) : MessageInfo where
  label := w.toNat / 2 ^ 12
  capsUnwrapped := w.toNat / 2 ^ 9 % 2 ^ 3
  extraCaps := w.toNat / 2 ^ 7 % 2 ^ 2
  length := w.toNat % 2 ^ 7

def messageInfoFromWord (w : Word) : MessageInfo :=
  let mi := messageInfoFromWordRaw w
  if msgMaxLength < mi.length then { mi with length := msgMaxLength } else mi

def wordFromMessageInfo (mi : MessageInfo) : Word :=
  BitVec.ofNat 64
    (mi.label * 2 ^ 12 + mi.capsUnwrapped * 2 ^ 9 + mi.extraCaps * 2 ^ 7 + mi.length)

/-! ### Registers of the RISC-V port -/

def capRegister : Nat := 9

def badgeRegister : Nat := 9

def msgInfoRegister : Nat := 10

def replyRegister : Nat := 15

/-- The register in which `seL4_NBSendRecv` passes its destination. -/
def nbsendRecvDest : Nat := 4

def faultIP : Nat := 33

def nextIP : Nat := 34

def nMsgRegisters : Nat := 4

def msgRegisters : List Nat := [11, 12, 13, 14]

def msgRegister (i : Nat) : Nat := msgRegisters.getD i 0

/-- `fault_messages`: the registers a fault message carries. -/
def syscallMessage : List Nat := [33, 1, 0, 9, 10, 11, 12, 13, 14, 15]

def exceptionMessage : List Nat := [33, 1]

def timeoutReplyMessage : List Nat :=
  [33, 0, 1, 2, 7, 8, 17, 18, 19, 20, 21, 22, 23, 24, 25, 26,
    9, 10, 11, 12, 13, 14, 15, 16, 4, 5, 6, 27, 28, 29, 30, 3]

/-! ### Words of the IPC buffer -/

/-- The address of word `i` of a buffer. -/
def bufferWord (buffer i : Nat) : Nat := buffer + 8 * i

def Kernel.setMemory (s : Kernel) (address : Nat) (w : Word) : Kernel :=
  { s with memory := Function.update s.memory address w }

/-- `setMR`: write message register `offset`, in a register or in the buffer, and
return the length of the message so far. -/
def setMR (receiver : Ptr) (receiveIPCBuffer : Option Nat) (offset : Nat) (w : Word)
    (s : Kernel) : Nat × Kernel :=
  if nMsgRegisters ≤ offset then
    match receiveIPCBuffer with
    | some buffer => (offset + 1, s.setMemory (bufferWord buffer (offset + 1)) w)
    | none => (nMsgRegisters, s)
  else (offset + 1, s.setRegister receiver (msgRegister offset) w)

/-- The register part of `copyMRs`. -/
def copyRegisters (sender receiver : Ptr) (n : Nat) (s : Kernel) : Kernel :=
  (List.range n).foldl
    (fun s i => s.setRegister receiver (msgRegister i) (s.registers sender (msgRegister i))) s

/-- The buffer part of `copyMRs`: words `n_msgRegisters` to `n`. -/
def copyBuffer (sendBuf recvBuf n : Nat) (s : Kernel) : Kernel :=
  (List.range (n - nMsgRegisters)).foldl
    (fun s i => s.setMemory (bufferWord recvBuf (nMsgRegisters + i + 1))
      (s.memory (bufferWord sendBuf (nMsgRegisters + i + 1)))) s

/-- `copyMRs`, which returns the number of words transferred. -/
def copyMRs (sender : Ptr) (sendBuf : Option Nat) (receiver : Ptr) (recvBuf : Option Nat)
    (n : Nat) (s : Kernel) : Nat × Kernel :=
  let s := copyRegisters sender receiver (min n nMsgRegisters) s
  match sendBuf, recvBuf with
  | some sendBuf, some recvBuf => (n, copyBuffer sendBuf recvBuf n s)
  | _, _ => (min n nMsgRegisters, s)

/-! ### Extra capabilities -/

/-- The loop of `lookupExtraCaps` from position `i` on; a failed lookup returns
the address and the reason. -/
def lookupExtraCapsLoop (s : Kernel) (thread : Ptr) (buffer : Nat) :
    Nat → Nat → Except Stuck (Except (Word × LookupFault) (List Slot))
  | 0, _ => .ok (.ok [])
  | n + 1, i => do
    let cptr := s.memory (bufferWord buffer (msgMaxLength + 2 + i))
    match ← lookupSlot s thread cptr with
    | .error luf => .ok (.error (cptr, luf))
    | .ok slot =>
      match ← lookupExtraCapsLoop s thread buffer n (i + 1) with
      | .error e => .ok (.error e)
      | .ok slots => .ok (.ok (slot :: slots))

/-- `lookupExtraCaps`: the slots of `current_extra_caps`. -/
def lookupExtraCaps (s : Kernel) (thread : Ptr) (bufferPtr : Option Nat) (info : MessageInfo) :
    Except Stuck (Except (Word × LookupFault) (List Slot)) :=
  match bufferPtr with
  | none => .ok (.ok [])
  | some buffer => lookupExtraCapsLoop s thread buffer info.extraCaps 0

/-- `getReceiveSlots`: the slot the receiver has named for a capability. -/
def getReceiveSlots (s : Kernel) (thread : Ptr) (buffer : Nat) : Except Stuck (Option Slot) := do
  let offset := msgMaxLength + msgMaxExtraCaps + 2
  match ← lookupSlot s thread (s.memory (bufferWord buffer offset)) with
  | .error _ => .ok none
  | .ok root =>
    match ← lookupTargetSlot s (s.cap root) (s.memory (bufferWord buffer (offset + 1)))
        (s.memory (bufferWord buffer (offset + 2))).toNat with
    | none => .ok none
    | some slot => .ok (if s.cap slot = .null then some slot else none)

/-- The badge to send in place of a capability to the endpoint of the message. -/
def unwrappedBadge (endpoint : Option Ptr) : Cap → Option Word
  | .endpoint c => if some c.capEPPtr = endpoint then some c.capEPBadge else none
  | _ => none

/-- Insert the capability in `slot` into the receiver's slot; `none` ends the
transfer. The receiver has room for one capability. -/
def insertExtraCap (slot : Slot) (destSlot : Option Slot) (s : Kernel) : Option Kernel :=
  match destSlot, deriveCap cfg s.cspace slot (s.cap slot) with
  | some dest, some cap =>
    if cap = .null then none else some { s with cspace := cteInsert cap slot dest s.cspace }
  | _, _ => none

/-- The loop of `transferCaps`: `i` capabilities done, `unwrapped` the bits of
those for which only the badge was sent. -/
def transferCapsLoop (endpoint : Option Ptr) (receiveBuffer : Nat) :
    List Slot → Nat → Option Slot → Nat → Kernel → Nat × Nat × Kernel
  | [], i, _, unwrapped, s => (i, unwrapped, s)
  | slot :: slots, i, destSlot, unwrapped, s =>
    match unwrappedBadge endpoint (s.cap slot) with
    | some badge =>
      transferCapsLoop endpoint receiveBuffer slots (i + 1) destSlot (unwrapped ||| 2 ^ i)
        (s.setMemory (bufferWord receiveBuffer (msgMaxLength + 2 + i)) badge)
    | none =>
      match insertExtraCap cfg slot destSlot s with
      | none => (i, unwrapped, s)
      | some s => transferCapsLoop endpoint receiveBuffer slots (i + 1) none unwrapped s

/-- `transferCaps`: the capabilities in `slots` go to the receiver's slot. -/
def transferCaps (info : MessageInfo) (slots : List Slot) (endpoint : Option Ptr)
    (receiver : Ptr) (receiveBuffer : Option Nat) (s : Kernel) :
    Except Stuck (MessageInfo × Kernel) :=
  let info := { info with extraCaps := 0, capsUnwrapped := 0 }
  match slots, receiveBuffer with
  | [], _ => .ok (info, s)
  | _, none => .ok (info, s)
  | slots, some buffer => do
    let destSlot ← getReceiveSlots s receiver buffer
    let (i, unwrapped, s) := transferCapsLoop cfg endpoint buffer slots 0 destSlot 0 s
    .ok ({ info with extraCaps := i, capsUnwrapped := unwrapped }, s)

/-! ### Transfer of a message -/

/-- The end of every transfer: message information and badge. -/
def deliver (receiver : Ptr) (info : MessageInfo) (badge : Word) (s : Kernel) : Kernel :=
  (s.setRegister receiver msgInfoRegister (wordFromMessageInfo info)).setRegister
    receiver badgeRegister badge

/-- The slots of `current_extra_caps` for a transfer: none without the grant right,
and none if a lookup fails. -/
def grantedCaps (s : Kernel) (sender : Ptr) (sendBuffer : Option Nat) (canGrant : Bool)
    (tag : MessageInfo) : Except Stuck (List Slot) :=
  if canGrant then do
    match ← lookupExtraCaps s sender sendBuffer tag with
    | .ok slots => .ok slots
    | .error _ => .ok []
  else .ok []

def doNormalTransfer (sender : Ptr) (sendBuffer : Option Nat) (endpoint : Option Ptr)
    (badge : Word) (canGrant : Bool) (receiver : Ptr) (receiveBuffer : Option Nat) (s : Kernel) :
    Except Stuck Kernel := do
  let tag := messageInfoFromWord (s.registers sender msgInfoRegister)
  let slots ← grantedCaps s sender sendBuffer canGrant tag
  let (msgTransferred, s) := copyMRs sender sendBuffer receiver receiveBuffer tag.length s
  let (tag, s) ← transferCaps cfg tag slots endpoint receiver receiveBuffer s
  .ok (deliver receiver { tag with length := msgTransferred } badge s)

/-! ### Fault messages -/

/-- `schedContext_updateConsumed`: the ticks that can be reported are taken out of
`scConsumed` and returned in microseconds. -/
def schedContextUpdateConsumed (sc : Ptr) (s : Kernel) : Nat × Kernel :=
  let consumed := s.scConsumed sc
  if cfg.maxTicksToUs ≤ consumed then
    (cfg.maxTicksToUs, { s with
      scConsumed := Function.update s.scConsumed sc (consumed - cfg.maxTicksToUs) })
  else
    (cfg.ticksToUs consumed, { s with scConsumed := Function.update s.scConsumed sc 0 })

/-- Write a list of message registers, starting at `offset`. -/
def setMRs (receiver : Ptr) (buffer : Option Nat) : Nat → List Word → Kernel → Nat × Kernel
  | offset, [], s => (offset, s)
  | offset, [w], s => setMR receiver buffer offset w s
  | offset, w :: ws, s =>
    setMRs receiver buffer (offset + 1) ws (setMR receiver buffer offset w s).2

/-- The words of a lookup failure in a capability fault message. -/
def lookupFailureWords : LookupFault → List Nat
  | .invalidRoot => [1]
  | .missingCapability bitsLeft => [2, bitsLeft]
  | .depthMismatch bitsFound bitsLeft => [3, bitsLeft, bitsFound]
  | .guardMismatch guardFound bitsLeft bitsFound => [4, bitsLeft, guardFound, bitsFound]

/-- `setMRs_fault`: the message of a fault and its length. -/
def setMRsFault (sender receiver : Ptr) (buffer : Option Nat) (s : Kernel) : Nat × Kernel :=
  let reg := s.registers sender
  match s.tcbFault sender with
  | .null => (0, s)
  | .capFault address inReceivePhase =>
    setMRs receiver buffer 0
      (reg faultIP :: address :: (if inReceivePhase then 1 else 0) ::
        (lookupFailureWords (s.tcbLookupFailure sender)).map (BitVec.ofNat 64)) s
  | .unknownSyscall syscallNumber =>
    setMRs receiver buffer 0 (syscallMessage.map reg ++ [syscallNumber]) s
  | .userException number code =>
    setMRs receiver buffer 0 (exceptionMessage.map reg ++ [number, code]) s
  | .timeout badge =>
    let (len, s) := setMR receiver buffer 0 badge s
    match s.tcbSchedContext sender with
    | none => (len, s)
    | some sc =>
      let (consumed, s) := schedContextUpdateConsumed cfg sc s
      setMR receiver buffer len (BitVec.ofNat 64 consumed) s
  | .vmFault address fsr instructionFault =>
    setMRs receiver buffer 0
      [reg faultIP, address, if instructionFault then 1 else 0, fsr] s

/-- `seL4_FaultType`. -/
def faultType : Fault → Nat
  | .null => 0
  | .capFault _ _ => 1
  | .unknownSyscall _ => 2
  | .userException _ _ => 3
  | .timeout _ => 5
  | .vmFault _ _ _ => if cfg.mcs then 6 else 5

def doFaultTransfer (badge : Word) (sender receiver : Ptr) (buffer : Option Nat) (s : Kernel) :
    Kernel :=
  let label := faultType cfg (s.tcbFault sender)
  let (sent, s) := setMRsFault cfg sender receiver buffer s
  deliver receiver { label := label, capsUnwrapped := 0, extraCaps := 0, length := sent } badge s

def doIPCTransfer (sender : Ptr) (endpoint : Option Ptr) (badge : Word) (grant : Bool)
    (receiver : Ptr) (s : Kernel) : Except Stuck Kernel :=
  let receiveBuffer := lookupIPCBuffer cfg s true receiver
  if s.tcbFault sender = .null then
    doNormalTransfer cfg sender (lookupIPCBuffer cfg s false sender) endpoint badge grant
      receiver receiveBuffer s
  else .ok (doFaultTransfer cfg badge sender receiver receiveBuffer s)

/-- `copyMRsFaultReply`: the words of a fault reply go to the registers of the
faulting thread. -/
def copyMRsFaultReply (sender receiver : Ptr) (message : List Nat) (length : Nat) (s : Kernel) :
    Kernel :=
  let words := List.range (min length message.length)
  let s := (words.take nMsgRegisters).foldl
    (fun s i => s.setRegister receiver (message.getD i 0) (s.registers sender (msgRegister i))) s
  match lookupIPCBuffer cfg s false sender with
  | none => s
  | some sendBuf => (words.drop nMsgRegisters).foldl
      (fun s i => s.setRegister receiver (message.getD i 0)
        (s.memory (bufferWord sendBuf (i + 1)))) s

/-- `handleFaultReply`: whether the faulting thread shall be restarted. -/
def handleFaultReply (receiver sender : Ptr) (s : Kernel) : Bool × Kernel :=
  let tag := messageInfoFromWord (s.registers sender msgInfoRegister)
  match s.tcbFault receiver with
  | .capFault _ _ | .vmFault _ _ _ | .null => (true, s)
  | .unknownSyscall _ =>
    (tag.label = 0, copyMRsFaultReply cfg sender receiver syscallMessage tag.length s)
  | .userException _ _ =>
    (tag.label = 0, copyMRsFaultReply cfg sender receiver exceptionMessage tag.length s)
  | .timeout _ =>
    (tag.label = 0, copyMRsFaultReply cfg sender receiver timeoutReplyMessage tag.length s)

/-! ### Answers of the kernel -/

/-- `replyFromKernel_success_empty`. -/
def replyFromKernelSuccessEmpty (thread : Ptr) (s : Kernel) : Kernel :=
  (s.setRegister thread badgeRegister 0).setRegister thread msgInfoRegister
    (wordFromMessageInfo { label := 0, capsUnwrapped := 0, extraCaps := 0, length := 0 })

/-- `doNBRecvFailedTransfer`. -/
def doNBRecvFailedTransfer (thread : Ptr) (s : Kernel) : Kernel :=
  s.setRegister thread badgeRegister 0

/-- `updateRestartPC`. -/
def updateRestartPC (tcb : Ptr) (s : Kernel) : Kernel :=
  s.setRegister tcb faultIP (s.registers tcb nextIP)

end SeL4Kernel
