import Mathlib.Algebra.Group.Int.Defs
import SeL4Kernel.GuestRam.Regions
import SeL4Kernel.Lib.Loop
import SeL4Kernel.Lib.Outcome
import SeL4Kernel.Lib.Scatter

/-!
# The emulated virtio devices

A guest shares two rings with its virtual network card or console: a receive and
a transmit queue, each with a table of descriptors, a ring of available chain
heads and a ring of used ones. All of that lies in the guest's own memory, and
the monitor reads and writes it byte by byte with `vmGuestReadMem` and
`vmGuestWriteMem`.

The functions are those of `virtio_emul.c`, `virtio_net_emul.c` and
`virtio_console_emul.c`. Three things are kept apart from an ordinary result:

* a variable that is read although the access that should have filled it was
  refused (`indeterminate`);
* an access outside the device's packet buffer (`overrun`);
* a loop that has not ended after the rounds it was given (`noReturn`).

The pages of guest memory that lie in a registered region can be mapped, so that
an access is refused only by `isRamRegion`. The bytes of an access are those of its
pieces (`touched_eq`), below the last page of the address space.
-/

namespace SeL4Kernel.Virtio

open GuestRam (RamRegion isRamRegion)

/-- What can go wrong in a call. -/
inductive Failure
  | noReturn
  | indeterminate
  | divisionByZero
  | overrun
  deriving DecidableEq, Repr

/-- The content of a memory: its bytes by address. -/
abbrev Bytes := ℕ → UInt8

/-! ### Guest memory -/

/-- The bytes that `vm_ram_touch` hands to its callback, in order. -/
def touched (ram : List RamRegion) (address size : ℕ) : List ℕ :=
  let addr := address % 2 ^ 64
  if isRamRegion ram addr size then List.range' addr ((addr + size) % 2 ^ 64 - addr) else []

/-- The number that `bytes` stand for, least significant byte first. -/
def leNat : List UInt8 → ℕ
  | [] => 0
  | b :: bytes => b.toNat + 256 * leNat bytes

/-- The low `k` bytes of `n`, least significant first. -/
def leBytes : ℕ → ℕ → List UInt8
  | 0, _ => []
  | k + 1, n => UInt8.ofNat n :: leBytes k (n / 256)

/-! ### Rings and devices -/

inductive Queue
  | rx
  | tx
  deriving DecidableEq, Repr

/-- Where the guest has put the parts of a ring. -/
structure Vring where
  num : ℕ
  desc : ℕ
  avail : ℕ
  used : ℕ
  deriving DecidableEq, Repr

structure VringDesc where
  addr : ℕ
  len : ℕ
  flags : ℕ
  next : ℕ
  deriving DecidableEq, Repr

structure VringUsedElem where
  id : ℕ
  len : ℕ
  deriving DecidableEq, Repr

/-- What an observer of the device sees: chains that are taken from a queue,
entries that are put in its used ring and packets that leave. -/
inductive Event
  | taken (q : Queue) (head : ℕ)
  | used (q : Queue) (elem : VringUsedElem)
  | sent (packet : List UInt8)
  deriving DecidableEq, Repr

/-- A device with the guest memory it works on. `inFlight` are the heads in the
cookies that the network backend still holds; `buf` is the console's packet
buffer. -/
structure Emul where
  ram : List RamRegion
  mem : Bytes
  vring : Queue → Vring
  lastIdx : Queue → BitVec 16
  buf : Bytes
  inFlight : List ℕ
  trace : List Event

namespace Emul

def vmGuestWriteMem (e : Emul) (address : ℕ) (data : List UInt8) : Emul :=
  { e with mem := scatter e.mem (touched e.ram address data.length) data }

/-- The bytes that reach the destination. -/
def vmGuestReadMem (e : Emul) (address size : ℕ) : List UInt8 :=
  (touched e.ram address size).map e.mem

/-- Fill a local variable from guest memory. -/
def readLocal (e : Emul) (address size : ℕ) : Except Failure (List UInt8) :=
  let bytes := e.vmGuestReadMem address size
  if bytes.length = size then .ok bytes else .error .indeterminate

def log (e : Emul) (event : Event) : Emul := { e with trace := e.trace ++ [event] }

def ringAvailIdx (e : Emul) (v : Vring) : Except Failure (BitVec 16) := do
  let idx ← e.readLocal (v.avail + 2) 2
  return BitVec.ofNat 16 (leNat idx)

def ringAvail (e : Emul) (v : Vring) (idx : BitVec 16) : Except Failure ℕ :=
  if v.num = 0 then .error .divisionByZero
  else do
    let elem ← e.readLocal (v.avail + 4 + 2 * (idx.toNat % v.num)) 2
    return leNat elem

def ringDesc (e : Emul) (v : Vring) (idx : ℕ) : Except Failure VringDesc := do
  let desc ← e.readLocal (v.desc + 16 * idx) 16
  return {
    addr := leNat (desc.take 8)
    len := leNat ((desc.drop 8).take 4)
    flags := leNat ((desc.drop 12).take 2)
    next := leNat (desc.drop 14) }

def usedIdx (e : Emul) (v : Vring) : Except Failure ℕ := do
  let idx ← e.readLocal (v.used + 2) 2
  return leNat idx

def ringUsedAdd (e : Emul) (q : Queue) (elem : VringUsedElem) : Except Failure Emul := do
  let v := e.vring q
  let guestIdx ← e.usedIdx v
  if v.num = 0 then .error .divisionByZero
  else
    let e := e.vmGuestWriteMem (v.used + 4 + 8 * (guestIdx % v.num))
      (leBytes 4 elem.id ++ leBytes 4 elem.len)
    -- `guest_idx` has sixteen bits
    let e := e.vmGuestWriteMem (v.used + 2) (leBytes 2 (guestIdx + 1))
    return e.log (.used q elem)

end Emul

def vringDescFNext : ℕ := 1

/-- `desc.flags & VRING_DESC_F_NEXT`. -/
def VringDesc.hasNext (desc : VringDesc) : Bool := desc.flags &&& vringDescFNext ≠ 0

/-- `!desc.flags & VRING_DESC_F_NEXT`: the negation is that of the flags alone. -/
def VringDesc.tooShort (desc : VringDesc) : Bool :=
  (if desc.flags = 0 then 1 else 0) &&& vringDescFNext ≠ 0

/-! ### Receiving -/

/-- The cursors of the copy loop: bytes written in all, bytes of the current
descriptor and of the current buffer, and which descriptor and buffer these are. -/
structure RxCursor where
  totWritten : ℕ
  descWritten : ℕ
  bufWritten : ℕ
  currentBuf : ℤ
  descIdx : ℕ
  deriving DecidableEq, Repr

namespace RxCursor

/-- How much can be copied; the difference of the descriptor's length is that of
unsigned words. -/
def copy (c : RxCursor) (buffer : List UInt8) (desc : VringDesc) : ℕ :=
  min (buffer.length - c.bufWritten) ((desc.len + (2 ^ 64 - c.descWritten)) % 2 ^ 64)

def advance (c : RxCursor) (copy : ℕ) : RxCursor :=
  { c with
    totWritten := c.totWritten + copy
    descWritten := c.descWritten + copy
    bufWritten := c.bufWritten + copy }

/-- The next descriptor when this one is full, unless the loop is left. -/
def nextDesc (c : RxCursor) (desc : VringDesc) : Option RxCursor :=
  if c.descWritten = desc.len then
    if desc.tooShort then none else some { c with descIdx := desc.next, descWritten := 0 }
  else some c

def nextBuf (c : RxCursor) (buffer : List UInt8) : RxCursor :=
  if c.bufWritten = buffer.length then { c with currentBuf := c.currentBuf + 1, bufWritten := 0 }
  else c

end RxCursor

/-- One round of the copy loop. `source` are the buffers, `more` is the condition
under which the loop goes on. -/
def rxRound (v : Vring) (source : ℤ → List UInt8) (more : ℤ → Bool) (s : RxCursor × Emul) :
    Except Failure ((RxCursor × Emul) ⊕ (ℕ × Emul)) := do
  let (c, e) := s
  let desc ← e.ringDesc v c.descIdx
  let buffer := source c.currentBuf
  let copy := c.copy buffer desc
  let e := e.vmGuestWriteMem (desc.addr + c.descWritten) ((buffer.drop c.bufWritten).take copy)
  let c := c.advance copy
  match c.nextDesc desc with
  | none => return .inr (c.totWritten, e)
  | some c =>
    let c := c.nextBuf buffer
    return if more c.currentBuf then .inl (c, e) else .inr (c.totWritten, e)

/-- The common body of the two receive functions; `first` is the initial value of
`current_buf`. -/
def rxComplete (source : ℤ → List UInt8) (more : ℤ → Bool) (first : ℤ) (fuel : ℕ) (e : Emul) :
    Except Failure Emul := do
  let v := e.vring .rx
  let guestIdx ← e.ringAvailIdx v
  let idx := e.lastIdx .rx
  if idx = guestIdx then return e
  else
    let descHead ← e.ringAvail v idx
    let (totWritten, e) ←
      doLoop .noReturn (rxRound v source more) fuel (⟨0, 0, 0, first, descHead⟩, e)
    let e ← e.ringUsedAdd .rx ⟨descHead, totWritten % 2 ^ 32⟩
    return { e with lastIdx := Function.update e.lastIdx .rx (e.lastIdx .rx + 1) }.log
      (.taken .rx descHead)

/-- `sizeof(struct virtio_net_hdr)`. -/
def netHdrSize : ℕ := 10

/-- The buffers of a network packet; `-1` is the cleared virtio header. -/
def netSource (bufs : List (List UInt8)) (currentBuf : ℤ) : List UInt8 :=
  if currentBuf = -1 then List.replicate netHdrSize 0 else bufs.getD currentBuf.toNat []

/-- `current_buf < num_bufs`, where the signed side is converted to the type of the
unsigned one. -/
def netMore (bufs : List (List UInt8)) (currentBuf : ℤ) : Bool :=
  currentBuf % 2 ^ 32 < bufs.length

def emulRxComplete (bufs : List (List UInt8)) : ℕ → Emul → Except Failure Emul :=
  rxComplete (netSource bufs) (netMore bufs) (-1)

def emulConRxComplete (buf : List UInt8) : ℕ → Emul → Except Failure Emul :=
  rxComplete (fun _ => buf) (fun currentBuf => currentBuf < 1) 0

/-! ### Transmitting -/

/-- Copy what was read into a packet buffer of `size` bytes. -/
def copyIn (size : ℕ) (buffer : Bytes) (offset : ℕ) (bytes : List UInt8) : Except Failure Bytes :=
  if 0 < bytes.length ∧ size < offset + bytes.length then .error .overrun
  else .ok (scatter buffer (List.range' offset bytes.length) bytes)

def bufSize : ℕ := 2048

def vuartBuflen : ℕ := 4088

/-- Where a packet is while its chain is walked. -/
structure Packet where
  descIdx : ℕ
  len : ℕ
  skipped : ℕ
  buffer : Bytes

/-- One round of the loop that collects a packet of the network device. -/
def netGatherRound (e : Emul) (v : Vring) (p : Packet) :
    Except Failure (Packet ⊕ (ℕ × Bytes)) := do
  let desc ← e.ringDesc v p.descIdx
  let skip := if p.skipped < netHdrSize then min (netHdrSize - p.skipped) desc.len else 0
  let thisLen := min (bufSize - p.len) (desc.len - skip)
  let buffer ← copyIn bufSize p.buffer p.len (e.vmGuestReadMem (desc.addr + skip) thisLen)
  if desc.hasNext then return .inl ⟨desc.next, p.len + thisLen, p.skipped + skip, buffer⟩
  else return .inr (p.len + thisLen, buffer)

/-- One round of the loop that collects a packet of the console. -/
def conGatherRound (e : Emul) (v : Vring) (p : Packet) :
    Except Failure (Packet ⊕ (ℕ × Bytes)) := do
  let desc ← e.ringDesc v p.descIdx
  let buffer ← copyIn vuartBuflen p.buffer p.len (e.vmGuestReadMem desc.addr desc.len)
  let len := (p.len + desc.len) % 2 ^ 32
  if desc.hasNext then return .inl ⟨desc.next, len, p.skipped, buffer⟩
  else return .inr (len, buffer)

/-- The first `len` bytes of a packet buffer. -/
def content (buffer : Bytes) (len : ℕ) : List UInt8 := (List.range len).map buffer

/-- What the backend's `raw_tx` answers. -/
inductive TxResult
  | complete
  | enqueued
  | failed
  deriving DecidableEq, Repr

/-- What the network device meets in one round: the packet buffer it is given, if
any, and the answer of the backend. -/
structure TxRound where
  buffer : Option Bytes
  result : TxResult

def emulTxComplete (descHead : ℕ) (e : Emul) : Except Failure Emul :=
  e.ringUsedAdd .tx ⟨descHead, 0⟩

/-- The answer of the backend is looked at. -/
def shipped (result : TxResult) (descHead : ℕ) (e : Emul) : Except Failure Emul :=
  match result with
  | .complete => emulTxComplete descHead e
  | .enqueued => .ok { e with inFlight := descHead :: e.inFlight }
  | .failed => .ok e

/-- A round of `emul_notify_tx`; `none` when it leaves the loop. -/
def netTxRound (fuel : ℕ) (descHead : ℕ) (r : TxRound) (e : Emul) :
    Except Failure (Option Emul) :=
  match r.buffer with
  | none => .ok none
  | some buffer => do
    let (len, buffer) ←
      doLoop .noReturn (netGatherRound e (e.vring .tx)) fuel ⟨descHead, 0, 0, buffer⟩
    let e ← shipped r.result descHead (e.log (.sent (content buffer len)))
    return some e

/-- A round of `emul_con_notify_tx`. -/
def conTxRound (fuel : ℕ) (descHead : ℕ) (e : Emul) : Except Failure (Option Emul) := do
  let (len, buffer) ←
    doLoop .noReturn (conGatherRound e (e.vring .tx)) fuel ⟨descHead, 0, 0, e.buf⟩
  if vuartBuflen < len then .error .overrun
  else
    let e := { e with buf := buffer }.log (.sent (content buffer len))
    let e ← e.ringUsedAdd .tx ⟨descHead, 0⟩
    return some e

/-- The loop over the available ring: the round's number, the index and the
device. -/
def notifyRound (guestIdx : BitVec 16) (round : ℕ → ℕ → Emul → Except Failure (Option Emul))
    (s : ℕ × BitVec 16 × Emul) :
    Except Failure ((ℕ × BitVec 16 × Emul) ⊕ (BitVec 16 × Emul)) :=
  let (k, idx, e) := s
  if idx = guestIdx then .ok (.inr (idx, e))
  else do
    let descHead ← e.ringAvail (e.vring .tx) idx
    match ← round k descHead e with
    | none => return .inr (idx, e)
    | some e => return .inl (k + 1, idx + 1, e.log (.taken .tx descHead))

/-- The common body of the two transmit functions. -/
def notifyTx (round : ℕ → ℕ → ℕ → Emul → Except Failure (Option Emul)) (fuel : ℕ) (e : Emul) :
    Except Failure Emul := do
  let guestIdx ← e.ringAvailIdx (e.vring .tx)
  let (idx, e) ← doLoop .noReturn (notifyRound guestIdx (round fuel)) fuel (0, e.lastIdx .tx, e)
  return { e with lastIdx := Function.update e.lastIdx .tx idx }

def emulNotifyTx (backend : ℕ → TxRound) : ℕ → Emul → Except Failure Emul :=
  notifyTx fun fuel k descHead e => netTxRound fuel descHead (backend k) e

def emulConNotifyTx : ℕ → Emul → Except Failure Emul :=
  notifyTx fun fuel _ descHead e => conTxRound fuel descHead e

/-- The backend gives a cookie back. -/
def emulTxCompleteExternal (descHead : ℕ) (backend : ℕ → TxRound) (fuel : ℕ) (e : Emul) :
    Except Failure Emul := do
  let e ← emulTxComplete descHead { e with inFlight := e.inFlight.erase descHead }
  emulNotifyTx backend fuel e

/-! ### Runs -/

/-- What happens to a device: the calls of the driver and of the backend, and the
guest that gives its memory any content and puts its rings anywhere. -/
inductive Op
  | guest (mem : Bytes) (vring : Queue → Vring)
  | rxComplete (bufs : List (List UInt8))
  | conRxComplete (buf : List UInt8)
  | notifyTx (backend : ℕ → TxRound)
  | conNotifyTx
  | txComplete (descHead : ℕ) (backend : ℕ → TxRound)

def perform (fuel : ℕ) (e : Emul) : Op → Except Failure Emul
  | .guest mem vring => .ok { e with mem := mem, vring := vring }
  | .rxComplete bufs => emulRxComplete bufs fuel e
  | .conRxComplete buf => emulConRxComplete buf fuel e
  | .notifyTx backend => emulNotifyTx backend fuel e
  | .conNotifyTx => emulConNotifyTx fuel e
  | .txComplete descHead backend => emulTxCompleteExternal descHead backend fuel e

/-- The call returns, with `e'`. -/
def Returns (e : Emul) (op : Op) (e' : Emul) : Prop := ∃ fuel, perform fuel e op = .ok e'

/-- The devices that are reached by calls that meet `ok`. -/
inductive Reaches (ok : Emul → Op → Prop) : Emul → Prop
  | start {e : Emul} : e.inFlight = [] → e.trace = [] → Reaches ok e
  | step {e e' : Emul} {op : Op} : Reaches ok e → ok e op → Returns e op e' → Reaches ok e'

end SeL4Kernel.Virtio
