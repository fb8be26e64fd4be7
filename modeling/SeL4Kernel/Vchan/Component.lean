import Mathlib.Algebra.Group.Int.Defs
import SeL4Kernel.Lib.Around
import SeL4Kernel.Lib.Outcome

/-!
# A vchan

`libsel4vchan/src/vchan_component.c`: two components share a buffer, one writes bytes into it
and the other reads them. `write_pos` and `read_pos` count the bytes; they are of type `int`
and go on counting, so that a byte is found at its number modulo the size of the buffer.

A component calls `libvchan_readwrite`, which does one round of its loop at a time: it copies
as many bytes as there is room, or there are bytes, for, or waits. The rounds of the two
components come in any order. `Channel` records, beside the buffer and the calls, the bytes
that were accepted from the sender and delivered to the receiver.

An operation of type `int` whose result does not fit is undefined.
-/

namespace SeL4Kernel.Vchan

/-! ### Arithmetic of type int -/

/-- Why there is no next state. -/
inductive Undefined where
  /-- the result of an operation of type `int` does not fit -/
  | overflow
  deriving DecidableEq, Repr

/-- The value fits into an `int`. -/
def FitsInt (x : ℤ) : Prop := -2 ^ 31 ≤ x ∧ x < 2 ^ 31

instance (x : ℤ) : Decidable (FitsInt x) := inferInstanceAs (Decidable (_ ∧ _))

/-- A difference of type `int`. -/
def intSub (a b : ℤ) : Except Undefined ℤ :=
  if FitsInt (a - b) then .ok (a - b) else .error .overflow

/-- `abs`, whose result is of type `int` too. -/
def abs (a : ℤ) : Except Undefined Nat :=
  if FitsInt (a.natAbs : ℤ) then .ok a.natAbs else .error .overflow

/-- Conversion to `int`. -/
def toInt (x : ℤ) : ℤ := x.bmod (2 ^ 32)

/-! ### The buffer -/

/-- `VCHAN_BUF_SIZE`. -/
def vchanBufSize : Nat := 4096

/-- `vchan_buf_t`. -/
structure VchanBuf where
  readPos : ℤ
  writePos : ℤ
  syncData : Nat → UInt8

/-- The buffer in memory that has been cleared. -/
def VchanBuf.cleared : VchanBuf := { readPos := 0, writePos := 0, syncData := fun _ => 0 }

/-- `VCHAN_SEND` and `VCHAN_RECV`. -/
inductive Cmd where
  | send
  | recv
  deriving DecidableEq, Repr

/-- `abs(b->write_pos - b->read_pos)`. -/
def VchanBuf.filled (b : VchanBuf) : Except Undefined Nat := do
  let d ← intSub b.writePos b.readPos
  abs d

/-- `get_actionsize`. -/
def getActionsize (type : Cmd) (size : Nat) (b : VchanBuf) : Except Undefined Nat := do
  let filled ← b.filled
  match type with
  | .send => .ok (min ((vchanBufSize + 2 ^ 64 - filled) % 2 ^ 64) size)
  | .recv => .ok (min filled size)

/-- `memcpy` into the buffer. -/
def VchanBuf.write (b : VchanBuf) (start : Nat) (data : List UInt8) : VchanBuf :=
  { b with syncData := scatter b.syncData (List.range' start data.length) data }

/-- `memcpy` from the buffer. -/
def VchanBuf.read (b : VchanBuf) (start size : Nat) : List UInt8 :=
  (List.range' start size).map b.syncData

/-- `*update % VCHAN_BUF_SIZE`; the constant is unsigned, and so is the division. -/
def startOf (update : ℤ) : Nat := (update % 2 ^ 64 % vchanBufSize).toNat

/-- The part of a copy that goes to the start of the buffer. -/
def remainOf (start callSize : Nat) : Nat :=
  if vchanBufSize < start + callSize then start + callSize - vchanBufSize else 0

/-- Copy the first `ssize` bytes of `data` into the buffer. -/
def VchanBuf.put (b : VchanBuf) (data : List UInt8) (ssize : Nat) : VchanBuf :=
  let start := startOf b.writePos
  let remain := remainOf start ssize
  let callSize := ssize - remain
  let b := b.write start (data.take callSize)
  let b := b.write 0 ((data.drop callSize).take remain)
  { b with writePos := toInt (b.writePos + (callSize + remain : Nat)) }

/-- Copy `ssize` bytes out of the buffer. -/
def VchanBuf.get (b : VchanBuf) (ssize : Nat) : List UInt8 × VchanBuf :=
  let start := startOf b.readPos
  let remain := remainOf start ssize
  let callSize := ssize - remain
  (b.read start callSize ++ b.read 0 remain,
    { b with readPos := toInt (b.readPos + (callSize + remain : Nat)) })

def libvchanDataReady (b : VchanBuf) : Except Undefined Nat := b.filled

def libvchanBufferSpace (isOpen : Bool) (b : VchanBuf) : Except Undefined Nat :=
  if isOpen then do
    let filled ← b.filled
    .ok ((vchanBufSize + 2 ^ 64 - filled) % 2 ^ 64)
  else .ok 0

/-! ### Calls -/

/-- A call of `libvchan_readwrite` with `VCHAN_SEND`: the bytes that are left, and `stream`. -/
structure SendCall where
  data : List UInt8
  stream : Bool

/-- A call of `libvchan_readwrite` with `VCHAN_RECV`. -/
structure RecvCall where
  dataSz : Nat
  stream : Bool

/-- The buffer with the calls that are going on, and what has gone through it. -/
structure Channel where
  buf : VchanBuf
  sender : Option SendCall
  receiver : Option RecvCall
  /-- the bytes accepted from the sender -/
  accepted : List UInt8
  /-- the bytes delivered to the receiver -/
  delivered : List UInt8

def Channel.init : Channel :=
  { buf := .cleared, sender := none, receiver := none, accepted := [], delivered := [] }

/-- A round of the loop for the sender. Without bytes left, the call returns. -/
def sendRound (c : SendCall) (s : Channel) : Except Undefined Channel :=
  if c.data.length = 0 then .ok { s with sender := none }
  else do
    let ssize ← getActionsize .send (min c.data.length vchanBufSize) s.buf
    -- the sender waits
    if ssize = 0 then .ok s
    else
      .ok { s with
        buf := s.buf.put c.data ssize
        sender := if c.stream then none else some { c with data := c.data.drop ssize }
        accepted := s.accepted ++ c.data.take ssize }

/-- A round of the loop for the receiver. -/
def recvRound (c : RecvCall) (s : Channel) : Except Undefined Channel :=
  if c.dataSz = 0 then .ok { s with receiver := none }
  else do
    let ssize ← getActionsize .recv (min c.dataSz vchanBufSize) s.buf
    if ssize = 0 then .ok s
    else
      .ok { s with
        buf := (s.buf.get ssize).2
        receiver := if c.stream then none else some { c with dataSz := c.dataSz - ssize }
        delivered := s.delivered ++ (s.buf.get ssize).1 }

/-- What a component does next. -/
inductive Action where
  | send (data : List UInt8) (stream : Bool)
  | recv (size : Nat) (stream : Bool)
  | sendRound
  | recvRound

/-- A component makes a call when it is not in one, and does a round when it is. -/
def step (s : Channel) : Action → Except Undefined Channel
  | .send data stream =>
    match s.sender with
    | none => .ok { s with sender := some { data := data, stream := stream } }
    | some _ => .ok s
  | .recv size stream =>
    match s.receiver with
    | none => .ok { s with receiver := some { dataSz := size, stream := stream } }
    | some _ => .ok s
  | .sendRound =>
    match s.sender with
    | none => .ok s
    | some c => SeL4Kernel.Vchan.sendRound c s
  | .recvRound =>
    match s.receiver with
    | none => .ok s
    | some c => SeL4Kernel.Vchan.recvRound c s

/-- The channel can get into the state. -/
inductive Reachable : Channel → Prop
  | init : Reachable .init
  | step {s s' : Channel} (a : Action) (prior : Reachable s) (h : step s a = .ok s') : Reachable s'

end SeL4Kernel.Vchan
