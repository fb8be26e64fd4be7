import SeL4Kernel.Lib.ArrayLists

/-!
# The ring buffer without shared indices

`libringbuffer`: a transmitter and a receiver share a buffer of bytes and nothing else. Each
has an offset of its own. A byte is available when it is not zero, so no zero can be sent, and
the transmitter writes a zero behind a byte before it writes the byte.

The reads and writes of the shared buffer are single steps that interleave in any order. What
the buffer holds from the receiver's offset on is the bytes that were sent and not returned
with the zero behind them, and with a second one between the two writes of a transmission.
-/

namespace SeL4Kernel.Ringbuffer

open Function List

/-- Where the transmitter is in `rb_transmit_byte`. -/
inductive Tx where
  | idle
  /-- before the zero is written to the following slot -/
  | clear (c : UInt8)
  /-- before the byte is written -/
  | store (c : UInt8)

/-- Where the receiver is in `rb_poll_byte`; `rb_receive_byte` polls until it gets a byte.
Behind the first read it is kept whether all that had been sent was returned then. -/
inductive Rx where
  | idle
  | second (drained : Bool)

/-- The shared buffer and the two sides with their offsets. For the history there are the bytes
whose transmission is complete, those that polls have returned, and for each poll that has
returned a zero, whether all that had been sent was returned at its first read. -/
structure State where
  base : ℕ → UInt8
  tx : Tx
  txOffset : ℕ
  rx : Rx
  rxOffset : ℕ
  sent : List UInt8
  received : List UInt8
  zeros : List Bool

namespace State

def unread (s : State) : ℕ := s.sent.length - s.received.length

def drained (s : State) : Bool := s.received = s.sent

/-- A poll returns `c`. -/
def polled (c : UInt8) (drained : Bool) (s : State) : State :=
  if c = 0 then { s with zeros := s.zeros ++ [drained] }
  else { s with received := s.received ++ [c] }

def start : State :=
  { base := fun _ => 0, tx := .idle, txOffset := 0, rx := .idle, rxOffset := 0, sent := []
    received := [], zeros := [] }

end State

/-- One step of a side: a call begins, or the shared buffer is read or written. -/
inductive Step (size : ℕ) (s : State) : State → Prop where
  /-- a zero is not sent -/
  | transmitZero (htx : s.tx = .idle) (hroom : s.unread + 2 ≤ size) : Step size s s
  | transmit {c : UInt8} (htx : s.tx = .idle) (hroom : s.unread + 2 ≤ size) (hc : c ≠ 0) :
      Step size s { s with tx := .clear c }
  | clear {c : UInt8} (htx : s.tx = .clear c) :
      Step size s { s with base := update s.base ((s.txOffset + 1) % size) 0, tx := .store c }
  | store {c : UInt8} (htx : s.tx = .store c) :
      Step size s { s with
        base := update s.base s.txOffset c
        tx := .idle
        txOffset := (s.txOffset + 1) % size
        sent := s.sent ++ [c] }
  | empty (hrx : s.rx = .idle) (hzero : s.base s.rxOffset = 0) :
      Step size s (s.polled 0 s.drained)
  | available (hrx : s.rx = .idle) (hbyte : s.base s.rxOffset ≠ 0) :
      Step size s { s with rx := .second s.drained }
  | take {drained : Bool} (hrx : s.rx = .second drained) :
      Step size s (State.polled (s.base s.rxOffset) drained
        { s with rx := .idle, rxOffset := (s.rxOffset + 1) % size })

/-- The states of a buffer that is all zero at first. -/
inductive Reached (size : ℕ) : State → Prop where
  | start : Reached size .start
  | step {s s' : State} (h : Reached size s) (hstep : Step size s s') : Reached size s'

/-- The zeros behind the bytes that were sent. -/
def Tx.marker : Tx → List UInt8
  | .store _ => [0, 0]
  | _ => [0]

def Tx.byte? : Tx → Option UInt8
  | .idle => none
  | .clear c | .store c => some c

/-- The bytes `l` were sent and not returned, and are in the buffer with the zeros behind. -/
structure Inv (size : ℕ) (s : State) (l : List UInt8) : Prop where
  order : s.sent = s.received ++ l
  stored : Stored size s.base s.received.length (l ++ s.tx.marker)
  txOffset : s.txOffset = (s.received.length + l.length) % size
  rxOffset : s.rxOffset = s.received.length % size
  nonzero : ∀ c ∈ l, c ≠ 0
  room : ∀ c ∈ s.tx.byte?, c ≠ 0 ∧ l.length + 2 ≤ size
  second : ∀ drained, s.rx = .second drained → l ≠ []
  zeros : ∀ drained ∈ s.zeros, drained = true

variable {size : ℕ} {s s' : State} {l : List UInt8}

theorem inv_start : Inv size .start [] where
  order := rfl
  stored := by
    intro i x hx
    exact (mem_singleton.1 (mem_of_getElem? hx)).symm
  txOffset := (Nat.zero_mod _).symm
  rxOffset := (Nat.zero_mod _).symm
  nonzero := nofun
  room := nofun
  second := nofun
  zeros := nofun

/-- The slot at the receiver's offset holds the next byte, or a zero if there is none. -/
theorem Inv.base_rxOffset (h : Inv size s l) : s.base s.rxOffset = l.headD 0 := by
  have hstored := h.stored
  rw [h.rxOffset]
  cases l with
  | nil =>
    obtain ⟨zeros, hz⟩ : ∃ zeros, s.tx.marker = 0 :: zeros := by cases s.tx <;> exact ⟨_, rfl⟩
    rw [hz] at hstored
    exact hstored.head
  | cons c l => exact hstored.head

/-- **Step lemma.** -/
theorem Inv.step (h : Inv size s l) (hstep : Step size s s') : ∃ l', Inv size s' l' := by
  have hstored := h.stored
  have hbase := h.base_rxOffset
  cases hstep with
  | transmitZero _ _ => exact ⟨l, h⟩
  | @transmit c htx hroom hc =>
    rw [htx] at hstored
    refine ⟨l, { h with stored := hstored, room := ?_ }⟩
    rintro _ ⟨⟩
    rw [State.unread, h.order, length_append, Nat.add_sub_cancel_left] at hroom
    exact ⟨hc, hroom⟩
  | @clear c htx =>
    have hroom := h.room c (by rw [htx]; rfl)
    rw [htx] at hstored
    refine ⟨l, { h with stored := ?_, room := ?_ }⟩
    · have hpush := hstored.push (by rw [length_append]; exact hroom.2) 0
      rw [append_assoc, length_append, ← Nat.add_assoc] at hpush
      rw [h.txOffset, Nat.mod_add_mod]
      exact hpush
    · rintro _ ⟨⟩
      exact hroom
  | @store c htx =>
    obtain ⟨hc, hroom⟩ := h.room c (by rw [htx]; rfl)
    rw [htx] at hstored
    refine ⟨l ++ [c], { h with
      order := ?_, stored := ?_, txOffset := ?_, nonzero := ?_, room := nofun, second := ?_ }⟩
    · rw [h.order, append_assoc]
    · -- the first of the two zeros becomes the byte
      have hset := hstored.set (i := l.length) (by simpa [Tx.marker] using hroom)
        (by simp [Tx.marker]) c
      rw [h.txOffset]
      simpa [Tx.marker] using hset
    · rw [h.txOffset, Nat.mod_add_mod, length_append, Nat.add_assoc]
      rfl
    · simpa [or_imp, forall_and, hc] using h.nonzero
    · simp
  | empty hrx hzero =>
    cases l with
    | nil =>
      refine ⟨[], { h with zeros := ?_ }⟩
      have hdrained : s.drained = true := decide_eq_true (by rw [h.order, append_nil])
      simpa [State.polled, or_imp, forall_and, hdrained] using h.zeros
    | cons c l => exact absurd (hbase.symm.trans hzero) (h.nonzero c mem_cons_self)
  | available hrx hbyte =>
    refine ⟨l, { h with second := ?_ }⟩
    rintro _ _ rfl
    exact hbyte hbase
  | @take drained hrx =>
    cases l with
    | nil => exact absurd rfl (h.second drained hrx)
    | cons c l =>
      have hc := h.nonzero c mem_cons_self
      rw [hbase, headD_cons, State.polled, if_neg hc]
      refine ⟨l, { h with
        order := ?_, stored := ?_, txOffset := ?_, rxOffset := ?_, nonzero := ?_, room := ?_,
        second := nofun }⟩
      · rw [h.order, append_cons]
      · rw [length_append]
        exact hstored.pop
      · rw [h.txOffset, length_append, Nat.add_assoc, length_cons, Nat.add_comm l.length]
        rfl
      · rw [h.rxOffset, Nat.mod_add_mod, length_append]
        rfl
      · exact fun c hc => h.nonzero c (mem_cons_of_mem _ hc)
      · intro c hc
        obtain ⟨hc, hroom⟩ := h.room c hc
        exact ⟨hc, Nat.le_of_succ_le hroom⟩

theorem Reached.inv (h : Reached size s) : ∃ l, Inv size s l := by
  induction h with
  | start => exact ⟨[], inv_start⟩
  | step _ hstep ih =>
    obtain ⟨l, hl⟩ := ih
    exact hl.step hstep

/-- **Main result.** At every moment the bytes that the receiver got are the first of those
that were sent, and a poll returned a zero only if all that had been sent was returned at its
first read. -/
theorem bytes_in_order (h : Reached size s) :
    s.received <+: s.sent ∧ ∀ drained ∈ s.zeros, drained = true := by
  obtain ⟨l, hl⟩ := h.inv
  exact ⟨⟨l, hl.order.symm⟩, hl.zeros⟩

/-- A byte through a buffer of two slots, with a poll between the two writes. -/
theorem one_byte_in_order : ∃ s, Reached 2 s ∧ s.received = [7] ∧ s.zeros.length = 1 ∧
    s.received <+: s.sent ∧ ∀ drained ∈ s.zeros, drained = true := by
  have h1 := (Reached.start : Reached 2 _).step (.transmit (c := 7) rfl (by decide) (by decide))
  have h2 := (h1.step (.clear rfl)).step (.empty rfl rfl)
  have h3 := ((h2.step (.store rfl)).step (.available rfl (by decide))).step (.take rfl)
  exact ⟨_, h3, rfl, rfl, bytes_in_order h3⟩

end SeL4Kernel.Ringbuffer
