import SeL4Kernel.Vchan.Component

/-!
# A vchan is a byte stream

The bytes that were accepted and not yet delivered are a window of the stream of accepted
bytes in the buffer. A round of the sender or of the receiver moves one end of it.

The counters fit for the first `2 ^ 31 - 1` bytes. With the next byte `write_pos` becomes
negative while `read_pos` is not, and their difference does not fit any more.
-/

namespace SeL4Kernel.Vchan

open List

/-! ### Positions -/

theorem toInt_of_lt {n : Nat} (h : n < 2 ^ 31) : toInt n = n := by
  rw [toInt, Int.bmod_def]
  omega

theorem toInt_of_le {n : Nat} (h : 2 ^ 31 ≤ n) (hlt : n < 2 ^ 32) : toInt n = n - 2 ^ 32 := by
  rw [toInt, Int.bmod_def]
  omega

theorem startOf_eq (n : Nat) : startOf n = n % vchanBufSize := by
  rw [startOf, vchanBufSize]
  omega

/-! ### Copies -/

variable {b : VchanBuf} {n ssize : Nat}

/-- The two pieces of a copy are the cells of the bytes. -/
theorem pieces_eq (hsize : ssize ≤ vchanBufSize) :
    List.range' (n % vchanBufSize) (ssize - remainOf (n % vchanBufSize) ssize) ++
      List.range' 0 (remainOf (n % vchanBufSize) ssize) = around vchanBufSize n ssize := by
  have hstart : n % vchanBufSize < vchanBufSize := Nat.mod_lt _ (by decide)
  rw [remainOf]
  split
  next hlt =>
    have hsum : ssize - (n % vchanBufSize + ssize - vchanBufSize) +
        (n % vchanBufSize + ssize - vchanBufSize) = ssize := by omega
    rw [← around_eq_append (by omega) (by omega), hsum]
  next hle =>
    rw [around_eq_range' (by omega)]
    simp

theorem remainOf_le : remainOf (n % vchanBufSize) ssize ≤ ssize := by
  have hstart : n % vchanBufSize < vchanBufSize := Nat.mod_lt _ (by decide)
  rw [remainOf]
  split <;> omega

theorem put_eq {data : List UInt8} (hpos : b.writePos = n) (hdata : ssize ≤ data.length)
    (hsize : ssize ≤ vchanBufSize) :
    b.put data ssize =
      { b with
        syncData := scatter b.syncData (around vchanBufSize n ssize) (data.take ssize)
        writePos := toInt (n + ssize : Nat) } := by
  have hremain := @remainOf_le n ssize
  have htake : data.take ssize = data.take (ssize - remainOf (n % vchanBufSize) ssize) ++
      (data.drop (ssize - remainOf (n % vchanBufSize) ssize)).take
        (remainOf (n % vchanBufSize) ssize) := by
    rw [← take_add]
    congr 1
    omega
  rw [VchanBuf.put, hpos, startOf_eq, ← pieces_eq hsize, htake, scatter_append (by simp; omega)]
  have hfirst : (data.take (ssize - remainOf (n % vchanBufSize) ssize)).length =
      ssize - remainOf (n % vchanBufSize) ssize := length_take_of_le (by omega)
  have hsecond : ((data.drop (ssize - remainOf (n % vchanBufSize) ssize)).take
      (remainOf (n % vchanBufSize) ssize)).length = remainOf (n % vchanBufSize) ssize :=
    length_take_of_le (by rw [length_drop]; omega)
  simp only [VchanBuf.write]
  rw [hfirst, hsecond, hpos, Nat.sub_add_cancel hremain, Int.natCast_add]

theorem get_eq (hpos : b.readPos = n) (hsize : ssize ≤ vchanBufSize) :
    b.get ssize = ((around vchanBufSize n ssize).map b.syncData,
      { b with readPos := toInt (n + ssize : Nat) }) := by
  have hremain := @remainOf_le n ssize
  rw [VchanBuf.get, hpos, startOf_eq, ← pieces_eq hsize, map_append, Nat.sub_add_cancel hremain]
  rfl

/-! ### The invariant -/

/-- The bytes in flight are in the buffer, and the counters count. -/
structure Inv (s : Channel) : Prop where
  window : Window vchanBufSize s.buf.syncData s.accepted s.delivered.length
  delivered : s.delivered = s.accepted.take s.delivered.length
  writePos : s.buf.writePos = toInt s.accepted.length
  readPos : s.buf.readPos = s.delivered.length
  read_lt : s.delivered.length < 2 ^ 31

theorem inv_init : Inv .init := by
  refine ⟨⟨by simp [Channel.init], by simp [Channel.init], ?_⟩, rfl, by decide, rfl, by decide⟩
  intro i x _ hx
  simp [Channel.init] at hx

variable {s s' : Channel} (h : Inv s)

include h

/-- The difference of the counters is the number of bytes in flight, as long as they fit. -/
theorem Inv.filled_eq :
    s.buf.filled =
    if s.accepted.length < 2 ^ 31 then .ok (s.accepted.length - s.delivered.length)
    else .error .overflow := by
  have hle := h.window.le
  have hroom := h.window.room
  have hread := h.read_lt
  rw [vchanBufSize] at hroom
  rw [VchanBuf.filled, h.writePos, h.readPos, intSub]
  by_cases hlt : s.accepted.length < 2 ^ 31
  · have hdiff : ((s.accepted.length : ℤ) - s.delivered.length).natAbs =
        s.accepted.length - s.delivered.length := by omega
    rw [toInt_of_lt hlt, if_pos ⟨by omega, by omega⟩, if_pos hlt]
    rw [ok_bind, abs, hdiff, if_pos ⟨by omega, by omega⟩]
  · rw [toInt_of_le (by omega) (by omega), if_neg hlt,
      if_neg fun hfits => by have := hfits.1; omega]
    rfl

theorem Inv.getActionsize_error (hge : ¬s.accepted.length < 2 ^ 31) (type : Cmd) (size : Nat) :
    getActionsize type size s.buf = .error .overflow := by
  rw [getActionsize, h.filled_eq, if_neg hge]
  rfl

/-- The calls are not part of the invariant. -/
theorem Inv.of_calls (sender : Option SendCall) (receiver : Option RecvCall) :
    Inv { s with sender := sender, receiver := receiver } :=
  ⟨h.window, h.delivered, h.writePos, h.readPos, h.read_lt⟩

theorem Inv.of_write {cells : Nat → UInt8} {pos : ℤ} {xs : List UInt8}
    (hwindow : Window vchanBufSize cells xs s.delivered.length)
    (hdelivered : s.delivered = xs.take s.delivered.length) (hpos : pos = toInt xs.length) :
    Inv { s with buf := { s.buf with syncData := cells, writePos := pos }, accepted := xs } :=
  ⟨hwindow, hdelivered, hpos, h.readPos, h.read_lt⟩

theorem Inv.of_read {pos : ℤ} {xs : List UInt8}
    (hwindow : Window vchanBufSize s.buf.syncData s.accepted xs.length)
    (hdelivered : xs = s.accepted.take xs.length) (hpos : pos = xs.length)
    (hlt : xs.length < 2 ^ 31) :
    Inv { s with buf := { s.buf with readPos := pos }, delivered := xs } :=
  ⟨hwindow, hdelivered, h.writePos, hpos, hlt⟩

variable (hlt : s.accepted.length < 2 ^ 31)

include hlt

/-- The sender may copy as many bytes as there is room for. -/
theorem Inv.getActionsize_send (size : Nat) :
    getActionsize .send size s.buf =
      .ok (min (s.delivered.length + vchanBufSize - s.accepted.length) size) := by
  have hle := h.window.le
  have hroom := h.window.room
  have hspace : (vchanBufSize + 2 ^ 64 - (s.accepted.length - s.delivered.length)) % 2 ^ 64 =
      s.delivered.length + vchanBufSize - s.accepted.length := by
    rw [vchanBufSize] at hroom ⊢
    omega
  rw [getActionsize, h.filled_eq, if_pos hlt, ok_bind, hspace]

/-- The receiver may copy the bytes in flight. -/
theorem Inv.getActionsize_recv (size : Nat) :
    getActionsize .recv size s.buf = .ok (min (s.accepted.length - s.delivered.length) size) := by
  rw [getActionsize, h.filled_eq, if_pos hlt, ok_bind]

/-- A copy into the buffer moves the end of the window. -/
theorem Inv.put {data : List UInt8} (hdata : ssize ≤ data.length)
    (hsize : ssize ≤ s.delivered.length + vchanBufSize - s.accepted.length) :
    Inv { s with buf := s.buf.put data ssize, accepted := s.accepted ++ data.take ssize } := by
  have hle := h.window.le
  have hroom := h.window.room
  have hlen : (data.take ssize).length = ssize := length_take_of_le hdata
  have hwrite := @Window.write _ _ _ _ (data.take ssize) _ h.window (by rw [hlen]; omega)
  rw [hlen] at hwrite
  rw [put_eq (h.writePos.trans (toInt_of_lt hlt)) hdata (by omega)]
  refine h.of_write hwrite ?_ (by rw [length_append, hlen])
  rw [take_append_of_le_length hle]
  exact h.delivered

/-- A copy from the buffer moves the start of the window. -/
theorem Inv.get (hsize : ssize ≤ s.accepted.length - s.delivered.length) :
    Inv { s with buf := (s.buf.get ssize).2, delivered := s.delivered ++ (s.buf.get ssize).1 } := by
  have hle := h.window.le
  have hroom := h.window.room
  obtain ⟨hbytes, hwindow⟩ :=
    h.window.read (show s.delivered.length + ssize ≤ s.accepted.length by omega)
  rw [get_eq h.readPos (by omega), hbytes]
  have hlen : (s.delivered ++ (s.accepted.drop s.delivered.length).take ssize).length =
      s.delivered.length + ssize := by
    rw [length_append, length_take_of_le (by rw [length_drop]; omega)]
  refine h.of_read ?_ ?_ ?_ ?_
  · rwa [hlen]
  · rw [hlen, take_add, ← h.delivered]
  · rw [hlen, toInt_of_lt (by omega)]
  · rw [hlen]
    omega

/-! ### Steps -/

theorem Inv.sendRound (c : SendCall) : ∃ s', sendRound c s = .ok s' ∧ Inv s' := by
  rw [Vchan.sendRound, h.getActionsize_send hlt]
  split
  · exact ⟨_, rfl, h.of_calls none s.receiver⟩
  rw [ok_bind]
  split
  · exact ⟨s, rfl, h⟩
  · exact ⟨_, rfl, (@Inv.put _ s h hlt c.data (by omega) (by omega)).of_calls _ s.receiver⟩

theorem Inv.recvRound (c : RecvCall) : ∃ s', recvRound c s = .ok s' ∧ Inv s' := by
  rw [Vchan.recvRound, h.getActionsize_recv hlt]
  split
  · exact ⟨_, rfl, h.of_calls s.sender none⟩
  rw [ok_bind]
  split
  · exact ⟨s, rfl, h⟩
  · exact ⟨_, rfl, (h.get hlt (by omega)).of_calls s.sender _⟩

/-- Every step is defined while the counters fit. -/
theorem Inv.step (a : Action) : ∃ s', step s a = .ok s' ∧ Inv s' := by
  cases a with
  | send data stream =>
    rw [Vchan.step]
    split
    · exact ⟨_, rfl, h.of_calls _ s.receiver⟩
    · exact ⟨s, rfl, h⟩
  | recv size stream =>
    rw [Vchan.step]
    split
    · exact ⟨_, rfl, h.of_calls s.sender _⟩
    · exact ⟨s, rfl, h⟩
  | sendRound =>
    rw [Vchan.step]
    split
    · exact ⟨s, rfl, h⟩
    · exact h.sendRound hlt _
  | recvRound =>
    rw [Vchan.step]
    split
    · exact ⟨s, rfl, h⟩
    · exact h.recvRound hlt _

omit hlt

/-- The step lemma. A round that copies is undefined when the counters do not fit. -/
theorem Inv.of_step {a : Action} (hstep : Vchan.step s a = .ok s') : Inv s' := by
  by_cases hlt : s.accepted.length < 2 ^ 31
  · obtain ⟨s'', heq, hinv⟩ := h.step hlt a
    rw [heq] at hstep
    cases hstep
    exact hinv
  cases a with
  | send data stream =>
    rw [Vchan.step] at hstep
    split at hstep
    · cases hstep
      exact h.of_calls _ s.receiver
    · cases hstep
      exact h
  | recv size stream =>
    rw [Vchan.step] at hstep
    split at hstep
    · cases hstep
      exact h.of_calls s.sender _
    · cases hstep
      exact h
  | sendRound =>
    rw [Vchan.step] at hstep
    split at hstep
    · cases hstep
      exact h
    · rw [Vchan.sendRound, h.getActionsize_error hlt] at hstep
      split at hstep
      · cases hstep
        exact h.of_calls none s.receiver
      · cases hstep
  | recvRound =>
    rw [Vchan.step] at hstep
    split at hstep
    · cases hstep
      exact h
    · rw [Vchan.recvRound, h.getActionsize_error hlt] at hstep
      split at hstep
      · cases hstep
        exact h.of_calls s.sender none
      · cases hstep

omit h

/-- The run lemma. -/
theorem Reachable.inv (h : Reachable s) : Inv s := by
  induction h with
  | init => exact inv_init
  | step a _ hstep ih => exact ih.of_step hstep

/-- **Main result.** What is delivered is the start of what was accepted, the bytes in flight
are in the buffer and are not more than fit. As long as fewer than `2 ^ 31` bytes were
accepted, every step is defined and the numbers of unread and of free bytes are reported. -/
theorem stream_reliable (h : Reachable s) :
    s.delivered <+: s.accepted ∧
      s.accepted.length - s.delivered.length ≤ vchanBufSize ∧
      (∀ i x, s.delivered.length ≤ i → s.accepted[i]? = some x →
        s.buf.syncData (i % vchanBufSize) = x) ∧
      (s.accepted.length < 2 ^ 31 →
        libvchanDataReady s.buf = .ok (s.accepted.length - s.delivered.length) ∧
          libvchanBufferSpace true s.buf =
            .ok (vchanBufSize - (s.accepted.length - s.delivered.length)) ∧
          ∀ a, ∃ s', step s a = .ok s') ∧
      (2 ^ 31 ≤ s.accepted.length → libvchanDataReady s.buf = .error .overflow) := by
  have hinv := h.inv
  have hroom := hinv.window.room
  refine ⟨?_, by omega, hinv.window.holds, fun hlt => ⟨?_, ?_, fun a => ?_⟩, fun hge => ?_⟩
  · rw [hinv.delivered]
    exact take_prefix ..
  · rw [libvchanDataReady, hinv.filled_eq, if_pos hlt]
  · rw [libvchanBufferSpace, if_pos rfl, hinv.filled_eq, if_pos hlt, ok_bind]
    congr 1
    rw [vchanBufSize] at hroom ⊢
    omega
  · obtain ⟨s', hstep, -⟩ := hinv.step hlt a
    exact ⟨s', hstep⟩
  · rw [libvchanDataReady, hinv.filled_eq, if_neg (by omega)]

/-- Three bytes are sent, and two of them are read. -/
theorem three_bytes_reliable :
    ∃ s, Reachable s ∧ s.accepted = [1, 2, 3] ∧ s.delivered = [1, 2] ∧
      libvchanDataReady s.buf = .ok 1 := by
  have h : Reachable _ := (((Reachable.init.step (.send [1, 2, 3] false) rfl).step .sendRound
    rfl).step (.recv 2 true) rfl).step .recvRound rfl
  exact ⟨_, h, rfl, rfl, ((stream_reliable h).2.2.2.1 (by decide)).1⟩

/-! ### The counters overflow -/

/-- A full buffer of bytes. -/
def page : List UInt8 := List.replicate vchanBufSize 0

theorem length_page : page.length = vchanBufSize := length_replicate

/-- With the buffer empty, a page is sent in one round. -/
theorem page_sent (h : Reachable s) (hlt : s.accepted.length < 2 ^ 31) (hsender : s.sender = none)
    (hempty : s.delivered.length = s.accepted.length) :
    ∃ s', Reachable s' ∧ s'.sender = none ∧ s'.receiver = s.receiver ∧
      s'.accepted.length = s.accepted.length + vchanBufSize ∧ s'.delivered = s.delivered := by
  have hcall : step s (.send page true) =
      .ok { s with sender := some { data := page, stream := true } } := by
    rw [step, hsender]
  have hround : sendRound { data := page, stream := true }
      { s with sender := some { data := page, stream := true } } = .ok
        { s with
          buf := s.buf.put page vchanBufSize
          sender := none
          accepted := s.accepted ++ page } := by
    have hsize : min (s.delivered.length + vchanBufSize - s.accepted.length)
        (min page.length vchanBufSize) = vchanBufSize := by
      rw [length_page]
      omega
    rw [sendRound, (h.inv.of_calls _ s.receiver).getActionsize_send hlt, ok_bind, hsize,
      if_neg (by rw [length_page]; decide), if_neg (by decide),
      take_of_length_le (Nat.le_of_eq length_page)]
    rfl
  exact ⟨_, (h.step _ hcall).step .sendRound hround, rfl, rfl,
    by rw [length_append, length_page], rfl⟩

/-- A page in the buffer is read in one round. -/
theorem page_received (h : Reachable s) (hlt : s.accepted.length < 2 ^ 31)
    (hreceiver : s.receiver = none)
    (hfull : s.accepted.length = s.delivered.length + vchanBufSize) :
    ∃ s', Reachable s' ∧ s'.receiver = none ∧ s'.sender = s.sender ∧
      s'.accepted = s.accepted ∧ s'.delivered.length = s.accepted.length := by
  have hcall : step s (.recv vchanBufSize true) =
      .ok { s with receiver := some { dataSz := vchanBufSize, stream := true } } := by
    rw [step, hreceiver]
  have hround : recvRound { dataSz := vchanBufSize, stream := true }
      { s with receiver := some { dataSz := vchanBufSize, stream := true } } = .ok
        { s with
          buf := (s.buf.get vchanBufSize).2
          receiver := none
          delivered := s.delivered ++ (s.buf.get vchanBufSize).1 } := by
    have hsize : min (s.accepted.length - s.delivered.length)
        (min vchanBufSize vchanBufSize) = vchanBufSize := by omega
    rw [recvRound, (h.inv.of_calls s.sender _).getActionsize_recv hlt, ok_bind, hsize,
      if_neg (by decide), if_neg (by decide)]
    rfl
  refine ⟨_, (h.step _ hcall).step .recvRound hround, rfl, rfl, rfl, ?_⟩
  rw [get_eq h.inv.readPos (Nat.le_refl _), length_append, length_map, length_around, hfull]

/-- Pages go through the channel one after the other. -/
theorem pages_transferred {k : Nat} (hk : k < 2 ^ 19) :
    ∃ s, Reachable s ∧ s.sender = none ∧ s.receiver = none ∧
      s.accepted.length = k * vchanBufSize ∧ s.delivered.length = s.accepted.length := by
  induction k with
  | zero => exact ⟨.init, .init, rfl, rfl, by simp [Channel.init], rfl⟩
  | succ k ih =>
    obtain ⟨s, hs, hsender, hreceiver, haccepted, hdelivered⟩ := ih (by omega)
    have hbound : k * vchanBufSize + vchanBufSize < 2 ^ 31 := by
      rw [vchanBufSize]
      omega
    obtain ⟨s1, hs1, hsender1, hreceiver1, haccepted1, hdelivered₁⟩ :=
      page_sent hs (by omega) hsender hdelivered
    obtain ⟨s2, hs2, hreceiver2, hsender2, haccepted2, hdelivered₂⟩ :=
      page_received hs1 (by omega) (hreceiver1.trans hreceiver) (by rw [hdelivered₁]; omega)
    refine ⟨s2, hs2, hsender2.trans hsender1, hreceiver2, ?_, ?_⟩
    · rw [haccepted2, haccepted1, haccepted, Nat.succ_mul]
    · rw [hdelivered₂, haccepted2]

/-- With the last byte of the `2 ^ 19`-th page the counters do not fit any more: the page is in
the buffer, and neither side can find out. -/
theorem counters_overflow :
    ∃ s, Reachable s ∧ s.accepted.length = 2 ^ 31 ∧
      s.accepted.length - s.delivered.length = vchanBufSize ∧
      libvchanDataReady s.buf = .error .overflow ∧
      libvchanBufferSpace true s.buf = .error .overflow := by
  have hsize : vchanBufSize = 4096 := rfl
  obtain ⟨s, hs, hsender, -, haccepted, hdelivered⟩ :=
    pages_transferred (show 2 ^ 19 - 1 < 2 ^ 19 by decide)
  obtain ⟨s1, hs1, -, -, haccepted1, hdelivered₁⟩ := page_sent hs (by omega) hsender hdelivered
  have hfilled : s1.buf.filled = .error .overflow := by rw [hs1.inv.filled_eq, if_neg (by omega)]
  refine ⟨s1, hs1, by omega, by rw [hdelivered₁]; omega, hfilled, ?_⟩
  rw [libvchanBufferSpace, hfilled]
  rfl

end SeL4Kernel.Vchan
