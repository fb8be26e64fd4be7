import SeL4Kernel.Virtio.EmulCopy

/-!
# Runs of an emulated device

What each call of an emulated device does with the guest's chains, over whole runs in
which the guest may change its memory between the calls.

`RxEffect` and `TxEffect` say what the receive and the transmit functions are for:
the packet goes to the buffers of the chain in order and as far as it fits, or the
bytes of the chain leave as one packet, and in both cases the chain ends up in the
used ring. `Accounted` follows the heads: each one that was taken is in the used ring
once or with the backend.

The calls do so under `CallOk` (`chains_respected`), and not for every guest
(`chains_not_respected`): the test for the end of a chain looks at all flags, the
header has to fit in the first descriptor, chains that lead back to themselves are
followed for ever, the console trusts the length of a chain, and a packet that the
backend refuses is not given back.
-/

namespace SeL4Kernel.Virtio

open List

/-! ### More rounds do not change a result -/

variable {e e' : Emul} {n m : ℕ}

theorem rxComplete_mono {source : ℤ → List UInt8} {more : ℤ → Bool} {first : ℤ}
    (hnm : n ≤ m) (h : rxComplete source more first n e = .ok e') :
    rxComplete source more first m e = .ok e' := by
  refine bind_ok_mono (fun _ => id) (fun guestIdx h => ?_) h
  dsimp only at h ⊢
  split at h
  next heq => rwa [if_pos heq]
  next hne =>
    rw [if_neg hne]
    exact bind_ok_mono (fun _ => id) (fun head =>
      bind_ok_mono (fun _ => doLoop_mono (fun _ _ => id) hnm) fun _ => id) h

theorem netTxRound_mono {head n m : ℕ} {r : TxRound} {o : Option Emul} (hnm : n ≤ m)
    (h : netTxRound n head r e = .ok o) : netTxRound m head r e = .ok o := by
  cases hbuf : r.buffer with
  | none =>
    rw [netTxRound, hbuf] at h ⊢
    exact h
  | some buffer =>
    rw [netTxRound, hbuf] at h ⊢
    exact bind_ok_mono (fun _ => doLoop_mono (fun _ _ => id) hnm) (fun _ => id) h

theorem conTxRound_mono {head n m : ℕ} {o : Option Emul} (hnm : n ≤ m)
    (h : conTxRound n head e = .ok o) : conTxRound m head e = .ok o := by
  exact bind_ok_mono (fun _ => doLoop_mono (fun _ _ => id) hnm) (fun _ => id) h

variable {guestIdx : BitVec 16}

theorem notifyRound_mono
    {round round' : ℕ → ℕ → Emul → Except Failure (Option Emul)}
    (h : ∀ k head e o, round k head e = .ok o → round' k head e = .ok o)
    (s : ℕ × BitVec 16 × Emul) (r : (ℕ × BitVec 16 × Emul) ⊕ (BitVec 16 × Emul))
    (hr : notifyRound guestIdx round s = .ok r) : notifyRound guestIdx round' s = .ok r := by
  obtain ⟨k, idx, e⟩ := s
  rw [notifyRound] at hr ⊢
  split at hr
  next heq => rwa [if_pos heq]
  rename_i hne
  rw [if_neg hne]
  exact bind_ok_mono (fun _ => id) (fun head => bind_ok_mono (h k head e) fun _ => id) hr

theorem notifyTx_mono {round : ℕ → ℕ → ℕ → Emul → Except Failure (Option Emul)}
    (hround : ∀ k head e o, round n k head e = .ok o → round m k head e = .ok o)
    (hnm : n ≤ m) (h : notifyTx round n e = .ok e') : notifyTx round m e = .ok e' := by
  exact bind_ok_mono (fun _ => id)
    (fun _ => bind_ok_mono (fun _ => doLoop_mono (notifyRound_mono hround) hnm) fun _ => id) h

variable {backend : ℕ → TxRound}

theorem emulNotifyTx_mono (hnm : n ≤ m)
    (h : emulNotifyTx backend n e = .ok e') : emulNotifyTx backend m e = .ok e' :=
  notifyTx_mono (fun _ _ _ _ hr => netTxRound_mono hnm hr) hnm h

theorem emulConNotifyTx_mono (hnm : n ≤ m)
    (h : emulConNotifyTx n e = .ok e') : emulConNotifyTx m e = .ok e' :=
  notifyTx_mono (fun _ _ _ _ hr => conTxRound_mono hnm hr) hnm h

theorem perform_mono {op : Op} (hnm : n ≤ m)
    (h : perform n e op = .ok e') : perform m e op = .ok e' := by
  cases op with
  | guest mem vring => exact h
  | rxComplete bufs => exact rxComplete_mono hnm h
  | conRxComplete buf => exact rxComplete_mono hnm h
  | notifyTx backend => exact emulNotifyTx_mono hnm h
  | conNotifyTx => exact emulConNotifyTx_mono hnm h
  | txComplete head backend =>
    exact bind_ok_mono (fun _ => id) (fun _ => emulNotifyTx_mono hnm) h

/-- A call has one result. -/
theorem Returns.unique {e e₁ e2 : Emul} {op : Op} (h1 : Returns e op e₁) (h2 : Returns e op e2) :
    e₁ = e2 := by
  obtain ⟨n, hn⟩ := h1
  obtain ⟨m, hm⟩ := h2
  have h := perform_mono (le_max_left n m) hn
  rw [perform_mono (le_max_right n m) hm] at h
  cases h
  rfl

/-! ### Receiving -/

section Rx

variable {S : List (List UInt8)} {head : ℕ} {l : List (ℕ × VringDesc)}

/-- The packet `S` is in the buffers of the chain, as far as it fits, and the chain
is in the used ring with the number of its bytes. -/
def Received (S : List (List UInt8)) (head : ℕ) (l : List (ℕ × VringDesc)) (e e' : Emul) : Prop :=
  ∃ e₁, Emul.UsedAdded .rx ⟨head, min (buffers l).length S.flatten.length⟩
      { e with mem := scatter e.mem (buffers l) S.flatten } e₁ ∧
    e' = { e₁ with lastIdx := Function.update e₁.lastIdx .rx (e₁.lastIdx .rx + 1) }.log
      (.taken .rx head)

/-- **What a receive function does.** The list is the chain from the head on, all of
it or as much as the packet needs. -/
def RxEffect (S : List (List UInt8)) (e e' : Emul) : Prop :=
  ∃ guestIdx, e.ringAvailIdx (e.vring .rx) = .ok guestIdx ∧
    (e.lastIdx .rx = guestIdx ∧ e' = e ∨
      e.lastIdx .rx ≠ guestIdx ∧ ∃ head l,
        e.ringAvail (e.vring .rx) (e.lastIdx .rx) = .ok head ∧
        Emul.Walk e (e.vring .rx) head l ∧
        ((∀ p ∈ l.getLast?, p.2.hasNext = false) ∨ S.flatten.length ≤ (buffers l).length) ∧
        Received S head l e e')

/-- What a receive function needs. -/
def RxOk (S : List (List UInt8)) (header : List (ℕ × VringDesc) → Prop) (e : Emul) : Prop :=
  ∃ guestIdx, e.ringAvailIdx (e.vring .rx) = .ok guestIdx ∧
    (e.lastIdx .rx ≠ guestIdx → e.UsedBacked .rx ∧ ∃ head l,
      e.ringAvail (e.vring .rx) (e.lastIdx .rx) = .ok head ∧
      RxChain e (e.vring .rx) S head l ∧ header l)

theorem Fits.complete {need capacity later : ℕ} (h : Fits S l need capacity later) :
    (∀ p ∈ l.getLast?, p.2.hasNext = false) ∨ need ≤ capacity := by
  rcases h with hflags | hlt | ⟨heq, -⟩
  · exact .inl fun p hp => VringDesc.hasNext_of_flags (hflags p hp)
  · exact .inr (by omega)
  · exact .inr (by omega)

theorem rxComplete_spec {source : ℤ → List UInt8} {more : ℤ → Bool} {first : ℤ}
    {header : List (ℕ × VringDesc) → Prop} (h : RxOk S header e)
    (hloop : ∀ head l, RxChain e (e.vring .rx) S head l → header l → ∃ n r,
      doLoop .noReturn (rxRound (e.vring .rx) source more) n (⟨0, 0, 0, first, head⟩, e) = .ok r ∧
      RxDone e S l r.1 r.2) :
    ∃ n e', rxComplete source more first n e = .ok e' ∧ RxEffect S e e' := by
  obtain ⟨guestIdx, hidx, hchain⟩ := h
  by_cases hempty : e.lastIdx .rx = guestIdx
  · refine ⟨0, e, ?_, guestIdx, hidx, .inl ⟨hempty, rfl⟩⟩
    rw [rxComplete, hidx]
    exact if_pos hempty
  · obtain ⟨hused, head, l, hhead, hrx, hheader⟩ := hchain hempty
    obtain ⟨n, ⟨tot, e0⟩, hr, htot, he0⟩ := hloop head l hrx hheader
    have hlt := hrx.total_lt
    have hmod : tot % 2 ^ 32 = min (buffers l).length S.flatten.length := by
      rw [show tot = _ from htot]
      exact Nat.mod_eq_of_lt (by omega)
    have hused0 : e0.UsedBacked .rx := by
      rw [show e0 = _ from he0]
      exact ⟨hused.num_pos, hused.backed⟩
    obtain ⟨e₁, hadd, hadded⟩ := Emul.ringUsedAdd_spec
      ⟨head, min (buffers l).length S.flatten.length⟩ hused0
      (Emul.head_lt_of_ringAvail hhead) (by simp only; omega)
    refine ⟨n, { e₁ with lastIdx := Function.update e₁.lastIdx .rx (e₁.lastIdx .rx + 1) }.log
      (.taken .rx head), ?_, guestIdx, hidx,
      .inr ⟨hempty, head, l, hhead, hrx.walk, hrx.fits.complete, e₁, ?_, rfl⟩⟩
    · rw [rxComplete, hidx, ok_bind]
      dsimp only
      rw [if_neg hempty, hhead, ok_bind, hr, ok_bind]
      rw [hmod, hadd]
      rfl
    · rw [← show e0 = _ from he0]
      exact hadded

theorem emulRxComplete_spec {bufs : List (List UInt8)} (h : RxOk (netBuffers bufs) HeaderFits e)
    (hnum : bufs.length < 2 ^ 32) :
    ∃ n e', emulRxComplete bufs n e = .ok e' ∧ RxEffect (netBuffers bufs) e e' :=
  rxComplete_spec h fun _ l hrx hheader =>
    ⟨bufs.length + l.length + 1, netLoop_done hrx hheader hnum (by omega)⟩

theorem emulConRxComplete_spec {buf : List UInt8} (h : RxOk [buf] (fun _ => True) e) :
    ∃ n e', emulConRxComplete buf n e = .ok e' ∧ RxEffect [buf] e e' :=
  rxComplete_spec h fun _ l hrx _ => ⟨l.length + 1, conLoop_done hrx (by omega)⟩

end Rx

/-! ### Transmitting -/

variable {k head : ℕ}

section Tx

/-- What a round of the network device needs: a chain that ends, and a backend that
does not refuse it; and the used ring if the chain is put there at once. -/
def NetOk (backend : ℕ → TxRound) (k head : ℕ) (e : Emul) : Prop :=
  (backend k).buffer = none ∨
    (backend k).result ≠ .failed ∧ ((backend k).result = .complete → e.UsedBacked .tx) ∧
      ∃ l, TxChain e (e.vring .tx) head l

/-- **What a round of the network device does**: the bytes of the chain behind the
virtio header are sent, and the chain goes to the used ring or stays with the
backend. -/
def NetSent (backend : ℕ → TxRound) (k head : ℕ) (e : Emul) : Option Emul → Prop
  | none => (backend k).buffer = none
  | some e' => ∃ l, TxChain e (e.vring .tx) head l ∧
      let e₁ := e.log (.sent (((chainBytes e l).drop netHdrSize).take bufSize))
      ((backend k).result = .complete ∧ Emul.UsedAdded .tx ⟨head, 0⟩ e₁ e' ∨
        (backend k).result = .enqueued ∧ e' = { e₁ with inFlight := head :: e₁.inFlight })

/-- What a round of the console needs: a chain that ends and fits. -/
def ConOk (_k head : ℕ) (e : Emul) : Prop :=
  e.UsedBacked .tx ∧ ∃ l, TxChain e (e.vring .tx) head l ∧ (buffers l).length ≤ vuartBuflen

/-- **What a round of the console does.** -/
def ConSent (_k head : ℕ) (e : Emul) : Option Emul → Prop
  | none => False
  | some e' => ∃ l buffer, TxChain e (e.vring .tx) head l ∧
      Emul.UsedAdded .tx ⟨head, 0⟩ ({ e with buf := buffer }.log (.sent (chainBytes e l))) e'

theorem netTxRound_spec (h : NetOk backend k head e) (hhead : head < 2 ^ 32) :
    ∃ n o, netTxRound n head (backend k) e = .ok o ∧ NetSent backend k head e o := by
  cases hbuf : (backend k).buffer with
  | none =>
    refine ⟨0, none, ?_, hbuf⟩
    rw [netTxRound, hbuf]
  | some buffer =>
    obtain ⟨hresult, hcomplete, l, hchain⟩ := h.resolve_left (by simp [hbuf])
    obtain ⟨r, hr, hcontent⟩ := netGather_done (p := ⟨head, 0, 0, buffer⟩) hchain (Nat.zero_le _)
      (le_refl l.length)
    have hsent : content r.2 r.1 = ((chainBytes e l).drop netHdrSize).take bufSize := hcontent
    have hround : netTxRound l.length head (backend k) e = (do
        let e ← shipped (backend k).result head
          (e.log (.sent (((chainBytes e l).drop netHdrSize).take bufSize)))
        return some e) := by
      rw [netTxRound, hbuf]
      dsimp only
      rw [hr, ok_bind, hsent]
    cases hres : (backend k).result with
    | complete =>
      have hused := hcomplete hres
      obtain ⟨e', hadd, hadded⟩ := Emul.ringUsedAdd_spec ⟨head, 0⟩
        (e := e.log (.sent (((chainBytes e l).drop netHdrSize).take bufSize)))
        ⟨hused.num_pos, hused.backed⟩ hhead (by simp)
      refine ⟨l.length, some e', ?_, l, hchain, .inl ⟨hres, hadded⟩⟩
      rw [hround, hres, shipped, emulTxComplete, hadd]
      rfl
    | enqueued =>
      refine ⟨l.length, some _, ?_, l, hchain, .inr ⟨hres, rfl⟩⟩
      rw [hround, hres]
      rfl
    | failed => exact absurd hres hresult

theorem conTxRound_spec (h : ConOk k head e) (hhead : head < 2 ^ 32) :
    ∃ n o, conTxRound n head e = .ok o ∧ ConSent k head e o := by
  obtain ⟨hused, l, hchain, hlen⟩ := h
  obtain ⟨r, hr, hr1, hcontent⟩ := conGather_done (p := ⟨head, 0, 0, e.buf⟩) hchain
    (by simpa using hlen) (le_refl l.length)
  have hsent : content r.2 r.1 = chainBytes e l := hcontent
  have hfits : ¬vuartBuflen < r.1 := by
    rw [hr1]
    simp only
    omega
  obtain ⟨e', hadd, hadded⟩ := Emul.ringUsedAdd_spec ⟨head, 0⟩
    (e := { e with buf := r.2 }.log (.sent (chainBytes e l)))
    ⟨hused.num_pos, hused.backed⟩ hhead (by simp)
  refine ⟨l.length, some e', ?_, l, r.2, hchain, hadded⟩
  rw [conTxRound, hr, ok_bind]
  dsimp only
  rw [if_neg hfits, hsent, hadd]
  rfl

/-- The rounds of a transmit function: chains are taken in the order of the available
ring, until there is none or until a round leaves the loop. -/
inductive Delivers (Sent : ℕ → ℕ → Emul → Option Emul → Prop) (guestIdx : BitVec 16) :
    ℕ → BitVec 16 → Emul → BitVec 16 → Emul → Prop
  | done {k : ℕ} {e : Emul} : Delivers Sent guestIdx k guestIdx e guestIdx e
  | later {k head : ℕ} {idx : BitVec 16} {e : Emul} : idx ≠ guestIdx →
      e.ringAvail (e.vring .tx) idx = .ok head → Sent k head e none →
      Delivers Sent guestIdx k idx e idx e
  | next {k head : ℕ} {idx idx' : BitVec 16} {e e₁ e' : Emul} : idx ≠ guestIdx →
      e.ringAvail (e.vring .tx) idx = .ok head → Sent k head e (some e₁) →
      Delivers Sent guestIdx (k + 1) (idx + 1) (e₁.log (.taken .tx head)) idx' e' →
      Delivers Sent guestIdx k idx e idx' e'

/-- The next `n` chains meet `Ok`, each in the device as it is when it is taken. -/
def RoundsOk (round : ℕ → ℕ → ℕ → Emul → Except Failure (Option Emul))
    (Ok : ℕ → ℕ → Emul → Prop) : ℕ → ℕ → BitVec 16 → Emul → Prop
  | 0, _, _, _ => True
  | n + 1, k, idx, e => ∃ head, e.ringAvail (e.vring .tx) idx = .ok head ∧ Ok k head e ∧
      ∀ fuel e₁, round fuel k head e = .ok (some e₁) →
        RoundsOk round Ok n (k + 1) (idx + 1) (e₁.log (.taken .tx head))

/-- What a transmit function needs. -/
def TxOk (round : ℕ → ℕ → ℕ → Emul → Except Failure (Option Emul))
    (Ok : ℕ → ℕ → Emul → Prop) (e : Emul) : Prop :=
  ∃ guestIdx, e.ringAvailIdx (e.vring .tx) = .ok guestIdx ∧
    RoundsOk round Ok (guestIdx - e.lastIdx .tx).toNat 0 (e.lastIdx .tx) e

/-- **What a transmit function does.** -/
def TxEffect (Sent : ℕ → ℕ → Emul → Option Emul → Prop) (e e' : Emul) : Prop :=
  ∃ guestIdx idx e₁, e.ringAvailIdx (e.vring .tx) = .ok guestIdx ∧
    Delivers Sent guestIdx 0 (e.lastIdx .tx) e idx e₁ ∧
    e' = { e₁ with lastIdx := Function.update e₁.lastIdx .tx idx }

variable {round : ℕ → ℕ → ℕ → Emul → Except Failure (Option Emul)}
  {Ok : ℕ → ℕ → Emul → Prop} {Sent : ℕ → ℕ → Emul → Option Emul → Prop}
  (hround : ∀ k head e, Ok k head e → head < 2 ^ 32 →
    ∃ n o, round n k head e = .ok o ∧ Sent k head e o)
  (hmono : ∀ n m, n ≤ m → ∀ k head e o, round n k head e = .ok o → round m k head e = .ok o)

include hround hmono in
theorem notifyLoop_done :
    ∀ {n k : ℕ} {idx : BitVec 16} {e : Emul}, (guestIdx - idx).toNat = n →
      RoundsOk round Ok n k idx e → ∃ m idx' e',
        doLoop .noReturn (notifyRound guestIdx (round m)) (n + 1) (k, idx, e) = .ok (idx', e') ∧
        Delivers Sent guestIdx k idx e idx' e' := by
  intro n
  induction n with
  | zero =>
    intro k idx e hn _
    obtain rfl : idx = guestIdx := by bv_omega
    refine ⟨0, idx, e, doLoop_exit ?_, .done⟩
    exact if_pos rfl
  | succ n ih =>
    intro k idx e hn hok
    have hne : idx ≠ guestIdx := by
      rintro rfl
      simp at hn
    obtain ⟨head, hhead, hOk, hrest⟩ := hok
    obtain ⟨m, o, ho, hsent⟩ := hround k head e hOk (Emul.head_lt_of_ringAvail hhead)
    have hstep : ∀ m', m ≤ m' → notifyRound guestIdx (round m') (k, idx, e) =
        match o with
        | none => .ok (.inr (idx, e))
        | some e => .ok (.inl (k + 1, idx + 1, e.log (.taken .tx head))) := by
      intro m' hm
      rw [notifyRound, if_neg hne, hhead, ok_bind, hmono m m' hm k head e o ho]
      cases o <;> rfl
    cases o with
    | none => exact ⟨m, idx, e, doLoop_exit (hstep m le_rfl), .later hne hhead hsent⟩
    | some e₁ =>
      obtain ⟨m', idx', e', hloop, hdel⟩ := ih (by bv_omega) (hrest m e₁ ho)
      refine ⟨max m m', idx', e', ?_, .next hne hhead hsent hdel⟩
      rw [doLoop_next (hstep _ (le_max_left m m'))]
      exact doLoop_mono (notifyRound_mono (hmono m' _ (le_max_right m m'))) le_rfl hloop

include hround hmono in
theorem notifyTx_spec (h : TxOk round Ok e) :
    ∃ n e', notifyTx round n e = .ok e' ∧ TxEffect Sent e e' := by
  obtain ⟨guestIdx, hidx, hrounds⟩ := h
  obtain ⟨m, idx, e₁, hloop, hdel⟩ := notifyLoop_done hround hmono rfl hrounds
  let n := max m ((guestIdx - e.lastIdx .tx).toNat + 1)
  have hloop' : doLoop .noReturn (notifyRound guestIdx (round n)) n (0, e.lastIdx .tx, e) =
      .ok (idx, e₁) :=
    doLoop_mono (notifyRound_mono (hmono m n (le_max_left ..))) (le_max_right ..) hloop
  refine ⟨n, _, ?_, guestIdx, idx, e₁, hidx, hdel, rfl⟩
  rw [notifyTx, hidx, ok_bind, hloop']
  rfl

/-- The rounds of the two transmit functions. -/
abbrev netRounds (backend : ℕ → TxRound) (fuel k head : ℕ) (e : Emul) :
    Except Failure (Option Emul) := netTxRound fuel head (backend k) e

abbrev conRounds (fuel _k head : ℕ) (e : Emul) : Except Failure (Option Emul) :=
  conTxRound fuel head e

theorem emulNotifyTx_spec (h : TxOk (netRounds backend) (NetOk backend) e) :
    ∃ n e', emulNotifyTx backend n e = .ok e' ∧ TxEffect (NetSent backend) e e' :=
  notifyTx_spec (fun _ _ _ => netTxRound_spec) (fun _ _ hnm _ _ _ _ => netTxRound_mono hnm) h

theorem emulConNotifyTx_spec (h : TxOk conRounds ConOk e) :
    ∃ n e', emulConNotifyTx n e = .ok e' ∧ TxEffect ConSent e e' :=
  notifyTx_spec (fun _ _ _ => conTxRound_spec) (fun _ _ hnm _ _ _ _ => conTxRound_mono hnm) h

end Tx

/-! ### Every chain that is taken is used once -/

/-- The heads taken from a queue. -/
def takenFrom (q : Queue) (trace : List Event) : List ℕ :=
  trace.filterMap fun
    | .taken q' head => if q' = q then some head else none
    | _ => none

/-- The heads in the entries put in the used ring of a queue. -/
def usedIn (q : Queue) (trace : List Event) : List ℕ :=
  trace.filterMap fun
    | .used q' elem => if q' = q then some elem.id else none
    | _ => none

/-- Every chain that was taken has been put in the used ring once, or is still with
the backend. -/
structure Accounted (e : Emul) : Prop where
  rx : (takenFrom .rx e.trace).Perm (usedIn .rx e.trace)
  tx : (takenFrom .tx e.trace).Perm (usedIn .tx e.trace ++ e.inFlight)
  inFlight_lt : ∀ head ∈ e.inFlight, head < 2 ^ 32

section Account

variable (h : Accounted e)

include h

/-- A chain is taken and put in the used ring of its queue. -/
theorem Accounted.cycle (q : Queue) (head len : ℕ) (events : List Event)
    (htaken : ∀ q', takenFrom q' events = []) (hused : ∀ q', usedIn q' events = [])
    (hflight : e'.inFlight = e.inFlight)
    (htrace : e'.trace = e.trace ++ events ++ [.used q ⟨head, len⟩] ++ [.taken q head]) :
    Accounted e' := by
  have ht : ∀ q', takenFrom q' e'.trace =
      takenFrom q' e.trace ++ if q = q' then [head] else [] := by
    intro q'
    have hev := htaken q'
    simp only [takenFrom] at hev ⊢
    split <;> simp_all
  have hu : ∀ q', usedIn q' e'.trace = usedIn q' e.trace ++ if q = q' then [head] else [] := by
    intro q'
    have hev := hused q'
    simp only [usedIn] at hev ⊢
    split <;> simp_all
  refine ⟨?_, ?_, ?_⟩
  · rw [ht, hu]
    exact h.rx.append_right _
  · rw [ht, hu, hflight, append_assoc]
    refine (h.tx.append_right _).trans ?_
    rw [append_assoc]
    exact perm_append_comm.append_left _
  · rw [hflight]
    exact h.inFlight_lt

theorem Accounted.received {S : List (List UInt8)} {head : ℕ} {l : List (ℕ × VringDesc)}
    (hrx : Received S head l e e') : Accounted e' := by
  obtain ⟨e₁, hadded, rfl⟩ := hrx
  refine h.cycle .rx head (min (buffers l).length S.flatten.length) [] (fun _ => rfl)
    (fun _ => rfl) ?_ ?_
  · rw [hadded.rest]
    rfl
  · rw [hadded.rest, append_nil]
    rfl

theorem Accounted.rxEffect {S : List (List UInt8)} (hrx : RxEffect S e e') : Accounted e' := by
  obtain ⟨-, -, ⟨-, rfl⟩ | ⟨-, head, l, -, -, -, hreceived⟩⟩ := hrx
  · exact h
  · exact h.received hreceived

theorem Accounted.netSent (hhead : head < 2 ^ 32) (hsent : NetSent backend k head e (some e')) :
    Accounted (e'.log (.taken .tx head)) := by
  obtain ⟨l, -, ⟨-, hadded⟩ | ⟨-, rfl⟩⟩ := hsent
  · refine h.cycle .tx head 0 [.sent (((chainBytes e l).drop netHdrSize).take bufSize)]
      (fun _ => rfl) (fun _ => rfl) ?_ ?_
    · rw [hadded.rest]
      rfl
    · rw [hadded.rest]
      rfl
  · refine ⟨?_, ?_, ?_⟩
    · simpa [takenFrom, usedIn, Emul.log, filterMap_append] using h.rx
    · have htx := h.tx
      simp only [takenFrom, usedIn, Emul.log, filterMap_append] at htx ⊢
      simp only [filterMap_cons, filterMap_nil, append_nil, if_true]
      refine (htx.append_right [head]).trans ?_
      rw [append_assoc]
      exact perm_append_comm.append_left _
    · intro i hi
      rcases mem_cons.mp hi with rfl | hi
      · exact hhead
      · exact h.inFlight_lt i hi

theorem Accounted.conSent (hsent : ConSent k head e (some e')) :
    Accounted (e'.log (.taken .tx head)) := by
  obtain ⟨l, buffer, -, hadded⟩ := hsent
  refine h.cycle .tx head 0 [.sent (chainBytes e l)] (fun _ => rfl) (fun _ => rfl) ?_ ?_
  · rw [hadded.rest]
    rfl
  · rw [hadded.rest]
    rfl

omit h

variable {Sent : ℕ → ℕ → Emul → Option Emul → Prop}
  (hsent : ∀ {k head : ℕ} {e e' : Emul}, Accounted e → head < 2 ^ 32 →
    Sent k head e (some e') → Accounted (e'.log (.taken .tx head)))

include hsent in
theorem Accounted.delivers {idx idx' : BitVec 16} (hdel : Delivers Sent guestIdx k idx e idx' e')
    (h : Accounted e) : Accounted e' := by
  induction hdel with
  | done => exact h
  | later _ _ _ => exact h
  | next _ hhead hround _ ih => exact ih (hsent h (Emul.head_lt_of_ringAvail hhead) hround)

include hsent in
theorem Accounted.txEffect (htx : TxEffect Sent e e') (h : Accounted e) : Accounted e' := by
  obtain ⟨guestIdx, idx, e₁, -, hdel, rfl⟩ := htx
  have h1 := h.delivers hsent hdel
  exact ⟨h1.rx, h1.tx, h1.inFlight_lt⟩

/-- The backend gives a chain back. -/
theorem Accounted.completed {head : ℕ} (h : Accounted e) (hin : head ∈ e.inFlight)
    (hadded : Emul.UsedAdded .tx ⟨head, 0⟩ { e with inFlight := e.inFlight.erase head } e') :
    Accounted e' := by
  rw [hadded.rest]
  refine ⟨?_, ?_, ?_⟩
  · simpa [takenFrom, usedIn, filterMap_append] using h.rx
  · have htx := h.tx
    simp only [takenFrom, usedIn, filterMap_append] at htx ⊢
    simp only [filterMap_cons, filterMap_nil, append_nil, if_true, append_assoc]
    refine htx.trans (List.Perm.append_left _ ?_)
    exact perm_cons_erase hin
  · intro i hi
    exact h.inFlight_lt i (mem_of_mem_erase hi)

end Account

/-! ### Runs -/

/-- What a call needs to respect the chains of the guest. -/
def CallOk (e : Emul) : Op → Prop
  | .guest _ _ => True
  | .rxComplete bufs => bufs.length < 2 ^ 32 ∧ RxOk (netBuffers bufs) HeaderFits e
  | .conRxComplete buf => RxOk [buf] (fun _ => True) e
  | .notifyTx backend => TxOk (netRounds backend) (NetOk backend) e
  | .conNotifyTx => TxOk conRounds ConOk e
  | .txComplete head backend => head ∈ e.inFlight ∧ e.UsedBacked .tx ∧
      ∀ e₁, emulTxComplete head { e with inFlight := e.inFlight.erase head } = .ok e₁ →
        TxOk (netRounds backend) (NetOk backend) e₁

/-- What a call does. -/
def Effect (e : Emul) : Op → Emul → Prop
  | .guest mem vring, e' => e' = { e with mem := mem, vring := vring }
  | .rxComplete bufs, e' => RxEffect (netBuffers bufs) e e'
  | .conRxComplete buf, e' => RxEffect [buf] e e'
  | .notifyTx backend, e' => TxEffect (NetSent backend) e e'
  | .conNotifyTx, e' => TxEffect ConSent e e'
  | .txComplete head backend, e' => ∃ e₁,
      Emul.UsedAdded .tx ⟨head, 0⟩ { e with inFlight := e.inFlight.erase head } e₁ ∧
      TxEffect (NetSent backend) e₁ e'

section Runs

variable {op : Op}

/-- **Step lemma.** A call returns, and respects the chains. -/
theorem Accounted.call (h : Accounted e) (hok : CallOk e op) :
    ∃ e', Returns e op e' ∧ Effect e op e' ∧ Accounted e' := by
  cases op with
  | guest mem vring =>
    exact ⟨{ e with mem := mem, vring := vring }, ⟨0, rfl⟩, rfl, h.rx, h.tx, h.inFlight_lt⟩
  | rxComplete bufs =>
    obtain ⟨n, e', hr, heffect⟩ := emulRxComplete_spec hok.2 hok.1
    exact ⟨e', ⟨n, hr⟩, heffect, h.rxEffect heffect⟩
  | conRxComplete buf =>
    obtain ⟨n, e', hr, heffect⟩ := emulConRxComplete_spec hok
    exact ⟨e', ⟨n, hr⟩, heffect, h.rxEffect heffect⟩
  | notifyTx backend =>
    obtain ⟨n, e', hr, heffect⟩ := emulNotifyTx_spec hok
    exact ⟨e', ⟨n, hr⟩, heffect, h.txEffect Accounted.netSent heffect⟩
  | conNotifyTx =>
    obtain ⟨n, e', hr, heffect⟩ := emulConNotifyTx_spec hok
    exact ⟨e', ⟨n, hr⟩, heffect, h.txEffect (fun h _ => h.conSent) heffect⟩
  | txComplete head backend =>
    obtain ⟨hin, hused, hrest⟩ := hok
    obtain ⟨e₁, hadd, hadded⟩ := Emul.ringUsedAdd_spec ⟨head, 0⟩
      (e := { e with inFlight := e.inFlight.erase head })
      ⟨hused.num_pos, hused.backed⟩ (h.inFlight_lt head hin) (by simp)
    obtain ⟨n, e', hr, heffect⟩ := emulNotifyTx_spec (hrest e₁ hadd)
    refine ⟨e', ⟨n, ?_⟩, ⟨e₁, hadded, heffect⟩,
      (h.completed hin hadded).txEffect Accounted.netSent heffect⟩
    rw [perform, emulTxCompleteExternal, emulTxComplete, hadd]
    exact hr

/-- **Run lemma.** -/
theorem Reaches.accounted (h : Reaches CallOk e) : Accounted e := by
  induction h with
  | start hflight htrace =>
    refine ⟨?_, ?_, ?_⟩
    · rw [htrace]
      exact List.Perm.refl _
    · rw [htrace, hflight]
      exact List.Perm.refl _
    · rw [hflight]
      nofun
  | step _ hok hreturns ih =>
    obtain ⟨e₁, hreturns1, -, haccounted⟩ := ih.call hok
    rw [hreturns.unique hreturns1]
    exact haccounted

/-- **Main result.** In every run whose calls meet `CallOk`, each call returns and
does with the guest's chains what it should, and no chain is lost or used twice. -/
theorem chains_respected (h : Reaches CallOk e) :
    Accounted e ∧ ∀ op, CallOk e op →
      ∃ e', (∀ e'', Returns e op e'' ↔ e'' = e') ∧ Effect e op e' := by
  refine ⟨h.accounted, fun op hok => ?_⟩
  obtain ⟨e', hreturns, heffect, -⟩ := h.accounted.call hok
  refine ⟨e', fun e'' => ⟨fun h'' => h''.unique hreturns, ?_⟩, heffect⟩
  rintro rfl
  exact hreturns

/-! ### Guests that share one chain -/

/-- The bytes of a descriptor table. -/
def tableBytes (descs : List VringDesc) : List UInt8 :=
  descs.flatMap fun d =>
    leBytes 8 d.addr ++ leBytes 4 d.len ++ leBytes 2 d.flags ++ leBytes 2 d.next

/-- A ring of four entries at the bottom of guest memory. -/
def lowVring : Vring := ⟨4, 0, 64, 80⟩

/-- A device whose guest has made one chain available, from the first descriptor on. -/
def sharing (descs : List VringDesc) : Emul where
  ram := [⟨0, 65536, true⟩]
  mem := scatter (scatter (fun _ => 0) (List.range' 0 64) (tableBytes descs)) [66] [1]
  vring := fun _ => lowVring
  lastIdx := fun _ => 0
  buf := fun _ => 0
  inFlight := []
  trace := []

/-- A backend that gives every packet the same answer. -/
def answering (result : TxResult) (_k : ℕ) : TxRound := ⟨some fun _ => 0, result⟩

theorem Reaches.sharing {ok : Emul → Op → Prop} (descs : List VringDesc) :
    Reaches ok (sharing descs) := .start rfl rfl

theorem usedBacked_sharing (descs : List VringDesc) (q : Queue) : (sharing descs).UsedBacked q :=
  ⟨(by decide : 0 < 4), ⟨0, 65536, true⟩, mem_cons_self .., Nat.zero_le _,
    (by decide : 80 + (4 + 8 * 4) ≤ 0 + 65536), by decide⟩

theorem returns_of_perform {α : Type} (n : ℕ) (f : Emul → α) {x : α}
    (h : (perform n e op).toOption.map f = some x) : ∃ e', Returns e op e' ∧ f e' = x := by
  cases hr : perform n e op with
  | error failure => rw [hr] at h; cases h
  | ok e' =>
    rw [hr] at h
    exact ⟨e', ⟨n, hr⟩, Option.some.inj h⟩

theorem oneDesc_respected :
    Reaches CallOk (sharing [⟨1000, 100, 0, 0⟩]) ∧
    (CallOk (sharing [⟨1000, 100, 0, 0⟩]) (.rxComplete [[7, 7, 7, 7]]) ∧
      ∃ e', Returns (sharing [⟨1000, 100, 0, 0⟩]) (.rxComplete [[7, 7, 7, 7]]) e' ∧
        RxEffect (netBuffers [[7, 7, 7, 7]]) (sharing [⟨1000, 100, 0, 0⟩]) e') ∧
    CallOk (sharing [⟨1000, 100, 0, 0⟩]) (.notifyTx (answering .enqueued)) ∧
      ∃ e', Returns (sharing [⟨1000, 100, 0, 0⟩]) (.notifyTx (answering .enqueued)) e' ∧
        TxEffect (NetSent (answering .enqueued)) (sharing [⟨1000, 100, 0, 0⟩]) e' := by
  have hdesc : (sharing [⟨1000, 100, 0, 0⟩]).ringDesc lowVring 0 = .ok ⟨1000, 100, 0, 0⟩ := by
    decide +kernel
  have hidx : (sharing [⟨1000, 100, 0, 0⟩]).ringAvailIdx lowVring = .ok 1 := by decide +kernel
  have hhead : (sharing [⟨1000, 100, 0, 0⟩]).ringAvail lowVring 0 = .ok 0 := by decide +kernel
  have hbuf : ∀ p ∈ [((0 : ℕ), (⟨1000, 100, 0, 0⟩ : VringDesc))],
      p.2.Buffered (sharing [⟨1000, 100, 0, 0⟩]).ram := by
    intro p hp
    obtain rfl := mem_singleton.mp hp
    exact .inr ⟨⟨0, 65536, true⟩, mem_cons_self .., by decide, by decide, by decide⟩
  have hrx : CallOk (sharing [⟨1000, 100, 0, 0⟩]) (.rxComplete [[7, 7, 7, 7]]) := by
    refine ⟨by decide, 1, hidx, fun _ => ⟨usedBacked_sharing _ _, 0, [(0, ⟨1000, 100, 0, 0⟩)],
      hhead, ⟨.last hdesc, by decide +kernel, hbuf, .inl ?_, by decide⟩, ?_⟩⟩
    · intro p hp
      cases hp
      rfl
    · intro p hp
      cases hp
      exact .inl (by decide)
  have htx : CallOk (sharing [⟨1000, 100, 0, 0⟩]) (.notifyTx (answering .enqueued)) := by
    refine ⟨1, hidx, 0, hhead, .inr ⟨by decide, fun _ => usedBacked_sharing _ _,
      [(0, ⟨1000, 100, 0, 0⟩)], .last hdesc, ?_, hbuf⟩, fun _ _ _ => trivial⟩
    intro p hp
    cases hp
    rfl
  obtain ⟨e₁, hr1, heff1⟩ := (chains_respected (.sharing _)).2 _ hrx
  obtain ⟨e2, hr2, heff2⟩ := (chains_respected (.sharing _)).2 _ htx
  exact ⟨.sharing _, ⟨hrx, e₁, (hr1 e₁).mpr rfl, heff1⟩, htx, e2, (hr2 e2).mpr rfl, heff2⟩

/-- A chain of one writable descriptor: the next one is written to although nothing
leads there. -/
theorem rx_writes_outside :
    ∃ e', Returns (sharing [⟨1000, 12, 2, 1⟩, ⟨2000, 100, 2, 0⟩]) (.rxComplete [[7, 7, 7, 7]]) e' ∧
      e'.mem 2000 = 7 ∧
      ∀ l, Emul.Walk (sharing [⟨1000, 12, 2, 1⟩, ⟨2000, 100, 2, 0⟩]) lowVring 0 l →
        2000 ∉ buffers l := by
  have hrun : ((perform 4 (sharing [⟨1000, 12, 2, 1⟩, ⟨2000, 100, 2, 0⟩])
      (.rxComplete [[7, 7, 7, 7]])).toOption.map fun e => e.mem 2000) = some 7 := by
    decide +kernel
  obtain ⟨e', hreturns, hmem⟩ := returns_of_perform 4 (fun e => e.mem 2000) hrun
  refine ⟨e', hreturns, hmem, fun l hl => ?_⟩
  cases hl with
  | last hd =>
    cases hd
    decide
  | next hd hnext _ =>
    cases hd
    cases hnext

/-- A packet that the backend refuses: its chain is taken and never comes back. -/
theorem refused_lost :
    ∃ e', Returns (sharing [⟨1000, 12, 0, 0⟩]) (.notifyTx (answering .failed)) e' ∧
      takenFrom .tx e'.trace = [0] ∧ usedIn .tx e'.trace = [] ∧ e'.inFlight = [] := by
  have hrun : ((perform 4 (sharing [⟨1000, 12, 0, 0⟩])
      (.notifyTx (answering .failed))).toOption.map fun e =>
        (takenFrom .tx e.trace, usedIn .tx e.trace, e.inFlight)) = some ([0], [], []) := by
    decide +kernel
  obtain ⟨e', hreturns, hobs⟩ := returns_of_perform 4 _ hrun
  simp only [Prod.mk.injEq] at hobs
  exact ⟨e', hreturns, hobs⟩

/-- A descriptor that leads to itself: the loop over the chain does not end. -/
theorem emulNotifyTx_noReturn {head : ℕ}
    {d : VringDesc} {buffer : Bytes} (hidx : e.ringAvailIdx (e.vring .tx) = .ok guestIdx)
    (hne : e.lastIdx .tx ≠ guestIdx) (hhead : e.ringAvail (e.vring .tx) (e.lastIdx .tx) = .ok head)
    (hbuffer : (backend 0).buffer = some buffer)
    (hdesc : e.ringDesc (e.vring .tx) head = .ok d) (hbuf : d.Buffered e.ram)
    (hnext : d.hasNext = true) (hself : d.next = head) (fuel : ℕ) :
    emulNotifyTx backend fuel e = .error .noReturn := by
  let I : Packet → Prop := fun p => p.descIdx = head ∧ p.len ≤ bufSize
  have hstep : ∀ p, I p → ∃ p', netGatherRound e (e.vring .tx) p = .ok (.inl p') ∧ I p' := by
    rintro p ⟨rfl, hlen⟩
    obtain ⟨buffer, len, hround, hlen', -⟩ := netGatherRound_eq hdesc hbuf hlen
    rw [if_pos hnext] at hround
    refine ⟨_, hround, hself, ?_⟩
    change len ≤ bufSize
    omega
  have hstart : I ⟨head, 0, 0, buffer⟩ := ⟨rfl, Nat.zero_le _⟩
  have hround : ∀ n, netTxRound n head (backend 0) e = .error .noReturn := by
    intro n
    rw [netTxRound, hbuffer]
    dsimp only
    rw [doLoop_stuck hstep hstart]
    rfl
  have hloop : ∀ n m, doLoop .noReturn (notifyRound guestIdx (netRounds backend m)) n
      (0, e.lastIdx .tx, e) = .error .noReturn := by
    intro n m
    cases n with
    | zero => rfl
    | succ n =>
      have hnotify : notifyRound guestIdx (netRounds backend m) (0, e.lastIdx .tx, e) =
          .error .noReturn := by
        rw [notifyRound, if_neg hne, hhead, ok_bind, netRounds, hround]
        rfl
      rw [doLoop, hnotify]
  rw [emulNotifyTx, notifyTx, hidx, ok_bind, hloop]
  rfl

/-- The device does not respect every guest: it writes outside the chain, lets the
console's packet buffer overrun, loses the chain of a packet that the backend refuses
and walks a cycle for ever. -/
theorem chains_not_respected :
    (∃ e', Returns (sharing [⟨1000, 12, 2, 1⟩, ⟨2000, 100, 2, 0⟩])
        (.rxComplete [[7, 7, 7, 7]]) e' ∧ e'.mem 2000 = 7 ∧
      ∀ l, Emul.Walk (sharing [⟨1000, 12, 2, 1⟩, ⟨2000, 100, 2, 0⟩]) lowVring 0 l →
        2000 ∉ buffers l) ∧
    errorOf (perform 4 (sharing [⟨1000, 4089, 0, 0⟩]) .conNotifyTx) = some .overrun ∧
    (∃ e', Returns (sharing [⟨1000, 12, 0, 0⟩]) (.notifyTx (answering .failed)) e' ∧
      takenFrom .tx e'.trace = [0] ∧ usedIn .tx e'.trace = [] ∧ e'.inFlight = []) ∧
    ∀ fuel, perform fuel (sharing [⟨1000, 0, 1, 0⟩]) (.notifyTx (answering .complete)) =
      .error .noReturn := by
  refine ⟨rx_writes_outside, by decide +kernel, refused_lost, fun fuel => ?_⟩
  have hdesc : (sharing [⟨1000, 0, 1, 0⟩]).ringDesc lowVring 0 = .ok ⟨1000, 0, 1, 0⟩ := by
    decide +kernel
  have hidx : (sharing [⟨1000, 0, 1, 0⟩]).ringAvailIdx lowVring = .ok 1 := by decide +kernel
  have hhead : (sharing [⟨1000, 0, 1, 0⟩]).ringAvail lowVring 0 = .ok 0 := by decide +kernel
  exact emulNotifyTx_noReturn hidx (by decide) hhead rfl hdesc (.inl rfl) rfl rfl fuel

end Runs

end SeL4Kernel.Virtio
