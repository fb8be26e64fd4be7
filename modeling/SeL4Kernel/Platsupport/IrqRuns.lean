import Mathlib.Data.List.Nodup
import SeL4Kernel.Platsupport.IrqTables

/-!
# Callbacks are run for the interrupts that have arrived

The binding is known from the operations and their replies (`rebound`): a pair is there from the
operation that has made it until the one that takes it back. In every run both tables describe this
binding, and a received badge leads to the callbacks of the bits that it has and that the mask
selects (`irqs_served`). This holds under conditions on the arguments (`Permitted`): the bits for
which callbacks are to be run are bound, no pending bit is selected or received once more, and
identifiers are within their tables.

Without these conditions the callback of another interrupt is run, since the table of bound
interrupts of a new notification is zero, and a pending interrupt is lost or served twice, since
`serve_irq` combines the pending bits with an exclusive or (`irqs_lost`).
-/

namespace SeL4Kernel.Platsupport

open Function List IrqCookie

variable {c : IrqCookie} {β : ℕ → Option (ℕ × ℕ)} {irq b ntfn : ℕ} {bits : List ℕ}
  {mask badge : BitVec 64} {ntfnId : ℤ}

/-! ### Operations -/

inductive Op where
  | register (callback : Option ℕ)
  | unregister (irqId : ℤ)
  | provideNtfn (ntfn : ℕ) (usableMask : BitVec 64)
  | provideNtfnWithId (ntfn : ℕ) (usableMask : BitVec 64) (idHint : ℤ)
  | returnNtfn (ntfnId : ℤ)
  | setNtfn (ntfnId irqId : ℤ)
  | unsetNtfn (irqId : ℤ)
  | wait (ntfnId : ℤ) (mask badge : BitVec 64)
  | poll (ntfnId : ℤ) (mask badge : BitVec 64)
  | handle (ntfnId : ℤ) (mask : BitVec 64)

/-- An operation that runs no callback. -/
def quiet (x : Except Failure (Reply × IrqCookie)) : Except Failure Result :=
  x.map fun (reply, c) => ⟨reply, [], c⟩

def step (c : IrqCookie) : Op → Except Failure Result
  | .register callback => quiet (irqRegister callback c)
  | .unregister irqId => quiet (irqUnregister irqId c)
  | .provideNtfn ntfn usableMask => quiet (irqProvideNtfn ntfn usableMask c)
  | .provideNtfnWithId ntfn usableMask idHint =>
    quiet (irqProvideNtfnWithId ntfn usableMask idHint c)
  | .returnNtfn ntfnId => quiet (irqReturnNtfn ntfnId c)
  | .setNtfn ntfnId irqId => quiet (irqSetNtfn ntfnId irqId c)
  | .unsetNtfn irqId => quiet (irqUnsetNtfn irqId c)
  | .wait ntfnId mask badge => irqWait ntfnId mask badge c
  | .poll ntfnId mask badge => irqPoll ntfnId mask badge c
  | .handle ntfnId mask => irqHandle ntfnId mask c

/-- The binding after an operation, by its reply. The mini interface pairs an interrupt with its
notification when it is registered; the bit is the one that the interrupt then has. -/
def rebound (β : ℕ → Option (ℕ × ℕ)) (op : Op) (r : Result) : ℕ → Option (ℕ × ℕ) :=
  match op, r.reply with
  | .register _, .id irqId =>
    if r.cookie.ifaceType = .mini then
      update β irqId.toNat (some (0, (r.cookie.irqTable irqId.toNat).allocatedBadgeIndex.toNat))
    else β
  | .unregister irqId, .done => update β irqId.toNat none
  | .returnNtfn ntfnId, .cptr _ => withoutNtfn β ntfnId.toNat
  | .setNtfn ntfnId irqId, .badge badge =>
    update β irqId.toNat (some (ntfnId.toNat, lowestBit badge))
  | .unsetNtfn irqId, .done => update β irqId.toNat none
  | _, _ => β

/-- The bits that are to be served are bound, and no pending bit is selected or received. -/
def Receivable (e : NtfnEntry) (mask badge : BitVec 64) : Prop :=
  e.pendingBitfield &&& mask = 0 ∧ e.pendingBitfield &&& (badge &&& e.usableMask) = 0 ∧
    badge &&& e.usableMask &&& mask &&& ~~~e.statusBitfield = 0

/-- The condition on the arguments of an operation. -/
def Permitted (c : IrqCookie) : Op → Prop
  | .provideNtfn _ _ => c.numAllocatedNtfns < 64 * (c.numIrqBitfields - 1)
  | .provideNtfnWithId _ _ idHint => c.ValidNtfn idHint
  | .wait ntfnId mask badge => Receivable (c.ntfnTable ntfnId.toNat) mask badge
  | .poll ntfnId mask badge => Receivable (c.ntfnTable ntfnId.toNat) mask badge
  | .handle ntfnId mask =>
    mask &&& (c.ntfnTable ntfnId.toNat).usableMask &&&
      ~~~(c.ntfnTable ntfnId.toNat).statusBitfield = 0
  | _ => True

/-! ### Interrupts and notifications -/

/-- An operation returns, and both tables have the binding after it. -/
def Kept (β : ℕ → Option (ℕ × ℕ)) (op : Op) (x : Except Failure (Reply × IrqCookie)) : Prop :=
  ∃ reply c', x = .ok (reply, c') ∧ Inv c' (rebound β op ⟨reply, [], c'⟩)

theorem rebound_error {op : Op} {code : ErrorCode} {called : List ℤ} :
    rebound β op ⟨.error code, called, c⟩ = β := by
  cases op <;> rfl

theorem lowestBit_one_shiftLeft (hb : b < 64) : lowestBit (1#64 <<< b) = b :=
  lowestBit_eq (by simp [hb]) fun j hj => by simp [hj]

variable (h : Inv c β)

include h

theorem Inv.refused {op : Op} (code : ErrorCode) : Kept β op (.ok (.error code, c)) :=
  ⟨_, c, rfl, rebound_error ▸ h⟩

/-- An operation that refuses leaves the tables as they are. -/
theorem Inv.kept_ite {op : Op} {p : Prop} [Decidable p] {code : ErrorCode}
    {x : Except Failure (Reply × IrqCookie)} (hx : ¬p → Kept β op x) :
    Kept β op (if p then .ok (.error code, c) else x) := by
  split
  · exact h.refused code
  next hp => exact hx hp

/-- Pairing refuses, or binds the interrupt. -/
theorem irqSetNtfnCommon_spec (hirq : irq < c.maxIrqIds)
    (hntfn : ntfn < c.maxNtfnIds) (hirqAll : (c.irqTable irq).allocated = true)
    (hntfnAll : (c.ntfnTable ntfn).allocated = true) :
    (∃ code, irqSetNtfnCommon ntfn irq c = .ok (.error code, c)) ∨
      ∃ b < 64, irqSetNtfnCommon ntfn irq c = .ok (.badge (1#64 <<< b), c.bind ntfn irq b) ∧
        Inv (c.bind ntfn irq b) (update β irq (some (ntfn, b))) := by
  unfold irqSetNtfnCommon
  rw [irqIndex_ofNat hirq, ok_bind]
  split
  · exact .inl ⟨_, rfl⟩
  rename_i hpaired
  rw [ntfnIndex_ofNat hntfn, ok_bind]
  split
  · exact .inl ⟨_, rfl⟩
  cases hindex : findFreeNtfnBadgeIndex (c.ntfnTable ntfn) with
  | none => exact .inl ⟨_, rfl⟩
  | some b =>
    have hnone : β irq = none := by
      cases hβ : β irq with
      | none => rfl
      | some p =>
        rw [h.pairedNtfn_some hβ] at hpaired
        unfold unpairedId at hpaired
        omega
    obtain ⟨hb, hstatus, husable⟩ := findFreeNtfnBadgeIndex_some hindex
    exact .inr ⟨b, hb, rfl, h.bind hirq hntfn hb hnone hstatus husable hirqAll hntfnAll⟩

/-- The pair of an interrupt is taken out of both tables. -/
theorem releasePair_spec (hβ : β irq = some (ntfn, b)) :
    releasePair (c.irqTable irq) c = .ok (c.release ntfn b) := by
  unfold releasePair
  rw [h.pairedNtfn_some hβ, ntfnIndex_ofNat (h.bounds hβ).2, h.badgeIndex_some hβ]
  rfl

theorem irqUnregister_spec (irqId : ℤ) : Kept β (.unregister irqId) (irqUnregister irqId c) := by
  refine h.kept_ite fun hvalid => ?_
  obtain ⟨irq, rfl, hirq⟩ := validIrq_cases (not_not.1 hvalid)
  rw [irqIndex_ofNat hirq]
  refine h.kept_ite fun hall => ?_
  rw [not_not] at hall
  cases hβ : β irq with
  | none =>
    have hunpaired : ¬(c.irqTable irq).pairedNtfn > unpairedId := by
      rw [h.pairedNtfn_none hirq hβ]
      exact Int.lt_irrefl _
    rw [if_neg hunpaired]
    refine ⟨_, _, rfl, ?_⟩
    change Inv _ (update β irq none)
    rw [← hβ, update_eq_self]
    exact h.unregister hirq hall hβ
  | some p =>
    obtain ⟨ntfn, b⟩ := p
    have hpaired : (c.irqTable irq).pairedNtfn > unpairedId := by
      rw [h.pairedNtfn_some hβ]
      unfold unpairedId
      omega
    rw [if_pos hpaired, releasePair_spec h hβ]
    have hall' : (((c.release ntfn b).unpair irq).irqTable irq).allocated = true := by
      dsimp only [unpair, setIrq]
      rw [update_self]
      exact hall
    have hfree := (h.unbind hβ).unregister hirq hall' (update_self irq none β)
    -- emptying the entry forgets that its pair was taken out
    have hsame : ((c.release ntfn b).unpair irq).setIrq irq emptyIrq =
        (c.release ntfn b).setIrq irq emptyIrq := by
      dsimp only [unpair, setIrq]
      rw [update_idem]
    rw [hsame] at hfree
    exact ⟨_, _, rfl, hfree⟩

theorem irqRegisterCommon_spec (callback : Option ℕ) :
    (∃ code, irqRegisterCommon callback c = .ok (.error code, c)) ∨
      ∃ (irq : ℕ) (c' : IrqCookie), irqRegisterCommon callback c = .ok (.id irq, c') ∧ Inv c' β ∧
        irq < c'.maxIrqIds ∧ (c'.irqTable irq).allocated = true ∧ β irq = none := by
  unfold irqRegisterCommon
  split
  · exact .inl ⟨_, rfl⟩
  rename_i hfull
  split
  · exact .inl ⟨_, rfl⟩
  rename_i hcallback
  obtain ⟨irq, hfind, hirq, hfree⟩ := h.findFreeIrqId (Nat.not_le.1 hfull)
  rw [hfind, ok_bind, irqIndex_ofNat hirq]
  obtain ⟨hnone, hinv⟩ := h.register hirq hfree hcallback
  refine .inr ⟨irq, _, rfl, hinv, hirq, ?_, hnone⟩
  dsimp only [setIrq]
  rw [update_self]

theorem irqRegister_spec (callback : Option ℕ) :
    Kept β (.register callback) (irqRegister callback c) := by
  unfold irqRegister
  rcases irqRegisterCommon_spec h callback with
    ⟨code, herr⟩ | ⟨irq, c1, hok, hinv, hirq, hall, hnone⟩
  · rw [herr, ok_bind]
    dsimp only
    cases c.ifaceType <;> exact h.refused code
  · rw [hok, ok_bind]
    dsimp only
    cases hiface : c1.ifaceType with
    | standard =>
      refine ⟨.id irq, c1, rfl, ?_⟩
      simp only [rebound, hiface, reduceCtorEq, if_false]
      exact hinv
    | mini =>
      obtain ⟨hpos, hntfnAll⟩ := hinv.mini hiface
      dsimp only
      rcases irqSetNtfnCommon_spec hinv hirq hpos hall hntfnAll with
        ⟨code, herr⟩ | ⟨b, -, hset, hinv2⟩
      · -- the interrupt had no pair, and unregistering it leaves the binding as it was
        obtain ⟨reply, c3, hun, hinv3⟩ := irqUnregister_spec hinv irq
        have hsame : rebound β (.unregister irq) ⟨reply, [], c3⟩ = β := by
          cases reply with
          | done => exact (congrArg (update β irq) hnone.symm).trans (update_eq_self irq β)
          | _ => rfl
        rw [hsame] at hinv3
        rw [Int.natCast_zero] at herr
        rw [herr, ok_bind]
        rw [hun]
        exact hinv3.refused code
      · rw [Int.natCast_zero] at hset
        rw [hset]
        refine ⟨.id irq, _, rfl, ?_⟩
        have hmini : (c1.bind 0 irq b).ifaceType = .mini := hiface
        have hbit : ((c1.bind 0 irq b).irqTable irq).allocatedBadgeIndex = b := by
          simp only [IrqCookie.bind, setIrq, update_self]
        simp only [rebound, hmini, if_true, Int.toNat_natCast, hbit]
        exact hinv2

theorem provideNtfnCommon_spec (hntfn : ntfn < c.maxNtfnIds)
    (hfree : (c.ntfnTable ntfn).allocated = false) (root : ℕ) (usableMask : BitVec 64) :
    ∃ c', provideNtfnCommon root usableMask ntfn c = .ok c' ∧ Inv c' β := by
  unfold provideNtfnCommon
  rw [ntfnIndex_ofNat hntfn]
  exact ⟨_, rfl, h.provide hntfn hfree root usableMask⟩

theorem irqProvideNtfn_spec (root : ℕ) (usableMask : BitVec 64)
    (hlow : c.numAllocatedNtfns < 64 * (c.numIrqBitfields - 1)) :
    Kept β (.provideNtfn root usableMask) (irqProvideNtfn root usableMask c) := by
  refine h.kept_ite fun hnull => ?_
  refine h.kept_ite fun hmini => ?_
  refine h.kept_ite fun hfull => ?_
  obtain ⟨ntfn, hfind, hntfn, hfree⟩ := h.findFreeNtfnId (Nat.not_le.1 hfull) hlow
  obtain ⟨c', hprovide, hinv⟩ := provideNtfnCommon_spec h hntfn hfree root usableMask
  rw [hfind, ok_bind, hprovide]
  exact ⟨_, c', rfl, hinv⟩

theorem irqProvideNtfnWithId_spec (root : ℕ) (usableMask : BitVec 64) {idHint : ℤ}
    (hvalid : c.ValidNtfn idHint) :
    Kept β (.provideNtfnWithId root usableMask idHint)
      (irqProvideNtfnWithId root usableMask idHint c) := by
  obtain ⟨ntfn, rfl, hntfn⟩ := validNtfn_cases hvalid
  refine h.kept_ite fun hnull => ?_
  refine h.kept_ite fun hmini => ?_
  refine h.kept_ite fun hfull => ?_
  rw [ntfnIndex_ofNat hntfn, ok_bind]
  cases hall : (c.ntfnTable ntfn).allocated with
  | true => exact h.refused _
  | false =>
    obtain ⟨c', hprovide, hinv⟩ := provideNtfnCommon_spec h hntfn hall root usableMask
    rw [hprovide]
    exact ⟨_, c', rfl, hinv⟩

theorem irqReturnNtfn_spec (ntfnId : ℤ) : Kept β (.returnNtfn ntfnId) (irqReturnNtfn ntfnId c) := by
  refine h.kept_ite fun hmini => ?_
  refine h.kept_ite fun hvalid => ?_
  obtain ⟨ntfn, rfl, hntfn⟩ := validNtfn_cases (not_not.1 hvalid)
  rw [ntfnIndex_ofNat hntfn]
  refine h.kept_ite fun hall => ?_
  rw [not_not] at hall
  obtain ⟨irqs, hbits, hirqs⟩ := h.exists_irqs hntfn
  have hlt : ∀ irq ∈ irqs, irq < c.maxIrqIds := by
    intro irq hirq
    obtain ⟨b, hβ⟩ := (hirqs irq).1 hirq
    exact (h.bounds hβ).1
  have hloop : unpairBits (c.ntfnTable ntfn) c =
      .ok { c with irqTable := unpairAll c.irqTable irqs } := by
    unfold unpairBits
    have hnum := (h.ntfn ntfn hntfn).numIrqsBound
    by_cases hpos : (c.ntfnTable ntfn).numIrqsBound > 0
    · rw [if_pos hpos, forBits_eq (Nat.lt_succ_of_le (length_setBits_le _)),
        foldlM_unpairBit hbits hlt]
    rw [if_neg hpos]
    have hnil : setBits (c.ntfnTable ntfn).statusBitfield = [] := length_eq_zero_iff.1 (by omega)
    rw [hnil] at hbits
    obtain rfl : irqs = [] := by simpa using hbits.symm
    have hsame : unpairAll c.irqTable [] = c.irqTable := funext fun i => if_neg (by simp)
    rw [hsame]
  rw [hloop]
  exact ⟨_, _, rfl, h.giveBack hntfn hall hmini hirqs⟩

theorem irqSetNtfn_spec (ntfnId irqId : ℤ) :
    Kept β (.setNtfn ntfnId irqId) (irqSetNtfn ntfnId irqId c) := by
  refine h.kept_ite fun hmini => ?_
  refine h.kept_ite fun hvalid => ?_
  obtain ⟨ntfn, rfl, hntfn⟩ := validNtfn_cases (not_not.1 hvalid)
  rw [ntfnIndex_ofNat hntfn]
  refine h.kept_ite fun hntfnAll => ?_
  split
  · exact h.refused _
  rename_i hvalid'
  obtain ⟨irq, rfl, hirq⟩ := validIrq_cases (not_not.1 hvalid')
  rw [irqIndex_ofNat hirq]
  refine h.kept_ite fun hirqAll => ?_
  rcases irqSetNtfnCommon_spec h hirq hntfn (not_not.1 hirqAll) (not_not.1 hntfnAll) with
    ⟨code, herr⟩ | ⟨b, hb, hset, hinv⟩
  · rw [herr]
    exact h.refused code
  · refine ⟨_, _, hset, ?_⟩
    change Inv _ (update β irq (some (ntfn, lowestBit (1#64 <<< b))))
    rw [lowestBit_one_shiftLeft hb]
    exact hinv

theorem irqUnsetNtfn_spec (irqId : ℤ) : Kept β (.unsetNtfn irqId) (irqUnsetNtfn irqId c) := by
  refine h.kept_ite fun hmini => ?_
  refine h.kept_ite fun hvalid => ?_
  obtain ⟨irq, rfl, hirq⟩ := validIrq_cases (not_not.1 hvalid)
  rw [irqIndex_ofNat hirq]
  refine h.kept_ite fun hall => ?_
  cases hβ : β irq with
  | none =>
    rw [if_pos (h.pairedNtfn_none hirq hβ)]
    exact h.refused _
  | some p =>
    have hpaired : ¬(c.irqTable irq).pairedNtfn = unpairedId := by
      rw [h.pairedNtfn_some hβ]
      unfold unpairedId
      omega
    rw [if_neg hpaired, releasePair_spec h hβ]
    exact ⟨_, _, rfl, h.unbind hβ⟩

omit h

/-! ### Callbacks -/

/-- The callbacks that a received badge is to lead to, and the bits that stay pending. -/
structure Served (c : IrqCookie) (β : ℕ → Option (ℕ × ℕ)) (ntfn : ℕ) (mask badge : BitVec 64)
    (r : Result) : Prop where
  called : ∀ x, x ∈ r.called ↔ ∃ irq b : ℕ, x = irq ∧ β irq = some (ntfn, b) ∧
    mask.getLsbD b = true ∧
      (badge.getLsbD b = true ∨ (c.ntfnTable ntfn).pendingBitfield.getLsbD b = true)
  nodup : r.called.Nodup
  pending : ∀ b, (r.cookie.ntfnTable ntfn).pendingBitfield.getLsbD b = true ↔
    ((c.ntfnTable ntfn).pendingBitfield.getLsbD b = true ∨
      badge.getLsbD b = true ∧ (c.ntfnTable ntfn).usableMask.getLsbD b = true) ∧
    ¬∃ irq : ℕ, (irq : ℤ) ∈ r.called ∧ β irq = some (ntfn, b)

theorem getLsbD_of_and_eq_zero {x y : BitVec 64} (h : x &&& y = 0) (hx : x.getLsbD b = true) :
    y.getLsbD b = false := by
  have hbit : (x &&& y).getLsbD b = false := by
    rw [h]
    simp
  rw [BitVec.getLsbD_and, hx] at hbit
  exact hbit

include h

/-- Bits without those that are bound are none, so all of them are bound. -/
theorem Inv.bound_of_and_not_eq_zero (hntfn : ntfn < c.maxNtfnIds) {x : BitVec 64}
    (hx : x &&& ~~~(c.ntfnTable ntfn).statusBitfield = 0) (hb : x.getLsbD b = true) :
    ∃ irq, β irq = some (ntfn, b) := by
  refine ((h.ntfn ntfn hntfn).status b).1 ?_
  have hno := getLsbD_of_and_eq_zero hx hb
  simpa [BitVec.lt_of_getLsbD hb] using hno

theorem performCallback_bound (hβ : β irq = some (ntfn, b)) :
    performCallback ((c.ntfnTable ntfn).boundIrqs b) c = .ok true := by
  obtain ⟨hirq, hntfn⟩ := h.bounds hβ
  have hok := h.irq irq hirq
  have hall : (c.irqTable irq).allocated = true := hok.allocated (by rw [hβ]; simp)
  rw [performCallback, (h.ntfn ntfn hntfn).boundIrqs hβ, irqIndex_ofNat hirq, ok_bind, hok.callback,
    hall]

/-- A loop over bits runs the callbacks of those that `p` selects, and sets or clears them. -/
def RunsCallbacks (e : NtfnEntry) (p : ℕ → Bool) (set : Bool) (bits : List ℕ)
    (f : Serving → Except Failure Serving) : Prop :=
  ∀ s, ∃ s', f s = .ok s' ∧ s'.called = s.called ++ (bits.filter p).map e.boundIrqs ∧
    ∀ j, s'.bits.getLsbD j = if j ∈ bits ∧ p j then set else s.bits.getLsbD j

/-- One round of `serve_irq`. -/
theorem runsCallbacks_serveBit (hbound : mask.getLsbD b = true → ∃ irq, β irq = some (ntfn, b)) :
    RunsCallbacks (c.ntfnTable ntfn) mask.getLsbD true [b]
      (serveBit c (c.ntfnTable ntfn) mask b) := by
  intro s
  rw [serveBit]
  cases hmask : mask.getLsbD b with
  | false =>
    refine ⟨s, rfl, by simp [hmask], fun j => ?_⟩
    by_cases hj : j = b <;> simp [hj, hmask]
  | true =>
    obtain ⟨irq, hβ⟩ := hbound hmask
    rw [performCallback_bound h hβ]
    refine ⟨_, rfl, by simp [hmask], fun j => ?_⟩
    rw [getLsbD_set (BitVec.lt_of_getLsbD hmask)]
    by_cases hj : j = b <;> simp [hj, hmask]

/-- One round of `sel4platsupport_irq_handle`. -/
theorem runsCallbacks_handleBit (hβ : β irq = some (ntfn, b)) (hb : b < 64) :
    RunsCallbacks (c.ntfnTable ntfn) (fun _ => true) false [b]
      (handleBit c (c.ntfnTable ntfn) b) := by
  intro s
  rw [handleBit, performCallback_bound h hβ]
  refine ⟨_, rfl, rfl, fun j => ?_⟩
  dsimp only
  cases hset : s.bits.getLsbD b with
  | true =>
    rw [if_pos rfl, getLsbD_clear hb]
    by_cases hj : j = b <;> simp [hj]
  | false => by_cases hj : j = b <;> simp [hj, hset]

omit h in
theorem RunsCallbacks.foldlM {e : NtfnEntry} {p : ℕ → Bool} {set : Bool}
    {f : ℕ → Serving → Except Failure Serving} (hf : ∀ b ∈ bits, RunsCallbacks e p set [b] (f b)) :
    RunsCallbacks e p set bits (bits.foldlM fun s b => f b s) := by
  induction bits with
  | nil => exact fun s => ⟨s, rfl, by simp, by simp⟩
  | cons b bits ih =>
    intro s
    obtain ⟨s1, hstep, hcalled1, hbits1⟩ := hf b mem_cons_self s
    obtain ⟨s', hfold, hcalled, hbits⟩ := ih (fun b' hb' => hf b' (mem_cons_of_mem b hb')) s1
    refine ⟨s', ?_, ?_, fun j => ?_⟩
    · dsimp only
      rw [foldlM_cons, hstep]
      exact hfold
    · rw [hcalled, hcalled1, append_assoc, ← map_append, ← filter_append]
      rfl
    · rw [hbits, hbits1]
      by_cases hj : j = b <;> by_cases hp : p b <;> simp [hj, hp]

variable (hntfn : ntfn < c.maxNtfnIds) (hbound : ∀ b ∈ bits, ∃ irq, β irq = some (ntfn, b))

include hntfn hbound

/-- The interrupts of different bits are different. -/
theorem Inv.nodup_map_boundIrqs (hnodup : bits.Nodup) :
    (bits.map (c.ntfnTable ntfn).boundIrqs).Nodup := by
  refine (nodup_map_iff_inj_on hnodup).2 ?_
  intro b hb b' hb' heq
  obtain ⟨irq, hβ⟩ := hbound b hb
  obtain ⟨irq', hβ'⟩ := hbound b' hb'
  have hok := h.ntfn ntfn hntfn
  rw [hok.boundIrqs hβ, hok.boundIrqs hβ'] at heq
  obtain rfl : irq = irq' := Int.ofNat.inj heq
  rw [hβ] at hβ'
  exact (Prod.mk.inj (Option.some.inj hβ')).2

theorem Inv.mem_map_boundIrqs (x : ℤ) :
    x ∈ bits.map (c.ntfnTable ntfn).boundIrqs ↔
      ∃ irq b : ℕ, x = irq ∧ β irq = some (ntfn, b) ∧ b ∈ bits := by
  have hok := h.ntfn ntfn hntfn
  rw [mem_map]
  constructor
  · rintro ⟨b, hb, rfl⟩
    obtain ⟨irq, hβ⟩ := hbound b hb
    exact ⟨irq, b, hok.boundIrqs hβ, hβ, hb⟩
  · rintro ⟨irq, b, rfl, hβ, hb⟩
    exact ⟨b, hb, hok.boundIrqs hβ⟩

/-- What is to be shown of a loop: the bits whose callbacks it runs, and those that stay pending. -/
theorem Served.of_bits {r : Result} (hnodup : bits.Nodup)
    (hbits : ∀ irq b, β irq = some (ntfn, b) → (b ∈ bits ↔ mask.getLsbD b = true ∧
      (badge.getLsbD b = true ∨ (c.ntfnTable ntfn).pendingBitfield.getLsbD b = true)))
    (hcalled : r.called = bits.map (c.ntfnTable ntfn).boundIrqs)
    (hpending : ∀ b, (r.cookie.ntfnTable ntfn).pendingBitfield.getLsbD b = true ↔
      ((c.ntfnTable ntfn).pendingBitfield.getLsbD b = true ∨
        badge.getLsbD b = true ∧ (c.ntfnTable ntfn).usableMask.getLsbD b = true) ∧ b ∉ bits) :
    Served c β ntfn mask badge r where
  called := by
    intro x
    rw [hcalled, h.mem_map_boundIrqs hntfn hbound]
    constructor
    · rintro ⟨irq, b, hx, hβ, hb⟩
      exact ⟨irq, b, hx, hβ, (hbits irq b hβ).1 hb⟩
    · rintro ⟨irq, b, hx, hβ, hb⟩
      exact ⟨irq, b, hx, hβ, (hbits irq b hβ).2 hb⟩
  nodup := by
    rw [hcalled]
    exact h.nodup_map_boundIrqs hntfn hbound hnodup
  pending := by
    intro b
    have hran : (∃ irq : ℕ, (irq : ℤ) ∈ r.called ∧ β irq = some (ntfn, b)) ↔ b ∈ bits := by
      constructor
      · rintro ⟨irq, hmem, hβ⟩
        rw [hcalled, h.mem_map_boundIrqs hntfn hbound] at hmem
        obtain ⟨irq', b', hirq, hβ', hb'⟩ := hmem
        obtain rfl : irq = irq' := Int.ofNat.inj hirq
        rw [hβ] at hβ'
        obtain ⟨-, rfl⟩ := Prod.mk.inj (Option.some.inj hβ')
        exact hb'
      · intro hb
        obtain ⟨irq, hβ⟩ := hbound b hb
        refine ⟨irq, ?_, hβ⟩
        rw [hcalled, h.mem_map_boundIrqs hntfn hbound]
        exact ⟨irq, b, rfl, hβ, hb⟩
    rw [hpending, hran]

omit hbound

theorem serveIrq_spec (hrecv : Receivable (c.ntfnTable ntfn) mask badge) :
    ∃ r, serveIrq ntfn mask badge c = .ok r ∧ Inv r.cookie β ∧ Served c β ntfn mask badge r := by
  obtain ⟨hpm, hpb, hst⟩ := hrecv
  have hmem : ∀ b, b ∈ setBits (badge &&& (c.ntfnTable ntfn).usableMask |||
      (c.ntfnTable ntfn).pendingBitfield) ↔
        badge.getLsbD b = true ∧ (c.ntfnTable ntfn).usableMask.getLsbD b = true ∨
          (c.ntfnTable ntfn).pendingBitfield.getLsbD b = true := by
    intro b
    rw [mem_setBits, BitVec.getLsbD_or, BitVec.getLsbD_and, Bool.or_eq_true, Bool.and_eq_true]
  have hbound : ∀ b ∈ setBits (badge &&& (c.ntfnTable ntfn).usableMask |||
      (c.ntfnTable ntfn).pendingBitfield), mask.getLsbD b = true →
        ∃ irq, β irq = some (ntfn, b) := by
    intro b hb hmask
    rcases (hmem b).1 hb with ⟨hbadge, husable⟩ | hpending
    · refine h.bound_of_and_not_eq_zero hntfn hst ?_
      rw [BitVec.getLsbD_and, BitVec.getLsbD_and, hbadge, husable, hmask]
      rfl
    · rw [getLsbD_of_and_eq_zero hpm hpending] at hmask
      cases hmask
  obtain ⟨s, hfold, hcalled, hbits⟩ :=
    RunsCallbacks.foldlM (fun b hb => runsCallbacks_serveBit h (hbound b hb)) ⟨[], 0⟩
  have hserve : serveIrq ntfn mask badge c = .ok ⟨.leftover (badge &&& ~~~s.bits), s.called,
      c.setNtfn ntfn { c.ntfnTable ntfn with
        pendingBitfield := (c.ntfnTable ntfn).pendingBitfield ^^^
          (badge &&& (c.ntfnTable ntfn).usableMask &&& ~~~s.bits) }⟩ := by
    have hloop : forBits .noReturn (serveBit c (c.ntfnTable ntfn) mask) 65
        (badge &&& (c.ntfnTable ntfn).usableMask ||| (c.ntfnTable ntfn).pendingBitfield) ⟨[], 0⟩ =
          .ok s := (forBits_eq (Nat.lt_succ_of_le (length_setBits_le _))).trans hfold
    unfold serveIrq
    dsimp only
    rw [hloop]
    rfl
  refine ⟨_, hserve, h.setPending hntfn _, Served.of_bits h hntfn ?_
    ((setBits_nodup _).filter mask.getLsbD) ?_ hcalled ?_⟩
  · exact fun b hb => hbound b (mem_filter.1 hb).1 (mem_filter.1 hb).2
  · intro irq b hβ
    have husable := (h.ntfn ntfn hntfn).usable hβ
    rw [mem_filter, hmem]
    tauto
  · intro b
    have hxor : (c.ntfnTable ntfn).pendingBitfield.getLsbD b = true →
        mask.getLsbD b = false ∧
          (badge.getLsbD b && (c.ntfnTable ntfn).usableMask.getLsbD b) = false := by
      intro hp
      have hno := getLsbD_of_and_eq_zero hpb hp
      rw [BitVec.getLsbD_and] at hno
      exact ⟨getLsbD_of_and_eq_zero hpm hp, hno⟩
    have hlt : badge.getLsbD b = true → b < 64 := BitVec.lt_of_getLsbD
    dsimp only [setNtfn]
    rw [update_self]
    rw [BitVec.getLsbD_xor, BitVec.getLsbD_and, BitVec.getLsbD_and, BitVec.getLsbD_not, hbits,
      mem_filter]
    cases hp : (c.ntfnTable ntfn).pendingBitfield.getLsbD b with
    | true =>
      obtain ⟨hm, hbu⟩ := hxor hp
      rw [hbu, hm]
      simp
    | false =>
      cases hbadge : badge.getLsbD b with
      | false => simp
      | true =>
        have hb := hlt hbadge
        cases husable : (c.ntfnTable ntfn).usableMask.getLsbD b with
        | false => simp
        | true =>
          have hin := (hmem b).2 (.inl ⟨hbadge, husable⟩)
          cases mask.getLsbD b <;> simp [hb, hin]

omit hntfn

omit h

/-- What the callbacks of an operation are to be. -/
def Dispatched (c : IrqCookie) (β : ℕ → Option (ℕ × ℕ)) (op : Op) (r : Result) : Prop :=
  match op with
  | .wait ntfnId mask badge | .poll ntfnId mask badge =>
    (c.ValidNtfn ntfnId ∧ (c.ntfnTable ntfnId.toNat).allocated = true →
      Served c β ntfnId.toNat mask badge r) ∧
    (¬(c.ValidNtfn ntfnId ∧ (c.ntfnTable ntfnId.toNat).allocated = true) → r.called = [])
  | .handle ntfnId mask =>
    (c.ValidNtfn ntfnId ∧ (c.ntfnTable ntfnId.toNat).allocated = true →
      Served c β ntfnId.toNat mask mask r) ∧
    (¬(c.ValidNtfn ntfnId ∧ (c.ntfnTable ntfnId.toNat).allocated = true) → r.called = [])
  | _ => r.called = []

include h

/-- An operation on a notification refuses an identifier that is not in use, and runs no
callback. -/
theorem Inv.on_ntfn {f : ℕ → Except Failure Result}
    (hf : ∀ ntfn : ℕ, ntfnId = ntfn → ntfn < c.maxNtfnIds →
      ∃ r, f ntfn = .ok r ∧ Inv r.cookie β ∧ Served c β ntfn mask badge r) :
    ∃ r, (if ¬c.ValidNtfn ntfnId then .ok ⟨.error .einval, [], c⟩
      else c.ntfnIndex ntfnId >>= fun ntfn =>
        if ¬(c.ntfnTable ntfn).allocated then .ok ⟨.error .einval, [], c⟩ else f ntfn) = .ok r ∧
      Inv r.cookie β ∧ Dispatched c β (.wait ntfnId mask badge) r := by
  split
  · rename_i hvalid
    exact ⟨_, rfl, h, fun hv => absurd hv.1 hvalid, fun _ => rfl⟩
  rename_i hvalid
  rw [not_not] at hvalid
  obtain ⟨ntfn, rfl, hntfn⟩ := validNtfn_cases hvalid
  rw [ntfnIndex_ofNat hntfn, ok_bind]
  split
  next hall => exact ⟨_, rfl, h, fun hv => absurd hv.2 hall, fun _ => rfl⟩
  next hall =>
    rw [not_not] at hall
    obtain ⟨r, hf, hinv, hserved⟩ := hf ntfn rfl hntfn
    exact ⟨r, hf, hinv, fun _ => hserved, fun hno => absurd ⟨hvalid, hall⟩ hno⟩

theorem irqReceive_spec (hrecv : Receivable (c.ntfnTable ntfnId.toNat) mask badge) :
    ∃ r, irqReceive ntfnId mask badge c = .ok r ∧ Inv r.cookie β ∧
      Dispatched c β (.wait ntfnId mask badge) r := by
  refine h.on_ntfn fun ntfn hid hntfn => ?_
  subst hid
  exact serveIrq_spec h hntfn hrecv

theorem irqHandle_spec
    (hbits : mask &&& (c.ntfnTable ntfnId.toNat).usableMask &&&
      ~~~(c.ntfnTable ntfnId.toNat).statusBitfield = 0) :
    ∃ r, irqHandle ntfnId mask c = .ok r ∧ Inv r.cookie β ∧
      Dispatched c β (.handle ntfnId mask) r := by
  refine h.on_ntfn fun ntfn hid hntfn => ?_
  subst hid
  have hmem : ∀ b, b ∈ setBits (mask &&& (c.ntfnTable ntfn).usableMask) ↔
      mask.getLsbD b = true ∧ (c.ntfnTable ntfn).usableMask.getLsbD b = true := by
    intro b
    rw [mem_setBits, BitVec.getLsbD_and, Bool.and_eq_true]
  have hbound : ∀ b ∈ setBits (mask &&& (c.ntfnTable ntfn).usableMask),
      ∃ irq, β irq = some (ntfn, b) := fun b hb =>
    h.bound_of_and_not_eq_zero hntfn hbits (mem_setBits.1 hb)
  have hrun := RunsCallbacks.foldlM fun b hb =>
    have ⟨_, hβ⟩ := hbound b hb
    runsCallbacks_handleBit h hβ (BitVec.lt_of_getLsbD (mem_setBits.1 hb))
  obtain ⟨s, hfold, hcalled, hpending⟩ := hrun ⟨[], (c.ntfnTable ntfn).pendingBitfield⟩
  rw [filter_true] at hcalled
  have hloop : forBits .noReturn (handleBit c (c.ntfnTable ntfn)) 65
      (mask &&& (c.ntfnTable ntfn).usableMask) ⟨[], (c.ntfnTable ntfn).pendingBitfield⟩ = .ok s :=
    (forBits_eq (Nat.lt_succ_of_le (length_setBits_le _))).trans hfold
  rw [hloop]
  refine ⟨_, rfl, h.setPending hntfn _, ?_⟩
  refine Served.of_bits h hntfn hbound (setBits_nodup _) ?_ hcalled fun b => ?_
  · intro irq b hβ
    rw [hmem, (h.ntfn ntfn hntfn).usable hβ]
    tauto
  · dsimp only [setNtfn]
    rw [update_self]
    rw [hpending, ← hmem]
    by_cases hb : b ∈ setBits (mask &&& (c.ntfnTable ntfn).usableMask) <;> simp [hb]

omit h

/-! ### Runs -/

theorem quiet_spec {op : Op} {x : Except Failure (Reply × IrqCookie)} (hx : Kept β op x) :
    ∃ r, quiet x = .ok r ∧ Inv r.cookie (rebound β op r) ∧ r.called = [] := by
  obtain ⟨reply, c', rfl, hinv⟩ := hx
  exact ⟨_, rfl, hinv, rfl⟩

/-- Every operation that is permitted returns, keeps the tables and runs the right callbacks. -/
theorem Inv.step (h : Inv c β) (op : Op) (hop : Permitted c op) :
    ∃ r, Platsupport.step c op = .ok r ∧ Inv r.cookie (rebound β op r) ∧ Dispatched c β op r := by
  cases op with
  | register callback => exact quiet_spec (irqRegister_spec h callback)
  | unregister irqId => exact quiet_spec (irqUnregister_spec h irqId)
  | provideNtfn ntfn usableMask => exact quiet_spec (irqProvideNtfn_spec h ntfn usableMask hop)
  | provideNtfnWithId ntfn usableMask idHint =>
    exact quiet_spec (irqProvideNtfnWithId_spec h ntfn usableMask hop)
  | returnNtfn ntfnId => exact quiet_spec (irqReturnNtfn_spec h ntfnId)
  | setNtfn ntfnId irqId => exact quiet_spec (irqSetNtfn_spec h ntfnId irqId)
  | unsetNtfn irqId => exact quiet_spec (irqUnsetNtfn_spec h irqId)
  | wait ntfnId mask badge => exact irqReceive_spec h hop
  | poll ntfnId mask badge => exact irqReceive_spec h hop
  | handle ntfnId mask => exact irqHandle_spec h hop

/-- The states after operations that all meet a condition, for both kinds of interface, with the
binding that the operations have made. -/
inductive Reaches (ok : IrqCookie → Op → Prop) : IrqCookie → (ℕ → Option (ℕ × ℕ)) → Prop
  | new {maxIrqIds maxNtfnIds : ℕ} {c : IrqCookie} :
      newIrqOps maxIrqIds maxNtfnIds = some c → Reaches ok c fun _ => none
  | newMini {ntfn : ℕ} {usableMask : BitVec 64} {c : IrqCookie} :
      newMiniIrqOps ntfn usableMask = some c → Reaches ok c fun _ => none
  | step {c : IrqCookie} {β : ℕ → Option (ℕ × ℕ)} {r : Result} (op : Op) : Reaches ok c β →
      ok c op → Platsupport.step c op = .ok r → Reaches ok r.cookie (rebound β op r)

theorem inv_newIrqOps {maxIrqIds maxNtfnIds : ℕ} (h : newIrqOps maxIrqIds maxNtfnIds = some c) :
    Inv c fun _ => none := by
  unfold newIrqOps at h
  split at h
  · cases h
  · cases h
    exact inv_new maxIrqIds maxNtfnIds

theorem inv_newMiniIrqOps {usableMask : BitVec 64}
    (h : newMiniIrqOps ntfn usableMask = some c) : Inv c fun _ => none := by
  unfold newMiniIrqOps at h
  split at h
  · cases h
  have hinv := @Inv.provide _ _ 0 (inv_new (setBits usableMask).length 1) Nat.one_pos rfl ntfn
    usableMask
  cases h
  exact ⟨hinv.bounds, hinv.injective, hinv.irq, hinv.ntfn, hinv.irqIds, hinv.ntfnIds,
    hinv.irqWords, hinv.ntfnWords, fun _ => ⟨Nat.one_pos, rfl⟩⟩

theorem Reaches.inv (h : Reaches Permitted c β) : Inv c β := by
  induction h with
  | new hnew => exact inv_newIrqOps hnew
  | newMini hnew => exact inv_newMiniIrqOps hnew
  | step op _ hop hstep ih =>
    obtain ⟨r, hstep', hinv', -⟩ := ih.step op hop
    cases hstep.symm.trans hstep'
    exact hinv'

/-- **Main result.** In every run of permitted operations both tables describe the binding that the
operations have made, and every operation that is permitted next returns without reading a table at
a place that it does not have, runs the callbacks of the interrupts that are bound to bits that the
mask selects and that have arrived, and keeps the others pending. -/
theorem irqs_served (h : Reaches Permitted c β) :
    Describes c β ∧ ∀ op, Permitted c op → ∃ r, step c op = .ok r ∧ Dispatched c β op r := by
  refine ⟨h.inv.describes, fun op hop => ?_⟩
  obtain ⟨r, hstep, -, hserved⟩ := h.inv.step op hop
  exact ⟨r, hstep, hserved⟩

/-! ### Two runs -/

instance (e : NtfnEntry) (mask badge : BitVec 64) : Decidable (Receivable e mask badge) :=
  inferInstanceAs (Decidable (_ ∧ _ ∧ _))

instance (c : IrqCookie) (op : Op) : Decidable (Permitted c op) := by
  cases op <;> unfold Permitted <;> infer_instance

/-- Operations one after the other, as long as they meet a condition and do not fail, and the
binding that they make. -/
def runOps (ok : IrqCookie → Op → Bool) (c : IrqCookie) (β : ℕ → Option (ℕ × ℕ)) :
    List Op → Option (IrqCookie × (ℕ → Option (ℕ × ℕ)))
  | [] => some (c, β)
  | op :: ops =>
    if ok c op then
      match step c op with
      | .ok r => runOps ok r.cookie (rebound β op r) ops
      | .error _ => none
    else none

theorem Reaches.runOps {ok : IrqCookie → Op → Bool} {ok' : IrqCookie → Op → Prop} {ops : List Op}
    {c' : IrqCookie} {β' : ℕ → Option (ℕ × ℕ)} (h : Reaches ok' c β)
    (hok : ∀ c op, ok c op = true → ok' c op)
    (hrun : runOps ok c β ops = some (c', β')) : Reaches ok' c' β' := by
  induction ops generalizing c β with
  | nil =>
    cases hrun
    exact h
  | cons op ops ih =>
    rw [Platsupport.runOps] at hrun
    split at hrun
    next hop =>
      cases hstep : Platsupport.step c op with
      | ok r =>
        rw [hstep] at hrun
        exact ih (h.step op (hok c op hop) hstep) hrun
      | error e =>
        rw [hstep] at hrun
        cases hrun
    · cases hrun

/-- Two interrupts are bound to the bits of a notification, and the second is taken back. -/
def setUp : List Op :=
  [.register (some 1), .register (some 2), .provideNtfn 5 3, .setNtfn 0 0, .setNtfn 0 1,
    .unsetNtfn 1]

/-- An operation after others: the pairs of the first two interrupts before it, what it runs, and
the pending bits before and after. -/
def observe (ok : IrqCookie → Op → Bool) (ops : List Op) (op : Op) :
    Option (List (Option (ℕ × ℕ)) × List ℤ × BitVec 64 × BitVec 64) := do
  let (c, β) ← runOps ok (newIrqOpsCommon 2 1 .standard) (fun _ => none) ops
  guard (ok c op)
  let r ← (step c op).toOption
  some ([β 0, β 1], r.called, (c.ntfnTable 0).pendingBitfield,
    (r.cookie.ntfnTable 0).pendingBitfield)

theorem exists_of_observe {ok : IrqCookie → Op → Bool} {ok' : IrqCookie → Op → Prop}
    (hok : ∀ c op, ok c op = true → ok' c op) {ops : List Op} {op : Op}
    {x : List (Option (ℕ × ℕ)) × List ℤ × BitVec 64 × BitVec 64}
    (h : observe ok ops op = some x) :
    ∃ c β r, Reaches ok' c β ∧ ok' c op ∧ step c op = .ok r ∧ x = ([β 0, β 1], r.called,
      (c.ntfnTable 0).pendingBitfield, (r.cookie.ntfnTable 0).pendingBitfield) := by
  obtain ⟨⟨c, β⟩, hrun, hrest⟩ := Option.bind_eq_some_iff.1 h
  obtain ⟨_, hguard, hrest⟩ := Option.bind_eq_some_iff.1 hrest
  obtain ⟨r, hr, hx⟩ := Option.bind_eq_some_iff.1 hrest
  have hop : ok c op = true := by
    by_contra hno
    simp [guard, hno] at hguard
  have hnew : Reaches ok' (newIrqOpsCommon 2 1 .standard) fun _ => none := @Reaches.new _ 2 1 _ rfl
  refine ⟨c, β, r, hnew.runOps hok hrun, hok c op hop, ?_, (Option.some.inj hx).symm⟩
  cases hstep : step c op with
  | ok r' =>
    rw [hstep] at hr
    exact congrArg Except.ok (Option.some.inj hr)
  | error e =>
    rw [hstep] at hr
    cases hr

/-- The callback of an interrupt that has arrived is run once, and nothing stays pending. -/
theorem oneIrq_served : ∃ c β r, Reaches Permitted c β ∧ step c (.wait 0 1 1) = .ok r ∧
    [β 0, β 1] = [some (0, 0), none] ∧ r.called = [0] ∧ Describes c β ∧
    Dispatched c β (.wait 0 1 1) r := by
  have hrun : observe (fun c op => decide (Permitted c op)) setUp (.wait 0 1 1) =
      some ([some (0, 0), none], [0], 0, 0) := by decide +kernel
  obtain ⟨c, β, r, hreach, hop, hstep, hx⟩ :=
    @exists_of_observe _ Permitted (fun c op h => of_decide_eq_true h) _ _ _ hrun
  obtain ⟨hβ, hserved⟩ := irqs_served hreach
  obtain ⟨r', hstep', hdispatched⟩ := hserved (.wait 0 1 1) hop
  cases hstep.symm.trans hstep'
  simp only [Prod.mk.injEq] at hx
  exact ⟨c, β, r, hreach, hstep, hx.1.symm, hx.2.1.symm, hβ, hdispatched⟩

/-- A bit that is not bound runs the callback of another interrupt; an interrupt that is pending and
arrives once more is lost. -/
theorem irqs_lost :
    (∃ c β r, Reaches (fun _ _ => True) c β ∧ step c (.wait 0 2 2) = .ok r ∧ r.called = [0] ∧
      (c.ntfnTable 0).pendingBitfield = 0) ∧
    ∃ c β r, Reaches (fun _ _ => True) c β ∧ step c (.wait 0 0 1) = .ok r ∧ r.called = [] ∧
      (c.ntfnTable 0).pendingBitfield = 1 ∧ (r.cookie.ntfnTable 0).pendingBitfield = 0 := by
  have hother : observe (fun _ _ => true) (setUp.take 4) (.wait 0 2 2) =
      some ([some (0, 0), none], [0], 0, 0) := by decide +kernel
  have hlost : observe (fun _ _ => true) (setUp ++ [.wait 0 0 1]) (.wait 0 0 1) =
      some ([some (0, 0), none], [], 1, 0) := by decide +kernel
  obtain ⟨c, β, r, hreach, -, hstep, hx⟩ :=
    @exists_of_observe _ (fun _ _ => True) (fun _ _ _ => trivial) _ _ _ hother
  obtain ⟨c', β', r', hreach', -, hstep', hx'⟩ :=
    @exists_of_observe _ (fun _ _ => True) (fun _ _ _ => trivial) _ _ _ hlost
  simp only [Prod.mk.injEq] at hx hx'
  exact ⟨⟨c, β, r, hreach, hstep, hx.2.1.symm, hx.2.2.1.symm⟩,
    ⟨c', β', r', hreach', hstep', hx'.2.1.symm, hx'.2.2.1.symm, hx'.2.2.2.symm⟩⟩

end SeL4Kernel.Platsupport
