import SeL4Kernel.Kernel.Binding
import SeL4Kernel.Object.CNodeInvocation
import SeL4Kernel.Object.Mdb

/-!
# Capabilities are never amplified

Copying, minting, moving, mutating and rotating capabilities, and sending them in
messages, are the ways in which a capability gets from one slot to another. Each
makes the new capability from the one in the source slot with `maskCapRights`,
`updateCapData` and `deriveCap`. `DerivedFrom` says what these three may change: the
object stays, rights are only lost, and a badge once set stays. It is a preorder, so
chains of operations lead to nothing more.
-/

namespace SeL4Kernel

open Function

/-! ### The order of authority -/

/-- How much a frame capability lets its holder do. -/
def VMRights.level : VMRights → Nat
  | .kernelOnly => 0
  | .readOnly => 1
  | .readWrite => 2

/-- The same endpoint with no more rights; a badge that is set stays. -/
structure EndpointCap.DerivedFrom (c c₀ : EndpointCap) : Prop where
  object : c.capEPPtr = c₀.capEPPtr
  send : c.capCanSend = true → c₀.capCanSend = true
  receive : c.capCanReceive = true → c₀.capCanReceive = true
  grant : c.capCanGrant = true → c₀.capCanGrant = true
  grantReply : c.capCanGrantReply = true → c₀.capCanGrantReply = true
  badge : c₀.capEPBadge ≠ 0 → c.capEPBadge = c₀.capEPBadge

/-- The same notification with no more rights; a badge that is set stays. -/
structure NotificationCap.DerivedFrom (c c₀ : NotificationCap) : Prop where
  object : c.capNtfnPtr = c₀.capNtfnPtr
  send : c.capNtfnCanSend = true → c₀.capNtfnCanSend = true
  receive : c.capNtfnCanReceive = true → c₀.capNtfnCanReceive = true
  badge : c₀.capNtfnBadge ≠ 0 → c.capNtfnBadge = c₀.capNtfnBadge

/-- The same frame with no more rights, mapped there or elsewhere. -/
structure FrameCap.DerivedFrom (c c₀ : FrameCap) : Prop where
  object : c.capFBasePtr = c₀.capFBasePtr
  size : c.capFSize = c₀.capFSize
  device : c.capFIsDevice = c₀.capFIsDevice
  rights : c.capFVMRights.level ≤ c₀.capFVMRights.level

/-- `DerivedFrom c c₀`: `c` gives no more authority than `c₀`, over the same object and
range. -/
inductive Cap.DerivedFrom : Cap → Cap → Prop where
  | same (c : Cap) : DerivedFrom c c
  | untyped {c c₀ : UntypedCap} (hptr : c.capPtr = c₀.capPtr)
      (hsize : c.capBlockSize = c₀.capBlockSize) (hdevice : c.capIsDevice = c₀.capIsDevice) :
      DerivedFrom (.untyped c) (.untyped c₀)
  | endpoint {c c₀ : EndpointCap} (h : c.DerivedFrom c₀) :
      DerivedFrom (.endpoint c) (.endpoint c₀)
  | notification {c c₀ : NotificationCap} (h : c.DerivedFrom c₀) :
      DerivedFrom (.notification c) (.notification c₀)
  | reply {g g₀ : Bool} (master : Bool) (tcb : Ptr) (h : g = true → g₀ = true) :
      DerivedFrom (.reply g master tcb) (.reply g₀ master tcb)
  | replyObject {g g₀ : Bool} (r : Ptr) (h : g = true → g₀ = true) :
      DerivedFrom (.replyObject r g) (.replyObject r g₀)
  | cnode {c c₀ : CNodeCap} (hptr : c.capCNodePtr = c₀.capCNodePtr)
      (hradix : c.capCNodeRadix = c₀.capCNodeRadix) : DerivedFrom (.cnode c) (.cnode c₀)
  | frame {c c₀ : FrameCap} (h : c.DerivedFrom c₀) : DerivedFrom (.frame c) (.frame c₀)

theorem EndpointCap.DerivedFrom.trans {a b c : EndpointCap} (h : a.DerivedFrom b)
    (h' : b.DerivedFrom c) : a.DerivedFrom c where
  object := h.object.trans h'.object
  send := fun ha => h'.send (h.send ha)
  receive := fun ha => h'.receive (h.receive ha)
  grant := fun ha => h'.grant (h.grant ha)
  grantReply := fun ha => h'.grantReply (h.grantReply ha)
  badge := by
    intro hc
    have hb := h'.badge hc
    rw [← hb] at hc
    exact (h.badge hc).trans hb

theorem NotificationCap.DerivedFrom.trans {a b c : NotificationCap} (h : a.DerivedFrom b)
    (h' : b.DerivedFrom c) : a.DerivedFrom c where
  object := h.object.trans h'.object
  send := fun ha => h'.send (h.send ha)
  receive := fun ha => h'.receive (h.receive ha)
  badge := by
    intro hc
    have hb := h'.badge hc
    rw [← hb] at hc
    exact (h.badge hc).trans hb

theorem FrameCap.DerivedFrom.trans {a b c : FrameCap} (h : a.DerivedFrom b)
    (h' : b.DerivedFrom c) : a.DerivedFrom c where
  object := h.object.trans h'.object
  size := h.size.trans h'.size
  device := h.device.trans h'.device
  rights := Nat.le_trans h.rights h'.rights

theorem Cap.DerivedFrom.trans {a b c : Cap} (h : a.DerivedFrom b) (h' : b.DerivedFrom c) :
    a.DerivedFrom c := by
  cases h with
  | same => exact h'
  | untyped hptr hsize hdevice =>
    cases h' with
    | same => exact .untyped hptr hsize hdevice
    | untyped hptr' hsize' hdevice' =>
      exact .untyped (hptr.trans hptr') (hsize.trans hsize') (hdevice.trans hdevice')
  | endpoint h =>
    cases h' with
    | same => exact .endpoint h
    | endpoint h' => exact .endpoint (h.trans h')
  | notification h =>
    cases h' with
    | same => exact .notification h
    | notification h' => exact .notification (h.trans h')
  | reply master tcb h =>
    cases h' with
    | same => exact .reply master tcb h
    | reply _ _ h' => exact .reply master tcb fun hg => h' (h hg)
  | replyObject r h =>
    cases h' with
    | same => exact .replyObject r h
    | replyObject _ h' => exact .replyObject r fun hg => h' (h hg)
  | cnode hptr hradix =>
    cases h' with
    | same => exact .cnode hptr hradix
    | cnode hptr' hradix' => exact .cnode (hptr.trans hptr') (hradix.trans hradix')
  | frame h =>
    cases h' with
    | same => exact .frame h
    | frame h' => exact .frame (h.trans h')

theorem Cap.DerivedFrom.eq_null {c : Cap} (h : c.DerivedFrom .null) : c = .null := by
  cases h with
  | same => rfl

/-! ### The three functions that make a new capability -/

theorem level_maskVMRights (rights : VMRights) (r : CapRights) :
    (maskVMRights rights r).level ≤ rights.level := by
  unfold maskVMRights
  cases rights <;> cases r.capAllowRead <;> cases r.capAllowWrite <;> decide

theorem derivedFrom_maskCapRights (r : CapRights) (cap : Cap) :
    (maskCapRights r cap).DerivedFrom cap := by
  cases cap with
  | endpoint c =>
    exact .endpoint ⟨rfl, fun h => (Bool.and_eq_true_iff.1 h).1,
      fun h => (Bool.and_eq_true_iff.1 h).1, fun h => (Bool.and_eq_true_iff.1 h).1,
      fun h => (Bool.and_eq_true_iff.1 h).1, fun _ => rfl⟩
  | notification c =>
    exact .notification ⟨rfl, fun h => (Bool.and_eq_true_iff.1 h).1,
      fun h => (Bool.and_eq_true_iff.1 h).1, fun _ => rfl⟩
  | reply g m t => exact .reply m t fun h => (Bool.and_eq_true_iff.1 h).1
  | replyObject r' g => exact .replyObject r' fun h => (Bool.and_eq_true_iff.1 h).1
  | frame c => exact .frame ⟨rfl, rfl, rfl, level_maskVMRights _ _⟩
  | _ => exact .same _

/-- The reply capabilities of the standard kernel and the interrupt control
capability, which are in one place only. -/
def Cap.isUnique : Cap → Bool
  | .reply _ _ _ | .irqControl => true
  | _ => false

/-- A data word makes a capability useless, does not apply to it, or changes a badge or a
guard. -/
theorem updateCapData_cases (preserve : Bool) (data : Word) (cap : Cap) :
    updateCapData preserve data cap = .null ∨ updateCapData preserve data cap = cap ∨
      (updateCapData preserve data cap).DerivedFrom cap ∧
        (updateCapData preserve data cap).isUnique = false := by
  cases cap with
  | endpoint c =>
    by_cases hb : preserve = false ∧ c.capEPBadge = 0
    · have heq : updateCapData preserve data (.endpoint c) =
          .endpoint { c with capEPBadge := data } := if_pos hb
      rw [heq]
      exact .inr (.inr ⟨.endpoint ⟨rfl, id, id, id, id, fun h => absurd hb.2 h⟩, rfl⟩)
    · exact .inl (if_neg hb)
  | notification c =>
    by_cases hb : preserve = false ∧ c.capNtfnBadge = 0
    · have heq : updateCapData preserve data (.notification c) =
          .notification { c with capNtfnBadge := data } := if_pos hb
      rw [heq]
      exact .inr (.inr ⟨.notification ⟨rfl, id, id, fun h => absurd hb.2 h⟩, rfl⟩)
    · exact .inl (if_neg hb)
  | cnode c =>
    by_cases hsize : wordBits < data.toNat % 2 ^ 6 + c.capCNodeRadix
    · exact .inl (if_pos hsize)
    have heq : updateCapData preserve data (.cnode c) = .cnode { c with
        capCNodeGuard := data.toNat / 2 ^ 6 % 2 ^ (data.toNat % 2 ^ 6)
        capCNodeGuardSize := data.toNat % 2 ^ 6 } := if_neg hsize
    rw [heq]
    exact .inr (.inr ⟨.cnode rfl rfl, rfl⟩)
  | _ => exact .inr (.inl rfl)

theorem derivedFrom_updateCapData (preserve : Bool) (data : Word) (cap : Cap)
    (hne : updateCapData preserve data cap ≠ .null) :
    (updateCapData preserve data cap).DerivedFrom cap := by
  rcases updateCapData_cases preserve data cap with hnull | hsame | hder
  · exact absurd hnull hne
  · rw [hsame]
    exact .same _
  · exact hder.1

variable {cfg : Config} {cs : CSpace} {slot src : Slot} {cap newCap : Cap}

theorem updateCapData_of_isUnique {preserve : Bool} {data : Word}
    (h : (updateCapData preserve data cap).isUnique = true) :
    updateCapData preserve data cap = cap := by
  rcases updateCapData_cases preserve data cap with hnull | hsame | ⟨-, hno⟩
  · rw [hnull] at h
    cases h
  · exact hsame
  · rw [hno] at h
    cases h

/-- What is derived is not unique, and gives no more authority. -/
theorem deriveCap_spec (h : deriveCap cfg cs slot cap = some newCap) :
    newCap.isUnique = false ∧ (newCap ≠ .null → newCap.DerivedFrom cap) := by
  unfold deriveCap at h
  split at h
  · split at h <;> cases h
    exact ⟨rfl, fun _ => .same _⟩
  · cases h
    exact ⟨rfl, fun _ => .frame ⟨rfl, rfl, rfl, Nat.le_refl _⟩⟩
  · cases h
    exact ⟨rfl, fun hne => absurd rfl hne⟩
  · cases h
    exact ⟨rfl, fun hne => absurd rfl hne⟩
  · cases h
    exact ⟨rfl, fun hne => absurd rfl hne⟩
  · split at h <;> cases h
    exact ⟨rfl, fun _ => .same _⟩
  rename_i hirq hreply _
  cases h
  refine ⟨?_, fun _ => .same _⟩
  unfold Cap.isUnique
  split
  · exact (hreply _ _ _ rfl).elim
  · exact (hirq rfl).elim
  · rfl

/-! ### What an operation does to the slots -/

/-- Every capability in `cs'` comes from one in `cs`. -/
def Origins (cs cs' : CSpace) : Prop :=
  ∀ slot, cs'.cap slot ≠ .null →
    ∃ slot₀, cs.cap slot₀ ≠ .null ∧ (cs'.cap slot).DerivedFrom (cs.cap slot₀)

/-- No unique capability of `cs` is in two slots of `cs'`: each comes from a slot of its
own. -/
def NotDuplicated (cs cs' : CSpace) : Prop :=
  ∃ origin : Slot → Slot,
    (∀ slot, (cs'.cap slot).isUnique = true → cs.cap (origin slot) = cs'.cap slot) ∧
      ∀ a b, (cs'.cap a).isUnique = true → (cs'.cap b).isUnique = true →
        origin a = origin b → a = b

/-- No authority is gained. -/
def Confined (cs cs' : CSpace) : Prop := Origins cs cs' ∧ NotDuplicated cs cs'

theorem Confined.refl (cs : CSpace) : Confined cs cs :=
  ⟨fun slot h => ⟨slot, h, .same _⟩, id, fun _ _ => rfl, fun _ _ _ _ h => h⟩

theorem Confined.trans {a b c : CSpace} (h : Confined a b) (h' : Confined b c) : Confined a c := by
  obtain ⟨horigins, f, hf, hinj⟩ := h
  obtain ⟨horigins', g, hg, hinj'⟩ := h'
  have hunique : ∀ slot, (c.cap slot).isUnique = true → (b.cap (g slot)).isUnique = true := by
    intro slot hslot
    rw [hg slot hslot]
    exact hslot
  refine ⟨?_, f ∘ g, ?_, ?_⟩
  · intro slot hslot
    obtain ⟨slot1, hslot1, hd1⟩ := horigins' slot hslot
    obtain ⟨slot₀, hslot0, hd0⟩ := horigins slot1 hslot1
    exact ⟨slot₀, hslot0, hd1.trans hd0⟩
  · intro slot hslot
    exact (hf _ (hunique slot hslot)).trans (hg slot hslot)
  · intro x y hx hy hxy
    exact hinj' x y hx hy (hinj _ _ (hunique x hx) (hunique y hy) hxy)

theorem cap_setUntypedCapAsFull (srcCap newCap : Cap) (srcSlot slot : Slot) (cs : CSpace)
    (hsrc : cs.cap srcSlot = srcCap) :
    ((setUntypedCapAsFull srcCap newCap srcSlot cs).cap slot).DerivedFrom (cs.cap slot) ∧
      (((setUntypedCapAsFull srcCap newCap srcSlot cs).cap slot).isUnique = true →
        (setUntypedCapAsFull srcCap newCap srcSlot cs).cap slot = cs.cap slot) := by
  unfold setUntypedCapAsFull
  split
  · split
    · rw [CSpace.cap_setCap]
      by_cases hs : slot = srcSlot
      · subst hs
        rw [update_self, hsrc]
        refine ⟨.untyped rfl rfl rfl, fun h => ?_⟩
        cases h
      · rw [update_of_ne hs]
        exact ⟨.same _, fun _ => rfl⟩
    · exact ⟨.same _, fun _ => rfl⟩
  · exact ⟨.same _, fun _ => rfl⟩

/-- A copy of what is in `src`. -/
theorem confined_cteInsert {dest : Slot} (hsrc : cs.cap src ≠ .null)
    (hder : newCap.DerivedFrom (cs.cap src)) (hunique : newCap.isUnique = false) :
    Confined cs (cteInsert newCap src dest cs) := by
  refine ⟨?_, id, ?_, fun _ _ _ _ h => h⟩
  · intro slot hslot
    rw [cap_cteInsert] at hslot ⊢
    by_cases hd : slot = dest
    · subst hd
      rw [update_self]
      exact ⟨src, hsrc, hder⟩
    · rw [update_of_ne hd] at hslot ⊢
      obtain ⟨hfrom, _⟩ := cap_setUntypedCapAsFull (cs.cap src) newCap src slot cs rfl
      refine ⟨slot, fun h => hslot ?_, hfrom⟩
      rw [h] at hfrom
      exact hfrom.eq_null
  · intro slot hslot
    rw [cap_cteInsert] at hslot ⊢
    by_cases hd : slot = dest
    · subst hd
      rw [update_self, hunique] at hslot
      cases hslot
    · rw [update_of_ne hd] at hslot ⊢
      exact ((cap_setUntypedCapAsFull (cs.cap src) newCap src slot cs rfl).2 hslot).symm

/-- What is in `src` goes to `dest`. -/
theorem confined_cteMove {dest : Slot} (hsrc : cs.cap src ≠ .null)
    (hder : newCap.DerivedFrom (cs.cap src))
    (hunique : newCap.isUnique = true → newCap = cs.cap src) :
    Confined cs (cteMove newCap src dest cs) := by
  have hcap : ∀ slot, (cteMove newCap src dest cs).cap slot ≠ .null →
      (slot = dest ∧ (cteMove newCap src dest cs).cap slot = newCap) ∨
        (slot ≠ src ∧ slot ≠ dest ∧ (cteMove newCap src dest cs).cap slot = cs.cap slot) := by
    intro slot hslot
    rw [cap_cteMove] at hslot ⊢
    by_cases hs : slot = src
    · rw [hs, update_self] at hslot
      exact absurd rfl hslot
    · rw [update_of_ne hs]
      by_cases hd : slot = dest
      · exact Or.inl ⟨hd, by rw [hd, update_self]⟩
      · exact Or.inr ⟨hs, hd, update_of_ne hd _ _⟩
  have hne : ∀ {c : Cap}, c.isUnique = true → c ≠ .null := by
    intro c hc he
    rw [he] at hc
    cases hc
  refine ⟨?_, fun slot => if slot = dest then src else slot, ?_, ?_⟩
  · intro slot hslot
    rcases hcap slot hslot with ⟨_, hc⟩ | ⟨_, _, hc⟩
    · rw [hc]
      exact ⟨src, hsrc, hder⟩
    · rw [hc] at hslot ⊢
      exact ⟨slot, hslot, .same _⟩
  · intro slot hslot
    dsimp only
    rcases hcap slot (hne hslot) with ⟨hd, hc⟩ | ⟨_, hd, hc⟩
    · rw [hc] at hslot ⊢
      rw [if_pos hd, hunique hslot]
    · rw [if_neg hd, hc]
  · intro a b ha hb hab
    dsimp only at hab
    rcases hcap a (hne ha) with ⟨hda, _⟩ | ⟨hsa, hda, _⟩
    · rcases hcap b (hne hb) with ⟨hdb, _⟩ | ⟨hsb, hdb, _⟩
      · exact hda.trans hdb.symm
      · rw [if_pos hda, if_neg hdb] at hab
        exact absurd hab.symm hsb
    · rcases hcap b (hne hb) with ⟨hdb, _⟩ | ⟨_, hdb, _⟩
      · rw [if_neg hda, if_pos hdb] at hab
        exact absurd hab hsa
      · rw [if_neg hda, if_neg hdb] at hab
        exact hab

/-- Two slots exchange their capabilities. -/
theorem confined_cteSwap {cap1 cap2 : Cap} {slot1 slot2 : Slot}
    (h1 : cs.cap slot1 ≠ .null) (h2 : cs.cap slot2 ≠ .null)
    (hder1 : cap1.DerivedFrom (cs.cap slot1)) (hder2 : cap2.DerivedFrom (cs.cap slot2))
    (hunique1 : cap1.isUnique = true → cap1 = cs.cap slot1)
    (hunique2 : cap2.isUnique = true → cap2 = cs.cap slot2) :
    Confined cs (cteSwap cap1 slot1 cap2 slot2 cs) := by
  have hcap : ∀ slot, (cteSwap cap1 slot1 cap2 slot2 cs).cap slot =
      if slot = slot2 then cap1 else if slot = slot1 then cap2 else cs.cap slot := by
    intro slot
    rw [cap_cteSwap, update_apply, update_apply]
  refine ⟨?_, Equiv.swap slot1 slot2, ?_, fun a b _ _ hab => (Equiv.swap slot1 slot2).injective hab⟩
  · intro slot hslot
    rw [hcap] at hslot ⊢
    split
    · exact ⟨slot1, h1, hder1⟩
    split
    · exact ⟨slot2, h2, hder2⟩
    · rename_i hs2 hs1
      rw [if_neg hs2, if_neg hs1] at hslot
      exact ⟨slot, hslot, .same _⟩
  · intro slot hslot
    rw [hcap] at hslot ⊢
    by_cases hs2 : slot = slot2
    · rw [if_pos hs2] at hslot ⊢
      rw [hs2, Equiv.swap_apply_right, hunique1 hslot]
    · rw [if_neg hs2] at hslot ⊢
      by_cases hs1 : slot = slot1
      · rw [if_pos hs1] at hslot ⊢
        rw [hs1, Equiv.swap_apply_left, hunique2 hslot]
      · rw [if_neg hs1, Equiv.swap_apply_of_ne_of_ne hs1 hs2]

/-! ### Decoding -/

section Decoding

variable {α β : Type}

theorem decode_bind_eq {x : Decode α} {f : α → Decode β} {b : β} :
    x >>= f = pure b ↔ ∃ a, x = pure a ∧ f a = pure b := by
  constructor
  · intro h
    obtain ⟨r, hr, h⟩ := bind_eq_ok.1 (show (x.run >>= ExceptT.bindCont f) = .ok (.ok b) from h)
    cases r with
    | ok a => exact ⟨a, hr, h⟩
    | error e => cases h
  · rintro ⟨a, rfl, h⟩
    exact h

end Decoding

/-- What `decodeCNodeInvocation` has made sure of. -/
def CNodeOp.Authorised (cs : CSpace) : CNodeOp → Prop
  | .insert newCap src dest =>
    cs.cap dest = .null ∧ cs.cap src ≠ .null ∧ newCap.DerivedFrom (cs.cap src) ∧
      newCap.isUnique = false
  | .move newCap src dest =>
    cs.cap dest = .null ∧ cs.cap src ≠ .null ∧ newCap.DerivedFrom (cs.cap src) ∧
      (newCap.isUnique = true → newCap = cs.cap src)
  | .rotate cap1 cap2 slot1 slot2 slot3 =>
    slot2 ≠ slot1 ∧ slot2 ≠ slot3 ∧ cs.cap slot1 ≠ .null ∧ cs.cap slot2 ≠ .null ∧
      cap1.DerivedFrom (cs.cap slot1) ∧ cap2.DerivedFrom (cs.cap slot2) ∧
      (cap1.isUnique = true → cap1 = cs.cap slot1) ∧
      (cap2.isUnique = true → cap2 = cs.cap slot2)
  | _ => True

variable {s s' : Kernel} {m : Message} {label : CNodeLabel} {op : CNodeOp} {dest : Slot}

theorem deriveCapOrError_eq (h : deriveCapOrError cfg cs slot cap = pure newCap) :
    deriveCap cfg cs slot cap = some newCap := by
  unfold deriveCapOrError at h
  split at h
  · rename_i c hc
    cases h
    exact hc
  · split at h
    · cases h
    · cases h

/-- The new capability of a copy is derived and not unique, that of a move is the
source's up to its data word. -/
theorem newCapFor_eq {isMove : Bool} (h : newCapFor cfg label src m cs = pure (newCap, isMove))
    (hne : newCap ≠ .null) :
    newCap.DerivedFrom (cs.cap src) ∧
      (isMove = false → newCap.isUnique = false) ∧
      (isMove = true → newCap.isUnique = true → newCap = cs.cap src) := by
  unfold newCapFor at h
  split at h
  · split at h
    · cases h
    · obtain ⟨c, hc, h⟩ := decode_bind_eq.1 h
      cases h
      obtain ⟨hunique, hder⟩ := deriveCap_spec (deriveCapOrError_eq hc)
      refine ⟨(hder hne).trans (derivedFrom_maskCapRights _ _), fun _ => hunique,
        nofun⟩
  · split at h
    · cases h
    · obtain ⟨c, hc, h⟩ := decode_bind_eq.1 h
      cases h
      obtain ⟨hunique, hder⟩ := deriveCap_spec (deriveCapOrError_eq hc)
      have hfrom := hder hne
      refine ⟨hfrom.trans ((derivedFrom_updateCapData _ _ _ ?_).trans
        (derivedFrom_maskCapRights _ _)), fun _ => hunique, nofun⟩
      intro hnull
      rw [hnull] at hfrom
      exact hne hfrom.eq_null
  · split at h
    · cases h
    · cases h
      exact ⟨derivedFrom_updateCapData _ _ _ hne, nofun,
        fun _ => updateCapData_of_isUnique⟩
  · cases h
    exact ⟨.same _, nofun, fun _ _ => rfl⟩

variable (h : decodeCNodeCopy cfg label dest m s = pure op)

include h

/-- What `CNodeCopy`, `CNodeMint`, `CNodeMove` and `CNodeMutate` have checked. -/
theorem decodeCNodeCopy_cases :
    ∃ src newCap isMove, s.cspace.cap dest = .null ∧ s.cspace.cap src ≠ .null ∧
      newCapFor cfg label src m s.cspace = pure (newCap, isMove) ∧ newCap ≠ .null ∧
      op = if isMove then .move newCap src dest else .insert newCap src dest := by
  unfold decodeCNodeCopy at h
  split at h
  · cases h
  dsimp only at h
  split at h
  · cases h
  split at h
  · cases h
  rename_i hempty
  have hdest : s.cspace.cap dest = .null := by
    unfold ensureEmptySlot at hempty
    simpa using hempty
  obtain ⟨src, _, h⟩ := decode_bind_eq.1 h
  split at h
  · cases h
  rename_i hsrc
  obtain ⟨⟨newCap, isMove⟩, hnew, h⟩ := decode_bind_eq.1 h
  split at h
  · cases h
  rename_i hne
  refine ⟨src, newCap, isMove, hdest, hsrc, hnew, hne, ?_⟩
  split at h
  · cases h
    simp_all
  · cases h
    simp_all

theorem decodeCNodeCopy_authorised : op.Authorised s.cspace := by
  obtain ⟨src, newCap, isMove, hdest, hsrc, hnew, hne, rfl⟩ := decodeCNodeCopy_cases h
  obtain ⟨hder, hcopy, hmove⟩ := newCapFor_eq hnew hne
  cases isMove with
  | true => exact ⟨hdest, hsrc, hder, hmove rfl⟩
  | false => exact ⟨hdest, hsrc, hder, hcopy rfl⟩

omit h

/-- What `CNodeRotate` has checked. -/
theorem decodeCNodeRotate_cases
    (h : decodeCNodeRotate dest m s = pure op) :
    ∃ src pivot data1 data2, pivot ≠ src ∧ pivot ≠ dest ∧
      (src ≠ dest → s.cspace.cap dest = .null) ∧ s.cspace.cap src ≠ .null ∧
      s.cspace.cap pivot ≠ .null ∧ updateCapData true data1 (s.cspace.cap src) ≠ .null ∧
      updateCapData true data2 (s.cspace.cap pivot) ≠ .null ∧
      op = .rotate (updateCapData true data1 (s.cspace.cap src))
        (updateCapData true data2 (s.cspace.cap pivot)) src pivot dest := by
  unfold decodeCNodeRotate at h
  split at h
  · dsimp only at h
    split at h
    · cases h
    obtain ⟨src, _, h⟩ := decode_bind_eq.1 h
    obtain ⟨pivot, _, h⟩ := decode_bind_eq.1 h
    split at h
    · cases h
    rename_i hpivot
    rw [not_or] at hpivot
    split at h
    · cases h
    rename_i hempty
    have hdest : src ≠ dest → s.cspace.cap dest = .null := by
      intro hne
      unfold ensureEmptySlot at hempty
      simpa [hne] using hempty
    split at h
    · cases h
    rename_i hsrc
    split at h
    · cases h
    rename_i hp
    split at h
    · cases h
    rename_i hnew1
    split at h
    · cases h
    · rename_i hnew2
      cases h
      exact ⟨src, pivot, _, _, hpivot.1, hpivot.2, hdest, hsrc, hp, hnew1, hnew2, rfl⟩
  · cases h

theorem decodeCNodeRotate_authorised
    (h : decodeCNodeRotate dest m s = pure op) : op.Authorised s.cspace := by
  obtain ⟨src, pivot, data1, data2, hps, hpd, -, hsrc, hp, hnew1, hnew2, rfl⟩ :=
    decodeCNodeRotate_cases h
  exact ⟨hps, hpd, hsrc, hp, derivedFrom_updateCapData _ _ _ hnew1,
    derivedFrom_updateCapData _ _ _ hnew2, updateCapData_of_isUnique, updateCapData_of_isUnique⟩

theorem decodeCNodeInvocation_authorised (h : decodeCNodeInvocation cfg label cap m s = pure op) :
    op.Authorised s.cspace := by
  unfold decodeCNodeInvocation at h
  split at h
  · cases h
  split at h
  · cases h
  obtain ⟨dest, _, h⟩ := decode_bind_eq.1 h
  cases label with
  | copy => exact decodeCNodeCopy_authorised h
  | mint => exact decodeCNodeCopy_authorised h
  | move => exact decodeCNodeCopy_authorised h
  | mutate => exact decodeCNodeCopy_authorised h
  | rotate => exact decodeCNodeRotate_authorised h
  | revoke => cases h; trivial
  | delete => cases h; trivial
  | saveCaller =>
    dsimp only at h
    split at h
    · cases h
    · cases h
      trivial
  | cancelBadgedSends =>
    dsimp only at h
    split at h
    · cases h
      trivial
    · cases h

/-! ### Runs -/

/-- The operations that move capabilities about; deletion and cancellation are none. -/
def CNodeOp.moved (cs : CSpace) : CNodeOp → Option CSpace
  | .insert newCap src dest => some (cteInsert newCap src dest cs)
  | .move newCap src dest => some (cteMove newCap src dest cs)
  | .rotate cap1 cap2 slot1 slot2 slot3 =>
    some (invokeCNodeRotate cap1 cap2 slot1 slot2 slot3 cs)
  | _ => none

theorem CNodeOp.Authorised.confined {cs cs' : CSpace} (h : op.Authorised cs)
    (hmoved : op.moved cs = some cs') : Confined cs cs' := by
  cases op with
  | insert newCap src dest =>
    cases hmoved
    exact confined_cteInsert h.2.1 h.2.2.1 h.2.2.2
  | move newCap src dest =>
    cases hmoved
    exact confined_cteMove h.2.1 h.2.2.1 h.2.2.2
  | rotate cap1 cap2 slot1 slot2 slot3 =>
    cases hmoved
    obtain ⟨h21, h23, hn1, hn2, hder1, hder2, huniq1, huniq2⟩ := h
    unfold invokeCNodeRotate
    split
    · exact confined_cteSwap hn1 hn2 hder1 hder2 huniq1 huniq2
    rename_i h13
    have hkept : (cteMove cap2 slot2 slot3 cs).cap slot1 = cs.cap slot1 := by
      rw [cap_cteMove, update_of_ne h21.symm, update_of_ne h13]
    refine (confined_cteMove hn2 hder2 huniq2).trans (confined_cteMove ?_ ?_ ?_)
    · rw [hkept]
      exact hn1
    · rw [hkept]
      exact hder1
    · rw [hkept]
      exact huniq1
  | _ => cases hmoved

theorem confined_insertExtraCap {dest : Option Slot}
    (h : insertExtraCap cfg slot dest s = some s') : Confined s.cspace s'.cspace := by
  unfold insertExtraCap at h
  split at h
  · rename_i cap hcap
    split at h
    · cases h
    rename_i hne
    cases h
    obtain ⟨hunique, hder⟩ := deriveCap_spec hcap
    have hder := hder hne
    refine confined_cteInsert (fun hnull => hne ?_) hder hunique
    rw [show s.cap slot = .null from hnull] at hder
    exact hder.eq_null
  · cases h

theorem confined_transferCapsLoop (endpoint : Option Ptr) (buffer : Nat) :
    ∀ (slots : List Slot) (i : Nat) (dest : Option Slot) (unwrapped : Nat) (s : Kernel),
      Confined s.cspace (transferCapsLoop cfg endpoint buffer slots i dest unwrapped s).2.2.cspace
    := by
  intro slots
  induction slots with
  | nil => intro i dest unwrapped s; exact .refl _
  | cons slot slots ih =>
    intro i dest unwrapped s
    unfold transferCapsLoop
    split
    · rename_i badge _
      exact ih _ _ _ (s.setMemory (bufferWord buffer (msgMaxLength + 2 + i)) badge)
    · split
      · exact .refl _
      · rename_i s' hinsert
        exact (confined_insertExtraCap hinsert).trans (ih _ _ _ s')

theorem confined_transferCaps {info info' : MessageInfo} {slots : List Slot}
    {endpoint : Option Ptr} {receiver : Ptr} {buffer : Option Nat}
    (h : transferCaps cfg info slots endpoint receiver buffer s = .ok (info', s')) :
    Confined s.cspace s'.cspace := by
  unfold transferCaps at h
  split at h
  · cases h
    exact .refl _
  · cases h
    exact .refl _
  · rename_i buffer _
    obtain ⟨dest, _, h⟩ := bind_eq_ok.1 h
    cases h
    exact confined_transferCapsLoop endpoint buffer slots 0 dest 0 s

/-- One operation: a CNode invocation that passes `decodeCNodeInvocation`, or the
capabilities of a message. -/
inductive CapStep (cfg : Config) : Kernel → Kernel → Prop where
  | invoke {s : Kernel} (label : CNodeLabel) (cap : Cap) (m : Message) {op : CNodeOp}
      {cs : CSpace} (hdecode : decodeCNodeInvocation cfg label cap m s = pure op)
      (hmoved : op.moved s.cspace = some cs) : CapStep cfg s { s with cspace := cs }
  | transfer {s s' : Kernel} (info : MessageInfo) (slots : List Slot) (endpoint : Option Ptr)
      (receiver : Ptr) (buffer : Option Nat) {info' : MessageInfo}
      (h : transferCaps cfg info slots endpoint receiver buffer s = .ok (info', s')) :
      CapStep cfg s s'

theorem CapStep.confined (h : CapStep cfg s s') : Confined s.cspace s'.cspace := by
  cases h with
  | invoke label cap m hdecode hmoved =>
    exact (decodeCNodeInvocation_authorised hdecode).confined hmoved
  | transfer info slots endpoint receiver buffer h => exact confined_transferCaps h

theorem confined_run (h : Relation.ReflTransGen (CapStep cfg) s s') :
    Confined s.cspace s'.cspace := by
  induction h with
  | refl => exact .refl _
  | tail _ hstep ih => exact ih.trans hstep.confined

/-- **Main result.** After any sequence of copies, mints, moves, mutations, rotations
and transfers, every capability comes from one that was there before: it refers to the
same object and range, has no more rights, and has the same badge unless there was none.
Reply capabilities of the standard kernel and the interrupt control capability are not
duplicated. -/
theorem capabilities_confined {s s' : Kernel} (h : Relation.ReflTransGen (CapStep cfg) s s') :
    (∀ slot, s'.cap slot ≠ .null →
      ∃ slot₀, s.cap slot₀ ≠ .null ∧ (s'.cap slot).DerivedFrom (s.cap slot₀)) ∧
    ∃ origin : Slot → Slot,
      (∀ slot, (s'.cap slot).isUnique = true → s.cap (origin slot) = s'.cap slot) ∧
        ∀ a b, (s'.cap a).isUnique = true → (s'.cap b).isUnique = true →
          origin a = origin b → a = b :=
  confined_run h

/-! ### Copies in the MCS kernel -/

/-- A CNode of four slots. -/
def fourSlots : CNodeCap :=
  { capCNodeRadix := 2, capCNodeGuardSize := 62, capCNodeGuard := 0, capCNodePtr := 50 }

/-- The CNode has the capabilities of a reply object and of an endpoint in its first two
slots. -/
def capState : Kernel :=
  let s := Kernel.cleared
  let cs := s.cspace.setCap (tcbSlot 1 tcbCTable) (.cnode fourSlots)
  let cs := cs.setCap { base := 50, index := 0 } (.replyObject 41 true)
  let cs := cs.setCap { base := 50, index := 1 } (.endpoint serverEndpoint)
  { s with cspace := cs }

/-- Invoke the CNode of `capState`: from slot `src` to slot `dest`, with the words `more`. -/
def capMessage (dest src : Nat) (more : List Word) : Message :=
  { words := [BitVec.ofNat 64 dest, 64, BitVec.ofNat 64 src, 64] ++ more
    extraCaps := [tcbSlot 1 tcbCTable] }

/-- The reply capabilities of the MCS kernel can be copied: there is one in the first slot,
and then there are two. -/
theorem replyObject_duplicated :
    (∀ slot, capState.cap slot = .replyObject 41 true → slot = { base := 50, index := 0 }) ∧
    ∃ s', CapStep tickConfig capState s' ∧
      s'.cap { base := 50, index := 0 } = .replyObject 41 true ∧
      s'.cap { base := 50, index := 2 } = .replyObject 41 true := by
  constructor
  · intro slot hslot
    have hcap : capState.cap slot = update (update (update
        (fun _ => Cap.null) (tcbSlot 1 tcbCTable) (.cnode fourSlots))
          { base := 50, index := 0 } (.replyObject 41 true))
            { base := 50, index := 1 } (.endpoint serverEndpoint) slot := rfl
    rw [hcap, update_apply, update_apply, update_apply] at hslot
    split at hslot
    · cases hslot
    · split at hslot
      · assumption
      · split at hslot <;> cases hslot
  · have hdecode : decodeCNodeInvocation tickConfig .copy (capState.cap (tcbSlot 1 tcbCTable))
        (capMessage 2 0 [15]) capState =
          pure (.insert (.replyObject 41 true) { base := 50, index := 0 }
            { base := 50, index := 2 }) := by
      rfl
    exact ⟨_, .invoke _ _ _ hdecode rfl, by decide +kernel, by decide +kernel⟩

/-- A badged capability without the right to receive is minted from the endpoint
capability, which it comes from. -/
theorem capabilities_confined_mint :
    ∃ s', Relation.ReflTransGen (CapStep tickConfig) capState s' ∧
      s'.cap { base := 50, index := 2 } =
        .endpoint { serverEndpoint with capEPBadge := 7, capCanReceive := false } ∧
      ∃ slot₀, capState.cap slot₀ ≠ .null ∧
        (s'.cap { base := 50, index := 2 }).DerivedFrom (capState.cap slot₀) := by
  have hdecode : decodeCNodeInvocation tickConfig .mint (capState.cap (tcbSlot 1 tcbCTable))
      (capMessage 2 1 [13, 7]) capState =
        pure (.insert (.endpoint { serverEndpoint with capEPBadge := 7, capCanReceive := false })
          { base := 50, index := 1 } { base := 50, index := 2 }) := by
    rfl
  have hrun := Relation.ReflTransGen.single (CapStep.invoke _ _ _ hdecode rfl)
  have hcap : ({ capState with cspace := (cteInsert
      (.endpoint { serverEndpoint with capEPBadge := 7, capCanReceive := false })
      { base := 50, index := 1 } { base := 50, index := 2 } capState.cspace) } : Kernel).cap
        { base := 50, index := 2 } =
      .endpoint { serverEndpoint with capEPBadge := 7, capCanReceive := false } := by
    decide +kernel
  exact ⟨_, hrun, hcap, (capabilities_confined hrun).1 _ (by rw [hcap]; simp)⟩

end SeL4Kernel
