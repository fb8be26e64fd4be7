import SeL4Kernel.Fastpath.Fastpath
import SeL4Kernel.Kernel.AddressResolution

/-!
# The two capability lookups agree

`lookup_fp` resolves an address with its own loop: it shifts the address so that the
bits of the next CNode are on top, checks the guard there, and puts the check of the
depth off until the end. `resolveAddressBits` counts the bits that are left and
masks. Both find the same capability (`lookups_agree`), provided that an empty guard has the
value 0: `lookup_fp` does not look at it then, and `resolveAddressBits` does.
-/

namespace SeL4Kernel

/-- What the kernel keeps of every CNode capability: the guard fits its size, and
the CNode resolves at least one bit and at most a word. -/
structure CNodeCap.WellFormed (node : CNodeCap) : Prop where
  guard_lt : node.capCNodeGuard < 2 ^ node.capCNodeGuardSize
  guardSize_lt : node.capCNodeGuardSize < wordBits
  radix_pos : 0 < node.capCNodeRadix
  bits_le : node.capCNodeRadix + node.capCNodeGuardSize ≤ wordBits

/-- Every CNode capability is well-formed. -/
def CNodesWellFormed (cs : CSpace) : Prop :=
  ∀ slot node, cs.cap slot = .cnode node → node.WellFormed

theorem CNodesWellFormed.setCap {cs : CSpace} {slot : Slot} {cap : Cap} (h : CNodesWellFormed cs)
    (hcap : ∀ node, cap = .cnode node → node.WellFormed) :
    CNodesWellFormed (cs.setCap slot cap) := by
  intro slot' node hnode
  by_cases he : slot' = slot
  · subst he
    exact hcap node ((Function.update_self ..).symm.trans hnode)
  · exact h slot' node ((Function.update_of_ne he ..).symm.trans hnode)

/-- What both lookups need of a CNode: it has slots, and an empty guard has the value 0. -/
structure CNodeCap.Sound (node : CNodeCap) : Prop where
  radix_pos : 0 < node.capCNodeRadix
  guard_zero : node.capCNodeGuardSize = 0 → node.capCNodeGuard = 0

variable {node : CNodeCap} {bits : Nat} {cs : CSpace}

theorem CNodeCap.WellFormed.sound (h : node.WellFormed) : node.Sound := by
  refine ⟨h.radix_pos, fun hz => ?_⟩
  have hlt := h.guard_lt
  rw [hz] at hlt
  omega

/-- The capability a lookup leads to; a failed one leads to none. -/
def LookupResult.cap (cs : CSpace) : LookupResult → Cap
  | .found slot _ => cs.cap slot
  | .fault _ | .noReturn => .null

/-- The guard as `lookup_fp` reads it. -/
theorem fpGuard_eq (cptr : Word) {guardBits : Nat} (hpos : 0 < guardBits)
    (h : bits + guardBits ≤ wordBits) :
    ((cptr <<< bits) >>> ((wordBits - guardBits) % wordBits)).toNat =
      cptr.toNat / 2 ^ ((wordBits - bits + 2 ^ 64 - guardBits) % 2 ^ wordRadix) %
        2 ^ guardBits := by
  unfold wordBits wordRadix at *
  rw [Nat.mod_eq_of_lt (by omega), toNat_field cptr h]
  congr 3
  omega

/-- The index as `lookup_fp` reads it. -/
theorem fpRadix_eq (cptr : Word) {guardBits radixBits : Nat} (hpos : 0 < radixBits)
    (h : bits + (guardBits + radixBits) ≤ wordBits) :
    (((cptr <<< bits) <<< guardBits) >>> ((wordBits - radixBits) % wordBits)).toNat =
      cptr.toNat / 2 ^ (wordBits - bits - (radixBits + guardBits)) % 2 ^ radixBits := by
  unfold wordBits at *
  rw [Nat.mod_eq_of_lt (by omega), ← BitVec.shiftLeft_add, toNat_field cptr (by omega)]
  congr 3
  omega

/-- Past the end of the address, `lookup_fp` fails in any case. -/
theorem lookupFpLoop_overshoot {cptr : Word} {fuel : Nat}
    (h : wordBits < bits + (node.capCNodeGuardSize + node.capCNodeRadix)) :
    lookupFpLoop cs cptr (fuel + 1) node bits = .ok .null := by
  unfold lookupFpLoop
  dsimp only
  split
  · rfl
  · have hend : ¬bits + (node.capCNodeGuardSize + node.capCNodeRadix) < wordBits := by omega
    simp only [if_neg hend]
    split <;> rfl

variable (hcs : ∀ slot node, cs.cap slot = .cnode node → node.Sound)

include hcs

/-- The two loops, at a CNode with `bits` bits of the address used up. -/
theorem lookupFpLoop_eq (cptr : Word) :
    ∀ (fuel fuel' : Nat) (node : CNodeCap) (bits : Nat), node.Sound → bits < wordBits →
      wordBits < bits + fuel → wordBits < bits + fuel' →
      lookupFpLoop cs cptr fuel node bits =
        .ok ((resolveLoop cs cptr fuel' node (wordBits - bits)).cap cs) := by
  intro fuel
  induction fuel with
  | zero => intro _ _ bits _ hb hf; omega
  | succ fuel ih =>
    intro fuel' node bits hw hb hf hf'
    obtain ⟨fuel', rfl⟩ : ∃ k, fuel' = k + 1 := ⟨fuel' - 1, by omega⟩
    have hradix := hw.radix_pos
    by_cases hover : wordBits < bits + (node.capCNodeGuardSize + node.capCNodeRadix)
    · -- too deep for the slow path as well: the guard or the radix does not fit
      rw [lookupFpLoop_overshoot hover]
      unfold resolveLoop
      dsimp only
      split
      · rfl
      · rw [if_pos (by omega)]
        rfl
    · have hguard : (node.capCNodeGuardSize ≠ 0 ∧
            ((cptr <<< bits) >>> ((wordBits - node.capCNodeGuardSize) % wordBits)).toNat ≠
              node.capCNodeGuard) ↔
          (wordBits - bits < node.capCNodeGuardSize ∨
            cptr.toNat / 2 ^ ((wordBits - bits + 2 ^ 64 - node.capCNodeGuardSize) % 2 ^ wordRadix) %
              2 ^ node.capCNodeGuardSize ≠ node.capCNodeGuard) := by
        by_cases hz : node.capCNodeGuardSize = 0
        · rw [hz]
          simp [hw.guard_zero hz, Nat.mod_one]
        · rw [fpGuard_eq cptr (by omega) (by omega)]
          constructor
          · exact fun h => Or.inr h.2
          · exact fun h => ⟨hz, h.resolve_left (by omega)⟩
      unfold lookupFpLoop resolveLoop
      dsimp only
      rw [fpRadix_eq cptr hw.radix_pos (by omega)]
      by_cases hg : wordBits - bits < node.capCNodeGuardSize ∨
            cptr.toNat / 2 ^ ((wordBits - bits + 2 ^ 64 - node.capCNodeGuardSize) % 2 ^ wordRadix) %
              2 ^ node.capCNodeGuardSize ≠ node.capCNodeGuard
      · rw [if_pos (hguard.2 hg), if_pos hg]
        rfl
      have hlevel : ¬wordBits - bits < node.capCNodeRadix + node.capCNodeGuardSize := by omega
      rw [if_neg (fun h => hg (hguard.1 h)), if_neg hg, if_neg hlevel]
      generalize hslot : Slot.mk node.capCNodePtr (cptr.toNat /
        2 ^ (wordBits - bits - (node.capCNodeRadix + node.capCNodeGuardSize)) %
          2 ^ node.capCNodeRadix) = slot
      by_cases hend : wordBits - bits ≤ node.capCNodeRadix + node.capCNodeGuardSize
      · have hlast : ¬bits + (node.capCNodeGuardSize + node.capCNodeRadix) < wordBits := by omega
        rw [if_pos hend]
        cases hcap : cs.cap slot with
        | cnode next =>
          dsimp only
          rw [if_neg hlast, if_neg hover]
          exact congrArg Except.ok hcap.symm
        | _ =>
          dsimp only
          rw [if_neg hover]
          exact congrArg Except.ok hcap.symm
      · have hmore : bits + (node.capCNodeGuardSize + node.capCNodeRadix) < wordBits := by omega
        rw [if_neg hend]
        cases hcap : cs.cap slot with
        | cnode next =>
          dsimp only
          rw [if_pos hmore, ih fuel' next _ (hcs _ _ hcap) hmore (by omega) (by omega)]
          congr 3
          omega
        | _ =>
          dsimp only
          rw [if_neg hover]
          exact congrArg Except.ok hcap.symm

theorem lookupFp_eq {root : Cap} (hroot : ∀ node, root = .cnode node → node.Sound) (cptr : Word) :
    lookupFp cs root cptr = .ok ((resolveAddressBits cs root cptr wordBits).cap cs) := by
  cases root with
  | cnode node =>
    exact lookupFpLoop_eq hcs cptr _ _ node 0 (hroot node rfl) (by decide) (by decide) (by decide)
  | _ => rfl

omit hcs

/-- A CNode whose shifts stay within a word, with the value 0 for an empty guard. -/
structure CNodeCap.InRange (node : CNodeCap) : Prop extends node.Sound where
  radix_lt : node.capCNodeRadix < wordBits
  guardSize_lt : node.capCNodeGuardSize < wordBits

/-- **Main result.** `lookup_fp` returns, and it finds a capability exactly if the slow path finds
it; it finds none if the slow path faults, and the slow path returns too. -/
theorem lookups_agree (hcs : ∀ slot node, cs.cap slot = .cnode node → node.InRange)
    {root : Cap} (hroot : ∀ node, root = .cnode node → node.InRange) (cptr : Word) :
    ∃ cap, lookupFp cs root cptr = .ok cap ∧
      (∀ c, c ≠ .null → (cap = c ↔ ∃ slot bitsRemaining,
        resolveAddressBits cs root cptr wordBits = .found slot bitsRemaining ∧ cs.cap slot = c)) ∧
      (∀ luf, resolveAddressBits cs root cptr wordBits = .fault luf → cap = .null) ∧
      resolveAddressBits cs root cptr wordBits ≠ .noReturn := by
  refine ⟨_, lookupFp_eq (fun slot node h => (hcs slot node h).toSound)
    (fun node h => (hroot node h).toSound) cptr, ?_, ?_, ?_⟩
  · intro c hc
    cases hres : resolveAddressBits cs root cptr wordBits with
    | found slot n =>
      constructor
      · exact fun h => ⟨slot, n, rfl, h⟩
      · rintro ⟨_, _, hfound, hcap⟩
        cases hfound
        exact hcap
    | fault luf => exact ⟨fun h => absurd h.symm hc, fun ⟨_, _, hfound, _⟩ => nomatch hfound⟩
    | noReturn => exact ⟨fun h => absurd h.symm hc, fun ⟨_, _, hfound, _⟩ => nomatch hfound⟩
  · intro luf hres
    rw [hres]
    rfl
  · exact resolveAddressBits_ne_noReturn
      (fun slot node h => Nat.add_pos_left (hcs slot node h).radix_pos _)
      (fun node h => Nat.add_pos_left (hroot node h).radix_pos _) cptr (Nat.le_refl _)

/-- A capability space with one capability, to the reply object 9. -/
def oneReply : CSpace := CSpace.empty.setCap { base := 7, index := 0 } (.replyObject 9 true)

theorem oneReply_cnode {slot : Slot} : oneReply.cap slot ≠ .cnode node := by
  intro h
  unfold oneReply CSpace.setCap at h
  dsimp only at h
  rw [Function.update_apply] at h
  split at h <;> cases h

/-- Both lookups go through two CNodes and leave 56 bits. -/
theorem lookups_agree_twoLevels :
    lookupFp twoLevels (.cnode ⟨4, 2, 1, 7⟩) 0x5300000000000000 = .ok (.replyObject 9 true) ∧
      ∃ cap, lookupFp twoLevels (.cnode ⟨4, 2, 1, 7⟩) 0x5300000000000000 = .ok cap ∧
        (∀ c, c ≠ .null → (cap = c ↔ ∃ slot n,
          resolveAddressBits twoLevels (.cnode ⟨4, 2, 1, 7⟩) 0x5300000000000000 wordBits =
            .found slot n ∧ twoLevels.cap slot = c)) ∧
        (∀ luf, resolveAddressBits twoLevels (.cnode ⟨4, 2, 1, 7⟩) 0x5300000000000000 wordBits =
          .fault luf → cap = .null) ∧
        resolveAddressBits twoLevels (.cnode ⟨4, 2, 1, 7⟩) 0x5300000000000000 wordBits ≠
          .noReturn :=
  ⟨by decide, lookups_agree
    (fun _ _ h => by
      rw [twoLevels_cnode h]
      exact ⟨⟨by decide, by decide⟩, by decide, by decide⟩)
    (fun _ h => by cases h; exact ⟨⟨by decide, by decide⟩, by decide, by decide⟩) _⟩

/-- At a CNode with an empty guard of the value 1 the fast path finds a capability and the slow
path faults. -/
theorem lookups_differ :
    (∀ slot node, oneReply.cap slot ≠ .cnode node) ∧
      lookupFp oneReply (.cnode ⟨1, 0, 1, 7⟩) 0 = .ok (.replyObject 9 true) ∧
      resolveAddressBits oneReply (.cnode ⟨1, 0, 1, 7⟩) 0 wordBits =
        .fault (.guardMismatch 1 64 0) :=
  ⟨fun _ _ => oneReply_cnode, by decide, by decide⟩

theorem lookupFpLoop_congr {cs cs' : CSpace} (cptr : Word)
    (h : ∀ slot node i, cs.cap slot = .cnode node →
      cs'.cap ⟨node.capCNodePtr, i⟩ = cs.cap ⟨node.capCNodePtr, i⟩) :
    ∀ (fuel : Nat) (slot : Slot) (node : CNodeCap) (bits : Nat), cs.cap slot = .cnode node →
      lookupFpLoop cs' cptr fuel node bits = lookupFpLoop cs cptr fuel node bits := by
  intro fuel
  induction fuel with
  | zero => intros; rfl
  | succ fuel ih =>
    intro slot node bits hnode
    unfold lookupFpLoop
    dsimp only
    rw [h slot node _ hnode]
    split
    · rfl
    split
    · rename_i next hnext
      rw [ih _ next _ hnext]
    · rfl

/-- A lookup depends on the slots of CNodes only. -/
theorem lookupFp_congr {cs cs' : CSpace} (cptr : Word) {root : Slot}
    (h : ∀ slot node i, cs.cap slot = .cnode node →
      cs'.cap ⟨node.capCNodePtr, i⟩ = cs.cap ⟨node.capCNodePtr, i⟩) :
    lookupFp cs' (cs.cap root) cptr = lookupFp cs (cs.cap root) cptr := by
  unfold lookupFp
  split
  · rename_i node hroot
    exact lookupFpLoop_congr cptr h _ _ node 0 hroot
  · rfl

/-- A capability that the fast path finds is in the slot that the slow path finds. -/
theorem lookupSlot_of_lookupFp {s : Kernel} (hcs : CNodesWellFormed s.cspace) {thread : Ptr}
    {cptr : Word} {cap : Cap}
    (h : lookupFp s.cspace (s.cap (tcbSlot thread tcbCTable)) cptr = .ok cap) (hne : cap ≠ .null) :
    ∃ slot, lookupSlot s thread cptr = .ok (.ok slot) ∧ s.cap slot = cap := by
  have hroot : ∀ node, s.cap (tcbSlot thread tcbCTable) = .cnode node → node.Sound :=
    fun node h => (hcs _ node h).sound
  have hcap := Except.ok.inj
    (h.symm.trans (lookupFp_eq (fun slot node h => (hcs slot node h).sound) hroot cptr))
  unfold lookupSlot
  cases hres : resolveAddressBits s.cspace (s.cap (tcbSlot thread tcbCTable)) cptr wordBits with
  | found slot _ =>
    rw [hres] at hcap
    exact ⟨slot, rfl, hcap.symm⟩
  | fault _ =>
    rw [hres] at hcap
    exact absurd hcap hne
  | noReturn =>
    rw [hres] at hcap
    exact absurd hcap hne

end SeL4Kernel
