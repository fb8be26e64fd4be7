import SeL4Kernel.Kernel.CSpace
import SeL4Kernel.Lib.Word

/-!
# What a capability address means

`resolveAddressBits` works on one word, with shifts and masks and with a length check that comes
after the shift. What it computes is a recursion over the bits of the address, from the most
significant one: the guard of the CNode is taken off, the next bits are the index of a slot, and
the bits that are left are resolved by the CNode in that slot.
-/

namespace SeL4Kernel

/-- Every CNode resolves at least one bit. -/
def CSpace.Resolving (cs : CSpace) : Prop :=
  ∀ slot node, cs.cap slot = .cnode node → 0 < node.capCNodeRadix + node.capCNodeGuardSize

variable {cs : CSpace} {node : CNodeCap} {nBits : Nat}

theorem length_left_lt {bits : List Bool} (hnode : 0 < node.capCNodeRadix + node.capCNodeGuardSize)
    (hleft : (bits.drop node.capCNodeGuardSize).drop node.capCNodeRadix ≠ []) :
    ((bits.drop node.capCNodeGuardSize).drop node.capCNodeRadix).length < bits.length := by
  have hpos := List.length_pos_of_ne_nil hleft
  rw [List.length_drop, List.length_drop] at hpos ⊢
  omega

/-- The specification: the bits of an address at a CNode. -/
def resolveBits (hcs : cs.Resolving) (node : CNodeCap)
    (hnode : 0 < node.capCNodeRadix + node.capCNodeGuardSize) (bits : List Bool) : LookupResult :=
  let guard := bits.take node.capCNodeGuardSize
  let rest := bits.drop node.capCNodeGuardSize
  if bits.length < node.capCNodeGuardSize ∨ ofBits guard ≠ node.capCNodeGuard then
    .fault (.guardMismatch node.capCNodeGuard bits.length node.capCNodeGuardSize)
  else if rest.length < node.capCNodeRadix then
    .fault (.depthMismatch (node.capCNodeRadix + node.capCNodeGuardSize) bits.length)
  else
    let slot : Slot := { base := node.capCNodePtr, index := ofBits (rest.take node.capCNodeRadix) }
    let left := rest.drop node.capCNodeRadix
    if hleft : left = [] then .found slot 0
    else
      match hcap : cs.cap slot with
      | .cnode next =>
        have : left.length < bits.length := length_left_lt hnode hleft
        resolveBits hcs next (hcs slot next hcap) left
      | _ => .found slot left.length
termination_by bits.length

/-- The guard as the code reads it: the shift wraps only when the guard is empty. -/
theorem guard_eq (capptr : Word) {guardBits : Nat} (hn : nBits ≤ wordBits)
    (hg : guardBits ≤ nBits) :
    capptr.toNat / 2 ^ ((nBits + 2 ^ 64 - guardBits) % 2 ^ wordRadix) % 2 ^ guardBits =
      ofBits ((lowBits capptr nBits).take guardBits) := by
  rw [ofBits_take_lowBits capptr hg]
  by_cases hz : guardBits = 0
  · rw [hz, Nat.pow_zero, Nat.mod_one, Nat.mod_one]
  · unfold wordBits wordRadix at *
    congr 3
    omega

theorem resolveLoop_eq (hcs : cs.Resolving) (capptr : Word) {fuel : Nat}
    (hnode : 0 < node.capCNodeRadix + node.capCNodeGuardSize) (hn : nBits ≤ wordBits)
    (hfuel : nBits < fuel) :
    resolveLoop cs capptr fuel node nBits =
      resolveBits hcs node hnode (lowBits capptr nBits) := by
  induction fuel generalizing node nBits with
  | zero => exact absurd hfuel (Nat.not_lt_zero _)
  | succ fuel ih =>
    rw [resolveLoop, resolveBits]
    dsimp only
    rw [length_lowBits]
    by_cases hlong : nBits < node.capCNodeGuardSize
    · rw [if_pos (.inl hlong), if_pos (.inl hlong)]
    have hguard := guard_eq capptr hn (Nat.not_lt.1 hlong)
    rw [hguard, drop_lowBits, length_lowBits]
    by_cases hmatch : nBits < node.capCNodeGuardSize ∨
        ofBits ((lowBits capptr nBits).take node.capCNodeGuardSize) ≠ node.capCNodeGuard
    · rw [if_pos hmatch, if_pos hmatch]
    rw [if_neg hmatch, if_neg hmatch]
    by_cases hdepth : nBits < node.capCNodeRadix + node.capCNodeGuardSize
    · have hshort : nBits - node.capCNodeGuardSize < node.capCNodeRadix := by omega
      rw [if_pos hdepth, if_pos hshort]
    have hrest : ¬nBits - node.capCNodeGuardSize < node.capCNodeRadix := by omega
    have hindex := ofBits_take_lowBits capptr
      (k := nBits - node.capCNodeGuardSize) (g := node.capCNodeRadix) (by omega)
    have hsub : nBits - node.capCNodeGuardSize - node.capCNodeRadix =
        nBits - (node.capCNodeRadix + node.capCNodeGuardSize) := by omega
    rw [if_neg hdepth, if_neg hrest, hindex, drop_lowBits, hsub, length_lowBits]
    by_cases hend : nBits ≤ node.capCNodeRadix + node.capCNodeGuardSize
    · have hnil : lowBits capptr (nBits - (node.capCNodeRadix + node.capCNodeGuardSize)) = [] := by
        rw [Nat.sub_eq_zero_of_le hend]
        rfl
      rw [if_pos hend, dif_pos hnil]
    · have hmore : lowBits capptr (nBits - (node.capCNodeRadix + node.capCNodeGuardSize)) ≠ [] := by
        refine List.ne_nil_of_length_pos ?_
        rw [length_lowBits]
        omega
      rw [if_neg hend, dif_neg hmore]
      split
      next next hcap =>
        split
        next next' hcap' =>
          cases hcap.symm.trans hcap'
          exact ih _ (by omega) (by omega)
        next hno => exact absurd hcap (hno next)
      next hno =>
        split
        next next hcap => exact absurd hcap (hno next)
        next => rfl

theorem resolveBits_ne_noReturn (hcs : cs.Resolving) (node : CNodeCap)
    (hnode : 0 < node.capCNodeRadix + node.capCNodeGuardSize) (bits : List Bool) :
    resolveBits hcs node hnode bits ≠ .noReturn := by
  fun_induction resolveBits hcs node hnode bits with
  | case4 _ _ _ _ _ _ _ _ _ _ _ _ _ ih => exact ih
  | _ => nofun

theorem resolveAddressBits_ne_noReturn (hcs : cs.Resolving) {root : Cap}
    (hroot : ∀ node, root = .cnode node → 0 < node.capCNodeRadix + node.capCNodeGuardSize)
    (capptr : Word) (hn : nBits ≤ wordBits) :
    resolveAddressBits cs root capptr nBits ≠ .noReturn := by
  cases root with
  | cnode node =>
    rw [resolveAddressBits, resolveLoop_eq hcs capptr (hroot node rfl) hn (Nat.lt_succ_self nBits)]
    exact resolveBits_ne_noReturn _ _ _ _
  | _ => nofun

/-- **Main result.** The resolution of an address at a CNode is the recursion over its bits. -/
theorem resolveAddressBits_eq (hcs : cs.Resolving) {root : CNodeCap}
    (hroot : 0 < root.capCNodeRadix + root.capCNodeGuardSize) (capptr : Word) {nBits : Nat}
    (hn : nBits ≤ wordBits) :
    resolveAddressBits cs (.cnode root) capptr nBits =
      resolveBits hcs root hroot (lowBits capptr nBits) :=
  resolveLoop_eq hcs capptr hroot hn (Nat.lt_succ_self nBits)

def CSpace.empty : CSpace := { cap := fun _ => .null, mdb := fun _ => nullMDBNode }

/-- The slot 4 of the CNode at 7 has a capability to the CNode at 8, whose guard is 1 and whose
slot 1 has a capability to the reply object 9. -/
def twoLevels : CSpace :=
  (CSpace.empty.setCap { base := 7, index := 4 } (.cnode ⟨1, 1, 1, 8⟩)).setCap
    { base := 8, index := 1 } (.replyObject 9 true)

theorem twoLevels_cnode {slot : Slot} (h : twoLevels.cap slot = .cnode node) :
    node = ⟨1, 1, 1, 8⟩ := by
  unfold twoLevels CSpace.setCap at h
  dsimp only at h
  rw [Function.update_apply, Function.update_apply] at h
  split at h
  · cases h
  · split at h <;> cases h
    rfl

theorem resolving_twoLevels : twoLevels.Resolving := by
  intro slot node h
  rw [twoLevels_cnode h]
  decide

/-- The address 0x53 of 8 bits at a CNode with the guard 01 and 16 slots, and then at the CNode in
the slot 0100. -/
theorem resolveAddressBits_twoLevels :
    resolveAddressBits twoLevels (.cnode ⟨4, 2, 1, 7⟩) 0x53 8 = .found ⟨8, 1⟩ 0 ∧
      resolveAddressBits twoLevels (.cnode ⟨4, 2, 1, 7⟩) 0x53 8 =
        resolveBits resolving_twoLevels ⟨4, 2, 1, 7⟩ (by decide) (lowBits (0x53 : Word) 8) :=
  ⟨by decide, resolveAddressBits_eq resolving_twoLevels (by decide) 0x53 (by decide)⟩

end SeL4Kernel
