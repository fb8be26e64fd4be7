import Mathlib.Data.List.Chain
import SeL4Kernel.Object.Authority

/-!
# Moving capabilities renames slots

Moving a capability, swapping two and rotating three change the places of capabilities
and nothing else: the mapping database afterwards is the old one with its slots renamed
by a permutation (`Permuted`). Every list keeps its length and its order, each node takes
its flags along, and the capabilities of the other slots stay as they were.

`cteSwap` gets there although it changes the neighbours of the first slot before it reads
the node of the second, which may be one of them (`relabelled_cteSwap`). `CNodeRotate`
is a swap when source and destination agree, and two moves otherwise.
-/

namespace SeL4Kernel

open Function

/-- The slots `l` are one whole list of the mapping database, from its first node to its
last. -/
def IsMdbList (cs : CSpace) (l : List Slot) : Prop :=
  l.IsChain (fun a b => cs.next a = some b) ∧ (∀ s ∈ l.head?, cs.prev s = none) ∧
    ∀ s ∈ l.getLast?, cs.next s = none

/-- The slots are renamed by `e`, and hold `caps`. -/
structure Permuted (e : Slot ≃ Slot) (caps : Slot → Cap) (cs cs' : CSpace) : Prop where
  inv : MdbInv cs'
  nodes : Relabelled e cs cs'
  lists : ∀ l, IsMdbList cs l ↔ IsMdbList cs' (l.map e)
  caps : cs'.cap = caps

namespace Relabelled

variable {e e' : Slot ≃ Slot} {cs cs₁ cs' : CSpace} (h : Relabelled e cs cs')

include h

theorem next_eq (a b : Slot) : cs'.next (e a) = some (e b) ↔ cs.next a = some b := by
  rw [h.next]
  constructor
  · intro hab
    obtain ⟨c, hc, hcb⟩ := Option.map_eq_some_iff.mp hab
    rw [hc, e.injective hcb]
  · intro hab
    rw [hab]
    rfl

omit h

theorem trans (h : Relabelled e cs cs₁) (h' : Relabelled e' cs₁ cs') :
    Relabelled (e.trans e') cs cs' := by
  intro s
  rw [Equiv.trans_apply, h' (e s), h s]
  simp [MdbNode.relabel, Option.map_map]

/-- Renaming the slots renames the lists. -/
theorem isMdbList (h : Relabelled e cs cs') (l : List Slot) :
    IsMdbList cs l ↔ IsMdbList cs' (l.map e) := by
  have hchain : (l.map e).IsChain (fun a b => cs'.next a = some b) ↔
      l.IsChain fun a b => cs.next a = some b := by
    rw [List.isChain_map]
    simp only [h.next_eq]
  have hhead : (∀ s ∈ (l.map e).head?, cs'.prev s = none) ↔ ∀ s ∈ l.head?, cs.prev s = none := by
    rw [List.head?_map]
    cases l.head? with
    | none => simp
    | some s => simp [h.prev]
  have hlast : (∀ s ∈ (l.map e).getLast?, cs'.next s = none) ↔
      ∀ s ∈ l.getLast?, cs.next s = none := by
    rw [List.getLast?_map]
    cases l.getLast? with
    | none => simp
    | some s => simp [h.next]
  rw [IsMdbList, IsMdbList, hchain, hhead, hlast]

end Relabelled

section Operations

variable {cs : CSpace} {newCap cap1 cap2 : Cap} {src dest slot1 slot2 slot3 : Slot}

theorem permuted_cteMove (h : MdbInv cs) (hdest : cs.cap dest = .null)
    (hsrc : cs.cap src ≠ .null) (hnew : newCap ≠ .null) :
    Permuted (Equiv.swap src dest)
      (update (update cs.cap dest newCap) src .null) cs
      (cteMove newCap src dest cs) := by
  have hne : src ≠ dest := by
    rintro rfl
    exact hsrc hdest
  have hnodes := @relabelled_cteMove cs newCap src dest h hdest hne
  exact ⟨mdbInv_cteMove h hdest hsrc hnew, hnodes, hnodes.isMdbList, cap_cteMove _ _ _ _⟩

theorem permuted_cteSwap (h : MdbInv cs) (hne : slot1 ≠ slot2)
    (h1 : cap1 = .null ↔ cs.cap slot1 = .null) (h2 : cap2 = .null ↔ cs.cap slot2 = .null) :
    Permuted (Equiv.swap slot1 slot2)
      (update (update cs.cap slot1 cap2) slot2 cap1) cs
      (cteSwap cap1 slot1 cap2 slot2 cs) := by
  have hnodes := @relabelled_cteSwap cs cap1 cap2 slot1 slot2 h.linked hne
  exact ⟨mdbInv_cteSwap h hne h1 h2, hnodes, hnodes.isMdbList, cap_cteSwap _ _ _ _ _⟩

/-- The permutation of a rotation: the pivot goes to the destination and the source to
the pivot. -/
def rotation (slot1 slot2 slot3 : Slot) : Slot ≃ Slot :=
  if slot1 = slot3 then Equiv.swap slot1 slot2
  else (Equiv.swap slot2 slot3).trans (Equiv.swap slot1 slot2)

/-- The capabilities after a rotation. -/
def rotatedCaps (cap1 cap2 : Cap) (slot1 slot2 slot3 : Slot) (caps : Slot → Cap) : Slot → Cap :=
  update (update (update caps slot1 .null) slot2 cap1) slot3 cap2

theorem permuted_invokeCNodeRotate (h : MdbInv cs) (h21 : slot2 ≠ slot1) (h23 : slot2 ≠ slot3)
    (h3 : slot1 ≠ slot3 → cs.cap slot3 = .null) (hcap1 : cs.cap slot1 ≠ .null)
    (hcap2 : cs.cap slot2 ≠ .null) (hnew1 : cap1 ≠ .null) (hnew2 : cap2 ≠ .null) :
    Permuted (rotation slot1 slot2 slot3) (rotatedCaps cap1 cap2 slot1 slot2 slot3 cs.cap) cs
      (invokeCNodeRotate cap1 cap2 slot1 slot2 slot3 cs) := by
  rw [invokeCNodeRotate, rotation]
  by_cases h13 : slot1 = slot3
  · subst h13
    rw [if_pos rfl, if_pos rfl]
    have hswap := permuted_cteSwap h h21.symm (iff_of_false hnew1 hcap1)
      (iff_of_false hnew2 hcap2)
    refine ⟨hswap.inv, hswap.nodes, hswap.lists, ?_⟩
    rw [hswap.caps]
    funext s
    simp only [rotatedCaps, update_apply]
    split <;> split <;> simp_all
  · rw [if_neg h13, if_neg h13]
    have h12 := h21.symm
    have hfirst := permuted_cteMove h (h3 h13) hcap2 hnew2
    -- the source is where it was, and the pivot is free
    have hsrc : (cteMove cap2 slot2 slot3 cs).cap slot1 ≠ .null := by
      rw [hfirst.caps, update_of_ne h21.symm, update_of_ne h13]
      exact hcap1
    have hfree : (cteMove cap2 slot2 slot3 cs).cap slot2 = .null := by rw [hfirst.caps, update_self]
    have hsecond := permuted_cteMove hfirst.inv hfree hsrc hnew1
    have hnodes := hfirst.nodes.trans hsecond.nodes
    refine ⟨hsecond.inv, hnodes, hnodes.isMdbList, ?_⟩
    rw [hsecond.caps, hfirst.caps]
    funext s
    simp only [rotatedCaps, update_apply]
    split <;> split <;> simp_all

end Operations

/-! ### What is decoded -/

/-- The slots of an operation that `decodeCNodeInvocation` lets through. -/
def CNodeOp.Accepted (cs : CSpace) : CNodeOp → Prop
  | .move newCap src dest => cs.cap dest = .null ∧ cs.cap src ≠ .null ∧ newCap ≠ .null
  | .rotate cap1 cap2 slot1 slot2 slot3 =>
    slot2 ≠ slot1 ∧ slot2 ≠ slot3 ∧ (slot1 ≠ slot3 → cs.cap slot3 = .null) ∧
      cs.cap slot1 ≠ .null ∧ cs.cap slot2 ≠ .null ∧ cap1 ≠ .null ∧ cap2 ≠ .null
  | .saveCaller dest => cs.cap dest = .null
  | _ => True

section Decoded

variable {cfg : Config} {s : Kernel} {label : CNodeLabel} {cap : Cap} {m : Message}

theorem decodeCNodeCopy_accepted {dest : Slot} {op : CNodeOp}
    (h : decodeCNodeCopy cfg label dest m s = pure op) : op.Accepted s.cspace := by
  obtain ⟨src, newCap, isMove, hdest, hsrc, -, hne, rfl⟩ := decodeCNodeCopy_cases h
  cases isMove with
  | true => exact ⟨hdest, hsrc, hne⟩
  | false => trivial

theorem decodeCNodeInvocation_accepted {op : CNodeOp}
    (h : decodeCNodeInvocation cfg label cap m s = pure op) : op.Accepted s.cspace := by
  rw [decodeCNodeInvocation] at h
  split at h
  · cases h
  split at h
  · cases h
  obtain ⟨dest, -, h⟩ := decode_bind_eq.1 h
  cases label with
  | copy => exact decodeCNodeCopy_accepted h
  | mint => exact decodeCNodeCopy_accepted h
  | move => exact decodeCNodeCopy_accepted h
  | mutate => exact decodeCNodeCopy_accepted h
  | rotate =>
    obtain ⟨src, pivot, data1, data2, hps, hpd, hdest, hsrc, hp, hnew1, hnew2, rfl⟩ :=
      decodeCNodeRotate_cases h
    exact ⟨hps, hpd, hdest, hsrc, hp, hnew1, hnew2⟩
  | revoke => cases h; trivial
  | delete => cases h; trivial
  | saveCaller =>
    dsimp only at h
    split at h
    · cases h
    rename_i hempty
    cases h
    rw [ensureEmptySlot] at hempty
    simpa [CNodeOp.Accepted] using hempty
  | cancelBadgedSends =>
    dsimp only at h
    split at h
    · cases h; trivial
    · cases h

/-- **Main result.** On a well-formed mapping database, what `decodeCNodeInvocation`
lets through to `cteMove` and `invokeCNodeRotate` renames the slots, and so does the
exchange of any two slots, neighbours or empty ones included. -/
theorem slots_permuted (hinv : MdbInv s.cspace) :
    (∀ newCap src dest, decodeCNodeInvocation cfg label cap m s = pure (.move newCap src dest) →
      Permuted (Equiv.swap src dest)
        (update (update s.cspace.cap dest newCap) src .null) s.cspace
        (cteMove newCap src dest s.cspace)) ∧
    (∀ cap1 cap2 slot1 slot2 slot3,
      decodeCNodeInvocation cfg label cap m s = pure (.rotate cap1 cap2 slot1 slot2 slot3) →
      Permuted (rotation slot1 slot2 slot3) (rotatedCaps cap1 cap2 slot1 slot2 slot3 s.cspace.cap)
        s.cspace (invokeCNodeRotate cap1 cap2 slot1 slot2 slot3 s.cspace)) ∧
    (∀ thread dest, decodeCNodeInvocation cfg label cap m s = pure (.saveCaller dest) →
      invokeCNodeSaveCaller thread dest s.cspace = s.cspace ∨
      Permuted (Equiv.swap (tcbSlot thread tcbCaller) dest)
        (update (update s.cspace.cap dest
          (s.cspace.cap (tcbSlot thread tcbCaller))) (tcbSlot thread tcbCaller) .null)
        s.cspace (invokeCNodeSaveCaller thread dest s.cspace)) ∧
    ∀ slot1 slot2, slot1 ≠ slot2 →
      Permuted (Equiv.swap slot1 slot2)
        (update (update s.cspace.cap slot1 (s.cspace.cap slot2)) slot2
          (s.cspace.cap slot1)) s.cspace (capSwapForDelete slot1 slot2 s.cspace) := by
  refine ⟨fun newCap src dest h => ?_, fun cap1 cap2 slot1 slot2 slot3 h => ?_,
    fun thread dest h => ?_, fun slot1 slot2 hne => ?_⟩
  · obtain ⟨hdest, hsrc, hnew⟩ := decodeCNodeInvocation_accepted h
    exact permuted_cteMove hinv hdest hsrc hnew
  · obtain ⟨h21, h23, h3, hcap1, hcap2, hnew1, hnew2⟩ := decodeCNodeInvocation_accepted h
    exact permuted_invokeCNodeRotate hinv h21 h23 h3 hcap1 hcap2 hnew1 hnew2
  · have hdest : s.cspace.cap dest = .null := decodeCNodeInvocation_accepted h
    rw [invokeCNodeSaveCaller]
    split
    next canGrant tcb hcap =>
      right
      rw [hcap]
      refine permuted_cteMove hinv hdest ?_ (by simp)
      rw [hcap]
      simp
    next => exact .inl rfl
  · rw [capSwapForDelete, if_neg hne]
    exact permuted_cteSwap hinv hne Iff.rfl Iff.rfl

end Decoded

theorem mdbInv_capState : MdbInv capState.cspace := by
  have hnode : ∀ slot, capState.cspace.mdb slot = nullMDBNode := fun _ => rfl
  refine ⟨⟨fun a b => ?_, fun _ => 0, fun a b hab => ?_⟩, fun slot _ => hnode slot⟩
  · rw [CSpace.next, CSpace.prev, hnode, hnode]
    simp [nullMDBNode]
  · cases hab

/-- The endpoint capability of `capState` with a badged copy behind it. -/
def badgedState : Kernel :=
  { capState with
    cspace := cteInsert (.endpoint { serverEndpoint with capEPBadge := 7 })
      { base := 50, index := 1 } { base := 50, index := 2 } capState.cspace }

theorem mdbInv_badgedState : MdbInv badgedState.cspace :=
  mdbInv_cteInsert mdbInv_capState (by decide +kernel) (by decide +kernel) (by simp)

/-- The copy moves to a free slot, and the two neighbours change places. -/
theorem neighbours_permuted :
    decodeCNodeInvocation tickConfig .move (badgedState.cap (tcbSlot 1 tcbCTable))
        (capMessage 3 2 []) badgedState =
      pure (.move (.endpoint { serverEndpoint with capEPBadge := 7 })
        { base := 50, index := 2 } { base := 50, index := 3 }) ∧
    (cteMove (.endpoint { serverEndpoint with capEPBadge := 7 }) { base := 50, index := 2 }
      { base := 50, index := 3 } badgedState.cspace).next { base := 50, index := 1 } =
        some { base := 50, index := 3 } ∧
    IsMdbList (capSwapForDelete { base := 50, index := 1 } { base := 50, index := 2 }
      badgedState.cspace) [{ base := 50, index := 2 }, { base := 50, index := 1 }] := by
  have hdecode : decodeCNodeInvocation tickConfig .move (badgedState.cap (tcbSlot 1 tcbCTable))
      (capMessage 3 2 []) badgedState =
        pure (.move (.endpoint { serverEndpoint with capEPBadge := 7 })
          { base := 50, index := 2 } { base := 50, index := 3 }) := by
    rfl
  obtain ⟨hmove, -, -, hswap⟩ := @slots_permuted tickConfig badgedState .move
    (badgedState.cap (tcbSlot 1 tcbCTable)) (capMessage 3 2 []) mdbInv_badgedState
  have hlist : IsMdbList badgedState.cspace
      [{ base := 50, index := 1 }, { base := 50, index := 2 }] := by
    refine ⟨List.isChain_pair.mpr (by decide +kernel), ?_, ?_⟩
    · intro s hs
      cases hs
      decide +kernel
    · intro s hs
      cases hs
      decide +kernel
  refine ⟨hdecode, ?_, ?_⟩
  · have hnext := (hmove _ _ _ hdecode).nodes.next { base := 50, index := 1 }
    have hold : badgedState.cspace.next { base := 50, index := 1 } =
        some { base := 50, index := 2 } := by decide +kernel
    rw [hold, Equiv.swap_apply_of_ne_of_ne (by decide) (by decide)] at hnext
    simpa using hnext
  · have hrenamed := ((hswap { base := 50, index := 1 } { base := 50, index := 2 }
      (by decide)).lists _).mp hlist
    simpa using hrenamed

end SeL4Kernel
