import Mathlib.Tactic.Ring
import SeL4Kernel.Lib.Round
import SeL4Kernel.Object.Authority
import SeL4Kernel.Object.Untyped

/-!
# Where a retype puts its objects

`decodeUntypedInvocation` compares the number of objects with the free bytes of the
untyped as they are, and aligns the start of the first object afterwards. The objects
still fit: the end of the untyped is aligned to the size of any object that is not larger
than the untyped, so that the run of objects can be packed against it (`Placement`).

The end of the last object can be the end of the address space. It is then computed as
zero, and the free index is right all the same.
-/

namespace SeL4Kernel

open Function

/-! ### Aligned runs -/

/-- The start of a run of `n` objects of `2 ^ bits` bytes in `[start, last)`. -/
structure Placement (start last bits n addr : Nat) : Prop where
  aligned : 2 ^ bits ∣ addr
  start_le : start ≤ addr
  le_last : addr + n * 2 ^ bits ≤ last

variable {x size start ptr userObjSize : Nat} {cfg : Config} {s : Kernel} {m : Message}
  {slot : Slot} {c : UntypedCap} {op : RetypeOp} {t : ObjectType}

/-- **A run that fits unaligned fits aligned**, when the end is aligned. -/
theorem placement_alignUp {last bits n : Nat} (hn : 0 < n) (hstart : start ≤ last)
    (hlast : 2 ^ bits ∣ last) (htop : last ≤ 2 ^ 64) (hfits : n ≤ (last - start) / 2 ^ bits) :
    start + mask bits < 2 ^ 64 ∧ Placement start last bits n (alignUp start bits) := by
  have hpos : 0 < 2 ^ bits := Nat.two_pow_pos bits
  have hroom : n * 2 ^ bits ≤ last - start := (Nat.le_div_iff_mul_le hpos).mp hfits
  have hone : 2 ^ bits ≤ n * 2 ^ bits := Nat.le_mul_of_pos_left _ hn
  have hmask : start + mask bits < 2 ^ 64 := by
    rw [mask]
    omega
  have heq : alignUp start bits = roundUp start (2 ^ bits) := by
    rw [alignUp, Nat.mod_eq_of_lt hmask, roundUp_eq_div hpos]
    rfl
  have hbound : 2 ^ bits ∣ last - n * 2 ^ bits := Nat.dvd_sub hlast (Nat.dvd_mul_left ..)
  have hle := roundUp_le hpos (show start ≤ last - n * 2 ^ bits by omega) hbound
  rw [heq]
  exact ⟨hmask, dvd_roundUp hpos, le_roundUp .., by omega⟩

/-- The free bytes, counted in words. -/
theorem free_bytes (hsize : size < 2 ^ 64) (hptr : ptr ≤ start) (hstart : start ≤ ptr + size) :
    (size + 2 ^ 64 - (start - ptr)) % 2 ^ 64 = ptr + size - start := by
  omega

/-- A difference of words, when the larger number can be the end of the address space. -/
theorem word_sub {e : Nat} (hptr : ptr ≤ e) (he : e ≤ ptr + size) (htop : ptr + size ≤ 2 ^ 64)
    (hsize : size < 2 ^ 64) : (e % 2 ^ 64 + 2 ^ 64 - ptr) % 2 ^ 64 = e - ptr := by
  omega

/-! ### Untyped capabilities -/

/-- The memory of the untyped is aligned, and its free index points into it. -/
structure UntypedCap.WellFormed (c : UntypedCap) : Prop where
  bits : c.capBlockSize < wordBits
  aligned : 2 ^ c.capBlockSize ∣ c.capPtr
  top : c.capPtr + 2 ^ c.capBlockSize ≤ 2 ^ 64
  free : c.capFreeIndex * 2 ^ minUntypedBits ≤ 2 ^ c.capBlockSize

/-- The first byte behind the untyped. -/
def UntypedCap.last (c : UntypedCap) : Nat := c.capPtr + 2 ^ c.capBlockSize

/-- The free index that a retype starts from. -/
def startIndex (cfg : Config) (slot : Slot) (c : UntypedCap) (s : Kernel) : Nat :=
  (retypeStart cfg slot c s).1

/-- The first byte that a retype may use. -/
def startRef (cfg : Config) (slot : Slot) (c : UntypedCap) (s : Kernel) : Nat :=
  c.capPtr + if ensureNoChildren cfg s.cspace slot then 0 else c.capFreeIndex * 2 ^ minUntypedBits

theorem UntypedCap.WellFormed.size_lt (h : c.WellFormed) : 2 ^ c.capBlockSize < 2 ^ 64 :=
  Nat.pow_lt_pow_right (by omega) h.bits

theorem UntypedCap.WellFormed.offset_eq (h : c.WellFormed) :
    freeIndexToOffset (startIndex cfg slot c s) = startRef cfg slot c s - c.capPtr ∧
      c.capPtr ≤ startRef cfg slot c s ∧ startRef cfg slot c s ≤ c.last := by
  have hfree := h.free
  have hsize := h.size_lt
  rw [startIndex, retypeStart, startRef, UntypedCap.last, freeIndexToOffset]
  by_cases hchildren : ensureNoChildren cfg s.cspace slot = true
  · rw [if_pos hchildren, if_pos hchildren]
    simp
  · rw [if_neg hchildren, if_neg hchildren]
    dsimp only
    rw [Nat.mod_eq_of_lt (by omega)]
    exact ⟨(Nat.add_sub_cancel_left ..).symm, Nat.le_add_right .., Nat.add_le_add_left hfree _⟩

/-! ### Decoding -/

/-- What `decodeUntypedInvocation` has checked. -/
structure RetypeOp.Accepted (cfg : Config) (m : Message) (slot : Slot) (c : UntypedCap)
    (s : Kernel) (op : RetypeOp) : Prop where
  newType : (objectTypes cfg)[(m.arg 0).toNat]? = some op.newType
  userSize : op.userSize = (m.arg 1).toNat
  min_le : minUntypedBits ≤ getObjectSize cfg op.newType op.userSize
  length_pos : 0 < op.destLength
  destLength : op.destLength = (m.arg 5).toNat
  empty : ∀ i < op.destLength,
    s.cap { base := op.destCNode, index := op.destOffset + i } = .null
  reset : op.reset = ensureNoChildren cfg s.cspace slot
  fits : op.destLength ≤
    (2 ^ c.capBlockSize + 2 ^ 64 - freeIndexToOffset (startIndex cfg slot c s)) % 2 ^ 64 /
      2 ^ getObjectSize cfg op.newType op.userSize
  base : op.retypeBase = alignUp (getFreeRef c.capPtr (startIndex cfg slot c s))
    (getObjectSize cfg op.newType op.userSize)

/-- Every object has at least the size of the smallest untyped. -/
theorem minUntypedBits_le (hsize : userObjSize < wordBits)
    (hut : ¬(t = .untyped ∧ userObjSize < minUntypedBits))
    (hsc : ¬(t = .schedContext ∧ userObjSize < minSchedContextBits)) :
    minUntypedBits ≤ getObjectSize cfg t userObjSize := by
  have hword : wordBits = 64 := rfl
  cases t with
  | untyped => simpa [getObjectSize] using hut
  | tcb => simp only [getObjectSize, tcbBits]; split <;> decide
  | endpoint => rw [getObjectSize]; decide
  | notification => simp only [getObjectSize, notificationBits]; split <;> decide
  | capTable =>
    rw [getObjectSize, Nat.mod_eq_of_lt (by rw [slotBits]; omega)]
    exact Nat.le_add_right_of_le (by decide)
  | schedContext =>
    have hmin : minSchedContextBits ≤ userObjSize := by simpa using hsc
    exact le_trans (by decide) hmin
  | reply => rw [getObjectSize]; decide
  | gigaPage => rw [getObjectSize]; decide
  | page4K => rw [getObjectSize]; decide
  | megaPage => rw [getObjectSize]; decide
  | pageTable => rw [getObjectSize]; decide

theorem checkNewType_eq {newType objectSize : Nat}
    (h : checkNewType cfg newType userObjSize = pure (t, objectSize)) :
    (objectTypes cfg)[newType]? = some t ∧ objectSize = getObjectSize cfg t userObjSize ∧
      minUntypedBits ≤ objectSize := by
  rw [checkNewType] at h
  split at h
  · cases h
  rename_i t' ht
  dsimp only at h
  split at h
  · cases h
  rename_i hrange
  split at h
  · cases h
  split at h
  · cases h
  rename_i hut
  split at h
  · cases h
  next hsc =>
    cases h
    exact ⟨ht, rfl, minUntypedBits_le (by omega) hut hsc⟩

theorem checkWindow_eq {node : CNodeCap} {offset window : Nat}
    (h : checkWindow s node offset window = pure ()) :
    0 < window ∧ ∀ i < window, s.cap { base := node.capCNodePtr, index := offset + i } = .null := by
  rw [checkWindow] at h
  split at h
  · cases h
  split at h
  · cases h
  rename_i hwindow
  split at h
  · cases h
  split at h
  next hall =>
    refine ⟨by omega, fun i hi => ?_⟩
    have hslot := List.all_eq_true.mp hall i (List.mem_range.mpr hi)
    simpa [ensureEmptySlot, Kernel.cap] using hslot
  · cases h

theorem decodeUntypedInvocation_accepted (h : decodeUntypedInvocation cfg m slot c s = pure op) :
    op.Accepted cfg m slot c s := by
  rw [decodeUntypedInvocation] at h
  split at h
  · cases h
  rename_i root rest hroot
  split at h
  · cases h
  obtain ⟨⟨t, objectSize⟩, htype, h⟩ := decode_bind_eq.1 h
  obtain ⟨node, hnode, h⟩ := decode_bind_eq.1 h
  obtain ⟨⟨⟩, hwindow, h⟩ := decode_bind_eq.1 h
  obtain ⟨hnew, rfl, hmin⟩ := checkNewType_eq htype
  obtain ⟨hpos, hempty⟩ := checkWindow_eq hwindow
  dsimp only at h
  split at h
  · cases h
  rename_i hfits
  split at h
  · cases h
  cases h
  refine ⟨hnew, rfl, hmin, hpos, rfl, hempty, ?_, not_lt.mp hfits, rfl⟩
  simp only [retypeStart]
  split <;> simp_all

/-! ### Placement -/

/-- The size of the objects in bits. -/
abbrev RetypeOp.objectSize (cfg : Config) (op : RetypeOp) : Nat :=
  getObjectSize cfg op.newType op.userSize

/-- The slot for the capability of object `i`. -/
def RetypeOp.dest (op : RetypeOp) (i : Nat) : Slot :=
  { base := op.destCNode, index := op.destOffset + i }

theorem RetypeOp.dest_injective : Function.Injective op.dest := by
  intro i j h
  have hindex := congrArg Slot.index h
  simp only [RetypeOp.dest] at hindex
  omega

variable (h : op.Accepted cfg m slot c s)

namespace RetypeOp.Accepted

include h

variable (hc : c.WellFormed)

include hc

/-- The test of `decodeUntypedInvocation`, with the free bytes as a difference. -/
theorem fits_free : op.destLength ≤ (c.last - startRef cfg slot c s) / 2 ^ op.objectSize cfg := by
  obtain ⟨hoffset, hptr, hlast⟩ := @UntypedCap.WellFormed.offset_eq cfg s slot c hc
  have hfits := h.fits
  rwa [hoffset, free_bytes hc.size_lt hptr hlast] at hfits

theorem room : 2 ^ op.objectSize cfg ≤ c.last - startRef cfg slot c s :=
  (Nat.one_le_div_iff (Nat.two_pow_pos _)).mp (le_trans h.length_pos (h.fits_free hc))

/-- An object is not larger than the untyped. -/
theorem objectSize_le : op.objectSize cfg ≤ c.capBlockSize := by
  obtain ⟨-, hptr, -⟩ := @UntypedCap.WellFormed.offset_eq cfg s slot c hc
  have hle : 2 ^ op.objectSize cfg ≤ 2 ^ c.capBlockSize :=
    calc 2 ^ op.objectSize cfg ≤ c.last - startRef cfg slot c s := h.room hc
      _ ≤ c.last - c.capPtr := Nat.sub_le_sub_left hptr _
      _ = 2 ^ c.capBlockSize := Nat.add_sub_cancel_left ..
  exact (Nat.pow_le_pow_iff_right (by omega)).mp hle

/-- Nothing wraps on the way to the first object. -/
theorem placement :
    getFreeRef c.capPtr (startIndex cfg slot c s) = startRef cfg slot c s ∧
      startRef cfg slot c s + mask (op.objectSize cfg) < 2 ^ 64 ∧
      Placement (startRef cfg slot c s) c.last (op.objectSize cfg) op.destLength op.retypeBase := by
  obtain ⟨hoffset, hptr, hlast⟩ := @UntypedCap.WellFormed.offset_eq cfg s slot c hc
  have hbits := h.objectSize_le hc
  have haligned : 2 ^ op.objectSize cfg ∣ c.last :=
    Nat.dvd_add (dvd_trans (pow_dvd_pow 2 hbits) hc.aligned) (pow_dvd_pow 2 hbits)
  have hlt : startRef cfg slot c s < 2 ^ 64 :=
    lt_of_lt_of_le
      (Nat.lt_of_sub_pos (lt_of_lt_of_le (Nat.two_pow_pos _) (h.room hc))) hc.top
  have href : getFreeRef c.capPtr (startIndex cfg slot c s) = startRef cfg slot c s := by
    rw [getFreeRef, hoffset, Nat.add_sub_cancel' hptr, Nat.mod_eq_of_lt hlt]
  obtain ⟨hmask, hplace⟩ := placement_alignUp h.length_pos hlast haligned hc.top (h.fits_free hc)
  refine ⟨href, hmask, ?_⟩
  rw [h.base, href]
  exact hplace

/-- The free index counts up to the end of the last object, also when that end is the end
of the address space. -/
theorem freeIndex_eq :
    c.capPtr + getFreeIndex c.capPtr (op.address cfg op.destLength % 2 ^ 64) *
      2 ^ minUntypedBits = op.address cfg op.destLength := by
  obtain ⟨-, -, haligned, hstart, hend⟩ := h.placement hc
  obtain ⟨-, hptr, -⟩ := @UntypedCap.WellFormed.offset_eq cfg s slot c hc
  have hbits := h.objectSize_le hc
  have hmin : 2 ^ minUntypedBits ∣ 2 ^ op.objectSize cfg := pow_dvd_pow 2 h.min_le
  have hle : c.capPtr ≤ op.address cfg op.destLength :=
    le_trans (le_trans hptr hstart) (Nat.le_add_right ..)
  have hdvd : 2 ^ minUntypedBits ∣ op.address cfg op.destLength - c.capPtr :=
    Nat.dvd_sub
      (dvd_trans hmin (Nat.dvd_add haligned (Nat.dvd_mul_left ..)))
      (dvd_trans hmin (dvd_trans (pow_dvd_pow 2 hbits) hc.aligned))
  have hsub := word_sub hle hend hc.top hc.size_lt
  rw [getFreeIndex, offsetToFreeIndex, hsub, Nat.div_mul_cancel hdvd, Nat.add_sub_cancel' hle]

end RetypeOp.Accepted

/-! ### The new capabilities -/

theorem cap_createNewObject (parent : Slot) (i : Nat) :
    (createNewObject cfg op parent s i).cap = update s.cap (op.dest i)
      (newObjectCap op.newType (op.address cfg i) op.userSize op.deviceMemory) := by
  have hinit : (initObject cfg op.newType (op.address cfg i) s).cspace = s.cspace := by
    cases op.newType <;> rfl
  rw [createNewObject, hinit]
  exact cap_insertNewCap ..

/-- What is in the slots after `n` rounds of `createNewObjects`. -/
theorem cap_createNewObjects (parent : Slot) (s : Kernel) (n : Nat) :
    (∀ i < n, ((List.range n).foldl (createNewObject cfg op parent) s).cap (op.dest i) =
      newObjectCap op.newType (op.address cfg i) op.userSize op.deviceMemory) ∧
    ∀ slot, (∀ i < n, slot ≠ op.dest i) →
      ((List.range n).foldl (createNewObject cfg op parent) s).cap slot = s.cap slot := by
  induction n with
  | zero => exact ⟨fun i hi => absurd hi (by omega), fun slot _ => rfl⟩
  | succ n ih =>
    obtain ⟨hnew, hold⟩ := ih
    rw [List.range_succ, List.foldl_append, List.foldl_cons, List.foldl_nil, cap_createNewObject]
    constructor
    · intro i hi
      rcases Nat.lt_succ_iff_lt_or_eq.mp hi with hlt | rfl
      · rw [update_of_ne (op.dest_injective.ne (by omega)), hnew i hlt]
      · rw [update_self]
    · intro slot hslot
      rw [update_of_ne (hslot n (by omega)), hold slot fun i hi => hslot i (by omega)]

include h in
/-- The capabilities after a retype: the untyped counts up to the end of the last object,
and every object has its capability. -/
theorem cap_retypeObjects (hcap : s.cap slot = .untyped c) (k : Kernel) :
    (retypeObjects cfg op slot c k).cap slot =
        .untyped { c with
          capFreeIndex := getFreeIndex c.capPtr (op.address cfg op.destLength % 2 ^ 64) } ∧
      ∀ i < op.destLength, (retypeObjects cfg op slot c k).cap (op.dest i) =
        newObjectCap op.newType (op.address cfg i) op.userSize op.deviceMemory := by
  have hslot : ∀ i < op.destLength, slot ≠ op.dest i := by
    rintro i hi rfl
    have hnull := h.empty i hi
    rw [RetypeOp.dest] at hcap
    rw [hcap] at hnull
    cases hnull
  obtain ⟨hnew, hold⟩ := @cap_createNewObjects cfg op slot
    { k with
      cspace := (k.cspace.setCap slot (.untyped { c with
        capFreeIndex := getFreeIndex c.capPtr (op.address cfg op.destLength % 2 ^ 64) })) }
    op.destLength
  refine ⟨?_, hnew⟩
  refine (hold slot hslot).trans ?_
  exact update_self ..

/-- A retype that returns has reset the untyped before, if it has to. -/
theorem invokeUntypedRetype_none {w w' : Work}
    (h : invokeUntypedRetype cfg op slot c w = (.none, w')) :
    ∃ k, w'.kernel = retypeObjects cfg op slot c k := by
  rw [invokeUntypedRetype] at h
  generalize (if op.reset then resetUntypedCap slot c w else (.none, w)) = r at h
  obtain ⟨status, w1⟩ := r
  cases status with
  | none =>
    cases h
    exact ⟨w1.kernel, rfl⟩
  | preempted => cases h

/-! ### Refusals -/

variable {left : Nat}

section Refusal

variable {α β : Type} {f : α → Decode β}

/-- The computation does not fail for want of memory. -/
def HasMemory (x : Decode α) : Prop := ∀ left, x ≠ syscallError (.notEnoughMemory left)

theorem HasMemory.bind {x : Decode α} (hx : HasMemory x)
    (h : x >>= f = syscallError (.notEnoughMemory left)) :
    ∃ a, x = pure a ∧ f a = syscallError (.notEnoughMemory left) := by
  match x, hx, h with
  | .ok (.ok a), _, h => exact ⟨a, rfl, h⟩
  | .ok (.error e), hx, h =>
    cases h
    exact absurd rfl (hx left)
  | .error e, _, h => cases h

theorem hasMemory_bind {x : Decode α} (hx : HasMemory x) (hf : ∀ a, HasMemory (f a)) :
    HasMemory (x >>= f) := by
  intro left h
  obtain ⟨a, -, ha⟩ := hx.bind h
  exact hf a left ha

theorem hasMemory_pure (a : α) : HasMemory (pure a) := by
  intro left h
  cases h

theorem hasMemory_lookupError (isSource : Bool) (luf : LookupFault) :
    HasMemory (lookupError isSource luf : Decode α) := by
  intro left h
  cases h

end Refusal

theorem hasMemory_checkNewType (newType userObjSize : Nat) :
    HasMemory (checkNewType cfg newType userObjSize) := by
  intro left h
  rw [checkNewType] at h
  split at h
  · cases h
  · dsimp only at h
    repeat' split at h
    all_goals cases h

theorem hasMemory_checkWindow (node : CNodeCap) (nodeOffset nodeWindow : Nat) :
    HasMemory (checkWindow s node nodeOffset nodeWindow) := by
  intro left h
  rw [checkWindow] at h
  repeat' split at h
  all_goals cases h

theorem hasMemory_lookupSlotForCNodeOp (root : Cap) (capptr : Word) (depth : Nat) :
    HasMemory (lookupSlotForCNodeOp false s root capptr depth) := by
  intro left h
  rw [lookupSlotForCNodeOp.eq_def] at h
  repeat' split at h
  all_goals cases h

theorem hasMemory_retypeNode (root : Slot) (nodeIndex : Word) (nodeDepth : Nat) :
    HasMemory (retypeNode s root nodeIndex nodeDepth) := by
  rw [retypeNode]
  split
  · refine hasMemory_bind (hasMemory_pure _) fun nodeCap => ?_
    dsimp only
    split
    · exact hasMemory_pure _
    · exact hasMemory_lookupError _ _
  · refine hasMemory_bind (hasMemory_lookupSlotForCNodeOp _ _ _) fun _ =>
      hasMemory_bind (hasMemory_pure _) fun nodeCap => ?_
    dsimp only
    split
    · exact hasMemory_pure _
    · exact hasMemory_lookupError _ _

/-- **A request is refused for want of memory only if the objects do not fit.** -/
theorem decodeUntypedInvocation_notEnoughMemory (hc : c.WellFormed)
    (h : decodeUntypedInvocation cfg m slot c s = syscallError (.notEnoughMemory left)) :
    ∃ t, (objectTypes cfg)[(m.arg 0).toNat]? = some t ∧
      left = c.last - startRef cfg slot c s ∧
      ∀ addr, ¬Placement (startRef cfg slot c s) c.last (getObjectSize cfg t (m.arg 1).toNat)
        (m.arg 5).toNat addr := by
  obtain ⟨hoffset, hptr, hlast⟩ := @UntypedCap.WellFormed.offset_eq cfg s slot c hc
  rw [decodeUntypedInvocation] at h
  split at h
  · cases h
  split at h
  · cases h
  obtain ⟨⟨t, objectSize⟩, htype, h⟩ := (hasMemory_checkNewType _ _).bind h
  obtain ⟨node, -, h⟩ := (hasMemory_retypeNode _ _ _).bind h
  obtain ⟨⟨⟩, -, h⟩ := (hasMemory_checkWindow _ _ _).bind h
  obtain ⟨hnew, rfl, -⟩ := checkNewType_eq htype
  have hbytes : (2 ^ c.capBlockSize + 2 ^ 64 - freeIndexToOffset (retypeStart cfg slot c s).1) %
      2 ^ 64 = c.last - startRef cfg slot c s := by
    rw [← startIndex, hoffset]
    exact free_bytes hc.size_lt hptr hlast
  dsimp only at h
  rw [hbytes] at h
  split at h
  next hlt =>
    cases h
    refine ⟨t, hnew, rfl, fun addr hplace => ?_⟩
    have hroom : (m.arg 5).toNat * 2 ^ getObjectSize cfg t (m.arg 1).toNat ≤
        c.last - startRef cfg slot c s :=
      Nat.le_sub_of_add_le (by
        rw [Nat.add_comm]
        exact le_trans (Nat.add_le_add_right hplace.start_le _) hplace.le_last)
    exact absurd ((Nat.le_div_iff_mul_le (Nat.two_pow_pos _)).mpr hroom) (not_le.mpr hlt)
  · split at h <;> cases h

/-! ### Retype placement -/

/-- **Main result.** The objects of an accepted retype are aligned, lie in the free part of
the untyped and are disjoint, and the free index is the end of the last one; a request is
refused for want of memory only if the objects do not fit. No address wraps but that end,
which can be the end of the address space. -/
theorem retype_placed (hcap : s.cap slot = .untyped c) (hc : c.WellFormed) :
    (∀ op, decodeUntypedInvocation cfg m slot c s = pure op →
      (∀ i < op.destLength, 2 ^ op.objectSize cfg ∣ op.address cfg i ∧
        startRef cfg slot c s ≤ op.address cfg i ∧
        op.address cfg i + 2 ^ op.objectSize cfg ≤ c.capPtr + 2 ^ c.capBlockSize ∧
        op.address cfg i < 2 ^ 64) ∧
      (∀ i j, i < j → j < op.destLength →
        op.address cfg i + 2 ^ op.objectSize cfg ≤ op.address cfg j) ∧
      getFreeRef c.capPtr (startIndex cfg slot c s) = startRef cfg slot c s ∧
      startRef cfg slot c s + mask (op.objectSize cfg) < 2 ^ 64 ∧
      op.destLength * 2 ^ op.objectSize cfg < 2 ^ 64 ∧
      op.address cfg op.destLength ≤ 2 ^ 64 ∧
      ∀ w w', invokeUntypedRetype cfg op slot c w = (.none, w') →
        (∀ i < op.destLength, w'.kernel.cap (op.dest i) =
          newObjectCap op.newType (op.address cfg i) op.userSize op.deviceMemory) ∧
        ∃ freeIndex, w'.kernel.cap slot = .untyped { c with capFreeIndex := freeIndex } ∧
          c.capPtr + freeIndex * 2 ^ minUntypedBits = op.address cfg op.destLength) ∧
    ∀ left, decodeUntypedInvocation cfg m slot c s = syscallError (.notEnoughMemory left) →
      ∃ t, (objectTypes cfg)[(m.arg 0).toNat]? = some t ∧
        ∀ addr, ¬Placement (startRef cfg slot c s) (c.capPtr + 2 ^ c.capBlockSize)
          (getObjectSize cfg t (m.arg 1).toNat) (m.arg 5).toNat addr := by
  refine ⟨fun op hdecode => ?_, fun left hdecode => ?_⟩
  · have h := decodeUntypedInvocation_accepted hdecode
    obtain ⟨href, hmask, haligned, hstart, hend⟩ := h.placement hc
    have hnext : ∀ i j, i < j → op.address cfg i + 2 ^ op.objectSize cfg ≤ op.address cfg j := by
      intro i j hij
      calc op.address cfg i + 2 ^ op.objectSize cfg
          = op.retypeBase + (i + 1) * 2 ^ op.objectSize cfg := by
            rw [RetypeOp.address]
            ring
        _ ≤ op.address cfg j := Nat.add_le_add_left (Nat.mul_le_mul_right _ hij) _
    have hin : ∀ i < op.destLength,
        op.address cfg i + 2 ^ op.objectSize cfg ≤ c.capPtr + 2 ^ c.capBlockSize :=
      fun i hi => le_trans (hnext i _ hi) hend
    refine ⟨fun i hi => ⟨?_, ?_, hin i hi, ?_⟩, fun i j hij _ => hnext i j hij, href, hmask, ?_,
      le_trans hend hc.top, fun w w' hinvoke => ?_⟩
    · exact Nat.dvd_add haligned (Nat.dvd_mul_left ..)
    · exact le_trans hstart (Nat.le_add_right ..)
    · exact lt_of_lt_of_le (Nat.lt_add_of_pos_right (Nat.two_pow_pos _))
        (le_trans (hin i hi) hc.top)
    · have hmul := (Nat.le_div_iff_mul_le (Nat.two_pow_pos _)).mp (h.fits_free hc)
      obtain ⟨-, hptr, -⟩ := @UntypedCap.WellFormed.offset_eq cfg s slot c hc
      calc op.destLength * 2 ^ op.objectSize cfg ≤ c.last - startRef cfg slot c s := hmul
        _ ≤ c.last - c.capPtr := Nat.sub_le_sub_left hptr _
        _ = 2 ^ c.capBlockSize := Nat.add_sub_cancel_left ..
        _ < 2 ^ 64 := hc.size_lt
    · obtain ⟨k, hk⟩ := invokeUntypedRetype_none hinvoke
      obtain ⟨hsrc, hnew⟩ := cap_retypeObjects h hcap k
      rw [hk]
      exact ⟨hnew, _, hsrc, h.freeIndex_eq hc⟩
  · obtain ⟨t, hnew, -, hno⟩ := decodeUntypedInvocation_notEnoughMemory hc hdecode
    exact ⟨t, hnew, hno⟩

/-! ### The end of the address space -/

/-- An untyped for two endpoints at the end of the address space. -/
def topUntyped : UntypedCap :=
  { capFreeIndex := 0, capIsDevice := false, capBlockSize := 5, capPtr := 2 ^ 64 - 32 }

/-- The slot of `topUntyped`, in another CNode. -/
def topSlot : Slot := { base := 60, index := 0 }

def topState : Kernel :=
  { capState with cspace := capState.cspace.setCap topSlot (.untyped topUntyped) }

/-- Retype two endpoints into the last slots. -/
def endpointsMessage : Message :=
  { words := [2, 0, 0, 0, 2, 2], extraCaps := [tcbSlot 1 tcbCTable] }

def endpointsOp : RetypeOp :=
  { reset := true
    retypeBase := 2 ^ 64 - 32
    newType := .endpoint
    userSize := 0
    destCNode := 50
    destOffset := 2
    destLength := 2
    deviceMemory := false }

theorem topUntyped_wellFormed : topUntyped.WellFormed := by constructor <;> decide

theorem topState_decode :
    decodeUntypedInvocation tickConfig endpointsMessage topSlot topUntyped topState =
      pure endpointsOp := by
  have htype : checkNewType tickConfig 2 0 = pure (.endpoint, 4) := rfl
  have hnode : retypeNode topState (tcbSlot 1 tcbCTable) 0 0 = pure fourSlots := rfl
  change (checkNewType tickConfig 2 0 >>= fun _ => _) = _
  rw [htype, pure_bind]
  change (retypeNode topState (tcbSlot 1 tcbCTable) 0 0 >>= fun _ => _) = _
  rw [hnode, pure_bind]
  dsimp only
  rw [if_neg (by decide)]
  rfl

/-- The end of the last object is computed as zero. -/
theorem freeRef_wraps :
    topUntyped.WellFormed ∧ topState.cap topSlot = .untyped topUntyped ∧
      decodeUntypedInvocation tickConfig endpointsMessage topSlot topUntyped topState =
        pure endpointsOp ∧
      ¬endpointsOp.retypeBase + endpointsOp.destLength * 2 ^ endpointsOp.objectSize tickConfig <
        2 ^ 64 := by
  refine ⟨topUntyped_wellFormed, by decide +kernel, topState_decode, by decide⟩

/-- The endpoints fill the untyped. -/
theorem endpoints_placed :
    endpointsOp.address tickConfig 0 + 2 ^ endpointsOp.objectSize tickConfig ≤
        endpointsOp.address tickConfig 1 ∧
    ∃ w', invokeUntypedRetype tickConfig endpointsOp topSlot topUntyped
        { kernel := topState, preempt := [] } = (.none, w') ∧
      (∀ i < 2, w'.kernel.cap (endpointsOp.dest i) =
        newObjectCap .endpoint (endpointsOp.address tickConfig i) 0 false) ∧
      ∃ freeIndex, w'.kernel.cap topSlot =
          .untyped { topUntyped with capFreeIndex := freeIndex } ∧
        topUntyped.capPtr + freeIndex * 2 ^ minUntypedBits = 2 ^ 64 := by
  have hcap : topState.cap topSlot = .untyped topUntyped := by decide +kernel
  obtain ⟨-, hdisjoint, -, -, -, -, hinvoke⟩ :=
    (retype_placed hcap topUntyped_wellFormed).1 _ topState_decode
  obtain ⟨hnew, hfree⟩ := hinvoke { kernel := topState, preempt := [] } _ rfl
  exact ⟨hdisjoint 0 1 (by decide) (by decide), _, rfl, hnew, hfree⟩

end SeL4Kernel
