import SeL4Kernel.Boot.FreeMemory
import SeL4Kernel.Lib.Dyadic
import SeL4Kernel.Object.Untyped

/-!
# The untyped memory that is handed out at boot

`create_device_untypeds` and `create_kernel_untypeds` of `kernel/boot.c` hand out what is not
reserved as device memory, and the free memory with the memory of the boot code as memory for
objects. Each region is cut into aligned blocks from its start, and only bytes whose block of the
smallest size does not lie in the region are left out (`cut_spec`).

The regions of device memory are in order, whatever the entries of `ndks_boot.reserved` are, but
they may begin inside of an entry that was passed before (`deviceGaps_spec`). A region of device
memory may reach over the end of the virtual addresses. Blocks are compared by their physical
addresses, which do not wrap.
-/

namespace SeL4Kernel.Boot

open List Range

/-- `CONFIG_PADDR_USER_DEVICE_TOP`. -/
def paddrUserDeviceTop : ℕ := 2 ^ 39 - 1

/-- `CONFIG_MAX_NUM_BOOTINFO_UNTYPED_CAPS`. -/
def maxNumBootinfoUntypedCaps : ℕ := 230

/-- An untyped capability of the root server, of which nothing is handed on. -/
def rootUntyped (deviceMemory : Bool) (pptr sizeBits : ℕ) : UntypedCap :=
  ⟨maxFreeIndex sizeBits, deviceMemory, sizeBits, pptr⟩

/-- The slots of the root CNode that are left, and the untyped capabilities in it. -/
structure RootCNode where
  slotPosCur : ℕ
  slotPosMax : ℕ
  untypeds : List UntypedCap
  deriving DecidableEq, Repr

/-- `provide_cap` for an untyped capability. -/
def provideCap (cap : UntypedCap) (c : RootCNode) : Bool × RootCNode :=
  if c.slotPosCur ≥ c.slotPosMax then (false, c)
  else (true, { c with slotPosCur := c.slotPosCur + 1, untypeds := c.untypeds ++ [cap] })

def provideUntypedCap (deviceMemory : Bool) (pptr sizeBits firstUntypedSlot : ℕ)
    (c : RootCNode) : Bool × RootCNode :=
  let i := c.slotPosCur - firstUntypedSlot
  if i < maxNumBootinfoUntypedCaps then provideCap (rootUntyped deviceMemory pptr sizeBits) c
  else (true, c)

/-- `clzl` on words. -/
def clzl (n : ℕ) : ℕ := 63 - Nat.log2 n

/-- `ctzl` on words. -/
def ctzl (n : ℕ) : ℕ := trailingZeros 64 n

/-- The size of the next block of a region. -/
def untypedSizeBits (reg : Region) : ℕ :=
  let sizeBits := 64 - 1 - clzl (wordSub reg.stop reg.start)
  let alignBits := if reg.start ≠ 0 then ctzl reg.start else sizeBits
  let sizeBits := if alignBits < sizeBits then alignBits else sizeBits
  if sizeBits > maxUntypedBits then maxUntypedBits else sizeBits

/-- The loop of `create_untypeds_for_region`, with as many rounds as there are bytes. -/
def createUntypedsLoop (deviceMemory : Bool) (firstUntypedSlot : ℕ) :
    ℕ → Region → RootCNode → Bool × RootCNode
  | 0, _, c => (true, c)
  | fuel + 1, reg, c =>
    if isRegEmpty reg then (true, c)
    else
      let sizeBits := untypedSizeBits reg
      let (ok, c) := if sizeBits ≥ minUntypedBits then
        provideUntypedCap deviceMemory reg.start sizeBits firstUntypedSlot c else (true, c)
      if ok then
        createUntypedsLoop deviceMemory firstUntypedSlot fuel
          { reg with start := word (reg.start + 2 ^ sizeBits) } c
      else (false, c)

def createUntypedsForRegion (deviceMemory : Bool) (reg : Region) (firstUntypedSlot : ℕ)
    (c : RootCNode) : Bool × RootCNode :=
  createUntypedsLoop deviceMemory firstUntypedSlot (wordSub reg.stop reg.start) reg c

/-- The region behind the last reserved one, which must not end above the kernel window. -/
def lastDeviceRegion (start : ℕ) : Region :=
  let reg := paddrToPptrReg ⟨start, paddrUserDeviceTop⟩
  if reg.stop > pptrTop then { reg with stop := pptrTop } else reg

/-- The loop of `create_device_untypeds`, from a physical address on. -/
def createDeviceFrom (firstUntypedSlot : ℕ) : ℕ → List Region → RootCNode → Bool × RootCNode
  | start, [], c =>
    if start < paddrUserDeviceTop then
      createUntypedsForRegion true (lastDeviceRegion start) firstUntypedSlot c
    else (true, c)
  | start, r :: reserved, c =>
    let (ok, c) := if start < r.start then
      createUntypedsForRegion true (paddrToPptrReg ⟨start, r.start⟩) firstUntypedSlot c
      else (true, c)
    if ok then createDeviceFrom firstUntypedSlot r.stop reserved c else (false, c)

def createDeviceUntypeds (s : BootMem) (slotPosBefore : ℕ) (c : RootCNode) : Bool × RootCNode :=
  createDeviceFrom slotPosBefore 0 s.reserved c

/-- The loop of `create_kernel_untypeds` over the free regions. -/
def createFreeUntypeds (firstUntypedSlot : ℕ) : List Region → RootCNode → Bool × RootCNode
  | [], c => (true, c)
  | reg :: freemem, c =>
    let (ok, c) := createUntypedsForRegion false reg firstUntypedSlot c
    if ok then createFreeUntypeds firstUntypedSlot freemem c else (false, c)

def createKernelUntypeds (s : BootMem) (bootMemReuseReg : Region) (firstUntypedSlot : ℕ)
    (c : RootCNode) : Bool × RootCNode :=
  let (ok, c) := createUntypedsForRegion false bootMemReuseReg firstUntypedSlot c
  if ok then createFreeUntypeds firstUntypedSlot s.freemem c else (false, c)

/-- `create_untypeds`; it goes on if the device memory could not be handed out. -/
def createUntypeds (s : BootMem) (bootMemReuseReg : Region) (c : RootCNode) : Bool × RootCNode :=
  let slotPosBefore := c.slotPosCur
  let (_, c) := createDeviceUntypeds s slotPosBefore c
  createKernelUntypeds s bootMemReuseReg slotPosBefore c

/-! ### Cutting a region -/

/-- The physical memory of a capability. -/
def memory (u : UntypedCap) : Region :=
  ⟨pptrToPaddr u.capPtr, pptrToPaddr u.capPtr + 2 ^ u.capBlockSize⟩

/-- The blocks of a region that the loop hands out. -/
def cut (deviceMemory : Bool) : ℕ → Region → List UntypedCap
  | 0, _ => []
  | fuel + 1, reg =>
    if isRegEmpty reg then []
    else
      let sizeBits := untypedSizeBits reg
      let rest := cut deviceMemory fuel { reg with start := word (reg.start + 2 ^ sizeBits) }
      if sizeBits ≥ minUntypedBits then
        rootUntyped deviceMemory reg.start sizeBits :: rest
      else rest

/-- The blocks of a region. -/
def cutRegion (deviceMemory : Bool) (reg : Region) : List UntypedCap :=
  cut deviceMemory (wordSub reg.stop reg.start) reg

variable {device : Bool} {reg r reuse : Region} {s e p fuel first m k n : ℕ} {c c' : RootCNode}
  {us : List UntypedCap} {reserved : List Region} {ins : List (Bool × Region)}

theorem pptrToPaddr_paddrToPptr (h : p < 2 ^ 64) : pptrToPaddr (paddrToPptr p) = p := by
  unfold pptrToPaddr paddrToPptr wordSub word pptrBaseOffset
  omega

theorem paddrToPptr_pptrToPaddr (h : p < 2 ^ 64) : paddrToPptr (pptrToPaddr p) = p := by
  unfold pptrToPaddr paddrToPptr wordSub word pptrBaseOffset
  omega

theorem wordSub_paddrToPptr (hle : p ≤ e) (he : e < 2 ^ 64) :
    wordSub (paddrToPptr e) (paddrToPptr p) = e - p := by
  unfold paddrToPptr wordSub word pptrBaseOffset
  omega

/-- Virtual and physical addresses are aligned alike up to the size of untyped memory. -/
theorem dvd_paddrToPptr (hm : m ≤ maxUntypedBits) : 2 ^ m ∣ paddrToPptr p ↔ 2 ^ m ∣ p := by
  have hoff : 2 ^ m ∣ pptrBaseOffset := Nat.dvd_trans (Nat.pow_dvd_pow 2 hm) (by decide)
  have hword : 2 ^ m ∣ 2 ^ 64 := Nat.pow_dvd_pow 2 (hm.trans (by decide))
  unfold paddrToPptr word
  rw [Nat.dvd_mod_iff hword]
  exact Nat.dvd_add_left hoff

theorem untypedSizeBits_eq (hlt : p < e) (he : e < 2 ^ 64) :
    untypedSizeBits (paddrToPptrReg ⟨p, e⟩) = min (min (Nat.log2 (e - p))
      (if paddrToPptr p ≠ 0 then ctzl (paddrToPptr p) else Nat.log2 (e - p))) maxUntypedBits := by
  have hlog : Nat.log2 (e - p) < 64 := (Nat.log2_lt (by omega)).2 (by omega)
  have hsize : 64 - 1 - clzl (e - p) = Nat.log2 (e - p) := by
    unfold clzl
    omega
  unfold untypedSizeBits paddrToPptrReg
  dsimp only
  rw [wordSub_paddrToPptr hlt.le he, hsize]
  generalize (if paddrToPptr p ≠ 0 then ctzl (paddrToPptr p) else Nat.log2 (e - p)) = a
  split_ifs <;> omega

theorem untypedSizeBits_largest (hlt : p < e) (he : e < 2 ^ 64) :
    Largest maxUntypedBits p (e - p) (untypedSizeBits (paddrToPptrReg ⟨p, e⟩)) := by
  have hne : e - p ≠ 0 := by omega
  have hpptr : paddrToPptr p < 2 ^ 64 := Nat.mod_lt _ (by decide)
  by_cases h0 : paddrToPptr p = 0
  · -- at the pointer 0 every alignment is possible
    refine largest_of_log (a := max (Nat.log2 (e - p)) maxUntypedBits) hne ?_ ?_ ?_
    · rw [min_eq_right (le_max_right _ _), ← dvd_paddrToPptr (le_refl _), h0]
      exact Nat.dvd_zero _
    · exact fun m hm _ => hm.trans (le_max_right _ _)
    · rw [untypedSizeBits_eq hlt he, if_neg (not_not.2 h0), min_self,
        min_eq_left (le_max_left (Nat.log2 (e - p)) maxUntypedBits)]
  · refine largest_of_log (a := ctzl (paddrToPptr p)) hne ?_ ?_ ?_
    · rw [← dvd_paddrToPptr (min_le_right _ _)]
      exact Nat.dvd_trans (Nat.pow_dvd_pow 2 (min_le_left _ _)) (pow_trailingZeros_dvd _ _)
    · intro m hm hdvd
      exact le_trailingZeros h0 hpptr ((dvd_paddrToPptr hm).2 hdvd)
    · rw [untypedSizeBits_eq hlt he, if_pos h0]

/-- The blocks of a physical region. -/
structure Cut (s e : ℕ) (us : List UntypedCap) : Prop where
  ordered : Ordered (us.map memory)
  aligned : ∀ u ∈ us, 2 ^ u.capBlockSize ∣ u.capPtr
  sizes : ∀ u ∈ us, u.capBlockSize ≤ maxUntypedBits
  cover : ∀ x, Covered (us.map memory) x ↔ InWholeBlock minUntypedBits s e x

theorem mem_memory {u : UntypedCap} : (memory u).start ∈ memory u :=
  ⟨le_refl _, Nat.lt_add_of_pos_right (Nat.two_pow_pos _)⟩

theorem Cut.nil (hle : e ≤ s) : Cut s e [] where
  ordered := Ordered.nil
  aligned _ hu := absurd hu not_mem_nil
  sizes _ hu := absurd hu not_mem_nil
  cover x := by
    refine iff_of_false covered_nil fun hx => ?_
    have := hx.mem
    omega

/-- One block before the rest. -/
theorem Cut.cons (hp : p < 2 ^ 64) (hk : Largest maxUntypedBits p (e - p) k)
    (hmin : minUntypedBits ≤ k) (h : Cut (p + 2 ^ k) e us) :
    Cut p e (rootUntyped device (paddrToPptr p) k :: us) := by
  have hmem : memory (rootUntyped device (paddrToPptr p) k) = ⟨p, p + 2 ^ k⟩ := by
    unfold memory rootUntyped
    rw [pptrToPaddr_paddrToPptr hp]
  refine ⟨?_, forall_mem_cons.2 ⟨?_, h.aligned⟩, forall_mem_cons.2 ⟨hk.le_max, h.sizes⟩,
    fun x => ?_⟩
  · rw [map_cons, hmem]
    refine ordered_cons.2 ⟨Nat.le_add_right _ _, fun r hr => ?_, h.ordered⟩
    obtain ⟨u, hu, rfl⟩ := mem_map.1 hr
    exact ((h.cover _).1 ⟨_, hr, mem_memory⟩).mem.1
  · exact (dvd_paddrToPptr hk.le_max).2 hk.dvd
  · rw [map_cons, hmem, covered_cons, h.cover, hk.inWholeBlock_iff (by decide), mem_iff]
    exact or_congr_left (iff_and_self.2 fun _ => hmin)

/-- A block that is too small for a capability has nothing of a whole block. -/
theorem Cut.skip (hk : Largest maxUntypedBits p (e - p) k) (hmin : k < minUntypedBits)
    (h : Cut (p + 2 ^ k) e us) : Cut p e us := by
  refine ⟨h.ordered, h.aligned, h.sizes, fun x => ?_⟩
  rw [h.cover, hk.inWholeBlock_iff (by decide)]
  exact (or_iff_right fun hc => absurd hc.1 (not_le.2 hmin)).symm

theorem word_add_paddrToPptr : word (paddrToPptr p + n) = paddrToPptr (p + n) := by
  unfold word paddrToPptr word
  omega

theorem isRegEmpty_paddrToPptrReg (hle : p ≤ e) (he : e < 2 ^ 64) :
    isRegEmpty (paddrToPptrReg ⟨p, e⟩) = decide (p = e) := by
  unfold isRegEmpty paddrToPptrReg
  dsimp only
  rw [decide_eq_decide]
  constructor
  · intro h
    have h' := congrArg pptrToPaddr h
    rwa [pptrToPaddr_paddrToPptr (by omega), pptrToPaddr_paddrToPptr he] at h'
  · exact fun h => congrArg paddrToPptr h

theorem cut_spec (he : e < 2 ^ 64) : ∀ (fuel p : ℕ), p ≤ e → e - p ≤ fuel →
    Cut p e (cut device fuel (paddrToPptrReg ⟨p, e⟩)) := by
  intro fuel
  induction fuel with
  | zero =>
    intro p _ hfuel
    exact Cut.nil (by omega)
  | succ fuel ih =>
    intro p hle hfuel
    rw [cut, isRegEmpty_paddrToPptrReg hle he]
    by_cases heq : p = e
    · rw [if_pos (decide_eq_true heq)]
      exact Cut.nil heq.ge
    rw [if_neg (by simpa using heq)]
    have hlt : p < e := by omega
    have hk := untypedSizeBits_largest hlt he
    generalize untypedSizeBits (paddrToPptrReg ⟨p, e⟩) = k at hk
    have hfits := hk.fits
    have hpos := Nat.two_pow_pos k
    have hrest := ih (p + 2 ^ k) (by omega) (by omega)
    have hreg : ({ paddrToPptrReg ⟨p, e⟩ with
        start := word ((paddrToPptrReg ⟨p, e⟩).start + 2 ^ k) } : Region) =
          paddrToPptrReg ⟨p + 2 ^ k, e⟩ := by
      unfold paddrToPptrReg
      rw [word_add_paddrToPptr]
    dsimp only
    rw [hreg]
    split
    · rename_i hmin
      exact hrest.cons (by omega) hk hmin
    · exact hrest.skip hk (by omega)

/-! ### Handing out -/

/-- There are slots and entries of the boot info for `n` more capabilities. -/
structure HasSlots (first n : ℕ) (c : RootCNode) : Prop where
  first_le : first ≤ c.slotPosCur
  bootinfo : c.slotPosCur - first + n ≤ maxNumBootinfoUntypedCaps
  slots : c.slotPosCur + n ≤ c.slotPosMax

/-- The capabilities in the next slots. -/
def RootCNode.add (us : List UntypedCap) (c : RootCNode) : RootCNode :=
  { c with slotPosCur := c.slotPosCur + us.length, untypeds := c.untypeds ++ us }

theorem RootCNode.add_nil : c.add [] = c := by
  unfold RootCNode.add
  simp

theorem RootCNode.add_add {us vs : List UntypedCap} : (c.add us).add vs = c.add (us ++ vs) := by
  unfold RootCNode.add
  simp [Nat.add_assoc]

theorem HasSlots.add (h : HasSlots first (us.length + n) c) : HasSlots first n (c.add us) := by
  obtain ⟨hle, hinfo, hslots⟩ := h
  unfold RootCNode.add
  exact ⟨by dsimp only; omega, by dsimp only; omega, by dsimp only; omega⟩

theorem HasSlots.mono (h : HasSlots first n c) (hle : m ≤ n) : HasSlots first m c :=
  ⟨h.first_le, by have := h.bootinfo; omega, by have := h.slots; omega⟩

theorem provideUntypedCap_eq {pptr sizeBits : ℕ} (h : HasSlots first (n + 1) c) :
    provideUntypedCap device pptr sizeBits first c =
      (true, c.add [rootUntyped device pptr sizeBits]) := by
  have hinfo := h.bootinfo
  have hslots := h.slots
  unfold provideUntypedCap provideCap
  rw [if_pos (by omega), if_neg (by omega)]
  rfl

theorem createUntypedsLoop_eq (h : HasSlots first (cut device fuel reg).length c) :
    createUntypedsLoop device first fuel reg c = (true, c.add (cut device fuel reg)) := by
  induction fuel generalizing reg c with
  | zero => exact congrArg _ RootCNode.add_nil.symm
  | succ fuel ih =>
    rw [cut] at h ⊢
    rw [createUntypedsLoop]
    by_cases hempty : isRegEmpty reg = true
    · rw [if_pos hempty, if_pos hempty, RootCNode.add_nil]
    rw [if_neg hempty] at h ⊢
    rw [if_neg hempty]
    dsimp only at h ⊢
    by_cases hmin : untypedSizeBits reg ≥ minUntypedBits
    · rw [if_pos hmin] at h ⊢
      rw [if_pos hmin, provideUntypedCap_eq h]
      rw [ih, RootCNode.add_add]
      · rfl
      · refine HasSlots.add ?_
        rw [Nat.add_comm]
        exact h
    · rw [if_neg hmin] at h ⊢
      rw [if_neg hmin]
      exact ih h

theorem createUntypedsForRegion_eq (h : HasSlots first (cutRegion device reg).length c) :
    createUntypedsForRegion device reg first c = (true, c.add (cutRegion device reg)) :=
  createUntypedsLoop_eq h

/-- What is not reserved, from a physical address on. -/
def deviceGaps : ℕ → List Region → List Region
  | start, [] => if start < paddrUserDeviceTop then [⟨start, paddrUserDeviceTop⟩] else []
  | start, r :: reserved =>
    if start < r.start then ⟨start, r.start⟩ :: deviceGaps r.stop reserved
    else deviceGaps r.stop reserved

/-- The blocks of physical regions. -/
def cutAll (device : Bool) (regs : List Region) : List UntypedCap :=
  regs.flatMap fun q => cutRegion device (paddrToPptrReg q)

/-- The last region wraps, and so it does not end above the window. -/
theorem lastDeviceRegion_eq : lastDeviceRegion s = paddrToPptrReg ⟨s, paddrUserDeviceTop⟩ := by
  have htop : ¬paddrToPptr paddrUserDeviceTop > pptrTop := by decide
  unfold lastDeviceRegion paddrToPptrReg
  rw [if_neg htop]

theorem createDeviceFrom_eq (h : HasSlots first (cutAll true (deviceGaps s reserved)).length c) :
    createDeviceFrom first s reserved c = (true, c.add (cutAll true (deviceGaps s reserved))) := by
  induction reserved generalizing s c with
  | nil =>
    rw [createDeviceFrom]
    rw [deviceGaps] at h ⊢
    by_cases hlt : s < paddrUserDeviceTop
    · have hone : cutAll true [⟨s, paddrUserDeviceTop⟩] =
          cutRegion true (paddrToPptrReg ⟨s, paddrUserDeviceTop⟩) := append_nil _
      rw [if_pos hlt, hone] at h
      rw [if_pos hlt, if_pos hlt, hone, lastDeviceRegion_eq]
      exact createUntypedsForRegion_eq h
    · rw [if_neg hlt, if_neg hlt]
      exact congrArg _ RootCNode.add_nil.symm
  | cons r reserved ih =>
    rw [createDeviceFrom]
    rw [deviceGaps] at h ⊢
    by_cases hlt : s < r.start
    · have hcons : cutAll true (⟨s, r.start⟩ :: deviceGaps r.stop reserved) =
          cutRegion true (paddrToPptrReg ⟨s, r.start⟩) ++
            cutAll true (deviceGaps r.stop reserved) := rfl
      rw [if_pos hlt, hcons, length_append] at h
      rw [if_pos hlt, if_pos hlt, hcons, createUntypedsForRegion_eq (h.mono (Nat.le_add_right _ _))]
      dsimp only
      rw [if_pos rfl, ih h.add, RootCNode.add_add]
    · rw [if_neg hlt] at h ⊢
      rw [if_neg hlt]
      exact ih h

theorem createFreeUntypeds_eq {freemem : List Region}
    (h : HasSlots first (freemem.flatMap (cutRegion false)).length c) :
    createFreeUntypeds first freemem c = (true, c.add (freemem.flatMap (cutRegion false))) := by
  induction freemem generalizing c with
  | nil => exact congrArg _ RootCNode.add_nil.symm
  | cons reg freemem ih =>
    rw [flatMap_cons] at h ⊢
    rw [length_append] at h
    rw [createFreeUntypeds, createUntypedsForRegion_eq (h.mono (Nat.le_add_right _ _))]
    dsimp only
    rw [if_pos rfl, ih h.add, RootCNode.add_add]

/-- The capabilities for all regions. -/
def allUntypeds (s : BootMem) (reuse : Region) : List UntypedCap :=
  cutAll true (deviceGaps 0 s.reserved) ++ (cutRegion false reuse ++
    s.freemem.flatMap (cutRegion false))

theorem createUntypeds_eq {m : BootMem} (h : HasSlots c.slotPosCur (allUntypeds m reuse).length c) :
    createUntypeds m reuse c = (true, c.add (allUntypeds m reuse)) := by
  unfold allUntypeds at h ⊢
  rw [length_append] at h
  have hkernel := h.add
  rw [length_append] at hkernel
  unfold createUntypeds createDeviceUntypeds createKernelUntypeds
  dsimp only
  rw [createDeviceFrom_eq (h.mono (Nat.le_add_right _ _))]
  rw [createUntypedsForRegion_eq (hkernel.mono (Nat.le_add_right _ _))]
  rw [if_pos rfl, createFreeUntypeds_eq hkernel.add, RootCNode.add_add, RootCNode.add_add]

/-! ### All capabilities -/

/-- The physical regions that are cut, and whether they are device memory. -/
def inputs (m : BootMem) (reuse : Region) : List (Bool × Region) :=
  (deviceGaps 0 m.reserved).map (true, ·) ++
    (reuse :: m.freemem).map fun f => (false, pptrToPaddrReg f)

/-- The blocks of some regions. -/
def cutInputs (ins : List (Bool × Region)) : List UntypedCap :=
  ins.flatMap fun q => cutRegion q.1 (paddrToPptrReg q.2)

theorem cutRegion_spec (hle : s ≤ e) (he : e < 2 ^ 64) :
    Cut s e (cutRegion device (paddrToPptrReg ⟨s, e⟩)) := by
  refine cut_spec he _ s hle ?_
  unfold paddrToPptrReg
  rw [wordSub_paddrToPptr hle he]

theorem device_of_mem_cut {u : UntypedCap} (h : u ∈ cut device fuel reg) :
    u.capIsDevice = device := by
  induction fuel generalizing reg with
  | zero => exact absurd h not_mem_nil
  | succ fuel ih =>
    rw [cut] at h
    split at h
    · exact absurd h not_mem_nil
    dsimp only at h
    split at h
    · rcases mem_cons.1 h with rfl | h
      · rfl
      · exact ih h
    · exact ih h

/-- The aligned blocks of the smallest size in the region. -/
def Blocks (q : Region) (x : ℕ) : Prop := InWholeBlock minUntypedBits q.start q.stop x

/-- The capabilities of physical regions. -/
structure Handed (ins : List (Bool × Region)) (us : List UntypedCap) : Prop where
  aligned : ∀ u ∈ us, 2 ^ u.capBlockSize ∣ u.capPtr ∧ u.capBlockSize ≤ maxUntypedBits
  source : ∀ u ∈ us, ∃ q ∈ ins, u.capIsDevice = q.1 ∧ ∀ x ∈ memory u, Blocks q.2 x
  whole : ∀ q ∈ ins, ∀ x, Blocks q.2 x → ∃ u ∈ us, u.capIsDevice = q.1 ∧ x ∈ memory u
  disjoint : (ins.Pairwise fun q r => ∀ x, Blocks q.2 x → ¬Blocks r.2 x) →
    us.Pairwise fun u v => (memory u).Apart (memory v)

theorem cutInputs_handed (h : ∀ q ∈ ins, q.2.start ≤ q.2.stop ∧ q.2.stop < 2 ^ 64) :
    Handed ins (cutInputs ins) := by
  have hcut : ∀ q ∈ ins, Cut q.2.start q.2.stop (cutRegion q.1 (paddrToPptrReg q.2)) :=
    fun q hq => cutRegion_spec (h q hq).1 (h q hq).2
  have hsource : ∀ q ∈ ins, ∀ u ∈ cutRegion q.1 (paddrToPptrReg q.2), ∀ x ∈ memory u,
      Blocks q.2 x := fun q hq u hu x hx => ((hcut q hq).cover x).1 ⟨_, mem_map_of_mem hu, hx⟩
  unfold cutInputs
  refine ⟨fun u hu => ?_, fun u hu => ?_, fun q hq x hx => ?_, fun hapart => ?_⟩
  · obtain ⟨q, hq, hu⟩ := mem_flatMap.1 hu
    exact ⟨(hcut q hq).aligned u hu, (hcut q hq).sizes u hu⟩
  · obtain ⟨q, hq, hu⟩ := mem_flatMap.1 hu
    exact ⟨q, hq, device_of_mem_cut hu, hsource q hq u hu⟩
  · obtain ⟨r, hr, hx⟩ := ((hcut q hq).cover x).2 hx
    obtain ⟨u, hu, rfl⟩ := mem_map.1 hr
    exact ⟨u, mem_flatMap.2 ⟨q, hq, hu⟩, device_of_mem_cut hu, hx⟩
  · rw [pairwise_flatMap]
    refine ⟨fun q hq => pairwise_map.1 (hcut q hq).ordered.pairwise_apart, ?_⟩
    refine hapart.imp_of_mem ?_
    intro q r hq hr hqr u hu v hv x hxu hxv
    exact hqr x (hsource q hq u hu x hxu) (hsource r hr v hv x hxv)

/-- The gaps are in order. An entry starts before a gap, or behind it. -/
theorem deviceGaps_spec (h : Sorted reserved) :
    Ordered (deviceGaps s reserved) ∧ ∀ q ∈ deviceGaps s reserved,
      (q.start = s ∨ ∃ p ∈ reserved, q.start = p.stop) ∧
      (q.stop = paddrUserDeviceTop ∨ ∃ p ∈ reserved, q.stop = p.start) ∧
      ∀ p ∈ reserved, p.start < q.start ∨ q.stop ≤ p.start := by
  induction reserved generalizing s with
  | nil =>
    rw [deviceGaps]
    split
    next hlt =>
      refine ⟨ordered_cons.2 ⟨hlt.le, nofun, Ordered.nil⟩, forall_mem_singleton.2 ?_⟩
      exact ⟨.inl rfl, .inl rfl, nofun⟩
    next => exact ⟨Ordered.nil, nofun⟩
  | cons r reserved ih =>
    obtain ⟨hlt, hbefore, hrest⟩ := sorted_cons.1 h
    obtain ⟨hord, hin⟩ := @ih r.stop hrest
    have hafter : ∀ q ∈ deviceGaps r.stop reserved, r.start < q.start := by
      intro q hq
      rcases (hin q hq).1 with heq | ⟨p, hp, heq⟩
      · omega
      · have := hbefore p hp
        have := hrest.lt p hp
        omega
    have hin' : ∀ q ∈ deviceGaps r.stop reserved,
        (q.start = s ∨ ∃ p ∈ r :: reserved, q.start = p.stop) ∧
        (q.stop = paddrUserDeviceTop ∨ ∃ p ∈ r :: reserved, q.stop = p.start) ∧
        ∀ p ∈ r :: reserved, p.start < q.start ∨ q.stop ≤ p.start := by
      intro q hq
      obtain ⟨hstart, hstop, hp⟩ := hin q hq
      refine ⟨.inr ?_, hstop.imp_right ?_, forall_mem_cons.2 ⟨.inl (hafter q hq), hp⟩⟩
      · rcases hstart with heq | ⟨p, hp, heq⟩
        · exact ⟨r, mem_cons_self, heq⟩
        · exact ⟨p, mem_cons_of_mem r hp, heq⟩
      · rintro ⟨p, hp, heq⟩
        exact ⟨p, mem_cons_of_mem r hp, heq⟩
    rw [deviceGaps]
    split
    next hfirst =>
      refine ⟨ordered_cons.2 ⟨hfirst.le, fun q hq => (hafter q hq).le, hord⟩,
        forall_mem_cons.2 ⟨⟨.inl rfl, .inr ⟨r, mem_cons_self, rfl⟩, ?_⟩, hin'⟩⟩
      exact forall_mem_cons.2 ⟨.inr (le_refl _), fun p hp => .inr (hbefore p hp)⟩
    next => exact ⟨hord, hin'⟩

end SeL4Kernel.Boot
