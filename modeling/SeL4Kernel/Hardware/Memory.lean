import Mathlib.Algebra.Group.Int.Defs
import Mathlib.Algebra.Group.Nat.Defs
import Mathlib.Data.List.Dedup
import Mathlib.Data.List.Pairwise
import Mathlib.Data.List.Sort

/-!
# The memory map that is generated when the kernel is built

`tools/hardware/memory.py` and `tools/hardware/utils/memory.py`: the memory of a device tree
without what it reserves, with the first region aligned for the kernel image, and the part of
the address space that is no memory.

Numbers are Python's, without bounds. Python's sets have no order, so a list stands for a
set in any order. The owner of a region is left out, and so is the walk over the device tree:
its memory and its reserved regions are given.
-/

namespace SeL4Kernel.Hardware

open List

/-! ### Regions -/

/-- `Region`. -/
structure Region where
  base : ℤ
  size : ℤ
  deriving DecidableEq, Repr

namespace Region

def fromRange (start stop : ℤ) : Region := { base := start, size := stop - start }

def overlaps (self other : Region) : Bool :=
  if self.base ≤ other.base ∧ self.base + self.size > other.base then true
  else if other.base ≤ self.base ∧ other.base + other.size > self.base then true
  else false

/-- The regions that are left of a region without the excluded range. -/
def reserve (self excluded : Region) : List Region :=
  if self.overlaps excluded = false then [{ base := self.base, size := self.size }]
  else if self.base < excluded.base then
    fromRange self.base excluded.base ::
      (if excluded.base + excluded.size < self.base + self.size then
        [fromRange (excluded.base + excluded.size) (self.base + self.size)]
      else [])
  else if self.base + self.size > excluded.base + excluded.size then
    [fromRange (excluded.base + excluded.size) (self.base + self.size)]
  else []

end Region

/-- `align_up`. -/
def alignUp (num : ℤ) (bits : ℕ) : ℤ := (num + (2 ^ bits - 1)) / 2 ^ bits * 2 ^ bits

/-- `align_down`. -/
def alignDown (num : ℤ) (bits : ℕ) : ℤ := num / 2 ^ bits * 2 ^ bits

def Region.alignBase (self : Region) (alignBits : ℕ) : Region :=
  let newBase := alignUp self.base alignBits
  { base := newBase, size := self.size - (newBase - self.base) }

/-! ### Configurations -/

/-- The architectures of `get_arch_config`. -/
inductive Arch where
  | arm
  | riscv
  deriving DecidableEq, Repr

structure Config where
  arch : Arch
  addrspaceMax : ℤ
  deriving DecidableEq, Repr

def Config.getKernelPhysAlign (config : Config) : ℕ :=
  match config.arch with
  | .arm => 24
  | .riscv => 0

def Config.getBootloaderReserve (config : Config) : ℤ :=
  match config.arch with
  | .arm => 0
  | .riscv => 0x200000

def Config.getPageBits (_ : Config) : ℕ := 12

/-! ### The memory map -/

/-- `reserve_regions`: the regions that are left, and what is left of the argument
`reserved`, from which every region is popped. -/
def reserveRegions (regions : List Region) : List Region → List Region × List Region
  | [] => (regions, [])
  | reserve :: reserved =>
    reserveRegions (regions.flatMap fun el => el.reserve reserve).dedup reserved

/-- The first region without the memory of the boot loader, and that memory. -/
def reserveBootloader (config : Config) (first : Region) : Region × List Region :=
  let reserve := config.getBootloaderReserve
  if reserve > 0 then
    ({ base := first.base + reserve, size := first.size - reserve },
      [{ base := first.base, size := reserve }])
  else (first, [])

/-- The first region aligned for the kernel, and the memory before it. -/
def alignFirst (config : Config) (first : Region) : Region × List Region :=
  if config.getKernelPhysAlign ≠ 0 then
    let new := first.alignBase config.getKernelPhysAlign
    (new, [{ base := first.base, size := new.base - first.base }])
  else (first, [])

/-- `sorted`, by the order of `Region`. -/
def sorted (regions : List Region) : List Region :=
  regions.insertionSort fun a b => a.base ≤ b.base

/-- What `align_memory` and `get_physical_memory` return. -/
structure PhysicalMemory where
  regions : List Region
  reserved : List Region
  physBase : ℤ
  deriving DecidableEq, Repr

/-- `align_memory`; there is no first region to align in an empty list. -/
def alignMemory (regions : List Region) (config : Config) : Option PhysicalMemory :=
  match sorted regions with
  | [] => none
  | first :: rest =>
    let (offset, resv) := reserveBootloader config first
    let (new, cut) := alignFirst config offset
    some
      { regions := new :: rest
        reserved := resv ++ cut
        physBase := if config.arch = .riscv then first.base else new.base }

/-- `get_physical_memory` for the memory and the reserved regions of a device tree. -/
def getPhysicalMemory (memory noMap : List Region) (config : Config) : Option PhysicalMemory :=
  let (regions, reserved) := reserveRegions memory noMap
  match alignMemory regions config with
  | none => none
  | some m => some { m with reserved := reserved ++ m.reserved }

/-- An argument of `get_addrspace_exclude`: a region, or a group of kernel devices that the
user may have mapped, or may not. -/
inductive Exclusion where
  | region (r : Region)
  | group (r : Region) (userOk : Bool)
  deriving DecidableEq, Repr

def Exclusion.toRegion : Exclusion → Region
  | .region r => r
  | .group r _ => r

def Exclusion.skipped : Exclusion → Bool
  | .region _ => false
  | .group _ userOk => userOk

/-- The loop of `get_addrspace_exclude`. -/
def excludeRegions (ret : List Region) : List Exclusion → List Region
  | [] => ret
  | reg :: regions =>
    if reg.skipped then excludeRegions ret regions
    else excludeRegions (ret.flatMap fun el => el.reserve reg.toRegion).dedup regions

def getAddrspaceExclude (regions : List Exclusion) (config : Config) : List Region :=
  sorted (excludeRegions
    [{ base := 0, size := alignDown config.addrspaceMax config.getPageBits }] regions)

/-! ### Addresses -/

/-- The addresses of a region. -/
instance : Membership ℤ Region where
  mem r x := r.base ≤ x ∧ x < r.base + r.size

theorem Region.mem_iff {r : Region} {x : ℤ} : x ∈ r ↔ r.base ≤ x ∧ x < r.base + r.size := Iff.rfl

/-- An address of one of the regions. -/
def Covered (regions : List Region) (x : ℤ) : Prop := ∃ r ∈ regions, x ∈ r

def Region.Apart (a b : Region) : Prop := ∀ x, x ∈ a → x ∉ b

variable {a b r excluded : Region} {regions reserved : List Region} {x : ℤ}

theorem Region.overlaps_iff : a.overlaps b = true ↔
    a.base ≤ b.base ∧ b.base < a.base + a.size ∨ b.base ≤ a.base ∧ a.base < b.base + b.size := by
  unfold Region.overlaps
  split
  · rename_i h
    exact ⟨fun _ => .inl h, fun _ => rfl⟩
  rename_i h
  split
  · rename_i h'
    exact ⟨fun _ => .inr h', fun _ => rfl⟩
  rename_i h'
  constructor
  · intro hc
    cases hc
  · rintro (hc | hc)
    · exact absurd hc h
    · exact absurd hc h'

/-- The pieces that are left have the addresses that are not excluded. -/
theorem covered_reserve (hsize : 0 ≤ excluded.size) :
    Covered (r.reserve excluded) x ↔ x ∈ r ∧ x ∉ excluded := by
  unfold Covered Region.reserve
  simp only [Region.mem_iff]
  split
  next hover =>
    have hno : ¬(r.overlaps excluded = true) := by
      rw [hover]
      simp
    rw [Region.overlaps_iff] at hno
    simp only [mem_singleton, exists_eq_left]
    omega
  next hover =>
    rw [Bool.not_eq_false, Region.overlaps_iff] at hover
    split
    · split
      · simp only [mem_cons, not_mem_nil, or_false, exists_eq_or_imp, exists_eq_left,
          Region.fromRange]
        omega
      · simp only [mem_singleton, exists_eq_left, Region.fromRange]
        omega
    · split
      · simp only [mem_singleton, exists_eq_left, Region.fromRange]
        omega
      · simp only [not_mem_nil, false_and, exists_false, false_iff]
        omega

/-- Regions that are not empty and have no address in common. -/
structure Separate (regions : List Region) : Prop where
  pos : ∀ r ∈ regions, 0 < r.size
  apart : regions.Pairwise Region.Apart

theorem Region.Apart.symm (h : a.Apart b) : b.Apart a := fun x hx hc => h x hc hx

instance : Std.Symm Region.Apart := ⟨fun _ _ h => h.symm⟩

/-- The pieces of one region. -/
theorem separate_reserve (hr : 0 < r.size) (hsize : 0 ≤ excluded.size) :
    Separate (r.reserve excluded) := by
  unfold Region.reserve
  split
  · exact ⟨by simpa using hr, pairwise_singleton _ _⟩
  have hlast : ∀ start stop : ℤ, start < stop → Separate [Region.fromRange start stop] := by
    intro start stop hlt
    refine ⟨?_, pairwise_singleton _ _⟩
    intro p hp
    rw [mem_singleton] at hp
    rw [hp]
    unfold Region.fromRange
    dsimp only
    omega
  split
  next hfirst =>
    split
    next hrest =>
      refine ⟨?_, ?_⟩
      · intro p hp
        rcases mem_cons.1 hp with rfl | hp
        · unfold Region.fromRange
          dsimp only
          omega
        · exact (hlast _ _ hrest).pos p hp
      · refine pairwise_pair.2 ?_
        intro x hx hc
        rw [Region.mem_iff] at hx hc
        unfold Region.fromRange at hx hc
        dsimp only at hx hc
        omega
    · exact hlast _ _ hfirst
  · split
    next hrest => exact hlast _ _ hrest
    · exact ⟨fun p hp => absurd hp not_mem_nil, List.Pairwise.nil⟩

/-- One round of both loops. -/
theorem covered_round (hsize : 0 ≤ excluded.size) :
    Covered (regions.flatMap fun el => el.reserve excluded).dedup x ↔
      Covered regions x ∧ x ∉ excluded := by
  constructor
  · rintro ⟨p, hp, hx⟩
    rw [mem_dedup, mem_flatMap] at hp
    obtain ⟨r, hr, hp⟩ := hp
    obtain ⟨hxr, hxe⟩ := (covered_reserve hsize).1 ⟨p, hp, hx⟩
    exact ⟨⟨r, hr, hxr⟩, hxe⟩
  · rintro ⟨⟨r, hr, hxr⟩, hxe⟩
    obtain ⟨p, hp, hx⟩ := (covered_reserve hsize).2 ⟨hxr, hxe⟩
    exact ⟨p, mem_dedup.2 (mem_flatMap.2 ⟨r, hr, hp⟩), hx⟩

theorem separate_round (h : Separate regions) (hsize : 0 ≤ excluded.size) :
    Separate (regions.flatMap fun el => el.reserve excluded).dedup := by
  refine ⟨?_, ?_⟩
  · intro p hp
    rw [mem_dedup, mem_flatMap] at hp
    obtain ⟨r, hr, hp⟩ := hp
    exact (separate_reserve (h.pos r hr) hsize).pos p hp
  · refine List.Pairwise.sublist (dedup_sublist _) ?_
    rw [pairwise_flatMap]
    refine ⟨fun r hr => (separate_reserve (h.pos r hr) hsize).apart, ?_⟩
    refine h.apart.imp ?_
    -- pieces of regions that are apart are apart
    intro r1 r2 hapart p hp q hq x hxp hxq
    exact hapart x ((covered_reserve hsize).1 ⟨p, hp, hxp⟩).1
      ((covered_reserve hsize).1 ⟨q, hq, hxq⟩).1

theorem reserveRegions_spec : ∀ (reserved regions : List Region), Separate regions →
    (∀ n ∈ reserved, 0 ≤ n.size) →
    Separate (reserveRegions regions reserved).1 ∧
      (∀ x, Covered (reserveRegions regions reserved).1 x ↔
        Covered regions x ∧ ¬Covered reserved x) ∧ (reserveRegions regions reserved).2 = [] := by
  intro reserved
  induction reserved with
  | nil =>
    intro regions h _
    refine ⟨h, fun x => ?_, rfl⟩
    constructor
    · intro hx
      refine ⟨hx, ?_⟩
      rintro ⟨n, hn, _⟩
      exact absurd hn not_mem_nil
    · exact fun hx => hx.1
  | cons n reserved ih =>
    intro regions h hsize
    have hn := hsize n mem_cons_self
    obtain ⟨hsep, hcov, hempty⟩ := ih _ (separate_round h hn) fun m hm =>
      hsize m (mem_cons_of_mem n hm)
    refine ⟨hsep, fun x => ?_, hempty⟩
    rw [reserveRegions, hcov, covered_round hn]
    unfold Covered
    simp only [mem_cons, exists_eq_or_imp, not_or]
    tauto

theorem excludeRegions_covered : ∀ (regions : List Exclusion) (ret : List Region),
    (∀ n ∈ regions, 0 ≤ n.toRegion.size) →
    ∀ x, Covered (excludeRegions ret regions) x ↔
      Covered ret x ∧ ∀ n ∈ regions, n.skipped = false → x ∉ n.toRegion := by
  intro regions
  induction regions with
  | nil =>
    intro ret _ x
    refine (and_iff_left ?_).symm
    intro n hn
    exact absurd hn not_mem_nil
  | cons n regions ih =>
    intro ret hsize x
    have hrest := fun m hm => hsize m (mem_cons_of_mem n hm)
    rw [excludeRegions]
    split
    · rename_i hskip
      rw [ih _ hrest]
      simp only [forall_mem_cons, hskip, Bool.true_eq_false, false_imp_iff, true_and]
    · rename_i hskip
      rw [ih _ hrest, covered_round (hsize n mem_cons_self)]
      simp only [forall_mem_cons, Bool.eq_false_of_not_eq_true hskip, true_imp_iff]
      tauto

theorem covered_sorted : Covered (sorted regions) x ↔ Covered regions x := by
  unfold Covered sorted
  simp only [mem_insertionSort]

theorem separate_sorted (h : Separate regions) : Separate (sorted regions) := by
  have hperm := perm_insertionSort (fun a b : Region => a.base ≤ b.base) regions
  refine ⟨?_, (hperm.pairwise_iff fun hab => hab.symm).2 h.apart⟩
  intro r hr
  exact h.pos r (hperm.mem_iff.1 hr)

/-! ### What the alignment cuts away -/

variable {config : Config} {first : Region} {rest memory noMap : List Region}

theorem le_alignUp (num : ℤ) (bits : ℕ) : num ≤ alignUp num bits := by
  unfold alignUp
  have hdiv := Int.emod_add_mul_ediv (num + (2 ^ bits - 1)) (2 ^ bits)
  rw [Int.mul_comm] at hdiv
  omega

/-- The first region of the map, without the boot loader and aligned. -/
def alignedFirst (config : Config) (first : Region) : Region :=
  (alignFirst config (reserveBootloader config first).1).1

/-- The memory that is taken from the first region. -/
def cutFirst (config : Config) (first : Region) : List Region :=
  (reserveBootloader config first).2 ++ (alignFirst config (reserveBootloader config first).1).2

/-- The region `left` ends where the first one does, and what is `cut` away lies before it. -/
def CutFrom (first left : Region) (cut : List Region) : Prop :=
  first.base ≤ left.base ∧ left.base + left.size = first.base + first.size ∧
    ∀ x, Covered cut x ↔ first.base ≤ x ∧ x < left.base

theorem cutFrom_nil : CutFrom first first [] := by
  unfold CutFrom Covered
  simp only [not_mem_nil, false_and, exists_false, false_iff]
  exact ⟨le_refl _, trivial, fun x => by omega⟩

theorem cutFrom_alignFirst :
    CutFrom first (alignFirst config first).1 (alignFirst config first).2 := by
  unfold alignFirst
  split
  · have hle := le_alignUp first.base config.getKernelPhysAlign
    unfold CutFrom Region.alignBase Covered
    simp only [mem_singleton, exists_eq_left, Region.mem_iff]
    exact ⟨hle, by omega, fun x => by omega⟩
  · exact cutFrom_nil

theorem cutFrom_reserveBootloader :
    CutFrom first (reserveBootloader config first).1 (reserveBootloader config first).2 := by
  unfold reserveBootloader
  dsimp only
  split
  · unfold CutFrom Covered
    simp only [mem_singleton, exists_eq_left, Region.mem_iff]
    exact ⟨by omega, by omega, fun x => trivial⟩
  · exact cutFrom_nil

theorem alignedFirst_spec : CutFrom first (alignedFirst config first) (cutFirst config first) := by
  obtain ⟨hle1, hend1, hcut1⟩ := @cutFrom_reserveBootloader config first
  obtain ⟨hle2, hend2, hcut2⟩ := @cutFrom_alignFirst config (reserveBootloader config first).1
  unfold alignedFirst
  refine ⟨by omega, by omega, fun x => ?_⟩
  unfold Covered at hcut1 hcut2 ⊢
  simp only [cutFirst, mem_append, or_and_right, exists_or, hcut1, hcut2]
  omega

theorem alignMemory_eq (h : sorted regions = first :: rest) :
    ∃ physBase, alignMemory regions config =
      some ⟨alignedFirst config first :: rest, cutFirst config first, physBase⟩ := by
  refine ⟨if config.arch = .riscv then first.base else (alignedFirst config first).base, ?_⟩
  unfold alignMemory
  rw [h]
  rfl

/-! ### The map -/

/-- The regions that are left of the memory when nothing that is reserved is in them, in the
order of their addresses. -/
def pieces (memory noMap : List Region) : List Region := sorted (reserveRegions memory noMap).1

/-- A map of the memory of a device tree: an address of the memory is in one of the regions or
it is reserved. -/
structure MemoryMap (memory noMap : List Region) (out : PhysicalMemory) : Prop where
  cover : ∀ x, Covered memory x →
    (∃! r, r ∈ out.regions ∧ x ∈ r) ∨ Covered out.reserved x
  disjoint : out.regions.Pairwise Region.Apart
  apart_noMap : ∀ r ∈ out.regions, ∀ n ∈ noMap, r.Apart n
  apart_reserved : ∀ r ∈ out.regions, ∀ n ∈ out.reserved, r.Apart n
  noMap_reserved : ∀ n ∈ noMap, ∀ x ∈ n, Covered out.reserved x
  cut_reserved : ∀ x, Covered (pieces memory noMap) x → ¬Covered out.regions x →
    Covered out.reserved x

/-- The device trees whose map is right: there is memory left, no other region begins in the
part that is cut from the first one, and every address that is not to be mapped is in that
part. -/
def Mappable (memory noMap : List Region) (config : Config) : Prop :=
  ∃ first rest, pieces memory noMap = first :: rest ∧
    (∀ r ∈ rest, (alignedFirst config first).base ≤ r.base) ∧
    ∀ n ∈ noMap, ∀ x ∈ n, first.base ≤ x ∧ x < (alignedFirst config first).base

theorem getPhysicalMemory_eq (h : pieces memory noMap = first :: rest)
    (hresv : (reserveRegions memory noMap).2 = []) :
    ∃ physBase, getPhysicalMemory memory noMap config =
      some ⟨alignedFirst config first :: rest, cutFirst config first, physBase⟩ := by
  obtain ⟨physBase, heq⟩ := @alignMemory_eq (reserveRegions memory noMap).1 config first rest h
  refine ⟨physBase, ?_⟩
  unfold getPhysicalMemory
  dsimp only
  rw [heq, hresv]
  rfl

/-- The regions of the map hold what the pieces hold, without what was cut away. -/
theorem covered_aligned
    (hafter : ∀ r ∈ rest, (alignedFirst config first).base ≤ r.base) :
    Covered (alignedFirst config first :: rest) x ↔
      Covered (first :: rest) x ∧ ¬Covered (cutFirst config first) x := by
  obtain ⟨hle, hend, hcut⟩ := @alignedFirst_spec config first
  rw [hcut]
  unfold Covered
  simp only [mem_cons, exists_eq_or_imp, Region.mem_iff]
  constructor
  · rintro (hx | ⟨r, hr, hx⟩)
    · exact ⟨.inl (by omega), by omega⟩
    · have := hafter r hr
      exact ⟨.inr ⟨r, hr, hx⟩, by omega⟩
  · rintro ⟨hx | hx, hncut⟩
    · exact .inl (by omega)
    · exact .inr hx

/-- The aligned regions are still apart. -/
theorem pairwise_aligned (h : (first :: rest).Pairwise Region.Apart) :
    (alignedFirst config first :: rest).Pairwise Region.Apart := by
  obtain ⟨hle, hend, _⟩ := @alignedFirst_spec config first
  rw [pairwise_cons] at h ⊢
  refine ⟨?_, h.2⟩
  intro r hr x hx
  rw [Region.mem_iff] at hx
  exact h.1 r hr x (Region.mem_iff.2 (by omega))

/-- Exactly one of regions that are apart has an address. -/
theorem existsUnique_of_covered (h : regions.Pairwise Region.Apart) (hx : Covered regions x) :
    ∃! r, r ∈ regions ∧ x ∈ r := by
  obtain ⟨r, hr, hxr⟩ := hx
  refine ⟨r, ⟨hr, hxr⟩, ?_⟩
  rintro q ⟨hq, hxq⟩
  by_contra hne
  exact h.forall hq hr hne x hxq hxr

/-- What the regions that are left of the memory are, if there is a first one. -/
theorem pieces_spec (h : pieces memory noMap = first :: rest) (hsep : Separate memory)
    (hres : ∀ n ∈ noMap, 0 < n.size) :
    Separate (first :: rest) ∧ (∀ r ∈ rest, first.base ≤ r.base) ∧
      ∀ x, Covered (first :: rest) x ↔ Covered memory x ∧ ¬Covered noMap x := by
  obtain ⟨hsep, hcov, _⟩ := reserveRegions_spec noMap memory hsep fun n hn => (hres n hn).le
  rw [← h]
  refine ⟨separate_sorted hsep, ?_, fun x => by rw [pieces, covered_sorted, hcov]⟩
  have hle : (first :: rest).Pairwise fun a b => a.base ≤ b.base := by
    have : Std.Total fun a b : Region => a.base ≤ b.base := ⟨fun a b => le_total a.base b.base⟩
    have : IsTrans Region fun a b => a.base ≤ b.base := ⟨fun _ _ _ => le_trans⟩
    rw [← h]
    exact pairwise_insertionSort (fun a b : Region => a.base ≤ b.base) _
  exact (pairwise_cons.1 hle).1

/-- The map is right if the cut meets no other region and holds what is not to be mapped. -/
theorem memoryMap_of_cut {physBase : ℤ} (h : pieces memory noMap = first :: rest)
    (hsep : Separate memory) (hres : ∀ n ∈ noMap, 0 < n.size)
    (hafter : ∀ r ∈ rest, (alignedFirst config first).base ≤ r.base)
    (hinside : ∀ n ∈ noMap, ∀ x ∈ n, first.base ≤ x ∧ x < (alignedFirst config first).base) :
    MemoryMap memory noMap
      ⟨alignedFirst config first :: rest, cutFirst config first, physBase⟩ := by
  obtain ⟨hpieces, _, hleft⟩ := pieces_spec h hsep hres
  obtain ⟨_, _, hcut⟩ := @alignedFirst_spec config first
  have halign := fun x => @covered_aligned x config first rest hafter
  have hnoMap : ∀ x, Covered noMap x → Covered (cutFirst config first) x := by
    rintro x ⟨n, hn, hx⟩
    exact (hcut x).2 (hinside n hn x hx)
  have hdisjoint := @pairwise_aligned config first rest hpieces.apart
  refine ⟨?_, hdisjoint, ?_, ?_, ?_, ?_⟩
  · intro x hx
    by_cases hc : Covered (cutFirst config first) x
    · exact .inr hc
    · refine .inl (existsUnique_of_covered hdisjoint ((halign x).2 ⟨?_, hc⟩))
      exact (hleft x).2 ⟨hx, fun hn => hc (hnoMap x hn)⟩
  · intro r hr n hn x hx hxn
    exact ((halign x).1 ⟨r, hr, hx⟩).2 (hnoMap x ⟨n, hn, hxn⟩)
  · intro r hr n hn x hx hxn
    exact ((halign x).1 ⟨r, hr, hx⟩).2 ⟨n, hn, hxn⟩
  · exact fun n hn x hx => hnoMap x ⟨n, hn, hx⟩
  · intro x hx hno
    by_contra hc
    rw [h] at hx
    exact hno ((halign x).2 ⟨hx, hc⟩)

/-- A map that is right has reserved nothing of another region, and all that is not to be
mapped; but only the cut is reserved. -/
theorem cut_of_memoryMap {physBase : ℤ} (h : pieces memory noMap = first :: rest)
    (hsep : Separate memory) (hres : ∀ n ∈ noMap, 0 < n.size)
    (hmap : MemoryMap memory noMap
      ⟨alignedFirst config first :: rest, cutFirst config first, physBase⟩) :
    (∀ r ∈ rest, (alignedFirst config first).base ≤ r.base) ∧
      ∀ n ∈ noMap, ∀ x ∈ n, first.base ≤ x ∧ x < (alignedFirst config first).base := by
  obtain ⟨hpieces, hsorted, _⟩ := pieces_spec h hsep hres
  obtain ⟨_, _, hcut⟩ := @alignedFirst_spec config first
  refine ⟨?_, fun n hn x hx => (hcut x).1 (hmap.noMap_reserved n hn x hx)⟩
  intro r hr
  have hpos := hpieces.pos r (mem_cons_of_mem first hr)
  by_contra hlt
  obtain ⟨n, hn, hx⟩ := (hcut r.base).2 ⟨hsorted r hr, not_le.1 hlt⟩
  exact hmap.apart_reserved r (mem_cons_of_mem _ hr) n hn r.base
    (Region.mem_iff.2 ⟨le_refl _, by omega⟩) hx

theorem getPhysicalMemory_nil (h : pieces memory noMap = []) :
    getPhysicalMemory memory noMap config = none := by
  unfold pieces at h
  unfold getPhysicalMemory alignMemory
  dsimp only
  rw [h]

/-- **Main result.** The map of a device tree is right exactly if the tree is mappable, and the
address space without some regions is what the loop computes. -/
theorem memoryMap_iff_mappable (memory noMap : List Region) (config : Config)
    (hmem : ∀ r ∈ memory, 0 < r.size) (hres : ∀ n ∈ noMap, 0 < n.size)
    (hapart : memory.Pairwise Region.Apart) :
    ((∃ out, getPhysicalMemory memory noMap config = some out ∧ MemoryMap memory noMap out) ↔
      Mappable memory noMap config) ∧
      ∀ given : List Exclusion, (∀ n ∈ given, 0 < n.toRegion.size) → ∀ x,
        Covered (getAddrspaceExclude given config) x ↔
          (0 ≤ x ∧ x < alignDown config.addrspaceMax config.getPageBits) ∧
            ∀ n ∈ given, n.skipped = false → x ∉ n.toRegion := by
  have hsep : Separate memory := ⟨hmem, hapart⟩
  obtain ⟨_, _, hresv⟩ := reserveRegions_spec noMap memory hsep fun n hn => (hres n hn).le
  refine ⟨⟨?_, ?_⟩, ?_⟩
  · rintro ⟨out, hout, hmap⟩
    cases h : pieces memory noMap with
    | nil =>
      rw [getPhysicalMemory_nil h] at hout
      cases hout
    | cons first rest =>
      obtain ⟨physBase, heq⟩ := @getPhysicalMemory_eq config first rest memory noMap h hresv
      rw [heq, Option.some.injEq] at hout
      subst hout
      exact ⟨first, rest, h, cut_of_memoryMap h hsep hres hmap⟩
  · rintro ⟨first, rest, h, hafter, hinside⟩
    obtain ⟨physBase, heq⟩ := @getPhysicalMemory_eq config first rest memory noMap h hresv
    exact ⟨_, heq, memoryMap_of_cut h hsep hres hafter hinside⟩
  · intro given hgiven x
    rw [getAddrspaceExclude, covered_sorted,
      excludeRegions_covered given _ fun n hn => (hgiven n hn).le]
    refine and_congr_left fun _ => ?_
    unfold Covered
    simp only [mem_singleton, exists_eq_left, Region.mem_iff]
    omega

/-- A small bank whose end belongs to the firmware, and a large one behind what is cut away. -/
theorem memoryMap_of_banks : ∃ out,
    getPhysicalMemory [⟨0x80000000, 0x180000⟩, ⟨0x80200000, 0x10000000⟩]
      [⟨0x80100000, 0x80000⟩] ⟨.riscv, 0x8000000000⟩ = some out ∧
    MemoryMap [⟨0x80000000, 0x180000⟩, ⟨0x80200000, 0x10000000⟩]
      [⟨0x80100000, 0x80000⟩] out := by
  refine (memoryMap_iff_mappable [⟨0x80000000, 0x180000⟩, ⟨0x80200000, 0x10000000⟩]
    [⟨0x80100000, 0x80000⟩] ⟨.riscv, 0x8000000000⟩ (by decide) (by decide) ?_).1.2 ?_
  · refine pairwise_pair.2 fun x hx hc => ?_
    rw [Region.mem_iff] at hx hc
    dsimp only at hx hc
    omega
  · refine ⟨⟨0x80000000, 0x100000⟩, [⟨0x80200000, 0x10000000⟩], by decide, by decide, ?_⟩
    intro n hn x hx
    rw [mem_singleton.1 hn, Region.mem_iff] at hx
    have hbase : (alignedFirst ⟨.riscv, 0x8000000000⟩ ⟨0x80000000, 0x100000⟩).base =
        0x80200000 := rfl
    rw [hbase]
    dsimp only at hx ⊢
    omega

/-- With a region of the firmware in the bank, the set that is returned has lost it. -/
theorem noMap_lost : ∃ out,
    getPhysicalMemory [⟨0x80000000, 0x10000000⟩] [⟨0x88000000, 0x1000⟩] ⟨.riscv, 0x8000000000⟩ =
      some out ∧
    ¬∀ n ∈ [(⟨0x88000000, 0x1000⟩ : Region)], ∀ x ∈ n, Covered out.reserved x := by
  refine ⟨⟨[⟨0x80200000, 0x7e00000⟩, ⟨0x88001000, 0x7fff000⟩], [⟨0x80000000, 0x200000⟩],
    0x80000000⟩, by decide, ?_⟩
  intro h
  obtain ⟨r, hr, hx⟩ := h _ mem_cons_self 0x88000000 (Region.mem_iff.2 (by decide))
  rw [mem_singleton] at hr
  rw [hr] at hx
  exact absurd hx.2 (by decide)

end SeL4Kernel.Hardware
