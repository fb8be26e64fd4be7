import SeL4Kernel.Hardware.Memory

/-!
# The pages through which the kernel sees a device

`KernelRegionGroup` of `tools/hardware/utils/rule.py`: a device region is cut to the size that the
kernel needs, aligned to pages by `align_size` and made into pages by `make_chunks`.

`align_size` moves the base down and rounds the size up as it was, without what the base was moved
by. `mapped_iff`: the pages are right exactly if the end of the region does not pass the end of
its rounded size; otherwise the last page is missing.
-/

namespace SeL4Kernel.Hardware

open List

/-! ### The source -/

def Region.alignSize (self : Region) (alignBits : ℕ) : Region :=
  { base := alignDown self.base alignBits, size := alignUp self.size alignBits }

/-- The loop of `make_chunks`, with fuel. -/
def chunkLoop (chunksz : ℤ) : ℕ → ℤ → ℤ → Option (List Region)
  | 0, _, size => if size > 0 then none else some []
  | fuel + 1, base, size =>
    if size > 0 then
      (chunkLoop chunksz fuel (base + chunksz) (size - chunksz)).map
        ({ base, size := min size chunksz } :: ·)
    else some []

def Region.makeChunks (self : Region) (chunksz : ℤ) : Option (List Region) :=
  chunkLoop chunksz self.size.toNat self.base self.size

/-- Macro, description and `user_ok` are left out; `label` is the offset of the kernel's name. -/
structure KernelRegionGroup where
  base : ℤ
  size : ℤ
  regions : List Region
  label : ℤ
  deriving DecidableEq, Repr

/-- The region of a device after the constructor has limited its size. -/
def Region.limit (region : Region) (maxSize : ℤ) : Region :=
  { region with size := min maxSize region.size }

/-- The constructor. -/
def KernelRegionGroup.init (region : Region) (pageBits : ℕ) (maxSize : ℤ) :
    Option KernelRegionGroup := do
  let aligned := (region.limit maxSize).alignSize pageBits
  let regions ← aligned.makeChunks (2 ^ pageBits)
  some { base := aligned.base, size := aligned.size, regions, label := region.base - aligned.base }

/-! ### Pages -/

/-- The `k` pages from `base` on. -/
def pagesFrom (base page : ℤ) (k : ℕ) : List Region :=
  (List.range k).map fun i : ℕ => { base := base + i * page, size := page }

/-- The loop cuts a multiple of the page size into pages. -/
theorem chunkLoop_pages {page : ℤ} (hpage : 0 < page) (k : ℕ) : ∀ {fuel : ℕ} (base : ℤ),
    k ≤ fuel → chunkLoop page fuel base (k * page) = some (pagesFrom base page k) := by
  induction k with
  | zero =>
    intro fuel base _
    cases fuel <;> simp [chunkLoop, pagesFrom]
  | succ k ih =>
    intro fuel base hfuel
    obtain ⟨fuel, rfl⟩ : ∃ n, fuel = n + 1 := ⟨fuel - 1, by omega⟩
    have hsize : ((k + 1 : ℕ) : ℤ) * page = k * page + page := by
      rw [Int.natCast_succ, Int.add_mul, Int.one_mul]
    have hk : 0 ≤ (k : ℤ) * page := Int.mul_nonneg (Int.natCast_nonneg k) hpage.le
    have hrest : pagesFrom base page (k + 1) =
        { base, size := page } :: pagesFrom (base + page) page k := by
      unfold pagesFrom
      rw [List.range_succ_eq_map, map_cons, map_map]
      refine congrArg₂ _ (by simp) (map_congr_left fun i _ => ?_)
      simp only [Function.comp_apply, Int.natCast_succ, Int.add_mul, Int.one_mul]
      rw [Int.add_comm (i * page), Int.add_assoc]
    rw [chunkLoop, hsize, if_pos (by omega), Int.add_sub_cancel, ih _ (by omega), hrest,
      Int.min_eq_right (by omega)]
    rfl

/-- The pages of a group, for a region that is not empty. -/
theorem init_eq {region : Region} {n : ℕ} {maxSize : ℤ} (hpos : 0 < (region.limit maxSize).size) :
    ∃ g k, KernelRegionGroup.init region n maxSize = some g ∧
      g.regions = pagesFrom (alignDown region.base n) (2 ^ n) k ∧
      (k : ℤ) * 2 ^ n = alignUp (region.limit maxSize).size n := by
  have hpage : (0 : ℤ) < 2 ^ n := Int.pow_pos (by decide)
  generalize hsize : (region.limit maxSize).size = size at hpos
  have hk : 0 ≤ (size + (2 ^ n - 1)) / 2 ^ n := Int.ediv_nonneg (by omega) hpage.le
  have hup : (((size + (2 ^ n - 1)) / 2 ^ n).toNat : ℤ) * 2 ^ n = alignUp size n := by
    rw [Int.toNat_of_nonneg hk]
    rfl
  have hle : ((size + (2 ^ n - 1)) / 2 ^ n).toNat ≤ (alignUp size n).toNat := by
    have hone := Int.mul_le_mul_of_nonneg_left (show (1 : ℤ) ≤ 2 ^ n by omega) hk
    unfold alignUp
    omega
  have hloop := chunkLoop_pages hpage _ (alignDown region.base n) hle
  rw [hup] at hloop
  refine ⟨⟨alignDown region.base n, alignUp size n, _, region.base - alignDown region.base n⟩, _,
    ?_, rfl, hup⟩
  unfold KernelRegionGroup.init Region.makeChunks Region.alignSize
  rw [hsize]
  exact congrArg (· >>= _) hloop

variable {base page x : ℤ} {k : ℕ} {region r : Region}

theorem mem_pagesFrom : r ∈ pagesFrom base page k ↔ ∃ i < k, ⟨base + i * page, page⟩ = r := by
  simp [pagesFrom]

/-- A page ends before the next one begins. -/
theorem mul_add_le (hpage : 0 < page) {i j : ℕ} (h : i < j) : i * page + page ≤ j * page := by
  have hle := Int.mul_le_mul_of_nonneg_right (show (i : ℤ) + 1 ≤ j by omega) hpage.le
  rwa [Int.add_mul, Int.one_mul] at hle

theorem covered_pagesFrom (hpage : 0 < page) :
    Covered (pagesFrom base page k) x ↔ base ≤ x ∧ x < base + k * page := by
  constructor
  · rintro ⟨r, hr, hle, hlt⟩
    obtain ⟨i, hi, rfl⟩ := mem_pagesFrom.1 hr
    have hend := mul_add_le hpage hi
    have hpos := Int.mul_nonneg (Int.natCast_nonneg i) hpage.le
    dsimp only at hle hlt
    omega
  · rintro ⟨hle, hlt⟩
    have hdiv := Int.mul_ediv_add_emod (x - base) page
    have hmod := Int.emod_nonneg (x - base) hpage.ne'
    have hmod' := Int.emod_lt_of_pos (x - base) hpage
    have hi : (((x - base) / page).toNat : ℤ) = (x - base) / page :=
      Int.toNat_of_nonneg (Int.ediv_nonneg (by omega) hpage.le)
    have hk : (x - base) / page < k := Int.ediv_lt_of_lt_mul hpage (by omega)
    refine ⟨_, mem_pagesFrom.2 ⟨((x - base) / page).toNat, by omega, rfl⟩, ?_⟩
    rw [Region.mem_iff, hi, Int.mul_comm]
    dsimp only
    omega

theorem apart_pagesFrom (hpage : 0 < page) : (pagesFrom base page k).Pairwise Region.Apart := by
  refine List.Pairwise.map _ (fun i j hij x hi hj => ?_) List.pairwise_lt_range
  have hend := mul_add_le hpage hij
  rw [Region.mem_iff] at hi hj
  dsimp only at hi hj
  omega

theorem alignDown_add_emod (num : ℤ) (bits : ℕ) : alignDown num bits + num % 2 ^ bits = num := by
  unfold alignDown
  rw [Int.mul_comm]
  exact Int.mul_ediv_add_emod num (2 ^ bits)

/-- The pages have every byte of the region, and are the pages that the region meets. -/
structure Covers (region : Region) (bits : ℕ) (pages : List Region) : Prop where
  bytes : ∀ x ∈ region, Covered pages x
  meets : ∀ b, 2 ^ bits ∣ b →
    (⟨b, 2 ^ bits⟩ ∈ pages ↔ ∃ x ∈ region, x ∈ (⟨b, 2 ^ bits⟩ : Region))

/-- Pages that have an address in common are the same. -/
theorem eq_of_dvd_of_mem (hpage : 0 < page) {a b : ℤ} (ha : page ∣ a) (hb : page ∣ b)
    (hxa : x ∈ (⟨a, page⟩ : Region)) (hxb : x ∈ (⟨b, page⟩ : Region)) : a = b := by
  rw [Region.mem_iff] at hxa hxb
  dsimp only at hxa hxb
  have hzero := Int.eq_zero_of_dvd_of_natAbs_lt_natAbs (Int.dvd_sub ha hb) (by omega)
  omega

/-- **Device mappings.** The kernel maps pages of the device, each once, and it maps all of them
exactly if the region, moved down to the page it begins in, does not pass its rounded size. -/
theorem mapped_iff {n : ℕ} {maxSize : ℤ} (hpos : 0 < (region.limit maxSize).size) :
    ∃ g, KernelRegionGroup.init region n maxSize = some g ∧
      (∀ r ∈ g.regions, 2 ^ n ∣ r.base ∧ r.size = 2 ^ n ∧ ∃ x ∈ region.limit maxSize, x ∈ r) ∧
      g.regions.Pairwise Region.Apart ∧
      (Covers (region.limit maxSize) n g.regions ↔ region.base % 2 ^ n +
        (region.limit maxSize).size ≤ alignUp (region.limit maxSize).size n) := by
  obtain ⟨g, k, hinit, hregions, hk⟩ := init_eq (n := n) hpos
  have hpage : (0 : ℤ) < 2 ^ n := Int.pow_pos (by decide)
  have hbase := alignDown_add_emod region.base n
  have hdvd : (2 : ℤ) ^ n ∣ alignDown region.base n := Int.dvd_mul_left _ _
  have hround : alignUp (region.limit maxSize).size n < (region.limit maxSize).size + 2 ^ n := by
    have := Int.ediv_mul_le ((region.limit maxSize).size + (2 ^ n - 1)) hpage.ne'
    unfold alignUp
    omega
  have hmem : ∀ x, x ∈ region.limit maxSize ↔
      region.base ≤ x ∧ x < region.base + (region.limit maxSize).size := fun x => Iff.rfl
  have hmeets : ∀ r ∈ g.regions,
      2 ^ n ∣ r.base ∧ r.size = 2 ^ n ∧ ∃ x ∈ region.limit maxSize, x ∈ r := by
    intro r hr
    rw [hregions] at hr
    obtain ⟨i, hi, rfl⟩ := mem_pagesFrom.1 hr
    have hend := mul_add_le hpage hi
    have hi' := Int.mul_nonneg (Int.natCast_nonneg i) hpage.le
    refine ⟨Int.dvd_add hdvd (Int.dvd_mul_left _ _), rfl,
      max region.base (alignDown region.base n + i * 2 ^ n), ?_, ?_⟩
    · rw [hmem]
      omega
    · rw [Region.mem_iff]
      dsimp only
      omega
  refine ⟨g, hinit, hmeets, hregions ▸ apart_pagesFrom hpage, fun h => ?_, fun h => ?_⟩
  · -- the last byte is on one of the pages
    have hlast := h.bytes (region.base + (region.limit maxSize).size - 1) ((hmem _).2 (by omega))
    rw [hregions, covered_pagesFrom hpage] at hlast
    omega
  · have hbytes : ∀ x ∈ region.limit maxSize, Covered g.regions x := by
      intro x hx
      rw [hmem] at hx
      rw [hregions, covered_pagesFrom hpage]
      omega
    refine ⟨hbytes, fun b hb => ⟨fun hr => (hmeets _ hr).2.2, ?_⟩⟩
    rintro ⟨x, hx, hxb⟩
    obtain ⟨⟨a, size⟩, hr, hxr⟩ := hbytes x hx
    obtain ⟨ha, rfl, -⟩ := hmeets _ hr
    rwa [eq_of_dvd_of_mem hpage hb ha hxb hxr]

/-- A timer of one page. -/
theorem mapped_iff_page : ∃ g, KernelRegionGroup.init ⟨0x1000, 0x2000⟩ 12 0x1000 = some g ∧
    Covers ⟨0x1000, 0x1000⟩ 12 g.regions := by
  obtain ⟨g, hinit, -, -, hiff⟩ := @mapped_iff ⟨0x1000, 0x2000⟩ 12 0x1000 (by decide)
  exact ⟨g, hinit, hiff.2 (by decide)⟩

/-- Two bytes on both sides of a page boundary: only the first page is mapped. -/
theorem page_missing : ∃ g, KernelRegionGroup.init ⟨0xfff, 2⟩ 12 0x1000 = some g ∧
    g.regions = [⟨0, 0x1000⟩] ∧ 0x1000 ∈ Region.limit ⟨0xfff, 2⟩ 0x1000 ∧
    ¬Covered g.regions 0x1000 := by
  refine ⟨⟨0, 0x1000, [⟨0, 0x1000⟩], 0xfff⟩, ?_, rfl, ?_, ?_⟩
  · decide +kernel
  · exact ⟨by decide, by decide⟩
  rintro ⟨r, hr, -, hlt⟩
  rw [mem_singleton] at hr
  rw [hr] at hlt
  exact absurd hlt (by decide)

end SeL4Kernel.Hardware
