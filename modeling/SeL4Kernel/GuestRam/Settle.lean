import SeL4Kernel.GuestRam.Regions

/-!
# Sorting and collapsing the regions

Regions that are apart and lie in a window of less than `2 ^ 31` bytes are compared by their
start addresses. Sorted and collapsed they are one after the other, neighbours differ or do
not touch, and every byte keeps its flag.
-/

namespace SeL4Kernel.GuestRam

open Range List

/-- The bytes of a region. -/
def RamRegion.range (r : RamRegion) : Range Nat := ⟨r.start, r.start + r.size⟩

/-- The byte is in a region with the flag. -/
def Part (rs : List RamRegion) (flag : Bool) (x : Nat) : Prop :=
  ∃ r ∈ rs, r.allocated = flag ∧ x ∈ r.range

/-- The region is not empty and lies in the window from `lo` on. -/
structure Fits (lo : Nat) (r : RamRegion) : Prop where
  pos : 0 < r.size
  start : lo ≤ r.start
  stop : r.start + r.size ≤ lo + 2 ^ 31

/-- Regions in any order. -/
structure Loose (lo : Nat) (rs : List RamRegion) : Prop where
  fits : ∀ r ∈ rs, Fits lo r
  apart : rs.Pairwise fun a b => a.range.Apart b.range

/-- Two neighbours that could be joined. -/
def Joins (a b : RamRegion) : Prop := a.allocated = b.allocated ∧ a.start + a.size = b.start

/-- Regions as every operation leaves them. -/
structure Settled (lo : Nat) (rs : List RamRegion) : Prop where
  fits : ∀ r ∈ rs, Fits lo r
  sorted : rs.Pairwise fun a b => a.start + a.size ≤ b.start
  collapsed : rs.IsChain fun a b => ¬Joins a b

variable {lo : Nat} {rs rs' : List RamRegion} {r a b : RamRegion} {flag : Bool} {x : Nat}

theorem Fits.range_lt (h : Fits lo r) : r.range.start < r.range.stop :=
  Nat.lt_add_of_pos_right h.pos

theorem Fits.stop_eq (h : Fits lo r) (hlo : lo + 2 ^ 31 < 2 ^ 64) : r.stop = r.start + r.size :=
  Nat.mod_eq_of_lt (by have := h.stop; omega)

theorem Settled.loose (h : Settled lo rs) : Loose lo rs :=
  ⟨h.fits, h.sorted.imp fun hab => apart_of_le hab⟩

@[simp] theorem part_cons : Part (r :: rs) flag x ↔
    r.allocated = flag ∧ x ∈ r.range ∨ Part rs flag x := by
  simp [Part, or_and_right, exists_or]

@[simp] theorem part_append : Part (rs ++ rs') flag x ↔ Part rs flag x ∨ Part rs' flag x := by
  simp [Part, or_and_right, exists_or]

theorem part_congr (h : ∀ r, r ∈ rs ↔ r ∈ rs') : Part rs flag x ↔ Part rs' flag x := by
  simp only [Part, h]

/-! ### Sorting -/

/-- The difference of two words that are close to each other, as an `int`. -/
theorem bmod_sub {m n : Nat} (hmn : m < n + 2 ^ 31) (hnm : n < m + 2 ^ 31) :
    Int.bmod ((m + 2 ^ 64 - n) % 2 ^ 64 : Nat) (2 ^ 32) = (m : ℤ) - n := by
  rw [Int.bmod_def]
  omega

/-- In the window, regions are compared by their start addresses. -/
theorem ramRegionCmp_eq (ha : Fits lo a) (hb : Fits lo b) :
    ramRegionCmp a b ≤ 0 ↔ a.start ≤ b.start := by
  have h1 := ha.pos
  have h2 := hb.pos
  have h3 := ha.start
  have h4 := hb.start
  have h5 := ha.stop
  have h6 := hb.stop
  have hcmp : ramRegionCmp a b = (a.start : ℤ) - b.start := bmod_sub (by omega) (by omega)
  omega

theorem sort_eq (h : ∀ r ∈ rs, Fits lo r) :
    sortGuestRamRegions rs = rs.insertionSort fun a b => a.start ≤ b.start := by
  have hmap := map_insertionSort (r := fun a b => ramRegionCmp a b ≤ 0)
    (s := fun a b => a.start ≤ b.start) id rs
    fun a ha b hb => ramRegionCmp_eq (h a ha) (h b hb)
  rw [sortGuestRamRegions]
  simpa using hmap

theorem sort_perm : (sortGuestRamRegions rs).Perm rs := perm_insertionSort _ rs

/-- Regions that are apart are one after the other once they are sorted. -/
theorem sort_sorted (h : Loose lo rs) :
    (sortGuestRamRegions rs).Pairwise fun a b => a.start + a.size ≤ b.start := by
  have hstart : (sortGuestRamRegions rs).Pairwise fun a b => a.start ≤ b.start := by
    rw [sort_eq h.fits]
    exact pairwise_insertionSort _ rs
  have hapart : (sortGuestRamRegions rs).Pairwise fun a b => a.range.Apart b.range :=
    (sort_perm.pairwise_iff fun hab => hab.symm).mpr h.apart
  refine (hstart.and hapart).imp_of_mem fun {a b} ha hb hab => ?_
  have hfa := h.fits a (sort_perm.mem_iff.mp ha)
  have hfb := h.fits b (sort_perm.mem_iff.mp hb)
  rcases hab.2.le_or_le hfa.range_lt hfb.range_lt with hle | hle
  · exact hle
  · have hpos := hfb.pos
    change b.start + b.size ≤ a.start at hle
    omega

/-! ### Collapsing -/

/-- The region that two neighbours become. -/
theorem joined_range (h : a.start + a.size = b.start) :
    x ∈ (⟨a.start, a.size + b.size, flag⟩ : RamRegion).range ↔ x ∈ a.range ∨ x ∈ b.range := by
  change a.start ≤ x ∧ x < a.start + (a.size + b.size) ↔
    (a.start ≤ x ∧ x < a.start + a.size) ∨ (b.start ≤ x ∧ x < b.start + b.size)
  omega

/-- The loop keeps the first start address and flag. By induction on the regions that are
left. -/
theorem collapseFrom_spec (hlo : lo + 2 ^ 31 < 2 ^ 64) (hfits : ∀ q ∈ r :: rs, Fits lo q)
    (hsorted : (r :: rs).Pairwise fun a b => a.start + a.size ≤ b.start) :
    ∃ first rest, collapseFrom r rs = first :: rest ∧ first.start = r.start ∧
      first.allocated = r.allocated ∧ Settled lo (first :: rest) ∧
      ∀ flag x, Part (first :: rest) flag x ↔ Part (r :: rs) flag x := by
  induction rs generalizing r with
  | nil => exact ⟨r, [], rfl, rfl, rfl, ⟨hfits, hsorted, .singleton r⟩, fun _ _ => Iff.rfl⟩
  | cons next rest ih =>
    have hr := hfits r mem_cons_self
    have hnext := hfits next (by simp)
    obtain ⟨hbefore, htail⟩ := pairwise_cons.mp hsorted
    obtain ⟨hafter, hrest⟩ := pairwise_cons.mp htail
    rw [collapseFrom, hr.stop_eq hlo]
    split
    next hjoin =>
      have hstop := hnext.stop
      have hpos := hr.pos
      have hsize : (r.size + next.size) % 2 ^ 64 = r.size + next.size := Nat.mod_eq_of_lt (by omega)
      rw [hsize]
      have hfits' : ∀ q ∈ { r with size := r.size + next.size } :: rest, Fits lo q := by
        intro q hq
        rcases mem_cons.mp hq with rfl | hq
        · exact ⟨by dsimp only; omega, hr.start, by dsimp only; omega⟩
        · exact hfits q (by simp [hq])
      have hsorted' : ({ r with size := r.size + next.size } :: rest).Pairwise
          fun a b => a.start + a.size ≤ b.start := by
        refine pairwise_cons.mpr ⟨fun q hq => ?_, hrest⟩
        have := hafter q hq
        dsimp only
        omega
      obtain ⟨first, rest', heq, hfirst, hflag, hsettled, hpart⟩ := ih hfits' hsorted'
      refine ⟨first, rest', heq, hfirst, hflag, hsettled, fun flag x => ?_⟩
      rw [hpart, part_cons, part_cons, part_cons, joined_range hjoin.2, ← hjoin.1]
      tauto
    next hjoin =>
      obtain ⟨first, rest', heq, hfirst, hflag, hsettled, hpart⟩ :=
        ih (fun q hq => hfits q (mem_cons_of_mem _ hq)) htail
      refine ⟨r, first :: rest', by rw [heq], rfl, rfl, ⟨?_, ?_, ?_⟩, fun flag x => ?_⟩
      · intro q hq
        rcases mem_cons.mp hq with rfl | hq
        · exact hr
        · exact hsettled.fits q hq
      · refine pairwise_cons.mpr ⟨fun q hq => ?_, hsettled.sorted⟩
        have hin : Part (first :: rest') q.allocated q.start :=
          ⟨q, hq, rfl, le_refl _, (hsettled.fits q hq).range_lt⟩
        obtain ⟨p, hp, -, hle, -⟩ := (hpart _ _).mp hin
        exact le_trans (hbefore p hp) hle
      · refine isChain_cons_cons.mpr ⟨?_, hsettled.collapsed⟩
        rw [Joins, hfirst, hflag]
        exact hjoin
      · exact part_cons.trans ((or_congr_right (hpart flag x)).trans part_cons.symm)

/-- **Settling keeps every byte's flag.** -/
theorem settle_spec (h : Loose lo rs) (hlo : lo + 2 ^ 31 < 2 ^ 64) :
    Settled lo (settle rs) ∧ ∀ flag x, Part (settle rs) flag x ↔ Part rs flag x := by
  have hsorted := sort_sorted h
  have hmem : ∀ r, r ∈ sortGuestRamRegions rs ↔ r ∈ rs := fun r => sort_perm.mem_iff
  rw [settle]
  generalize sortGuestRamRegions rs = l at hsorted hmem
  have hpart : ∀ flag x, Part l flag x ↔ Part rs flag x := fun _ _ => part_congr hmem
  cases l with
  | nil => exact ⟨⟨by simp [collapseGuestRamRegions], .nil, .nil⟩, hpart⟩
  | cons r rest =>
    obtain ⟨first, rest', heq, -, -, hsettled, hsame⟩ :=
      collapseFrom_spec hlo (fun q hq => h.fits q ((hmem q).mp hq)) hsorted
    rw [collapseGuestRamRegions, heq]
    exact ⟨hsettled, fun flag x => (hsame flag x).trans (hpart flag x)⟩

end SeL4Kernel.GuestRam
