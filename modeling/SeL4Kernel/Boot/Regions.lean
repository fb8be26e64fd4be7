import SeL4Kernel.Lib.Ranges

/-!
# Regions of memory during boot

`merge_regions`, `reserve_region` and `insert_region` of `kernel/boot.c`, with the constants of
RISC-V with three levels of page tables. The array of reserved regions is a list of the
entries that count, that of free regions has all its entries.

`reserve_region` keeps its regions sorted by their starts and merges those that touch, but not
those that overlap. In any case they then cover one region more (`reserveRegion_merged`).
-/

namespace SeL4Kernel.Boot

open List Range

/-- `region_t` and `p_region_t`. -/
abbrev Region := Range ℕ

/-- How the boot stops without an end. -/
inductive Failure where
  | assertion
  | halt
  | outOfBounds
  deriving DecidableEq, Repr

def assert (p : Prop) [Decidable p] : Except Failure Unit :=
  if p then .ok () else .error .assertion

theorem assert_eq {p : Prop} [Decidable p] (h : p) : assert p = .ok () := if_pos h

/-! ### Addresses -/

/-- A `word_t`. -/
def word (n : ℕ) : ℕ := n % 2 ^ 64

/-- Subtraction of words. -/
def wordSub (a b : ℕ) : ℕ := (a + (2 ^ 64 - b)) % 2 ^ 64

/-- `PPTR_BASE_OFFSET`, where the base of physical memory is 0. -/
def pptrBaseOffset : ℕ := 0xFFFFFFC000000000

/-- `PPTR_TOP`. -/
def pptrTop : ℕ := 0xFFFFFFFF80000000

def paddrToPptr (paddr : ℕ) : ℕ := word (paddr + pptrBaseOffset)

def pptrToPaddr (pptr : ℕ) : ℕ := wordSub pptr pptrBaseOffset

def paddrToPptrReg (reg : Region) : Region := ⟨paddrToPptr reg.start, paddrToPptr reg.stop⟩

def pptrToPaddrReg (reg : Region) : Region := ⟨pptrToPaddr reg.start, pptrToPaddr reg.stop⟩

/-- `PADDR_TOP`. -/
def paddrTop : ℕ := pptrToPaddr pptrTop

/-- A pointer into the kernel window, or to its end. -/
def InWindow (pptr : ℕ) : Prop := pptrBaseOffset ≤ pptr ∧ pptr ≤ pptrTop

instance (pptr : ℕ) : Decidable (InWindow pptr) := inferInstanceAs (Decidable (_ ∧ _))

variable {pptr paddr x : ℕ} {reg a r : Region}

theorem pptrToPaddr_eq (h : InWindow pptr) : pptrToPaddr pptr = pptr - pptrBaseOffset := by
  unfold InWindow at h
  unfold pptrToPaddr wordSub pptrBaseOffset pptrTop at *
  omega

theorem paddrToPptr_eq (h : paddr ≤ paddrTop) : paddrToPptr paddr = paddr + pptrBaseOffset := by
  have htop : paddrTop = 0x3F80000000 := by decide
  unfold paddrToPptr word pptrBaseOffset
  omega

theorem inWindow_paddrToPptr (h : paddr ≤ paddrTop) : InWindow (paddrToPptr paddr) := by
  rw [paddrToPptr_eq h]
  have htop : paddrTop = 0x3F80000000 := by decide
  unfold InWindow pptrBaseOffset pptrTop
  omega

/-- A region of the window. -/
def Inside (reg : Region) : Prop := InWindow reg.start ∧ InWindow reg.stop

instance (reg : Region) : Decidable (Inside reg) := inferInstanceAs (Decidable (_ ∧ _))

theorem mem_pptrToPaddrReg (h : Inside reg) :
    x ∈ pptrToPaddrReg reg ↔ x + pptrBaseOffset ∈ reg := by
  unfold pptrToPaddrReg
  simp only [mem_iff, pptrToPaddr_eq h.1, pptrToPaddr_eq h.2]
  omega

theorem pptrToPaddrReg_lt (h : Inside reg) (hlt : reg.start < reg.stop) :
    (pptrToPaddrReg reg).start < (pptrToPaddrReg reg).stop := by
  unfold pptrToPaddrReg
  dsimp only
  rw [pptrToPaddr_eq h.1, pptrToPaddr_eq h.2]
  have h1 := h.1.1
  omega

/-! ### Reserved regions -/

/-- `MAX_NUM_FREEMEM_REG`. -/
def maxNumFreememReg : ℕ := 16

/-- `MAX_NUM_RESV_REG` with this many devices of the kernel. -/
def maxNumResvReg (kernelDevices : ℕ) : ℕ := maxNumFreememReg + kernelDevices + 0 + 3

/-- The rest of the loop of `merge_regions`, for the region before the rest. -/
def mergeFrom (a : Region) : List Region → List Region
  | [] => [a]
  | b :: rest =>
    if a.stop = b.start then mergeFrom { a with stop := b.stop } rest
    else a :: mergeFrom b rest

def mergeRegions : List Region → List Region
  | [] => []
  | a :: rest => mergeFrom a rest

/-- The loop of `reserve_region` over the regions, with those that it has passed. -/
def reserveLoop (max : ℕ) (reg : Region) (before : List Region) :
    List Region → Bool × List Region
  | [] => if before.length + 1 = max then (false, before) else (true, before ++ [reg])
  | r :: after =>
    if r.start = reg.stop then
      (true, mergeRegions (before ++ { r with start := reg.start } :: after))
    else if r.stop = reg.start then
      (true, mergeRegions (before ++ { r with stop := reg.stop } :: after))
    else if r.start > reg.stop then
      if (before ++ r :: after).length + 1 ≥ max then (false, before ++ r :: after)
      else (true, before ++ reg :: r :: after)
    else reserveLoop max reg (before ++ [r]) after

def reserveRegion (max : ℕ) (reg : Region) (reserved : List Region) :
    Except Failure (Bool × List Region) := do
  assert (reg.start ≤ reg.stop)
  if reg.start = reg.stop then
    return (true, reserved)
  return reserveLoop max reg [] reserved

/-! ### Merging -/

variable {l l' before after reserved : List Region} {max : ℕ}

/-- Regions that are not empty, in the order of their starts. They may overlap. -/
structure Sorted (l : List Region) : Prop where
  lt : ∀ r ∈ l, r.start < r.stop
  order : l.Pairwise fun a b => a.start ≤ b.start

theorem sorted_cons : Sorted (r :: l) ↔
    r.start < r.stop ∧ (∀ b ∈ l, r.start ≤ b.start) ∧ Sorted l := by
  constructor
  · intro h
    obtain ⟨hlt, hlts⟩ := forall_mem_cons.1 h.lt
    exact ⟨hlt, (pairwise_cons.1 h.order).1, hlts, (pairwise_cons.1 h.order).2⟩
  · rintro ⟨hlt, hle, h⟩
    exact ⟨forall_mem_cons.2 ⟨hlt, h.lt⟩, pairwise_cons.2 ⟨hle, h.order⟩⟩

theorem sorted_append : Sorted (l ++ l') ↔
    Sorted l ∧ Sorted l' ∧ ∀ a ∈ l, ∀ b ∈ l', a.start ≤ b.start := by
  constructor
  · intro h
    obtain ⟨hlt, hlt'⟩ := forall_mem_append.1 h.lt
    obtain ⟨hord, hord', hcross⟩ := pairwise_append.1 h.order
    exact ⟨⟨hlt, hord⟩, ⟨hlt', hord'⟩, hcross⟩
  · rintro ⟨h, h', hcross⟩
    exact ⟨forall_mem_append.2 ⟨h.lt, h'.lt⟩, pairwise_append.2 ⟨h.order, h'.order, hcross⟩⟩

theorem Sorted.of_gapped (h : Gapped l) : Sorted l :=
  ⟨h.lt, h.gap.imp_of_mem fun ha _ hab => ((h.lt _ ha).trans hab).le⟩

/-- Regions that cover the same as those of `l`, and start where one of them does. -/
structure Merged (l l' : List Region) : Prop where
  sorted : Sorted l'
  starts : ∀ q ∈ l', ∃ r ∈ l, q.start = r.start
  covered : ∀ x, Covered l' x ↔ Covered l x
  length : l'.length ≤ l.length

theorem Merged.refl (h : Sorted l) : Merged l l :=
  ⟨h, fun q hq => ⟨q, hq, rfl⟩, fun _ => Iff.rfl, le_refl _⟩

theorem mergeFrom_merged (h : Sorted (a :: l)) : Merged (a :: l) (mergeFrom a l) := by
  induction l generalizing a with
  | nil => exact Merged.refl h
  | cons b rest ih =>
    obtain ⟨ha, hbefore, hrest⟩ := sorted_cons.1 h
    obtain ⟨hb, -, horder⟩ := sorted_cons.1 hrest
    rw [mergeFrom]
    split
    · obtain ⟨hsorted, hstarts, hcov, hlen⟩ := ih (a := ⟨a.start, b.stop⟩)
        (sorted_cons.2 ⟨by dsimp only; omega, fun q hq => hbefore q (mem_cons_of_mem b hq), horder⟩)
      refine ⟨hsorted, fun q hq => ?_, fun x => ?_, hlen.trans (Nat.le_succ _)⟩
      · obtain ⟨r, hr, heq⟩ := hstarts q hq
        rcases mem_cons.1 hr with rfl | hr
        · exact ⟨a, mem_cons_self, heq⟩
        · exact ⟨r, mem_cons_of_mem a (mem_cons_of_mem b hr), heq⟩
      · rw [hcov, covered_cons, covered_cons, covered_cons, ← or_assoc]
        refine or_congr_left ?_
        simp only [mem_iff]
        omega
    · obtain ⟨hsorted, hstarts, hcov, hlen⟩ := ih hrest
      refine ⟨sorted_cons.2 ⟨ha, fun q hq => ?_, hsorted⟩, fun q hq => ?_, fun x => ?_,
        Nat.succ_le_succ hlen⟩
      · obtain ⟨r, hr, heq⟩ := hstarts q hq
        exact (hbefore r hr).trans heq.ge
      · rcases mem_cons.1 hq with rfl | hq
        · exact ⟨q, mem_cons_self, rfl⟩
        · obtain ⟨r, hr, heq⟩ := hstarts q hq
          exact ⟨r, mem_cons_of_mem a hr, heq⟩
      · rw [covered_cons, hcov, covered_cons (r := a)]

theorem mergeRegions_merged (h : Sorted l) : Merged l (mergeRegions l) := by
  cases l with
  | nil => exact Merged.refl h
  | cons a rest => exact mergeFrom_merged h

/-! ### Adding a region -/

/-- A region that replaces one it touches, and may touch the next one. -/
theorem merged_of_replace {m : Region} (h : Sorted (before ++ m :: after))
    (hstart : m.start = reg.start ∨ m.start = r.start) (hmem : ∀ x, x ∈ m ↔ x ∈ r ∨ x ∈ reg) :
    Merged (reg :: (before ++ r :: after)) (mergeRegions (before ++ m :: after)) := by
  obtain ⟨hsorted, hstarts, hcov, hlen⟩ := mergeRegions_merged h
  refine ⟨hsorted, fun q hq => ?_, fun x => ?_, ?_⟩
  · obtain ⟨p, hp, heq⟩ := hstarts q hq
    rcases mem_append.1 hp with hp | hp
    · exact ⟨p, mem_cons_of_mem _ (mem_append_left _ hp), heq⟩
    rcases mem_cons.1 hp with rfl | hp
    · rcases hstart with hstart | hstart
      · exact ⟨reg, mem_cons_self, heq.trans hstart⟩
      · exact ⟨r, mem_cons_of_mem _ (mem_append_right _ mem_cons_self), heq.trans hstart⟩
    · exact ⟨p, mem_cons_of_mem _ (mem_append_right _ (mem_cons_of_mem r hp)), heq⟩
  · rw [hcov, covered_cons, covered_append, covered_append, covered_cons, covered_cons, hmem]
    tauto
  · simp only [length_append, length_cons] at hlen ⊢
    omega

/-- The region is put somewhere among those that are there. -/
theorem merged_of_insert (h : Sorted (before ++ reg :: after)) :
    Merged (reg :: (before ++ after)) (before ++ reg :: after) := by
  refine ⟨h, fun q hq => ⟨q, ?_, rfl⟩, fun x => ?_, ?_⟩
  · simpa [or_left_comm] using hq
  · rw [covered_cons, covered_append, covered_append, covered_cons, or_left_comm]
  · simp only [length_append, length_cons]
    omega

/-- No region starts inside of the new one. -/
theorem reserveLoop_merged (hlt : reg.start < reg.stop) (h : Sorted (before ++ after))
    (hbefore : ∀ b ∈ before, b.start ≤ reg.start)
    (hout : ∀ b ∈ after, b.start ≤ reg.start ∨ reg.stop ≤ b.start)
    (hroom : (before ++ after).length + 1 < max) :
    (reserveLoop max reg before after).1 = true ∧
      Merged (reg :: (before ++ after)) (reserveLoop max reg before after).2 := by
  induction after generalizing before with
  | nil =>
    rw [append_nil] at h hroom
    rw [reserveLoop, if_neg (by omega)]
    refine ⟨rfl, merged_of_insert (sorted_append.2
      ⟨h, sorted_cons.2 ⟨hlt, nofun, nofun, .nil⟩, ?_⟩)⟩
    intro b hb q hq
    rw [mem_singleton.1 hq]
    exact hbefore b hb
  | cons r after ih =>
    obtain ⟨hb, hr, hcross⟩ := sorted_append.1 h
    obtain ⟨hltr, hra, hafter⟩ := sorted_cons.1 hr
    rw [reserveLoop]
    split
    · rename_i hstart
      -- the region ends where `r` starts
      refine ⟨rfl, merged_of_replace (sorted_append.2
        ⟨hb, sorted_cons.2 ⟨?_, fun q hq => ?_, hafter⟩, fun p hp => ?_⟩) (.inl rfl) fun x => ?_⟩
      · dsimp only
        omega
      · have := hra q hq
        dsimp only
        omega
      · have := hbefore p hp
        refine forall_mem_cons.2 ⟨this, fun q hq => hcross p hp q (mem_cons_of_mem r hq)⟩
      · simp only [mem_iff]
        omega
    · split
      · -- it starts where `r` ends, and may reach the region after `r`
        refine ⟨rfl, merged_of_replace (sorted_append.2 ⟨hb, sorted_cons.2 ⟨?_, hra, hafter⟩,
          fun p hp => ?_⟩) (.inr rfl) fun x => ?_⟩
        · dsimp only
          omega
        · exact forall_mem_cons.2 ⟨hcross p hp r mem_cons_self,
            fun q hq => hcross p hp q (mem_cons_of_mem r hq)⟩
        · simp only [mem_iff]
          omega
      · split
        · rename_i hgt
          rw [if_neg (by omega)]
          refine ⟨rfl, merged_of_insert (sorted_append.2 ⟨hb, sorted_cons.2 ⟨hlt, ?_, hr⟩,
            fun p hp => forall_mem_cons.2 ⟨hbefore p hp, hcross p hp⟩⟩)⟩
          refine forall_mem_cons.2 ⟨by omega, fun q hq => ?_⟩
          have := hra q hq
          omega
        · have happ : before ++ r :: after = (before ++ [r]) ++ after := by simp
          obtain ⟨hfirst, hrest⟩ := forall_mem_cons.1 hout
          rw [happ] at h hroom ⊢
          refine ih h (forall_mem_append.2 ⟨hbefore, forall_mem_singleton.2 ?_⟩) hrest hroom
          omega

/-- A region that is not empty is added if there is room. -/
theorem reserveRegion_merged (h : Sorted reserved) (hlt : reg.start < reg.stop)
    (hout : ∀ b ∈ reserved, b.start ≤ reg.start ∨ reg.stop ≤ b.start)
    (hroom : reserved.length + 1 < max) :
    ∃ l, reserveRegion max reg reserved = .ok (true, l) ∧ Merged (reg :: reserved) l := by
  obtain ⟨htrue, hmerged⟩ := @reserveLoop_merged reg [] reserved max hlt h nofun hout hroom
  refine ⟨(reserveLoop max reg [] reserved).2, ?_, hmerged⟩
  unfold reserveRegion
  rw [assert_eq hlt.le, ← htrue]
  exact if_neg (show ¬reg.start = reg.stop by omega)

end SeL4Kernel.Boot
