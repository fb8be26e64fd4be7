import Mathlib.Data.List.TakeWhile
import SeL4Kernel.GuestRam.Settle

/-!
# Runs of registrations and allocations

In a window of at most `2 ^ 31` bytes the regions stay in order, their union is the
registered RAM and their allocated part is what was marked or allocated, provided that every
marked range lies in one region.

Three things go wrong otherwise. The comparison of type `int` puts regions in the wrong order
that are too far from each other. The search for the largest free region does not look at the
region behind the first free one. A range of RAM that is allocated in part is in no single
region, so that it can be neither marked nor touched.
-/

namespace SeL4Kernel.GuestRam

open List Range

variable {lo x start bytes size : Nat} {rs : List RamRegion} {r q : RamRegion} {flag : Bool}
  {s : GuestMem}

/-! ### Pieces -/

/-- A region, unless it is empty. -/
def piece (start size : Nat) (allocated : Bool) : List RamRegion :=
  if size = 0 then [] else [{ start := start, size := size, allocated := allocated }]

theorem push_eq : pushGuestRamRegion rs start size flag = rs ++ piece start size flag := by
  rw [pushGuestRamRegion, piece]
  split <;> simp

theorem mem_piece (h : q ∈ piece start size flag) :
    0 < size ∧ q = { start := start, size := size, allocated := flag } := by
  rw [piece] at h
  split at h
  · cases h
  · exact ⟨by omega, mem_singleton.mp h⟩

theorem part_piece {f : Bool} :
    Part (piece start size flag) f x ↔ flag = f ∧ start ≤ x ∧ x < start + size := by
  rw [piece]
  split
  next h =>
    subst h
    simp [Part]
  next h => simp [Part, RamRegion.range, Range.mem_iff]

theorem pairwise_piece {R : RamRegion → RamRegion → Prop} : (piece start size flag).Pairwise R := by
  rw [piece]
  split
  · exact .nil
  · exact pairwise_singleton ..

/-- The three pieces of a region that holds the range. -/
def pieces (r : RamRegion) (start bytes : Nat) : List RamRegion :=
  piece r.start (start - r.start) false ++ piece start bytes true ++
    piece (start + bytes) (r.start + r.size - (start + bytes)) false

variable (hlo : lo + 2 ^ 31 < 2 ^ 64) {addr : Nat} {rs' : List RamRegion}

include hlo in
theorem splitRegion_eq (hr : Fits lo r) (hle : r.start ≤ start)
    (hstop : start + bytes ≤ r.start + r.size) :
    splitRegion rs r start bytes = rs ++ pieces r start bytes := by
  have hfits := hr.stop
  have h1 : (start + 2 ^ 64 - r.start) % 2 ^ 64 = start - r.start := by omega
  have h2 : (start + bytes) % 2 ^ 64 = start + bytes := Nat.mod_eq_of_lt (by omega)
  have h3 : (r.size + 2 ^ 64 - bytes + 2 ^ 64 - (start - r.start)) % 2 ^ 64 =
      r.start + r.size - (start + bytes) := by omega
  rw [splitRegion, h1, h2, h3, push_eq, push_eq, push_eq, pieces, append_assoc,
    append_assoc, append_assoc]

/-- The pieces lie in the region. -/
theorem mem_pieces (hle : r.start ≤ start) (hstop : start + bytes ≤ r.start + r.size)
    (h : q ∈ pieces r start bytes) :
    0 < q.size ∧ r.start ≤ q.start ∧ q.start + q.size ≤ r.start + r.size := by
  simp only [pieces, mem_append] at h
  rcases h with (h | h) | h
  all_goals
    obtain ⟨hpos, rfl⟩ := mem_piece h
    dsimp only
    omega

theorem pieces_sorted (hle : r.start ≤ start) :
    (pieces r start bytes).Pairwise fun a b => a.start + a.size ≤ b.start := by
  rw [pieces, pairwise_append, pairwise_append]
  refine ⟨⟨pairwise_piece, pairwise_piece, fun a ha b hb => ?_⟩, pairwise_piece,
    fun a ha b hb => ?_⟩
  · obtain ⟨-, rfl⟩ := mem_piece ha
    obtain ⟨-, rfl⟩ := mem_piece hb
    dsimp only
    omega
  · obtain ⟨-, rfl⟩ := mem_piece hb
    rcases mem_append.mp ha with ha | ha
    all_goals
      obtain ⟨-, rfl⟩ := mem_piece ha
      dsimp only
      omega

/-- What the pieces are made of. -/
theorem part_pieces (hle : r.start ≤ start) (hstop : start + bytes ≤ r.start + r.size) :
    (Part (pieces r start bytes) true x ↔ start ≤ x ∧ x < start + bytes) ∧
      ((∃ f, Part (pieces r start bytes) f x) ↔ x ∈ r.range) := by
  have hpart : ∀ f, Part (pieces r start bytes) f x ↔
      (false = f ∧ r.start ≤ x ∧ x < r.start + (start - r.start)) ∨
      (true = f ∧ start ≤ x ∧ x < start + bytes) ∨
      (false = f ∧ start + bytes ≤ x ∧
        x < start + bytes + (r.start + r.size - (start + bytes))) := by
    intro f
    rw [pieces, part_append, part_append, part_piece, part_piece, part_piece, or_assoc]
  constructor
  · rw [hpart]
    simp
  · rw [Bool.exists_bool, hpart, hpart]
    simp only [RamRegion.range, Range.mem_iff, true_and, Bool.true_eq_false, Bool.false_eq_true,
      false_and, or_false, false_or]
    omega

/-! ### Operations -/

/-- The range lies in the region. -/
def Holds (r : RamRegion) (start bytes : Nat) : Prop :=
  r.start ≤ start ∧ start + bytes ≤ r.start + r.size

include hlo in
theorem holds_eq (hr : Fits lo r) (hend : start + bytes < 2 ^ 64) :
    r.holds start bytes = true ↔ Holds r start bytes := by
  rw [RamRegion.holds, hr.stop_eq hlo, Nat.mod_eq_of_lt hend, Holds, Bool.and_eq_true,
    decide_eq_true_eq, decide_eq_true_eq]

/-- A byte of one region is in no region with another flag. -/
theorem Loose.flag_eq (h : Loose lo rs) (hr : r ∈ rs) (hx : x ∈ r.range)
    (hpart : Part rs flag x) : r.allocated = flag := by
  obtain ⟨q, hq, rfl, hxq⟩ := hpart
  have : Std.Symm fun a b : RamRegion => a.range.Apart b.range := ⟨fun _ _ hab => hab.symm⟩
  by_cases hne : r = q
  · rw [hne]
  · exact absurd hxq (h.apart.forall hr hq hne x hx)

theorem Loose.register (h : Loose lo rs) (hstart : lo ≤ start) (hend : start + bytes ≤ lo + 2 ^ 31)
    (hnew : ∀ f x, Part rs f x → x ∉ (⟨start, start + bytes⟩ : Range Nat)) :
    Loose lo (rs ++ piece start bytes false) := by
  refine ⟨fun q hq => ?_, pairwise_append.mpr ⟨h.apart, pairwise_piece, fun a ha b hb => ?_⟩⟩
  · rcases mem_append.mp hq with hq | hq
    · exact h.fits q hq
    · obtain ⟨hpos, rfl⟩ := mem_piece hq
      exact ⟨hpos, hstart, hend⟩
  · obtain ⟨-, rfl⟩ := mem_piece hb
    exact fun x hx => hnew a.allocated x ⟨a, ha, rfl, hx⟩

include hlo in
/-- Registering adds free bytes. -/
theorem expand_spec (h : Settled lo rs) (hstart : lo ≤ start) (hend : start + bytes ≤ lo + 2 ^ 31)
    (hnew : ∀ f x, Part rs f x → x ∉ (⟨start, start + bytes⟩ : Range Nat)) :
    Settled lo (expandGuestRamRegion rs start bytes) ∧
      ∀ f x, Part (expandGuestRamRegion rs start bytes) f x ↔
        Part rs f x ∨ false = f ∧ x ∈ (⟨start, start + bytes⟩ : Range Nat) := by
  rw [expandGuestRamRegion]
  split
  next hzero =>
    subst hzero
    refine ⟨h, fun f x => ?_⟩
    simp [Range.mem_iff]
  next hpos =>
    rw [push_eq]
    obtain ⟨hsettled, hpart⟩ := settle_spec (h.loose.register hstart hend hnew) hlo
    refine ⟨hsettled, fun f x => ?_⟩
    rw [hpart, part_append, part_piece, Range.mem_iff]

/-- Marking a range of a free region. -/
theorem Loose.split (h : Loose lo rs) (hr : r ∈ rs) (hholds : Holds r start bytes) :
    Loose lo (rs.erase r ++ pieces r start bytes) := by
  have hperm := perm_cons_erase hr
  have hapart : (r :: rs.erase r).Pairwise fun a b => a.range.Apart b.range :=
    (hperm.pairwise_iff fun hab => hab.symm).mp h.apart
  obtain ⟨hother, hrest⟩ := pairwise_cons.mp hapart
  have hfits := h.fits r hr
  refine ⟨fun q hq => ?_, pairwise_append.mpr ⟨hrest, ?_, fun a ha b hb => ?_⟩⟩
  · rcases mem_append.mp hq with hq | hq
    · exact h.fits q (mem_of_mem_erase hq)
    · obtain ⟨hpos, hle, hstop⟩ := mem_pieces hholds.1 hholds.2 hq
      exact ⟨hpos, le_trans hfits.start hle, le_trans hstop hfits.stop⟩
  · exact (pieces_sorted hholds.1).imp fun hab => apart_of_le hab
  · obtain ⟨-, hle, hstop⟩ := mem_pieces hholds.1 hholds.2 hb
    exact fun x hxa hxb => hother a ha x ⟨le_trans hle hxb.1, lt_of_lt_of_le hxb.2 hstop⟩ hxa

include hlo in
/-- Marking a range that lies in one region marks its bytes. -/
theorem mark_spec (h : Settled lo rs) (hin : ∃ r ∈ rs, Holds r start bytes) :
    Settled lo (vmRamMarkAllocated rs start bytes) ∧
      (∀ x, Part (vmRamMarkAllocated rs start bytes) true x ↔
        Part rs true x ∨ x ∈ (⟨start, start + bytes⟩ : Range Nat)) ∧
      ∀ x, (∃ f, Part (vmRamMarkAllocated rs start bytes) f x) ↔ ∃ f, Part rs f x := by
  obtain ⟨r0, hr0, hholds0⟩ := hin
  have hend : start + bytes < 2 ^ 64 := by
    have := hholds0.2
    have := (h.fits r0 hr0).stop
    omega
  rw [vmRamMarkAllocated]
  split
  next hnone =>
    have := List.find?_eq_none.mp hnone r0 hr0
    exact absurd ((holds_eq hlo (h.fits r0 hr0) hend).mpr hholds0) this
  next r hsome =>
    have hr := mem_of_find?_eq_some hsome
    have hholds := (holds_eq hlo (h.fits r hr) hend).mp
      (List.find?_some (p := fun r : RamRegion => r.holds start bytes) hsome)
    have hrange : ∀ x, x ∈ (⟨start, start + bytes⟩ : Range Nat) → x ∈ r.range := fun x hx =>
      ⟨le_trans hholds.1 hx.1, lt_of_lt_of_le hx.2 hholds.2⟩
    split
    next halloc =>
      refine ⟨h, fun x => ?_, fun x => Iff.rfl⟩
      exact (or_iff_left_of_imp fun hx => ⟨r, hr, halloc, hrange x hx⟩).symm
    next hfree =>
      have hperm := perm_cons_erase hr
      have hold : ∀ f x, Part rs f x ↔
          r.allocated = f ∧ x ∈ r.range ∨ Part (rs.erase r) f x := fun f x =>
        (part_congr fun q => hperm.mem_iff).trans part_cons
      rw [splitRegion_eq hlo (h.fits r hr) hholds.1 hholds.2]
      obtain ⟨hsettled, hpart⟩ := settle_spec (h.loose.split hr hholds) hlo
      refine ⟨hsettled, fun x => ?_, fun x => ?_⟩
      · rw [hpart, part_append, (part_pieces hholds.1 hholds.2).1, hold]
        simp [hfree, Range.mem_iff]
      · simp only [hpart, part_append, hold, exists_or]
        rw [(part_pieces hholds.1 hholds.2).2]
        simp [or_comm]

/-- An allocation marks the start of a free region. -/
theorem allocate_spec (h : vmRamAllocate rs bytes = (some addr, rs')) :
    rs' = vmRamMarkAllocated rs addr bytes ∧
      ∃ r ∈ rs, r.allocated = false ∧ Holds r addr bytes := by
  rw [vmRamAllocate] at h
  split at h
  · cases h
  rename_i r hsome
  cases h
  have htest := List.find?_some
    (p := fun r : RamRegion => !r.allocated && decide (bytes ≤ r.size)) hsome
  simp only [Bool.and_eq_true, Bool.not_eq_true', decide_eq_true_eq] at htest
  exact ⟨rfl, r, mem_of_find?_eq_some hsome, htest.1, le_refl _, Nat.add_le_add_left htest.2 _⟩

theorem allocate_none (h : vmRamAllocate rs bytes = (none, rs')) : rs' = rs := by
  rw [vmRamAllocate] at h
  split at h
  · cases h
    rfl
  · cases h

/-! ### Questions -/

theorem vmRamTouch_isSome :
    (vmRamTouch rs addr size).isSome = true ↔ isRamRegion rs addr size = true := by
  rw [vmRamTouch]
  split <;> simp_all

/-- No region is in the array twice. -/
theorem Settled.nodup (h : Settled lo rs) : rs.Nodup := by
  refine h.sorted.imp_of_mem fun {a b} ha _ hab => ?_
  rintro rfl
  have := (h.fits a ha).pos
  omega

/-- The region that `vm_ram_find_largest_free_region` does not look at. -/
def skipped (rs : List RamRegion) : Option RamRegion :=
  ((rs.dropWhile fun r => r.allocated).drop 1).head?

/-- What the second loop finds. -/
theorem largest_foldl (l : List RamRegion) (first : RamRegion) (hfirst : first.allocated = false) :
    ∃ r, l.foldl (fun largest r =>
        if r.allocated = false ∧ largest.size < r.size then r else largest) first = r ∧
      r ∈ first :: l ∧ r.allocated = false ∧ first.size ≤ r.size ∧
      ∀ q ∈ l, q.allocated = false → q.size ≤ r.size := by
  induction l generalizing first with
  | nil => exact ⟨first, rfl, by simp, hfirst, le_refl _, by simp⟩
  | cons q l ih =>
    rw [foldl_cons]
    split
    next hbetter =>
      obtain ⟨r, heq, hmem, hfree, hle, hall⟩ := ih q hbetter.1
      refine ⟨r, heq, mem_cons_of_mem _ hmem, hfree, by omega, fun p hp hpfree => ?_⟩
      rcases mem_cons.mp hp with rfl | hp
      · exact hle
      · exact hall p hp hpfree
    next hworse =>
      obtain ⟨r, heq, hmem, hfree, hle, hall⟩ := ih first hfirst
      refine ⟨r, heq, ?_, hfree, hle, fun p hp hpfree => ?_⟩
      · rcases mem_cons.mp hmem with rfl | hmem
        · exact mem_cons_self
        · exact mem_cons_of_mem _ (mem_cons_of_mem _ hmem)
      · rcases mem_cons.mp hp with rfl | hp
        · have : ¬first.size < p.size := fun hlt => hworse ⟨hpfree, hlt⟩
          omega
        · exact hall p hp hpfree

/-- The region that is skipped is allocated, or another free region is as large. -/
def SkipHarmless (rs : List RamRegion) : Prop :=
  ∀ q, skipped rs = some q → q.allocated = false →
    ∃ p ∈ rs, p ≠ q ∧ p.allocated = false ∧ q.size ≤ p.size

/-- Where the first free region is. -/
theorem exists_first_free (hfree : ∃ q ∈ rs, q.allocated = false) :
    ∃ before first rest, rs = before ++ first :: rest ∧ (∀ q ∈ before, q.allocated = true) ∧
      first.allocated = false ∧ rs.dropWhile (fun r => r.allocated) = first :: rest := by
  have hsplit := takeWhile_append_dropWhile (p := fun r : RamRegion => r.allocated) (l := rs)
  cases hdrop : rs.dropWhile fun r => r.allocated with
  | nil =>
    obtain ⟨q, hq, hqfree⟩ := hfree
    have := dropWhile_eq_nil_iff.mp hdrop q hq
    rw [hqfree] at this
    cases this
  | cons first rest =>
    have hne : rs.dropWhile (fun r => r.allocated) ≠ [] := by simp [hdrop]
    have hnot := head_dropWhile_not (fun r : RamRegion => r.allocated) hne
    rw [hdrop] at hsplit
    exact ⟨_, first, rest, hsplit.symm, all_eq_true.mp all_takeWhile, by simpa [hdrop] using hnot,
      rfl⟩

/-- Without a free region there is no answer. -/
theorem find_largest_none (hnone : ∀ q ∈ rs, q.allocated = true) :
    vmRamFindLargestFreeRegion rs = none := by
  rw [vmRamFindLargestFreeRegion, dropWhile_eq_nil_iff.mpr hnone]

/-- The answer is a free region. It is a largest one if and only if the region that is skipped
does not matter. -/
theorem find_largest_spec (hnodup : rs.Nodup) (hfree : ∃ q ∈ rs, q.allocated = false) :
    ∃ r ∈ rs, r.allocated = false ∧ vmRamFindLargestFreeRegion rs = some r ∧
      ((∀ q ∈ rs, q.allocated = false → q.size ≤ r.size) ↔ SkipHarmless rs) := by
  obtain ⟨before, first, rest, rfl, hbefore, hfirst, hdrop⟩ := exists_first_free hfree
  obtain ⟨r, heq, hmem, hrfree, hle, hall⟩ := largest_foldl (rest.drop 1) first hfirst
  have hsub : ∀ p ∈ first :: rest.drop 1, p ∈ before ++ first :: rest := fun p hp =>
    mem_append_right _ ((drop_sublist 1 rest).cons_cons first |>.subset hp)
  refine ⟨r, hsub r hmem, hrfree, ?_, fun hlargest q hskip hqfree => ?_,
    fun hskip q hq hqfree => ?_⟩
  · rw [vmRamFindLargestFreeRegion, hdrop]
    exact congrArg some heq
  · -- The answer itself is as large as the region that was skipped.
    rw [skipped, hdrop] at hskip
    cases rest with
    | nil => cases hskip
    | cons second rest =>
      cases hskip
      refine ⟨r, hsub r hmem, ?_, hrfree, hlargest q (by simp) hqfree⟩
      rintro rfl
      have hout := (nodup_append.mp hnodup).2.1
      rcases mem_cons.mp hmem with rfl | hmem
      · exact (nodup_cons.mp hout).1 mem_cons_self
      · exact (nodup_cons.mp (nodup_cons.mp hout).2).1 hmem
  · -- All free regions but one were looked at.
    have hseen : ∀ p ∈ before ++ first :: rest, p.allocated = false →
        skipped (before ++ first :: rest) ≠ some p → p.size ≤ r.size := by
      intro p hp hpfree hother
      rcases mem_append.mp hp with hp | hp
      · rw [hbefore p hp] at hpfree
        cases hpfree
      rcases mem_cons.mp hp with rfl | hp
      · exact hle
      cases rest with
      | nil => cases hp
      | cons second rest =>
        rcases mem_cons.mp hp with rfl | hp
        · exact absurd (by rw [skipped, hdrop]; rfl) hother
        · exact hall p hp hpfree
    by_cases hqskip : skipped (before ++ first :: rest) = some q
    · obtain ⟨p, hp, hne, hpfree, hsize⟩ := hskip q hqskip hqfree
      refine le_trans hsize (hseen p hp hpfree fun hpskip => hne ?_)
      exact Option.some.inj (hpskip.symm.trans hqskip)
    · exact hseen q hq hqfree hqskip

include hlo in
/-- A range is accepted if and only if all its bytes are RAM and no region starts inside of it. -/
theorem isRamRegion_iff (h : Settled lo rs) (hsize : 0 < size) (hend : addr + size < 2 ^ 64) :
    isRamRegion rs addr size = true ↔
      (∀ x ∈ (⟨addr, addr + size⟩ : Range Nat), ∃ f, Part rs f x) ∧
        ∀ r ∈ rs, ¬(addr < r.start ∧ r.start < addr + size) := by
  have : Std.Symm fun a b : RamRegion => a.range.Apart b.range := ⟨fun _ _ hab => hab.symm⟩
  have hapart : ∀ {r q : RamRegion}, r ∈ rs → q ∈ rs → r ≠ q →
      r.start + r.size ≤ q.start ∨ q.start + q.size ≤ r.start := fun hr hq hne =>
    (h.loose.apart.forall hr hq hne).le_or_le (h.fits _ hr).range_lt (h.fits _ hq).range_lt
  rw [isRamRegion, any_eq_true]
  constructor
  · rintro ⟨r, hr, htest⟩
    have hholds := (holds_eq hlo (h.fits r hr) hend).mp htest
    refine ⟨fun x hx =>
      ⟨r.allocated, r, hr, rfl, le_trans hholds.1 hx.1, lt_of_lt_of_le hx.2 hholds.2⟩,
      fun q hq hinside => ?_⟩
    have hstart := hholds.1
    have hstop := hholds.2
    have hpos := (h.fits q hq).pos
    by_cases hne : r = q
    · subst hne
      omega
    · have := hapart hr hq hne
      omega
  · rintro ⟨hall, hinside⟩
    obtain ⟨f, r, hr, -, hstart, hstop⟩ := hall addr ⟨le_refl _, by dsimp only; omega⟩
    refine ⟨r, hr, (holds_eq hlo (h.fits r hr) hend).mpr ⟨hstart, ?_⟩⟩
    by_contra hlong
    change addr < r.start + r.size at hstop
    -- The byte behind `r` is in a region that starts inside the range.
    obtain ⟨f', q, hq, -, hqstart, hqstop⟩ :=
      hall (r.start + r.size) ⟨by dsimp only; omega, by dsimp only; omega⟩
    change q.start ≤ r.start + r.size at hqstart
    change r.start + r.size < q.start + q.size at hqstop
    have hne : r ≠ q := by
      rintro rfl
      omega
    have hpos := (h.fits r hr).pos
    rcases hapart hr hq hne with hle | hle
    · exact hinside q hq ⟨by omega, by omega⟩
    · omega

include hlo in
/-- A range without bytes is accepted in a region and at its end. -/
theorem isRamRegion_empty (h : Settled lo rs) (hend : addr < 2 ^ 64) :
    isRamRegion rs addr 0 = true ↔ ∃ r ∈ rs, r.start ≤ addr ∧ addr ≤ r.start + r.size := by
  rw [isRamRegion, any_eq_true]
  exact exists_congr fun r => and_congr_right fun hr => holds_eq hlo (h.fits r hr) hend

/-! ### Runs -/

/-- What the caller makes sure of: RAM is registered in the window from `lo` on and not twice,
and a range that is marked lies in one region. -/
def Allowed (lo : Nat) (s : GuestMem) : Op → Prop
  | .register start bytes => lo ≤ start ∧ start + bytes ≤ lo + 2 ^ 31 ∧
      ∀ p ∈ s.registered, (⟨start, start + bytes⟩ : Range Nat).Apart p
  | .markAllocated start bytes => ∃ r ∈ s.ramRegions, Holds r start bytes
  | .allocate _ => True

inductive Run (lo : Nat) : GuestMem → Prop
  | init : Run lo .init
  | step {s : GuestMem} (op : Op) (prior : Run lo s) (hop : Allowed lo s op) : Run lo (step s op)

structure Inv (lo : Nat) (s : GuestMem) : Prop where
  settled : Settled lo s.ramRegions
  registered : ∀ x, (∃ f, Part s.ramRegions f x) ↔ Covered s.registered x
  marked : ∀ x, Part s.ramRegions true x ↔ Covered s.marked x

include hlo

theorem Inv.markAllocated (h : Inv lo s) (hin : ∃ r ∈ s.ramRegions, Holds r start bytes) :
    Inv lo { s with
      ramRegions := vmRamMarkAllocated s.ramRegions start bytes
      marked := ⟨start, start + bytes⟩ :: s.marked } := by
  obtain ⟨hsettled, hmarked, hsame⟩ := mark_spec hlo h.settled hin
  refine ⟨hsettled, fun x => (hsame x).trans (h.registered x), fun x => ?_⟩
  rw [hmarked, h.marked, covered_cons, or_comm]

/-- The step lemma. -/
theorem Inv.step (h : Inv lo s) {op : Op} (hop : Allowed lo s op) : Inv lo (step s op) := by
  cases op with
  | register start bytes =>
    obtain ⟨hstart, hend, hnew⟩ := hop
    have hapart : ∀ f x, Part s.ramRegions f x → x ∉ (⟨start, start + bytes⟩ : Range Nat) := by
      intro f x hx hxnew
      obtain ⟨p, hp, hxp⟩ := (h.registered x).mp ⟨f, hx⟩
      exact hnew p hp x hxnew hxp
    obtain ⟨hsettled, hpart⟩ := expand_spec hlo h.settled hstart hend hapart
    refine ⟨hsettled, fun x => ?_, fun x => ?_⟩
    · simp only [GuestRam.step, hpart, exists_or, h.registered, covered_cons]
      simp [or_comm]
    · rw [GuestRam.step, hpart, h.marked]
      simp
  | markAllocated start bytes => exact h.markAllocated hlo hop
  | allocate bytes =>
    rw [GuestRam.step]
    split
    next rs hnone =>
      rw [allocate_none hnone]
      exact h
    next addr rs hsome =>
      obtain ⟨rfl, r, hr, -, hholds⟩ := allocate_spec hsome
      exact h.markAllocated hlo ⟨r, hr, hholds⟩

/-- The run lemma. -/
theorem Run.inv (h : Run lo s) : Inv lo s := by
  induction h with
  | init => exact ⟨⟨by simp [GuestMem.init], .nil, .nil⟩, by simp [GuestMem.init, Part],
      by simp [GuestMem.init, Part]⟩
  | step op _ hop ih => exact ih.step hlo hop

omit hlo

/-- **Main result.** The regions are in order, disjoint and collapsed, they are the registered
RAM, and their allocated part is what was marked or allocated. An allocation is RAM that was
neither. `vm_ram_find_largest_free_region` finds a free region if there is one, and a largest
one if and only if the region it skips does not matter. A range is accepted by `vm_ram_touch` if
and only if all its bytes are RAM and no region starts inside of it. -/
theorem ram_regions_correct (hlo : lo + 2 ^ 31 < 2 ^ 64) (h : Run lo s) :
    s.ramRegions.Pairwise (fun a b => a.start + a.size ≤ b.start) ∧
      s.ramRegions.IsChain (fun a b => ¬Joins a b) ∧
      (∀ x, (∃ r ∈ s.ramRegions, x ∈ r.range) ↔ Covered s.registered x) ∧
      (∀ x, (∃ r ∈ s.ramRegions, r.allocated = true ∧ x ∈ r.range) ↔ Covered s.marked x) ∧
      (∀ bytes addr rs, vmRamAllocate s.ramRegions bytes = (some addr, rs) →
        ∀ x ∈ (⟨addr, addr + bytes⟩ : Range Nat),
          Covered s.registered x ∧ ¬Covered s.marked x) ∧
      ((∀ q ∈ s.ramRegions, q.allocated = true) →
        vmRamFindLargestFreeRegion s.ramRegions = none) ∧
      ((∃ q ∈ s.ramRegions, q.allocated = false) →
        ∃ r ∈ s.ramRegions, r.allocated = false ∧
          vmRamFindLargestFreeRegion s.ramRegions = some r ∧
          ((∀ q ∈ s.ramRegions, q.allocated = false → q.size ≤ r.size) ↔
            SkipHarmless s.ramRegions)) ∧
      (∀ addr size, 0 < size → addr + size < 2 ^ 64 →
        ((vmRamTouch s.ramRegions addr size).isSome ↔
          (∀ x ∈ (⟨addr, addr + size⟩ : Range Nat), Covered s.registered x) ∧
            ∀ r ∈ s.ramRegions, ¬(addr < r.start ∧ r.start < addr + size))) ∧
      ∀ addr < 2 ^ 64, ((vmRamTouch s.ramRegions addr 0).isSome ↔
        ∃ r ∈ s.ramRegions, r.start ≤ addr ∧ addr ≤ r.start + r.size) := by
  have hinv := h.inv hlo
  refine ⟨hinv.settled.sorted, hinv.settled.collapsed, fun x => ?_, hinv.marked, ?_,
    find_largest_none, find_largest_spec hinv.settled.nodup, ?_, ?_⟩
  · rw [← hinv.registered]
    exact ⟨fun ⟨r, hr, hx⟩ => ⟨r.allocated, r, hr, rfl, hx⟩, fun ⟨_, r, hr, _, hx⟩ => ⟨r, hr, hx⟩⟩
  · intro bytes addr rs hallocate x hx
    obtain ⟨-, r, hr, hfree, hholds⟩ := allocate_spec hallocate
    have hxr : x ∈ r.range := ⟨le_trans hholds.1 hx.1, lt_of_lt_of_le hx.2 hholds.2⟩
    refine ⟨(hinv.registered x).mp ⟨r.allocated, r, hr, rfl, hxr⟩, fun hmarked => ?_⟩
    have hflag := hinv.settled.loose.flag_eq hr hxr ((hinv.marked x).mpr hmarked)
    rw [hfree] at hflag
    cases hflag
  · intro addr size hsize hend
    rw [vmRamTouch_isSome, isRamRegion_iff hlo hinv.settled hsize hend]
    simp only [hinv.registered]
  · intro addr hend
    rw [vmRamTouch_isSome, isRamRegion_empty hlo hinv.settled hend]

/-- A page is marked in the middle of three, and two more pages are registered further up. They
are free and skipped, the allocation of three pages fails, and the two pages from the first on
are not accepted. -/
theorem three_pages_correct :
    ∃ s, Run 0 s ∧ s.ramRegions.length = 4 ∧
      vmRamAllocate s.ramRegions 0x3000 = (none, s.ramRegions) ∧
      (∃ r ∈ s.ramRegions, r.allocated = false ∧
        vmRamFindLargestFreeRegion s.ramRegions = some r ∧
        ((∀ q ∈ s.ramRegions, q.allocated = false → q.size ≤ r.size) ↔
          SkipHarmless s.ramRegions)) ∧
      ((vmRamTouch s.ramRegions 0 0x2000).isSome ↔
        (∀ x ∈ (⟨0, 0x2000⟩ : Range Nat), Covered s.registered x) ∧
          ∀ r ∈ s.ramRegions, ¬(0 < r.start ∧ r.start < 0x2000)) := by
  have hrun : Run 0 (step (step (step .init (.register 0 0x3000)) (.markAllocated 0x1000 0x1000))
      (.register 0x8000 0x2000)) := by
    refine ((Run.init.step (.register 0 0x3000) ?_).step _ ?_).step _ ?_
    · exact ⟨le_refl _, by decide, by simp [GuestMem.init]⟩
    · exact ⟨⟨0, 0x3000, false⟩, by decide, by decide, by decide⟩
    · refine ⟨by decide, by decide, fun p hp => ?_⟩
      obtain rfl : p = ⟨0, 0x3000⟩ := by simpa [GuestRam.step, GuestMem.init] using hp
      exact (apart_of_le (by decide)).symm
  obtain ⟨-, -, -, -, -, -, hlargest, htouch, -⟩ := ram_regions_correct (by decide) hrun
  exact ⟨_, hrun, by decide, by decide, hlargest ⟨⟨0, 0x1000, false⟩, by decide, rfl⟩,
    htouch 0 0x2000 (by decide) (by decide)⟩

/-! ### What goes wrong -/

/-- Two regions too far from each other are in the wrong order; the larger of two free regions
is not found; RAM that is allocated in part is not accepted. -/
theorem ram_regions_wrong :
    (step (step .init (.register 0 0x1000)) (.register 0xC0000000 0x1000)).ramRegions =
        [⟨0xC0000000, 0x1000, false⟩, ⟨0, 0x1000, false⟩] ∧
      vmRamFindLargestFreeRegion
        (step (step .init (.register 0 0x1000)) (.register 0x10000 0x2000)).ramRegions =
          some ⟨0, 0x1000, false⟩ ∧
      vmRamTouch
        (step (step .init (.register 0 0x2000)) (.markAllocated 0 0x1000)).ramRegions 0 0x2000 =
          none := by
  decide

end SeL4Kernel.GuestRam
