import SeL4Kernel.Dma.Allocator
import SeL4Kernel.Lib.Ranges
import SeL4Kernel.Lib.Round

/-!
# The regions of a node

The regions of a node are in the order of their offsets, and an allocated region has room for
its request up to the next one. Merging free regions and moving the start of a region up only
moves the end of the region before it up as well.
-/

namespace SeL4Kernel.Dma

open List

/-- The memory of a descriptor can be addressed, and its size is an `int`. -/
structure Descriptor.Ok (d : Descriptor) : Prop where
  bits : d.sizeBits < 31
  top : d.paddr + 2 ^ d.sizeBits ≤ 2 ^ 64

/-- The regions with their ends. -/
def regions (d : Descriptor) : List Mem → List (Mem × Nat)
  | [] => []
  | m :: rest => (m, stopOf d rest) :: regions d rest

/-- The regions are in order and answer their requests. -/
def InOrder (d : Descriptor) : List Mem → Prop
  | [] => True
  | m :: rest => m.offset < stopOf d rest ∧
      (m.allocated = true → m.offset + m.size ≤ stopOf d rest ∧ m.align ∣ d.paddr + m.offset) ∧
      InOrder d rest

variable {d : Descriptor} {q : Request} {fresh id : Nat} {m : Mem}
  {rest mems rest' mems' : List Mem} {quiet : Prop} {p : Mem × Nat} {r : Option (Mem × Nat)}

@[simp] theorem stopOf_cons : stopOf d (m :: rest) = m.offset := rfl

theorem Descriptor.Ok.size_le (h : d.Ok) : 2 ^ d.sizeBits ≤ 2 ^ 30 :=
  Nat.pow_le_pow_right (by omega) (Nat.le_of_lt_succ h.bits)

/-- A positive `int` as a `size_t`. -/
theorem toNat_bmod {n : Nat} (h : n ≤ 2 ^ 30) : ((n : ℤ).bmod (2 ^ 32) % 2 ^ 64).toNat = n := by
  rw [Int.bmod_def]
  omega

theorem Descriptor.Ok.nodeSize_eq (h : d.Ok) : d.nodeSize = 2 ^ d.sizeBits := by
  have hsize := toNat_bmod h.size_le
  exact hsize

theorem InOrder.stop_le (h : InOrder d mems) : stopOf d mems ≤ d.nodeSize := by
  induction mems with
  | nil => exact Nat.le_refl _
  | cons m rest ih => exact Nat.le_of_lt (Nat.lt_of_lt_of_le h.1 (ih h.2.2))

/-- Leaving out free regions at the front. -/
theorem InOrder.dropWhile (h : InOrder d mems) :
    InOrder d (mems.dropWhile Mem.isFree) ∧
      stopOf d mems ≤ stopOf d (mems.dropWhile Mem.isFree) := by
  induction mems with
  | nil => exact ⟨trivial, Nat.le_refl _⟩
  | cons m rest ih =>
    rw [dropWhile_cons]
    split
    · obtain ⟨horder, hle⟩ := ih h.2.2
      exact ⟨horder, Nat.le_trans (Nat.le_of_lt h.1) hle⟩
    · exact ⟨h, Nat.le_refl _⟩

/-- The end of the first region moves up. -/
theorem InOrder.cons_mono (h : InOrder d (m :: rest)) (horder : InOrder d rest')
    (hle : stopOf d rest ≤ stopOf d rest') : InOrder d (m :: rest') :=
  ⟨Nat.lt_of_lt_of_le h.1 hle,
    fun halloc => ⟨Nat.le_trans (h.2.1 halloc).1 hle, (h.2.1 halloc).2⟩, horder⟩

/-! ### Ends -/

theorem mem_regions (h : m ∈ mems) : ∃ stop, (m, stop) ∈ regions d mems := by
  induction mems with
  | nil => cases h
  | cons x rest ih =>
    rcases mem_cons.mp h with rfl | h
    · exact ⟨_, mem_cons_self⟩
    · obtain ⟨stop, hstop⟩ := ih h
      exact ⟨stop, mem_cons_of_mem _ hstop⟩

theorem mem_of_regions (h : p ∈ regions d mems) : p.1 ∈ mems := by
  induction mems with
  | nil => cases h
  | cons m rest ih =>
    rcases mem_cons.mp h with rfl | h
    · exact mem_cons_self
    · exact mem_cons_of_mem _ (ih h)

/-- A region lies in the node and answers its request. -/
theorem InOrder.region (h : InOrder d mems) (hp : p ∈ regions d mems) :
    stopOf d mems ≤ p.1.offset ∧ p.1.offset < p.2 ∧ p.2 ≤ d.nodeSize ∧
      (p.1.allocated = true → p.1.offset + p.1.size ≤ p.2 ∧ p.1.align ∣ d.paddr + p.1.offset) := by
  induction mems with
  | nil => cases hp
  | cons m rest ih =>
    rcases mem_cons.mp hp with rfl | hp
    · exact ⟨Nat.le_refl _, h.1, h.2.2.stop_le, h.2.1⟩
    · obtain ⟨hle, hrest⟩ := ih h.2.2 hp
      exact ⟨Nat.le_trans (Nat.le_of_lt h.1) hle, hrest⟩

theorem InOrder.pairwise (h : InOrder d mems) :
    (regions d mems).Pairwise fun p p' => p.2 ≤ p'.1.offset := by
  induction mems with
  | nil => exact .nil
  | cons m rest ih => exact pairwise_cons.mpr ⟨fun p hp => (h.2.2.region hp).1, ih h.2.2⟩

/-! ### Allocated regions -/

/-- The allocated regions stay, and keep their ends if `quiet`. -/
def Keeps (d : Descriptor) (quiet : Prop) (mems mems' : List Mem) : Prop :=
  ∀ m stop, (m, stop) ∈ regions d mems → m.allocated = true →
    ∃ stop', (m, stop') ∈ regions d mems' ∧ (quiet → stop' = stop)

theorem Keeps.refl (quiet : Prop) : Keeps d quiet mems mems :=
  fun _ stop hmem _ => ⟨stop, hmem, fun _ => rfl⟩

/-- The first region stays, up to its end. -/
theorem Keeps.cons (h : Keeps d quiet rest rest') (hstop : quiet → stopOf d rest' = stopOf d rest) :
    Keeps d quiet (m :: rest) (m :: rest') := by
  intro x stop hmem halloc
  rcases mem_cons.mp hmem with heq | hmem
  · cases heq
    exact ⟨stopOf d rest', mem_cons_self, hstop⟩
  · obtain ⟨stop', hmem', heq⟩ := h x stop hmem halloc
    exact ⟨stop', mem_cons_of_mem _ hmem', heq⟩

/-- A free region may go. -/
theorem Keeps.of_free (hfree : m.allocated = false) (h : Keeps d quiet rest mems') :
    Keeps d quiet (m :: rest) mems' := by
  intro x stop hmem halloc
  rcases mem_cons.mp hmem with heq | hmem
  · cases heq
    rw [hfree] at halloc
    cases halloc
  · exact h x stop hmem halloc

/-- Another region may come. -/
theorem Keeps.new (h : Keeps d quiet mems mems') : Keeps d quiet mems (m :: mems') := by
  intro x stop hmem halloc
  obtain ⟨stop', hmem', heq⟩ := h x stop hmem halloc
  exact ⟨stop', mem_cons_of_mem _ hmem', heq⟩

theorem keeps_dropWhile (quiet : Prop) : Keeps d quiet mems (mems.dropWhile Mem.isFree) := by
  induction mems with
  | nil => exact .refl quiet
  | cons m rest ih =>
    rw [dropWhile_cons]
    split
    next hfree => exact ih.of_free (by simpa [Mem.isFree] using hfree)
    next => exact .refl quiet

/-! ### Allocation -/

/-- The start is moved up to the alignment. -/
theorem dvd_memAlign {align : Nat} (halign : 0 < align)
    (hpaddr : dmaPaddr d m = d.paddr + m.offset) :
    align ∣ d.paddr + m.offset + memAlign d align m := by
  have hlt := Nat.mod_lt (d.paddr + m.offset) halign
  have hdiv := Nat.div_add_mod (d.paddr + m.offset) align
  rw [memAlign, hpaddr]
  split
  next hzero => exact Nat.dvd_of_mod_eq_zero (by rw [Nat.add_zero]; omega)
  next hskip =>
    refine ⟨(d.paddr + m.offset) / align + 1, ?_⟩
    rw [Nat.mul_add]
    omega

variable (hd : d.Ok) (hsize : 0 < q.size) (halign : 0 < q.align) (h : InOrder d (m :: rest))
  (hfree : m.allocated = false) (hsuits : Suits d q m rest)

include hd h

theorem memSize_eq : memSize d m rest = stopOf d rest - m.offset := by
  have hle := h.2.2.stop_le
  have hlt := h.1
  have hsize := hd.size_le
  rw [hd.nodeSize_eq] at hle
  rw [memSize]
  omega

theorem dmaPaddr_eq : dmaPaddr d m = d.paddr + m.offset := by
  have hle := h.2.2.stop_le
  have hlt := h.1
  have htop := hd.top
  rw [hd.nodeSize_eq] at hle
  exact Nat.mod_eq_of_lt (by omega)

include hsize halign hfree hsuits

/-- Using a free region. -/
theorem takeMem_spec (quiet : Prop) :
    ((takeMem d q fresh m rest).1.allocated = true ∧ (takeMem d q fresh m rest).1.size = q.size ∧
        (takeMem d q fresh m rest).1.align = q.align) ∧
      (takeMem d q fresh m rest).1 ∈ (takeMem d q fresh m rest).2 ∧
      InOrder d (takeMem d q fresh m rest).2 ∧
      stopOf d (takeMem d q fresh m rest).2 = m.offset + memAlign d q.align m ∧
      Keeps d quiet (m :: rest) (takeMem d q fresh m rest).2 := by
  have hsz := memSize_eq hd h
  have hdvd := dvd_memAlign halign (dmaPaddr_eq hd h)
  obtain ⟨hskip, hroom⟩ := hsuits
  rw [Nat.add_assoc] at hdvd
  simp only [takeMem, hsz]
  split
  next hsplit =>
    refine ⟨⟨rfl, rfl, rfl⟩, mem_cons_self,
      ⟨?_, fun _ => ⟨Nat.le_refl _, hdvd⟩, ?_, nofun, h.2.2⟩, rfl,
      (Keeps.refl quiet).of_free hfree |>.new.new⟩
    · change m.offset + memAlign d q.align m < m.offset + memAlign d q.align m + q.size
      omega
    · change m.offset + memAlign d q.align m + q.size < stopOf d rest
      omega
  next hwhole =>
    refine ⟨⟨rfl, rfl, rfl⟩, mem_cons_self, ⟨?_, fun _ => ⟨?_, hdvd⟩, h.2.2⟩, rfl,
      ((Keeps.refl quiet).of_free hfree).new⟩
    · change m.offset + memAlign d q.align m < stopOf d rest
      omega
    · change m.offset + memAlign d q.align m + q.size ≤ stopOf d rest
      omega

/-- The start of the region was not moved. -/
def NoSkip (r : Option (Mem × Nat)) : Prop := ∀ p, r = some p → p.2 = 0

/-- What the search through the regions of a node does. -/
structure SearchSpec (d : Descriptor) (q : Request) (mems : List Mem) (r : Option (Mem × Nat))
    (mems' : List Mem) : Prop where
  inOrder : InOrder d mems'
  stop_le : stopOf d mems ≤ stopOf d mems'
  stop_eq : NoSkip r → stopOf d mems' = stopOf d mems
  keeps : Keeps d (NoSkip r) mems mems'
  ne_nil : mems ≠ [] → mems' ≠ []
  found : ∀ p, r = some p →
    (p.1.allocated = true ∧ p.1.size = q.size ∧ p.1.align = q.align) ∧ p.1 ∈ mems'

theorem SearchSpec.take {t : Mem × List Mem} {skip : Nat} (ht : takeMem d q fresh m rest = t)
    (hskip : memAlign d q.align m = skip) : SearchSpec d q (m :: rest) (some (t.1, skip)) t.2 := by
  obtain ⟨halloc, hmem, horder, hstop, hkeeps⟩ :=
    @takeMem_spec d q fresh m rest hd hsize halign h hfree hsuits (NoSkip (some (t.1, skip)))
  rw [ht] at halloc hmem horder hstop hkeeps
  rw [hskip] at hstop
  refine ⟨horder, ?_, fun hquiet => ?_, hkeeps, fun _ => ne_nil_of_mem hmem, fun p hp => ?_⟩
  · rw [hstop]
    exact Nat.le_add_right ..
  · have hzero : skip = 0 := hquiet _ rfl
    rw [hstop, stopOf_cons, hzero, Nat.add_zero]
  · rw [← Option.some.inj hp]
    exact ⟨halloc, hmem⟩

omit hd hsize halign h hfree hsuits

/-- A region in front of the search. -/
theorem SearchSpec.cons (h : InOrder d (m :: rest)) (hs : SearchSpec d q rest r rest') :
    SearchSpec d q (m :: rest) r (m :: rest') :=
  ⟨h.cons_mono hs.inOrder hs.stop_le, Nat.le_refl _, fun _ => rfl, hs.keeps.cons hs.stop_eq,
    fun _ => cons_ne_nil _ _, fun p hp => ⟨(hs.found p hp).1, mem_cons_of_mem _ (hs.found p hp).2⟩⟩

/-- Merging the next free region into a free one. -/
theorem SearchSpec.merge {next : Mem} (hfree : m.allocated = false)
    (hnext : next.allocated = false) (hs : SearchSpec d q (m :: rest) r mems') :
    SearchSpec d q (m :: next :: rest) r mems' := by
  have hle := hs.stop_le
  have heq := hs.stop_eq
  refine ⟨hs.inOrder, ?_, ?_, .of_free hfree (.of_free hnext ?_),
    fun _ => hs.ne_nil (cons_ne_nil _ _), hs.found⟩
  · rwa [stopOf_cons]
  · rwa [stopOf_cons]
  · intro x stop hmem halloc
    exact hs.keeps x stop (mem_cons_of_mem _ hmem) halloc

include hd hsize halign in
/-- **The search through a node.** By induction on the regions that are left. -/
theorem memdAlloc_spec (cur : Option Mem) (hcur : ∀ m ∈ cur, m.allocated = false)
    (h : InOrder d (cur.toList ++ mems)) :
    SearchSpec d q (cur.toList ++ mems) (memdAlloc d q fresh cur mems).1
      (memdAlloc d q fresh cur mems).2 := by
  induction mems generalizing cur with
  | nil =>
    cases cur with
    | none => exact ⟨trivial, Nat.le_refl _, fun _ => rfl, .refl _, id, nofun⟩
    | some m =>
      obtain ⟨t, ht⟩ : ∃ t, takeMem d q fresh m [] = t := ⟨_, rfl⟩
      obtain ⟨skip, hskip⟩ : ∃ n, memAlign d q.align m = n := ⟨_, rfl⟩
      rw [memdAlloc, ht, hskip]
      split
      next hsuits => exact .take hd hsize halign h (hcur m rfl) hsuits ht hskip
      · exact ⟨h, Nat.le_refl _, fun _ => rfl, .refl _, id, nofun⟩
  | cons next rest ih =>
    cases cur with
    | none =>
      rw [memdAlloc]
      split
      next hfree =>
        have hnext : next.allocated = false := by simpa [Mem.isFree] using hfree
        exact ih (some next) (by simpa using hnext) h
      next =>
        have hs := ih none nofun h.2.2
        exact .cons h hs
    | some m =>
      have hm := hcur m rfl
      obtain ⟨t, ht⟩ : ∃ t, takeMem d q fresh m (next :: rest) = t := ⟨_, rfl⟩
      obtain ⟨skip, hskip⟩ : ∃ n, memAlign d q.align m = n := ⟨_, rfl⟩
      rw [memdAlloc, ht, hskip]
      split
      next hfree =>
        have hnext : next.allocated = false := by simpa [Mem.isFree] using hfree
        have hmerged : InOrder d (m :: rest) := InOrder.cons_mono h h.2.2.2.2 (Nat.le_of_lt h.2.2.1)
        exact .merge hm hnext (ih (some m) hcur hmerged)
      next =>
        split
        next hsuits => exact .take hd hsize halign h hm hsuits ht hskip
        next =>
          have hs := ih none nofun h.2.2.2.2
          exact .cons h (.cons h.2.2 hs)

/-! ### Free memory -/

/-- The free memory of a node by its physical addresses: free regions that follow each other are
one block, which `cur` started. -/
def freeBlocks (d : Descriptor) : Option Mem → List Mem → List (Range Nat)
  | none, [] => []
  | some m, [] => [⟨d.paddr + m.offset, d.paddr + d.nodeSize⟩]
  | none, next :: rest =>
    if next.isFree then freeBlocks d (some next) rest else freeBlocks d none rest
  | some m, next :: rest =>
    if next.isFree then freeBlocks d (some m) rest
    else ⟨d.paddr + m.offset, d.paddr + next.offset⟩ :: freeBlocks d none rest

/-- The request fits into the block from the first aligned address on. -/
def hasRoom (q : Request) (b : Range Nat) : Bool := roundUp b.start q.align + q.size ≤ b.stop

section

variable (hd : d.Ok) (h : InOrder d (m :: rest))

include hd h

theorem memAlign_eq {align : Nat} :
    d.paddr + m.offset + memAlign d align m = roundUp (d.paddr + m.offset) align := by
  rw [memAlign, dmaPaddr_eq hd h, roundUp]
  by_cases hzero : (d.paddr + m.offset) % align = 0
  · rw [hzero, Nat.sub_zero, if_pos rfl, if_pos rfl]
  · have hle := Nat.mod_le (d.paddr + m.offset) align
    rw [if_neg hzero]
    split
    next hsame =>
      rcases Nat.eq_zero_or_pos align with rfl | hpos
      · rw [Nat.zero_sub]
      · omega
    next => rfl

theorem hasRoom_eq (hsize : 0 < q.size) :
    hasRoom q ⟨d.paddr + m.offset, d.paddr + stopOf d rest⟩ = decide (Suits d q m rest) := by
  have hskip := @memAlign_eq d m rest hd h q.align
  have hlt := h.1
  rw [hasRoom, decide_eq_decide, Suits, memSize_eq hd h, ← hskip]
  dsimp only
  omega

end

include hd hsize in
/-- The search takes the first block that has room, from its first aligned address on. -/
theorem memdAlloc_first (cur : Option Mem) (h : InOrder d (cur.toList ++ mems)) :
    (memdAlloc d q fresh cur mems).1.map Prod.snd =
      ((freeBlocks d cur mems).find? (hasRoom q)).map
        fun b => roundUp b.start q.align - b.start := by
  have htaken : ∀ {m rest}, InOrder d (m :: rest) → memAlign d q.align m =
      roundUp (d.paddr + m.offset) q.align - (d.paddr + m.offset) := fun h => by
    rw [← memAlign_eq hd h, Nat.add_sub_cancel_left]
  induction mems generalizing cur with
  | nil =>
    cases cur with
    | none => rfl
    | some m =>
      have hroom := @hasRoom_eq d q m [] hd h hsize
      rw [stopOf] at hroom
      rw [memdAlloc, freeBlocks, find?_cons, hroom]
      split
      next hsuits =>
        rw [decide_eq_true hsuits]
        exact congrArg some (htaken h)
      next hsuits =>
        rw [decide_eq_false hsuits]
        rfl
  | cons next rest ih =>
    cases cur with
    | none =>
      rw [memdAlloc, freeBlocks]
      split
      · exact ih (some next) h
      · exact ih none h.2.2
    | some m =>
      rw [memdAlloc, freeBlocks]
      split
      · exact ih (some m) (InOrder.cons_mono h h.2.2.2.2 (Nat.le_of_lt h.2.2.1))
      have hroom := @hasRoom_eq d q m (next :: rest) hd h hsize
      rw [stopOf_cons] at hroom
      rw [find?_cons, hroom]
      split
      next hsuits =>
        rw [decide_eq_true hsuits]
        exact congrArg some (htaken h)
      next hsuits =>
        rw [decide_eq_false hsuits]
        exact ih none h.2.2.2.2

/-! ### Freeing -/

/-- A region that is free again. -/
theorem InOrder.free (h : InOrder d (m :: rest)) :
    InOrder d ({ m with allocated := false } :: rest) := ⟨h.1, nofun, h.2.2⟩

theorem InOrder.memCompact (h : InOrder d mems) : InOrder d (memCompact mems) := by
  cases mems with
  | nil => exact h
  | cons m rest => exact h.cons_mono h.2.2.dropWhile.1 h.2.2.dropWhile.2

theorem memCompact_ne_nil (h : mems ≠ []) : memCompact mems ≠ [] := by
  cases mems with
  | nil => exact absurd rfl h
  | cons m rest => simp [memCompact]

theorem freeMem_ne_nil (h : mems ≠ []) : freeMem id mems ≠ [] := by
  cases mems with
  | nil => exact absurd rfl h
  | cons m rest =>
    rw [freeMem]
    split
    · exact memCompact_ne_nil (by simp)
    · simp

theorem stopOf_memCompact : stopOf d (memCompact mems) = stopOf d mems := by cases mems <;> rfl

/-- Compacting an allocated region moves its end, if there are free regions behind it. -/
theorem keeps_memCompact (hquiet : quiet → ∀ m rest, mems = m :: rest → m.allocated = true →
      rest.dropWhile Mem.isFree = rest) : Keeps d quiet mems (memCompact mems) := by
  cases mems with
  | nil => exact .refl quiet
  | cons m rest =>
    intro x stop hmem halloc
    rcases mem_cons.mp hmem with heq | hmem
    · cases heq
      refine ⟨_, mem_cons_self, fun hq => ?_⟩
      rw [hquiet hq m rest rfl halloc]
    · obtain ⟨stop', hmem', heq⟩ := keeps_dropWhile quiet x stop hmem halloc
      exact ⟨stop', mem_cons_of_mem _ hmem', heq⟩

theorem freeMem_inOrder (h : InOrder d mems) :
    InOrder d (freeMem id mems) ∧ stopOf d (freeMem id mems) = stopOf d mems := by
  induction mems with
  | nil => exact ⟨h, rfl⟩
  | cons m rest ih =>
    rw [freeMem]
    split
    · exact ⟨h.free.memCompact, rfl⟩
    · obtain ⟨horder, hstop⟩ := ih h.2.2
      exact ⟨h.cons_mono horder (Nat.le_of_eq hstop.symm), rfl⟩

/-- Freeing a region leaves the other allocated ones as they are. -/
theorem mem_freeMem {stop : Nat} {x : Mem} (h : InOrder d mems)
    (hmem : (x, stop) ∈ regions d mems) (halloc : x.allocated = true) (hne : x.id ≠ id) :
    (x, stop) ∈ regions d (freeMem id mems) := by
  induction mems with
  | nil => cases hmem
  | cons m rest ih =>
    rw [freeMem]
    rcases mem_cons.mp hmem with heq | hmem
    · cases heq
      rw [if_neg hne, regions, (freeMem_inOrder h.2.2).2]
      exact mem_cons_self
    · split
      · obtain ⟨stop', hmem', heq⟩ := keeps_dropWhile True x stop hmem halloc
        rw [← heq trivial]
        exact mem_cons_of_mem _ hmem'
      · exact mem_cons_of_mem _ (ih h.2.2 hmem)

end SeL4Kernel.Dma
