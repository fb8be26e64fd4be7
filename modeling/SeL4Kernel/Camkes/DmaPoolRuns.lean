import SeL4Kernel.Camkes.DmaPool

/-!
# Runs of the DMA pool

The free regions and the outstanding blocks cut the pool into pieces, a block answers its
request, and the flags agree with the frames, whatever is initialised, allocated and freed:
provided that memory is initialised with a page size of which it is a multiple, and that free
memory happens to hold the right flag wherever `alloc` may make a node in it.
-/

namespace SeL4Kernel.Camkes

open List Range

variable {pools : List DmaPool} {pool : Nat → Prop} {others : List (Range Nat)}
  {l l' rest : List Region} {p q r : Region} {memory : Nat → Bool} {c : Bool}
  {size align start n m v b : Nat}

/-! ### Pieces of the pool -/

def Region.range (r : Region) : Range Nat := ⟨r.vaddr, r.vaddr + r.size⟩

/-- The cacheability of the memory at an address. -/
def cacheability (pools : List DmaPool) (v : Nat) : Option Bool :=
  (getFrameDesc pools v).map DmaFrame.cached

/-- Memory that is physically contiguous and has one cacheability. -/
structure Piece (pools : List DmaPool) (start size : Nat) (c : Bool) : Prop where
  contiguous : ∀ k < size,
    camkesDmaGetPaddr pools (start + k) = camkesDmaGetPaddr pools start + k
  flag : ∀ k < size, cacheability pools (start + k) = some c

theorem Piece.sub (h : Piece pools start size c) {s : Nat} (hs : start ≤ s)
    (hn : s + n ≤ start + size) : Piece pools s n c := by
  obtain ⟨d, rfl⟩ := Nat.exists_eq_add_of_le hs
  constructor
  · intro k hk
    rw [Nat.add_assoc, h.contiguous (d + k) (by omega), h.contiguous d (by omega)]
    omega
  · intro k hk
    rw [Nat.add_assoc]
    exact h.flag (d + k) (by omega)

theorem Piece.join (h : Piece pools start n c) (h' : Piece pools (start + n) m c)
    (hp : camkesDmaGetPaddr pools (start + n) = camkesDmaGetPaddr pools start + n) :
    Piece pools start (n + m) c := by
  constructor
  · intro k hk
    by_cases hkn : k < n
    · exact h.contiguous k hkn
    · obtain ⟨d, rfl⟩ := Nat.exists_eq_add_of_le (Nat.le_of_not_lt hkn)
      rw [← Nat.add_assoc, h'.contiguous d (by omega)]
      omega
  · intro k hk
    by_cases hkn : k < n
    · exact h.flag k hkn
    · obtain ⟨d, rfl⟩ := Nat.exists_eq_add_of_le (Nat.le_of_not_lt hkn)
      rw [← Nat.add_assoc]
      exact h'.flag d (by omega)

/-- Frames start at multiples of 4096, and the first frame of the machine is not used. -/
def Translates (pools : List DmaPool) (pool : Nat → Prop) : Prop :=
  ∀ v, pool v → camkesDmaGetPaddr pools v % 4096 = v % 4096 ∧ 4096 ≤ camkesDmaGetPaddr pools v

structure RegionOk (pools : List DmaPool) (r : Region) : Prop where
  room : sizeofRegion ≤ r.size
  piece : Piece pools r.vaddr r.size r.cached
  located : r.paddrUpper ≠ 0 → tryExtractPaddr r = camkesDmaGetPaddr pools r.vaddr

/-- The free regions are in order, and cut up the pool together with the other ranges. -/
structure Good (pools : List DmaPool) (pool : Nat → Prop) (others : List (Range Nat))
    (l : List Region) : Prop where
  cuts : Cuts (l.map Region.range ++ others) pool
  region : ∀ r ∈ l, RegionOk pools r

theorem Good.perm (h : Good pools pool others l) (hp : l.Perm l') :
    Good pools pool others l' where
  cuts := h.cuts.perm ((hp.map Region.range).append_right others)
  region r hr := h.region r (hp.mem_iff.mpr hr)

theorem Good.mem_pool (h : Good pools pool others l) (hr : r ∈ l) (hv : v ∈ r.range) : pool v :=
  (h.cuts.cover v).mpr
    ⟨r.range, mem_append_left _ (mem_map_of_mem hr), hv⟩

theorem RegionOk.start_mem (h : RegionOk pools r) : r.vaddr ∈ r.range := by
  have hroom := h.room
  rw [sizeofRegion] at hroom
  exact ⟨Nat.le_refl _, show r.vaddr < r.vaddr + r.size by omega⟩

theorem tryExtractPaddr_of_upper (hne : r.paddrUpper ≠ 0)
    (hupper : r.paddrUpper = camkesDmaGetPaddr pools r.vaddr / 4096)
    (hoff : camkesDmaGetPaddr pools r.vaddr % 4096 = r.vaddr % 4096) :
    tryExtractPaddr r = camkesDmaGetPaddr pools r.vaddr := by
  rw [tryExtractPaddr, if_neg hne]
  omega

/-! ### Coalescing -/

theorem extractPaddr_ok (h : RegionOk pools r)
    (hv : camkesDmaGetPaddr pools r.vaddr % 4096 = r.vaddr % 4096)
    (hpos : 4096 ≤ camkesDmaGetPaddr pools r.vaddr) :
    RegionOk pools (extractPaddr pools r) ∧ (extractPaddr pools r).range = r.range ∧
      (extractPaddr pools r).paddrUpper ≠ 0 := by
  rw [extractPaddr]
  split
  next h0 =>
    have hne : camkesDmaGetPaddr pools r.vaddr / 4096 ≠ 0 := by omega
    exact ⟨⟨h.room, h.piece, fun _ => tryExtractPaddr_of_upper hne rfl hv⟩, rfl, hne⟩
  next h0 =>
    refine ⟨h, rfl, fun hc => h0 ?_⟩
    rw [tryExtractPaddr, if_pos hc]

/-- The regions are in order and their physical addresses are known. -/
structure Known (pools : List DmaPool) (pool : Nat → Prop) (others : List (Range Nat))
    (l : List Region) : Prop extends Good pools pool others l where
  known : ∀ r ∈ l, r.paddrUpper ≠ 0

theorem Known.perm (h : Known pools pool others l) (hp : l.Perm l') :
    Known pools pool others l' where
  toGood := h.toGood.perm hp
  known r hr := h.known r (hp.mem_iff.mpr hr)

/-- A region takes in one that follows it. The order of the list does not matter. -/
inductive Merge : List Region → List Region → Prop
  | intro {p q : Region} {l l' rest : List Region} (hf : follows p q = true)
      (hl : l.Perm (p :: q :: rest)) (hl' : l'.Perm (growNode q p.size :: rest)) : Merge l l'

theorem Merge.cuts {covered : Nat → Prop} (hm : Merge l l')
    (h : Cuts (l.map Region.range ++ others) covered) :
    Cuts (l'.map Region.range ++ others) covered := by
  obtain @⟨p, q, _, _, rest, hf, hl, hl'⟩ := hm
  have hv := (of_decide_eq_true hf).1
  have h' : Cuts ([p.range, q.range] ++ (rest.map Region.range ++ others)) covered :=
    h.perm ((hl.map Region.range).append_right others)
  refine (h'.replace (pairwise_singleton Apart (growNode q p.size).range) fun x => ?_).perm
    ((hl'.map Region.range).append_right others).symm
  simp only [covered_cons, covered_nil, or_false, Region.range, growNode, Range.mem_iff]
  omega

theorem Known.merge (h : Known pools pool others l) (hm : Merge l l') :
    Known pools pool others l' := by
  have hcuts := hm.cuts h.cuts
  obtain @⟨p, q, _, _, rest, hf, hl, hl'⟩ := hm
  have h' := h.perm hl
  obtain ⟨hv, hpaddr, hflag⟩ := of_decide_eq_true hf
  have hp := h'.region p mem_cons_self
  have hqmem : q ∈ p :: q :: rest := mem_cons_of_mem p mem_cons_self
  have hq := h'.region q hqmem
  rw [hp.located (h'.known p mem_cons_self), hq.located (h'.known q hqmem)] at hpaddr
  have hmem : ∀ s ∈ l', s = growNode q p.size ∨ s ∈ p :: q :: rest := fun s hs =>
    (mem_cons.mp (hl'.mem_iff.mp hs)).imp_right fun hr => mem_cons_of_mem p (mem_cons_of_mem q hr)
  refine ⟨⟨hcuts, fun s hs => ?_⟩, fun s hs => ?_⟩
  · rcases hmem s hs with rfl | hs
    · refine ⟨Nat.le_trans hq.room (Nat.le_add_right ..), ?_, hq.located⟩
      refine hq.piece.join ?_ (hv ▸ hpaddr)
      have hpp := hp.piece
      rw [hv, hflag] at hpp
      exact hpp
    · exact h'.region s hs
  · rcases hmem s hs with rfl | hs
    · exact h'.known q hqmem
    · exact h'.known s hs

theorem touching_perm {before front between : List Region}
    (h : touching p before = some (front, q, between)) :
    (before ++ p :: rest).Perm (p :: q :: (front ++ (between ++ rest))) := by
  rw [(touching_spec h).1]
  refine perm_middle.trans (.cons p ?_)
  rw [append_assoc]
  exact perm_middle

/-- **Coalescing is a sequence of merges.** -/
theorem merges_defragFrom (before after : List Region) :
    Relation.ReflTransGen Merge (before ++ after) (defragFrom before after) := by
  fun_induction defragFrom before after with
  | case1 before => rw [append_nil]
  | case2 before p rest ht ih => rwa [append_assoc] at ih
  | case3 before p rest q between hf ht hlen ih => exact ih.head ⟨hf, touching_perm ht, .refl _⟩
  | case4 before p rest front q between ht hlen hf hfront ih =>
    exact ih.head ⟨hf, touching_perm ht, perm_middle⟩
  | case5 before p rest front q between ht hlen hf ih =>
    have hqp := (Bool.or_eq_true_iff.mp (touching_spec ht).2).resolve_left hf
    refine ih.head ⟨hqp, (touching_perm ht).trans (.swap q p _), ?_⟩
    rw [← append_assoc]
    exact perm_middle

theorem Known.merges (h : Known pools pool others l) (hm : Relation.ReflTransGen Merge l l') :
    Known pools pool others l' := by
  induction hm with
  | refl => exact h
  | tail _ hstep ih => exact ih.merge hstep

theorem defrag_good (ht : Translates pools pool) (h : Good pools pool others l) :
    Good pools pool others (defrag pools l) := by
  have hlook : ∀ r ∈ l, RegionOk pools (extractPaddr pools r) ∧
      (extractPaddr pools r).range = r.range ∧ (extractPaddr pools r).paddrUpper ≠ 0 := by
    intro r hr
    have hv := ht r.vaddr (h.mem_pool hr (h.region r hr).start_mem)
    exact extractPaddr_ok (h.region r hr) hv.1 hv.2
  refine (Known.merges ⟨⟨?_, ?_⟩, ?_⟩ (merges_defragFrom [] _)).toGood
  · rw [nil_append, map_map,
      map_congr_left (f := Region.range ∘ extractPaddr pools) (g := Region.range)
        fun r hr => (hlook r hr).2.1]
    exact h.cuts
  · exact forall_mem_map.mpr fun r hr => (hlook r hr).1
  · exact forall_mem_map.mpr fun r hr => (hlook r hr).2.2

/-! ### Allocation -/

/-- The `size` bytes at `q` lie in the region, and what is left on each side of them is nothing
or has room for a node. -/
structure Fits (p : Region) (size align q : Nat) : Prop where
  aligned : align ∣ q
  front : q = p.vaddr ∨ p.vaddr + sizeofRegion ≤ q
  behind : q + size = p.vaddr + p.size ∨ q + size + sizeofRegion ≤ p.vaddr + p.size

theorem scan_fits {fuel a b : Nat} (h : scan p size align fuel a = some b) (ha : align ∣ a) :
    Fits p size align b := by
  induction fuel generalizing a with
  | zero => cases h
  | succ fuel ih =>
    rw [scan] at h
    split at h
    next hfront =>
      split at h
      next hbehind =>
        cases h
        exact ⟨ha, hfront, hbehind⟩
      next => exact ih h (Nat.dvd_sub ha (Nat.dvd_refl align))
    next => cases h

/-- What is left of the region in front of the block. -/
def frontPart (p : Region) (b : Nat) : List Region :=
  if b = p.vaddr then [] else [{ p with size := b - p.vaddr }]

/-- What is left of the region from `stop` on, behind the block. -/
def behindPart (memory : Nat → Bool) (p : Region) (stop : Nat) : List Region :=
  if stop = p.vaddr + p.size then [] else [restNode memory p stop]

/-- The four cases of a cut are the same up to the order of the list. -/
theorem cut_perm {prev next : List Region} :
    (cut memory prev p next b size).Perm
      (frontPart p b ++ behindPart memory p (b + size) ++ (prev ++ next)) := by
  rw [cut, frontPart, behindPart]
  split
  next hb =>
    rw [if_pos hb.symm]
    split
    next hs =>
      rw [if_pos (by rw [hb, hs])]
      exact .refl _
    · rw [if_neg (by omega), hb]
      exact perm_middle
  next hb =>
    rw [if_neg (Ne.symm hb)]
    by_cases hs : b + size = p.vaddr + p.size
    · rw [if_pos hs, if_pos hs]
      have hshrink : shrinkNode p size = { p with size := b - p.vaddr } := by
        rw [shrinkNode, Region.mk.injEq]
        exact ⟨rfl, rfl, by omega, rfl⟩
      rw [hshrink]
      exact perm_middle
    · rw [if_neg hs, if_neg hs]
      exact (List.Perm.cons _ perm_middle).trans (List.Perm.swap ..)

theorem allocFrom_spec {prev : List Region}
    (h : allocFrom memory size align c prev l = some (b, l')) :
    ∃ p rest, (prev ++ l).Perm (p :: rest) ∧ p.cached = c ∧ Fits p size align b ∧
      l'.Perm (frontPart p b ++ behindPart memory p (b + size) ++ rest) := by
  induction l generalizing prev with
  | nil => cases h
  | cons p next ih =>
    rw [allocFrom] at h
    split at h
    next b' hfound =>
      split at hfound
      next hc =>
        cases h
        have hfits := scan_fits hfound (Nat.dvd_sub_mod _)
        exact ⟨p, prev ++ next, perm_middle, hc.2, hfits, cut_perm⟩
      next => cases hfound
    next =>
      obtain ⟨p', rest, hperm, hrest⟩ := ih h
      rw [append_assoc] at hperm
      exact ⟨p', rest, hperm, hrest⟩

variable (h : Fits p size align b)

include h

theorem map_range_frontPart :
    (frontPart p b).map Region.range = if b = p.vaddr then [] else [⟨p.vaddr, b⟩] := by
  have hfront := h.front
  rw [frontPart]
  split
  · rfl
  · rw [map_singleton, Region.range]
    rw [show p.vaddr + (b - p.vaddr) = b by omega]

theorem map_range_behindPart :
    (behindPart memory p (b + size)).map Region.range =
      if b + size = p.vaddr + p.size then [] else [⟨b + size, p.vaddr + p.size⟩] := by
  have hbehind := h.behind
  rw [behindPart]
  split
  · rfl
  · rw [map_singleton, Region.range, restNode]
    rw [show b + size + (p.vaddr + p.size - (b + size)) = p.vaddr + p.size by omega]

/-- The block and the parts of the region around it are the region. -/
theorem Fits.cuts (hc : Cuts (p.range :: (rest.map Region.range ++ others)) pool) :
    Cuts ((frontPart p b ++ behindPart memory p (b + size) ++ rest).map Region.range ++
      (⟨b, b + size⟩ :: others)) pool := by
  have hfront := h.front
  have hbehind := h.behind
  have hparts : Cuts ((⟨b, b + size⟩ :: ((frontPart p b).map Region.range ++
      (behindPart memory p (b + size)).map Region.range)) ++
      (rest.map Region.range ++ others)) pool := by
    refine hc.replace (s := [p.range]) ?_ fun x => ?_
    · rw [map_range_frontPart h, map_range_behindPart h]
      split <;> split <;>
        simp only [nil_append, cons_append, pairwise_cons, mem_cons,
          not_mem_nil, Apart, Range.mem_iff] <;>
        grind
    · rw [map_range_frontPart h, map_range_behindPart h, Region.range]
      split <;> split <;>
        simp only [nil_append, cons_append, covered_cons, covered_nil, or_false, Range.mem_iff] <;>
        omega
  refine hparts.perm (.trans ?_ perm_middle.symm)
  simp only [map_append, cons_append, append_assoc, List.Perm.refl]

omit h

theorem RegionOk.shorter (hp : RegionOk pools p) (hn : sizeofRegion ≤ n) (hle : n ≤ p.size) :
    RegionOk pools { p with size := n } :=
  ⟨hn, hp.piece.sub (Nat.le_refl p.vaddr) (Nat.add_le_add_left hle p.vaddr), hp.located⟩

theorem RegionOk.restNode (hp : RegionOk pools p) {s : Nat} (hs : p.vaddr ≤ s)
    (hroom : s + sizeofRegion ≤ p.vaddr + p.size)
    (hoff : camkesDmaGetPaddr pools s % 4096 = s % 4096) (hflag : memory s = p.cached) :
    RegionOk pools (restNode memory p s) := by
  have hlt : s - p.vaddr < p.size := by
    rw [sizeofRegion] at hroom
    omega
  have hpaddr := hp.piece.contiguous (s - p.vaddr) hlt
  rw [Nat.add_sub_of_le hs] at hpaddr
  constructor
  · exact Nat.le_sub_of_add_le (by omega)
  · have hsub : Piece pools s (p.vaddr + p.size - s) p.cached := hp.piece.sub hs (by omega)
    rw [← hflag] at hsub
    exact hsub
  · intro hne
    refine tryExtractPaddr_of_upper hne ?_ hoff
    rw [Camkes.restNode] at hne ⊢
    split at hne
    next hbase =>
      have hupper : p.paddrUpper ≠ 0 := fun hc => hbase (by rw [tryExtractPaddr, if_pos hc])
      rw [if_pos hbase, hp.located hupper, hpaddr]
    next => exact absurd rfl hne

/-- The memory of the regions with the flag `c` holds it wherever a block may end. -/
def HoldsFlag (memory : Nat → Bool) (size align : Nat) (c : Bool) (l : List Region) : Prop :=
  ∀ r ∈ l, r.cached = c → ∀ b, align ∣ b → b + size ∈ r.range → memory (b + size) = c

/-- A block is cut out of a good list. -/
theorem alloc_good (hsize : 0 < size) (ht : Translates pools pool)
    (h : Good pools pool others l) (ha : alloc memory size align c l = (some b, l'))
    (hflag : HoldsFlag memory size align c l) :
    Good pools pool (⟨b, b + size⟩ :: others) l' ∧ align ∣ b ∧ Piece pools b size c := by
  rw [alloc] at ha
  split at ha
  next b' l'' hfrom =>
    cases ha
    obtain ⟨p, rest, hperm, hpc, hfits, hperm'⟩ := allocFrom_spec hfrom
    have h' := h.perm hperm
    have hp := h'.region p mem_cons_self
    have hfront := hfits.front
    have hbehind := hfits.behind
    refine ⟨Good.perm ⟨hfits.cuts h'.cuts, fun r hr => ?_⟩ hperm'.symm, hfits.aligned, ?_⟩
    · rcases mem_append.mp hr with hr | hr
      · rcases mem_append.mp hr with hr | hr
        · rw [frontPart] at hr
          split at hr
          · cases hr
          · rw [mem_singleton.mp hr]
            exact hp.shorter (by omega) (by omega)
        · rw [behindPart] at hr
          split at hr
          · cases hr
          rw [mem_singleton.mp hr]
          have hs : b + size ∈ p.range :=
            ⟨show p.vaddr ≤ b + size by omega,
              show b + size < p.vaddr + p.size by rw [sizeofRegion] at hbehind; omega⟩
          exact hp.restNode hs.1 (by omega) (ht _ (h'.mem_pool mem_cons_self hs)).1
            ((hflag p (hperm.mem_iff.mpr mem_cons_self) hpc b hfits.aligned hs).trans hpc.symm)
      · exact h'.region r (mem_cons_of_mem p hr)
    · rw [← hpc]
      exact hp.piece.sub (by omega) (by omega)
  next => cases ha

theorem alloc_none (ha : alloc memory size align c l = (none, l')) : l' = l := by
  rw [alloc] at ha
  split at ha <;> cases ha
  rfl

theorem camkesDmaAlloc_cases {x : Option Nat}
    (h : camkesDmaAlloc pools memory size align c l = some (x, l')) :
    x = none ∧ l' = l ∨
      sizeofRegion ≤ blockSize size ∧ ∃ l0, (l0 = l ∨ l0 = defrag pools l) ∧
        alloc memory (blockSize size) (blockAlign align) c l0 = (x, l') := by
  rw [camkesDmaAlloc] at h
  split at h
  · cases h
    exact .inl ⟨rfl, rfl⟩
  split at h
  · cases h
  rename_i hsize
  split at h
  next free hnone =>
    cases alloc_none hnone
    split at h
    · exact .inr ⟨Nat.le_of_not_lt hsize, _, .inr rfl, Option.some.inj h⟩
    · cases h
      exact .inl ⟨rfl, rfl⟩
  next => exact .inr ⟨Nat.le_of_not_lt hsize, l, .inl rfl, Option.some.inj h⟩

/-! ### Blocks -/

/-- An outstanding allocation. -/
structure Block where
  ptr : Nat
  size : Nat
  align : Nat
  cached : Bool
  deriving DecidableEq

def Block.range (b : Block) : Range Nat := ⟨b.ptr, b.ptr + blockSize b.size⟩

/-- The block answers its request. -/
structure Answers (pools : List DmaPool) (b : Block) : Prop where
  large : b.size ≤ blockSize b.size
  aligned : b.align ≠ 0 → b.align ∣ b.ptr
  piece : Piece pools b.ptr (blockSize b.size) b.cached
  hosts : alignofRegion ∣ b.ptr
  room : sizeofRegion ≤ blockSize b.size

theorem blockSize_large (hsize : size < 2 ^ 64) (h : sizeofRegion ≤ blockSize size) :
    size ≤ blockSize size := by
  rw [blockSize, roundUp, sizeofRegion, alignofRegion] at h ⊢
  split at h <;> split <;> omega

theorem blockAlign_dvd (h : align = 0 ∨ ∃ k, align = 2 ^ k) :
    alignofRegion ∣ blockAlign align ∧ (align ≠ 0 → align ∣ blockAlign align) := by
  rcases h with rfl | ⟨k, rfl⟩
  · exact ⟨by decide, fun h => absurd rfl h⟩
  have hpos : (2 : Nat) ^ k ≠ 0 := Nat.ne_of_gt (Nat.two_pow_pos k)
  rw [blockAlign, if_neg hpos]
  split
  next hlt =>
    have hk : k < 3 := (Nat.pow_lt_pow_iff_right (by decide)).mp hlt
    exact ⟨Nat.dvd_refl _, fun _ => Nat.pow_dvd_pow 2 (Nat.le_of_lt hk)⟩
  next hge =>
    have hk : 3 ≤ k := (Nat.pow_le_pow_iff_right (by decide)).mp (Nat.le_of_not_lt hge)
    exact ⟨Nat.pow_dvd_pow 2 hk, fun _ => Nat.dvd_refl _⟩

/-! ### Runs -/

/-- The free list, the outstanding blocks and the memory that was initialised. -/
structure State where
  free : List Region
  blocks : List Block
  memory : List (Range Nat)

def State.init : State := { free := [], blocks := [], memory := [] }

inductive Op where
  | init (dmaPool dmaPoolSz pageSize : Nat) (cached : Bool)
  | alloc (memory : Nat → Bool) (size align : Nat) (cached : Bool)
  | free (b : Block)

def step (pools : List DmaPool) (s : State) : Op → Option State
  | .init dmaPool dmaPoolSz pageSize cached =>
    match camkesDmaInit pools dmaPool dmaPoolSz pageSize cached s.free with
    | none => none
    | some (false, free) => some { s with free := free }
    | some (true, free) =>
      some { s with free := free, memory := ⟨dmaPool, dmaPool + dmaPoolSz⟩ :: s.memory }
  | .alloc memory size align cached =>
    match camkesDmaAlloc pools memory size align cached s.free with
    | none => none
    | some (none, free) => some { s with free := free }
    | some (some ptr, free) =>
      some { s with
        free := free
        blocks := { ptr := ptr, size := size, align := align, cached := cached } :: s.blocks }
  | .free b =>
    (camkesDmaFree pools b.ptr b.size s.free).map fun free =>
      { s with free := free, blocks := s.blocks.erase b }

/-- What the descriptors say about the pages that the pool is initialised with. -/
structure Backed (pools : List DmaPool) (pool : Range Nat) (pageSize : Nat) (cached : Bool) :
    Prop where
  translates : Translates pools (· ∈ pool)
  flag : ∀ v ∈ pool, cacheability pools v = some cached
  page : ∀ v ∈ pool, camkesDmaGetPaddr pools v =
    camkesDmaGetPaddr pools (v - v % pageSize) + v % pageSize

/-- The arguments of an operation are of the kind that it expects. Memory is initialised once, with
a page size of which it is a multiple, and an outstanding block is freed. -/
def Asked (pools : List DmaPool) (s : State) : Op → Prop
  | .init dmaPool dmaPoolSz pageSize cached =>
    Backed pools ⟨dmaPool, dmaPool + dmaPoolSz⟩ pageSize cached ∧ pageSize ≠ 0 ∧
      pageSize ∣ dmaPoolSz ∧ pageSize < 2 ^ 64 ∧
      ∀ r ∈ s.memory, r.Apart ⟨dmaPool, dmaPool + dmaPoolSz⟩
  | .alloc _ size align _ => 0 < size ∧ size < 2 ^ 64 ∧ (align = 0 ∨ ∃ k, align = 2 ^ k)
  | .free b => b ∈ s.blocks

/-- The free memory of the requested cacheability holds the flag wherever a block may end. -/
def Flagged (s : State) : Op → Prop
  | .alloc memory size align cached =>
    HoldsFlag memory (blockSize size) (blockAlign align) cached s.free
  | _ => True

/-- The states after operations that satisfy `ok`. -/
inductive Reached (pools : List DmaPool) (ok : State → Op → Prop) : State → Prop
  | init : Reached pools ok .init
  | step {s s' : State} (op : Op) (h : Reached pools ok s) (hasked : Asked pools s op)
      (hok : ok s op) (hstep : step pools s op = some s') : Reached pools ok s'

/-- What the pool promises. -/
structure Correct (pools : List DmaPool) (s : State) : Prop where
  cuts : Cuts (s.free.map Region.range ++ s.blocks.map Block.range) (Covered s.memory)
  flags : ∀ r ∈ s.free, ∀ v ∈ r.range, cacheability pools v = some r.cached
  answers : ∀ b ∈ s.blocks, Answers pools b
  freed : ∀ b ∈ s.blocks, (step pools s (.free b)).isSome

structure Inv (pools : List DmaPool) (s : State) : Prop where
  good : Good pools (Covered s.memory) (s.blocks.map Block.range) s.free
  answers : ∀ b ∈ s.blocks, Answers pools b
  translates : Translates pools (Covered s.memory)
  notNull : ¬Covered s.memory 0

variable {s s' : State} {op : Op} {pageSize : Nat}

/-- An outstanding block becomes a region. -/
theorem Inv.camkesDmaFree_eq (h : Inv pools s) {b : Block} (hb : b ∈ s.blocks) :
    camkesDmaFree pools b.ptr b.size s.free =
      some ({ vaddr := b.ptr, cached := b.cached, size := blockSize b.size, paddrUpper := 0 } ::
        s.free) := by
  have hans := h.answers b hb
  have hroom := hans.room
  rw [sizeofRegion] at hroom
  have hmem : Covered s.memory b.ptr := by
    refine (h.good.cuts.cover b.ptr).mpr
      ⟨b.range, mem_append_right _ (mem_map_of_mem hb), Nat.le_refl _, ?_⟩
    show b.ptr < b.ptr + blockSize b.size
    omega
  have hptr : b.ptr ≠ 0 := fun hc => h.notNull (hc ▸ hmem)
  have hflag := hans.piece.flag 0 (by omega)
  rw [Nat.add_zero] at hflag
  obtain ⟨frame, hframe, hcached⟩ := Option.map_eq_some_iff.mp hflag
  rw [camkesDmaFree, if_neg hptr, hframe]
  show freeRegion b.ptr b.size frame.cached s.free = _
  rw [freeRegion, if_pos (Nat.mod_eq_zero_of_dvd hans.hosts), hcached]

/-- Coalescing keeps the flags where they are. -/
theorem HoldsFlag.defrag (h : HoldsFlag memory size align c l) (hgood : Good pools pool others l)
    (ht : Translates pools pool) : HoldsFlag memory size align c (defrag pools l) := by
  intro p hp hpc b hdvd hv
  have hdefrag := defrag_good ht hgood
  have hflag : ∀ {l : List Region} {r : Region}, Good pools pool others l → r ∈ l →
      b + size ∈ r.range → cacheability pools (b + size) = some r.cached := by
    intro l r hl hr hmem
    have hlt : b + size < r.vaddr + r.size := hmem.2
    have hle : r.vaddr ≤ b + size := hmem.1
    have := (hl.region r hr).piece.flag (b + size - r.vaddr) (by omega)
    rwa [Nat.add_sub_of_le hle] at this
  -- The byte is in a region of the list before, which has the same flag.
  obtain ⟨x, hx, hvx⟩ := (hgood.cuts.cover _).mp (hdefrag.mem_pool hp hv)
  rcases mem_append.mp hx with hx | hx
  · obtain ⟨r, hr, rfl⟩ := mem_map.mp hx
    have hsame := (hflag hgood hr hvx).symm.trans (hflag hdefrag hp hv)
    exact h r hr ((Option.some.inj hsame).trans hpc) b hdvd hvx
  · have hapart := (pairwise_append.mp hdefrag.cuts.apart).2.2
    exact absurd hvx (hapart p.range (mem_map_of_mem hp) x hx _ hv)

theorem Inv.alloc (h : Inv pools s) (hasked : Asked pools s (.alloc memory size align c))
    (hflag : Flagged s (.alloc memory size align c))
    (hstep : Camkes.step pools s (.alloc memory size align c) = some s') : Inv pools s' := by
  rw [Camkes.step] at hstep
  obtain ⟨hpos, hword, hpow⟩ := hasked
  split at hstep
  next => cases hstep
  next free ha =>
    cases hstep
    rcases camkesDmaAlloc_cases ha with ⟨-, rfl⟩ | ⟨-, l0, hl0, ha⟩
    · exact h
    rw [alloc_none ha]
    rcases hl0 with rfl | rfl
    · exact h
    · exact ⟨defrag_good h.translates h.good, h.answers, h.translates, h.notNull⟩
  next ptr free ha =>
    cases hstep
    rcases camkesDmaAlloc_cases ha with ⟨hc, -⟩ | ⟨hsize, l0, hl0, halloc⟩
    · cases hc
    have hl0 : Good pools (Covered s.memory) (s.blocks.map Block.range) l0 ∧
        HoldsFlag memory (blockSize size) (blockAlign align) c l0 := by
      rcases hl0 with rfl | rfl
      · exact ⟨h.good, hflag⟩
      · exact ⟨defrag_good h.translates h.good, hflag.defrag h.good h.translates⟩
    obtain ⟨hgood, hdvd, hpiece⟩ :=
      alloc_good (by rw [sizeofRegion] at hsize; omega) h.translates hl0.1 halloc hl0.2
    obtain ⟨hhost, halign⟩ := blockAlign_dvd hpow
    exact ⟨hgood, forall_mem_cons.mpr ⟨⟨blockSize_large hword hsize,
      fun hne => Nat.dvd_trans (halign hne) hdvd, hpiece, Nat.dvd_trans hhost hdvd, hsize⟩,
      h.answers⟩, h.translates, h.notNull⟩

theorem Inv.free (h : Inv pools s) {b : Block} (hasked : Asked pools s (.free b))
    (hstep : Camkes.step pools s (.free b) = some s') : Inv pools s' := by
  obtain ⟨free, hfree, rfl⟩ := Option.map_eq_some_iff.mp hstep
  have hans := h.answers b hasked
  rw [h.camkesDmaFree_eq hasked] at hfree
  cases hfree
  refine ⟨⟨?_, ?_⟩, fun b' hb' => h.answers b' (mem_of_mem_erase hb'), h.translates, h.notNull⟩
  · refine h.good.cuts.perm ?_
    refine ((perm_cons_erase hasked).map Block.range |>.append_left _).trans ?_
    exact perm_middle
  · exact forall_mem_cons.mpr ⟨⟨hans.room, hans.piece, fun hc => absurd rfl hc⟩, h.good.region⟩

/-! ### Initialisation -/

theorem blockSize_page (hpow : pageSize &&& (pageSize - 1) = 0) (hroom : sizeofRegion < pageSize)
    (hword : pageSize < 2 ^ 64) : blockSize pageSize = pageSize := by
  have hne : pageSize ≠ 0 := by omega
  obtain ⟨k, rfl⟩ := (Nat.and_sub_one_eq_zero_iff_isPowerOfTwo hne).mp hpow
  have hle : sizeofRegion ≤ 2 ^ k := Nat.le_of_lt hroom
  rw [sizeofRegion, show (32 : Nat) = 2 ^ 5 from rfl] at hroom
  have hk : 3 ≤ k := by
    have := (Nat.pow_lt_pow_iff_right (by decide : 1 < 2)).mp hroom
    omega
  have hdvd : 8 ∣ 2 ^ k := Nat.pow_dvd_pow 2 hk
  rw [blockSize, Nat.max_eq_left hle, alignofRegion, roundUp_of_dvd hdvd]
  exact Nat.mod_eq_of_lt hword

/-- One region for every page; the pages before `base` are part of the pool by then. -/
theorem freePages_good {cached : Bool} {base stop : Nat} {others : List (Range Nat)}
    (hb : Backed pools ⟨base, stop⟩ pageSize cached) (hsize : blockSize pageSize = pageSize)
    (hroom : sizeofRegion < pageSize) (hdvd : pageSize ∣ base)
    (hstop : base + n * pageSize = stop) (hnew : ∀ v ∈ (⟨base, stop⟩ : Range Nat), ¬pool v)
    (h : Good pools pool others l) (hfree : freePages base pageSize cached n l = some l') :
    Good pools (fun v => v ∈ (⟨base, stop⟩ : Range Nat) ∨ pool v) others l' := by
  induction n generalizing base l pool with
  | zero =>
    cases hfree
    refine ⟨h.cuts.congr fun v => or_iff_right fun hv => ?_, h.region⟩
    have hle : base ≤ v := hv.1
    have hlt : v < stop := hv.2
    omega
  | succ n ih =>
    rw [Nat.succ_mul] at hstop
    obtain ⟨free, hregion, hrest⟩ := Option.bind_eq_some_iff.mp hfree
    rw [freeRegion] at hregion
    split at hregion
    next =>
      cases hregion
      have hpage : ∀ k < pageSize, base + k ∈ (⟨base, stop⟩ : Range Nat) := fun k hk =>
        ⟨Nat.le_add_right .., show base + k < stop by omega⟩
      have hlater : ∀ {v}, v ∈ (⟨base + pageSize, stop⟩ : Range Nat) →
          v ∈ (⟨base, stop⟩ : Range Nat) := fun hv =>
        ⟨Nat.le_trans (Nat.le_add_right ..) hv.1, hv.2⟩
      have hpiece : Piece pools base pageSize cached := by
        refine ⟨fun k hk => ?_, fun k hk => hb.flag _ (hpage k hk)⟩
        have hmod : (base + k) % pageSize = k := by
          rw [Nat.add_mod, Nat.mod_eq_zero_of_dvd hdvd, Nat.zero_add, Nat.mod_mod,
            Nat.mod_eq_of_lt hk]
        rw [hb.page _ (hpage k hk), hmod, Nat.add_sub_cancel]
      have hcuts := h.cuts.cons (r := ⟨base, base + pageSize⟩) fun v hv =>
        hnew v ⟨hv.1, Nat.lt_of_lt_of_le hv.2 (show base + pageSize ≤ stop by omega)⟩
      have hgood : Good pools (fun v => v ∈ (⟨base, base + pageSize⟩ : Range Nat) ∨ pool v) others
          ({ vaddr := base, cached := cached, size := blockSize pageSize, paddrUpper := 0 } ::
            l) := by
        rw [hsize]
        exact ⟨hcuts, forall_mem_cons.mpr
          ⟨⟨Nat.le_of_lt hroom, hpiece, fun hc => absurd rfl hc⟩, h.region⟩⟩
      have hrest := ih ⟨fun v hv => hb.translates v (hlater hv), fun v hv => hb.flag v (hlater hv),
        fun v hv => hb.page v (hlater hv)⟩ (Nat.dvd_add hdvd (Nat.dvd_refl _)) (by omega)
        (fun v hv => ?_) hgood hrest
      · refine ⟨hrest.cuts.congr fun v => ?_, hrest.region⟩
        simp only [Range.mem_iff, ← or_assoc]
        exact or_congr_left (by omega)
      · rintro (hpage | hpool)
        · exact absurd hpage.2 (Nat.not_lt_of_ge hv.1)
        · exact hnew v (hlater hv) hpool
    next => cases hregion

theorem camkesDmaInit_cases {cached : Bool} {dmaPool dmaPoolSz : Nat} (hpage : pageSize ≠ 0) :
    camkesDmaInit pools dmaPool dmaPoolSz pageSize cached l = some (false, l) ∨
      0 < dmaPool ∧ pageSize ∣ dmaPool ∧ sizeofRegion < pageSize ∧
        pageSize &&& (pageSize - 1) = 0 ∧
        camkesDmaInit pools dmaPool dmaPoolSz pageSize cached l =
          (freePages dmaPool pageSize cached ((dmaPoolSz + (pageSize - 1)) / pageSize) l).map
            fun free => (true, free) := by
  rw [camkesDmaInit]
  split
  · exact .inl rfl
  rename_i h1
  split
  · exact .inl rfl
  rename_i h2
  split
  · exact .inl rfl
  rename_i h3
  rw [not_and, not_or, not_not] at h1
  rw [not_and, not_or, not_not] at h3
  refine .inr ⟨by omega, Nat.dvd_of_mod_eq_zero (h1 hpage).2, Nat.lt_of_not_le (h1 hpage).1,
    (h3 hpage).1, rfl⟩

theorem Inv.init {cached : Bool} {dmaPool dmaPoolSz : Nat} (h : Inv pools s)
    (hasked : Asked pools s (.init dmaPool dmaPoolSz pageSize cached))
    (hstep : Camkes.step pools s (.init dmaPool dmaPoolSz pageSize cached) = some s') :
    Inv pools s' := by
  obtain ⟨hb, hpage, ⟨m, rfl⟩, hword, hapart⟩ := hasked
  rw [Camkes.step] at hstep
  rcases @camkesDmaInit_cases pools s.free pageSize cached dmaPool (pageSize * m) hpage with
    heq | ⟨hpos, hdvd, hroom, hpow, heq⟩
  · rw [heq] at hstep
    cases hstep
    exact h
  have hcount : (pageSize * m + (pageSize - 1)) / pageSize = m := by
    rw [Nat.mul_add_div (by omega), Nat.div_eq_of_lt (by omega), Nat.add_zero]
  rw [heq, hcount] at hstep
  cases hfree : freePages dmaPool pageSize cached m s.free with
  | none =>
    rw [hfree] at hstep
    cases hstep
  | some free =>
    rw [hfree] at hstep
    cases hstep
    have hgood := freePages_good hb (blockSize_page hpow hroom hword) hroom hdvd
      (by rw [Nat.mul_comm]) (fun v hv hold => ?_) h.good hfree
    · refine ⟨⟨hgood.cuts.congr fun _ => covered_cons, hgood.region⟩, h.answers, fun v hv => ?_,
        fun hnull => ?_⟩
      · rcases covered_cons.mp hv with hv | hv
        · exact hb.translates v hv
        · exact h.translates v hv
      · rcases covered_cons.mp hnull with hnull | hnull
        · exact absurd hpos (Nat.not_lt_of_ge hnull.1)
        · exact h.notNull hnull
    · obtain ⟨r, hr, hvr⟩ := hold
      exact hapart r hr v hvr hv

/-! ### The pool -/

/-- The step lemma. -/
theorem Inv.step (h : Inv pools s) (hasked : Asked pools s op) (hflag : Flagged s op)
    (hstep : Camkes.step pools s op = some s') : Inv pools s' := by
  cases op with
  | init dmaPool dmaPoolSz pageSize cached => exact h.init hasked hstep
  | alloc memory size align cached => exact h.alloc hasked hflag hstep
  | free b => exact h.free hasked hstep

/-- The run lemma. -/
theorem Reached.inv (h : Reached pools Flagged s) : Inv pools s := by
  induction h with
  | init => exact ⟨⟨⟨.nil, fun _ => Iff.rfl⟩, nofun⟩, nofun, fun _ => False.elim ∘ covered_nil,
      covered_nil⟩
  | step op _ hasked hflag hstep ih => exact ih.step hasked hflag hstep

theorem Inv.correct (h : Inv pools s) : Correct pools s where
  cuts := h.good.cuts
  flags r hr v hv := by
    have hle : r.vaddr ≤ v := hv.1
    have hlt : v < r.vaddr + r.size := hv.2
    have hflag := (h.good.region r hr).piece.flag (v - r.vaddr) (by omega)
    rwa [Nat.add_sub_of_le hle] at hflag
  answers := h.answers
  freed b hb := by
    rw [Camkes.step, h.camkesDmaFree_eq hb]
    rfl

/-- **Main result.** The pool stays correct as long as free memory holds the right flag wherever
`alloc` may make a node in it. -/
theorem dma_pool_correct (h : Reached pools Flagged s) : Correct pools s := h.inv.correct

/-- A cached frame and an uncached one. -/
def twoFrames : List DmaPool :=
  [{ startVaddr := 4096
     endVaddr := 12288
     frameSize := 4096
     dmaFrames := [{ size := 4096, paddr := 65536, cached := true },
       { size := 4096, paddr := 131072, cached := false }] }]

theorem getFrameDesc_twoFrames (hlo : 4096 ≤ v) (hhi : v < 12288) :
    getFrameDesc twoFrames v =
      if v < 8192 then some { size := 4096, paddr := 65536, cached := true }
      else some { size := 4096, paddr := 131072, cached := false } := by
  rw [getFrameDesc, twoFrames, List.find?_cons_of_pos (by simp; omega)]
  dsimp only
  split
  next hfirst =>
    rw [show (v - v % 4096 - 4096) / 4096 = 0 by omega]
    rfl
  next hsecond =>
    rw [show (v - v % 4096 - 4096) / 4096 = 1 by omega]
    rfl

/-- Each of the frames can be initialised. -/
theorem backed_twoFrames {cached : Bool} {base : Nat}
    (h : base = if cached then 4096 else 8192) :
    Backed twoFrames ⟨base, base + 4096⟩ 4096 cached := by
  have hframe : ∀ v ∈ (⟨base, base + 4096⟩ : Range Nat), getFrameDesc twoFrames v =
      some { size := 4096, paddr := if cached then 65536 else 131072, cached := cached } := by
    intro v hv
    have hlo : base ≤ v := hv.1
    have hhi : v < base + 4096 := hv.2
    cases cached with
    | true =>
      rw [if_pos rfl] at h
      rw [getFrameDesc_twoFrames (by omega) (by omega), if_pos (by omega), if_pos rfl]
    | false =>
      rw [if_neg (by decide)] at h
      rw [getFrameDesc_twoFrames (by omega) (by omega), if_neg (by omega), if_neg (by decide)]
  have hpaddr : ∀ v ∈ (⟨base, base + 4096⟩ : Range Nat),
      camkesDmaGetPaddr twoFrames v = (if cached then 65536 else 131072) + v % 4096 := by
    intro v hv
    rw [camkesDmaGetPaddr, hframe v hv]
  refine ⟨fun v hv => ?_, fun v hv => ?_, fun v hv => ?_⟩
  · rw [hpaddr v hv]
    split <;> omega
  · rw [cacheability, hframe v hv]
    rfl
  · have hlo : base ≤ v := hv.1
    have hhi : v < base + 4096 := hv.2
    have hbase : v - v % 4096 = base ∧ base % 4096 = 0 := by
      split at h <;> omega
    rw [hpaddr v hv, hbase.1, hpaddr base ⟨Nat.le_refl _, Nat.lt_add_of_pos_right (by decide)⟩,
      hbase.2, Nat.add_zero]

/-- The memory of the first frame holds the flag of cached memory, and that of the second the
other one: the front of the first frame is allocated. -/
theorem front_block_correct :
    Correct twoFrames
      { free := [{ vaddr := 8192, cached := false, size := 4096, paddrUpper := 0 },
          { vaddr := 4160, cached := true, size := 4032, paddrUpper := 0 }]
        blocks := [{ ptr := 4096, size := 64, align := 4096, cached := true }]
        memory := [⟨8192, 12288⟩, ⟨4096, 8192⟩] } := by
  refine dma_pool_correct (.step (.alloc (fun v => v < 8192) 64 4096 true)
    (.step (.init 8192 4096 4096 false) (.step (.init 4096 4096 4096 true) .init
      ⟨backed_twoFrames rfl, by decide, by decide, by decide, nofun⟩ trivial rfl)
      ⟨backed_twoFrames rfl, by decide, by decide, by decide, ?_⟩ trivial rfl)
    ⟨by decide, by decide, .inr ⟨12, rfl⟩⟩ ?_ rfl)
  · exact forall_mem_singleton.mpr (apart_of_le (Nat.le_refl 8192))
  · refine forall_mem_cons.mpr ⟨nofun, forall_mem_singleton.mpr fun _ b _ hb => ?_⟩
    exact decide_eq_true hb.2

/-- The node that is left behind a block at the start of a cached page is uncached if the page
was zeroed, and an uncached block is then cut out of it. Without a page size no region is
found, and the last page of a pool that is not a multiple of the page size reaches beyond it. -/
theorem dma_pool_wrong :
    Reached twoFrames (fun _ _ => True)
        { free := [{ vaddr := 4160, cached := false, size := 3968, paddrUpper := 0 }]
          blocks := [{ ptr := 8128, size := 64, align := 8, cached := false },
            { ptr := 4096, size := 64, align := 4096, cached := true }]
          memory := [⟨4096, 8192⟩] } ∧
      cacheability twoFrames 4160 = some true ∧ cacheability twoFrames 8128 = some true ∧
      camkesDmaInit twoFrames 4096 64 0 true [] = some (true, []) ∧
      camkesDmaInit twoFrames 4096 65 64 true [] =
        some (true, [{ vaddr := 4160, cached := true, size := 64, paddrUpper := 0 },
          { vaddr := 4096, cached := true, size := 64, paddrUpper := 0 }]) := by
  refine ⟨?_, by decide, by decide, by decide, by decide⟩
  exact .step (.alloc (fun _ => false) 64 8 false)
    (.step (.alloc (fun _ => false) 64 4096 true)
      (.step (.init 4096 4096 4096 true) .init
        ⟨backed_twoFrames rfl, by decide, by decide, by decide, nofun⟩ trivial rfl)
      ⟨by decide, by decide, .inr ⟨12, rfl⟩⟩ trivial rfl)
    ⟨by decide, by decide, .inr ⟨3, rfl⟩⟩ trivial rfl

end SeL4Kernel.Camkes
