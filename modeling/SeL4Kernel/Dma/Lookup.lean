import SeL4Kernel.Dma.Runs

/-!
# Address lookup

`dma_vlookup` and `dma_plookup` find the node of an address, and in it the region. The virtual
lookup compares the address with both ends of a node. The physical lookup compares the *start*
of the node with its size, so that it passes over every node that does not start below its own
size, and stops at one that does even if the address lies behind it.
-/

namespace SeL4Kernel.Dma

open List Range

/-- The loop of `_find_mem`. -/
def memAt (offset : Nat) : List Mem → Option Mem
  | [] => none
  | [m] => some m
  | m :: next :: rest => if next.offset ≤ offset then memAt offset (next :: rest) else some m

/-- `_find_mem`; its assertion fails for an offset behind the node. -/
def findMem (n : Node) (offset : Nat) : Option Mem :=
  if offset < n.desc.nodeSize then memAt offset n.mems else none

/-- A lookup of an address: `hit` is the test of the loop over the nodes. The result is `none`
where an assertion fails, and `some none` is `NULL`. -/
def lookup (base : Descriptor → Nat) (hit : Descriptor → Bool) (addr : Nat) (ns : List Node) :
    Option (Option Mem) :=
  match ns.find? fun n => hit n.desc with
  | none => some none
  | some n => (findMem n (addr - base n.desc)).map some

/-- The test of `dma_plookup`. -/
def plookupHit (paddr : Nat) (d : Descriptor) : Bool := d.paddr ≤ paddr && d.paddr < d.nodeSize

def dmaPlookup (a : Allocator) (paddr : Nat) : Option (Option Mem) :=
  lookup Descriptor.paddr (plookupHit paddr) paddr a.nodes

/-- The test of `dma_vlookup`. -/
def vlookupHit (vaddr : Nat) (d : Descriptor) : Bool :=
  d.vaddr ≤ vaddr && vaddr < (d.vaddr + d.nodeSize) % 2 ^ 64

def dmaVlookup (a : Allocator) (vaddr : Nat) : Option (Option Mem) :=
  lookup Descriptor.vaddr (vlookupHit vaddr) vaddr a.nodes

/-! ### Within a node -/

variable {d : Descriptor}

theorem memAt_region {m : Mem} {mems : List Mem} {stop o : Nat} (h : InOrder d mems)
    (hm : (m, stop) ∈ regions d mems) (hle : m.offset ≤ o) (hlt : o < stop) :
    memAt o mems = some m := by
  induction mems with
  | nil => cases hm
  | cons x rest ih =>
    rcases mem_cons.mp hm with heq | hm
    · cases heq
      cases rest with
      | nil => rfl
      | cons y rest => exact if_neg (Nat.not_le_of_lt hlt)
    · have hrest := (h.2.2.region hm).1
      cases rest with
      | nil => cases hm
      | cons y rest => exact (if_pos (Nat.le_trans hrest hle)).trans (ih h.2.2 hm)

/-! ### Over the nodes -/

/-- The addresses of a node that starts at `base`. -/
def space (base : Descriptor → Nat) (d : Descriptor) : Range Nat :=
  ⟨base d, base d + 2 ^ d.sizeBits⟩

section

variable {base : Descriptor → Nat} {hit : Descriptor → Bool} {addr : Nat} {ns : List Node}
  {n x : Node}

theorem mem_space : addr ∈ space base d ↔ base d ≤ addr ∧ addr < base d + 2 ^ d.sizeBits := Iff.rfl

theorem eq_of_mem_space (h : (ns.map fun n => space base n.desc).Pairwise Apart) (hx : x ∈ ns)
    (hn : n ∈ ns) (hax : addr ∈ space base x.desc) (han : addr ∈ space base n.desc) : x = n := by
  have hsymm : Std.Symm fun x n : Node => (space base x.desc).Apart (space base n.desc) :=
    ⟨fun _ _ hab => hab.symm⟩
  by_contra hne
  exact (pairwise_map.mp h).forall hx hn hne addr hax han

/-- The assertion fails for a node that ends before the address. -/
theorem findMem_behind (hd : x.desc.Ok) (hle : base x.desc ≤ addr)
    (hnot : addr ∉ space base x.desc) : findMem x (addr - base x.desc) = none := by
  refine if_neg fun hlt => hnot (mem_space.mpr ?_)
  rw [hd.nodeSize_eq] at hlt
  omega

/-- A lookup finds a region if the test selects its node. -/
theorem lookup_eq_some_iff {m : Mem} {stop k : Nat} (hok : ∀ x ∈ ns, NodeOk x)
    (hapart : (ns.map fun n => space base n.desc).Pairwise Apart) (hn : n ∈ ns)
    (hm : (m, stop) ∈ regions n.desc n.mems) (hk : m.offset + k < stop)
    (haddr : base n.desc + m.offset + k = addr) (hhit : ∀ d, hit d = true → base d ≤ addr) :
    lookup base hit addr ns = some (some m) ↔ (ns.find? fun n => hit n.desc) = some n := by
  obtain ⟨-, -, hstop, -⟩ := (hok n hn).inOrder.region hm
  rw [(hok n hn).desc.nodeSize_eq] at hstop
  have han : addr ∈ space base n.desc := mem_space.mpr (by omega)
  rw [lookup]
  cases hx : ns.find? fun n => hit n.desc with
  | none => simp
  | some x =>
    have hxmem := mem_of_find?_eq_some hx
    by_cases hax : addr ∈ space base x.desc
    · obtain rfl := eq_of_mem_space hapart hxmem hn hax han
      have hoff : addr - base x.desc = m.offset + k := by omega
      simp only [findMem, hoff, (hok x hn).desc.nodeSize_eq,
        if_pos (show m.offset + k < 2 ^ x.desc.sizeBits by omega),
        memAt_region (hok x hn).inOrder hm (Nat.le_add_right ..) hk, Option.map_some]
    · have hle := hhit _ (by simpa using find?_some hx)
      have hne : x ≠ n := fun heq => hax (heq ▸ han)
      simp [findMem_behind (hok x hxmem).desc hle hax, hne]

/-- An address outside of all nodes yields `NULL` if the test selects no node. -/
theorem lookup_eq_none_iff (hok : ∀ x ∈ ns, NodeOk x)
    (hout : ∀ x ∈ ns, addr ∉ space base x.desc) (hhit : ∀ d, hit d = true → base d ≤ addr) :
    lookup base hit addr ns = some none ↔ ∀ x ∈ ns, ¬hit x.desc = true := by
  rw [← find?_eq_none, lookup]
  cases hx : ns.find? fun n => hit n.desc with
  | none => simp
  | some x =>
    have hxmem := mem_of_find?_eq_some hx
    have hle := hhit _ (by simpa using find?_some hx)
    simp [findMem_behind (hok x hxmem).desc hle (hout x hxmem)]

end

/-! ### Lookups -/

/-- The nodes do not share virtual memory. -/
structure VirtualOk (ns : List Node) : Prop where
  top : ∀ n ∈ ns, n.desc.vaddr + 2 ^ n.desc.sizeBits ≤ 2 ^ 64
  apart : (ns.map fun n => space Descriptor.vaddr n.desc).Pairwise Apart

variable {a : Allocator}

theorem vlookupHit_iff {v : Nat} (hd : d.Ok) (htop : d.vaddr + 2 ^ d.sizeBits ≤ 2 ^ 64) :
    vlookupHit v d = true ↔
      v ∈ space Descriptor.vaddr d ∧ d.vaddr + 2 ^ d.sizeBits < 2 ^ 64 := by
  have hpos := Nat.two_pow_pos d.sizeBits
  simp only [vlookupHit, hd.nodeSize_eq, Bool.and_eq_true, decide_eq_true_iff, mem_space]
  omega

theorem plookupHit_iff {p : Nat} (hd : d.Ok) :
    plookupHit p d = true ↔ d.paddr ≤ p ∧ d.paddr < 2 ^ d.sizeBits := by
  simp [plookupHit, hd.nodeSize_eq]

/-- **Main result.** The virtual lookup finds the region of an address unless its node ends at
the top of the address space. The physical lookup finds it exactly if the node starts below
its own size and no node that does, and starts at or before the address, is in the list before
it. An address outside of all nodes is not found, except that the physical lookup fails an
assertion if a node at or before the address starts below its own size. -/
theorem dma_lookup_iff (h : Run a) (hv : VirtualOk a.nodes) :
    (∀ n ∈ a.nodes, ∀ m stop k, (m, stop) ∈ regions n.desc n.mems → m.offset + k < stop →
      (dmaVlookup a (dmaVaddr n.desc m + k) = some (some m) ↔
        n.desc.vaddr + 2 ^ n.desc.sizeBits < 2 ^ 64) ∧
      (dmaPlookup a (dmaPaddr n.desc m + k) = some (some m) ↔
        n.desc.paddr < 2 ^ n.desc.sizeBits ∧ ∃ pre post, a.nodes = pre ++ n :: post ∧
          ∀ x ∈ pre, x.desc.paddr ≤ dmaPaddr n.desc m + k →
            2 ^ x.desc.sizeBits ≤ x.desc.paddr)) ∧
    ∀ addr,
      ((∀ n ∈ a.nodes, addr ∉ space Descriptor.vaddr n.desc) → dmaVlookup a addr = some none) ∧
      ((∀ n ∈ a.nodes, addr ∉ n.desc.range) → (dmaPlookup a addr = some none ↔
        ∀ x ∈ a.nodes, x.desc.paddr ≤ addr → 2 ^ x.desc.sizeBits ≤ x.desc.paddr)) := by
  obtain ⟨hok, hapart⟩ := h.inv
  have hvhit : ∀ v d, vlookupHit v d = true → d.vaddr ≤ v := by simp +contextual [vlookupHit]
  have hphit : ∀ p d, plookupHit p d = true → d.paddr ≤ p := by simp +contextual [plookupHit]
  refine ⟨fun n hn m stop k hm hk => ?_, fun addr => ⟨fun hout => ?_, fun hout => ?_⟩⟩
  · have hd := (hok n hn).desc
    obtain ⟨-, -, hstop, -⟩ := (hok n hn).inOrder.region hm
    rw [hd.nodeSize_eq] at hstop
    have hvtop := hv.top n hn
    have hptop := hd.top
    have hva : dmaVaddr n.desc m = n.desc.vaddr + m.offset := Nat.mod_eq_of_lt (by omega)
    have hpa : dmaPaddr n.desc m = n.desc.paddr + m.offset := Nat.mod_eq_of_lt (by omega)
    constructor
    · have hmem : dmaVaddr n.desc m + k ∈ space Descriptor.vaddr n.desc := mem_space.mpr (by omega)
      rw [dmaVlookup, lookup_eq_some_iff hok hv.apart hn hm hk (by rw [hva]) (hvhit _)]
      constructor
      · intro hfind
        exact ((vlookupHit_iff hd hvtop).mp (by simpa using find?_some hfind)).2
      intro hlt
      have hhit := (vlookupHit_iff hd hvtop).mpr ⟨hmem, hlt⟩
      cases hx : a.nodes.find? fun x => vlookupHit (dmaVaddr n.desc m + k) x.desc with
      | none => exact absurd hhit (find?_eq_none.mp hx n hn)
      | some x =>
        have hxmem := mem_of_find?_eq_some hx
        have hxhit := (vlookupHit_iff (hok x hxmem).desc (hv.top x hxmem)).mp
          (by simpa using find?_some hx)
        rw [eq_of_mem_space hv.apart hxmem hn hxhit.1 hmem]
    · rw [dmaPlookup, lookup_eq_some_iff hok hapart hn hm hk (by rw [hpa]) (hphit _),
        find?_eq_some_iff_append, plookupHit_iff hd]
      refine and_congr (and_iff_right (by omega)) (exists₂_congr fun pre post => ?_)
      refine and_congr_right fun hns => forall₂_congr fun x hx => ?_
      have hxd := (hok x (by rw [hns]; exact mem_append_left _ hx)).desc
      rw [Bool.not_eq_true', ← Bool.not_eq_true, plookupHit_iff hxd]
      omega
  · refine (lookup_eq_none_iff hok hout (hvhit _)).mpr fun x hx hhit => ?_
    exact hout x hx ((vlookupHit_iff (hok x hx).desc (hv.top x hx)).mp hhit).1
  · rw [dmaPlookup, lookup_eq_none_iff hok hout (hphit _)]
    refine forall₂_congr fun x hx => ?_
    rw [plookupHit_iff (hok x hx).desc]
    omega

/-- A page that starts at the physical address zero. -/
def zeroDesc : Descriptor := { vaddr := 0x20000, paddr := 0, sizeBits := 12 }

theorem run_oneAlloc (hd : d.Ok) : Run (oneAlloc d) :=
  (Run.init.step (.provide d) ⟨hd, nofun⟩).step _ ⟨by decide, nofun⟩

theorem zeroDesc_ok : zeroDesc.Ok := ⟨by decide, by decide⟩

/-- In a page that starts at the physical address zero, both lookups find the region. -/
theorem zero_page_found :
    dmaVlookup (oneAlloc zeroDesc) (dmaVaddr zeroDesc (smallMem 0 0) + 63) =
        some (some (smallMem 0 0)) ∧
      dmaPlookup (oneAlloc zeroDesc) (dmaPaddr zeroDesc (smallMem 0 0) + 63) =
        some (some (smallMem 0 0)) := by
  obtain ⟨n, hnodes, hdesc, hmem⟩ : ∃ n, (oneAlloc zeroDesc).nodes = [n] ∧ n.desc = zeroDesc ∧
    (smallMem 0 0, 64) ∈ regions n.desc n.mems := ⟨_, rfl, rfl, by decide +kernel⟩
  have hv : VirtualOk (oneAlloc zeroDesc).nodes := by
    rw [hnodes]
    exact ⟨by simp [hdesc, zeroDesc], pairwise_singleton ..⟩
  have h := (dma_lookup_iff (run_oneAlloc zeroDesc_ok) hv).1 n (by simp [hnodes]) (smallMem 0 0) 64
    63 hmem (by decide)
  rw [hdesc] at h
  exact ⟨h.1.mpr (by decide), h.2.mpr ⟨by decide, [], [], hnodes, nofun⟩⟩

/-- The largest size that `do_dma_provide_mem` accepts, `2 ^ 31` bytes. -/
def largeDesc : Descriptor := { vaddr := 2 ^ 32, paddr := 0, sizeBits := 31 }

/-- In a page at another address the physical lookup does not find the region, and behind a page
at zero it fails an assertion. In a node of `2 ^ 31` bytes, whose size is not an `int`, the virtual
lookup does not find the region. -/
theorem plookup_wrong : Run (oneAlloc pageDesc) ∧ Run (oneAlloc zeroDesc) ∧
    Live (oneAlloc pageDesc).nodes pageDesc (smallMem 0 0) 64 ∧
    dmaPlookup (oneAlloc pageDesc) (dmaPaddr pageDesc (smallMem 0 0)) = some none ∧
    dmaPlookup (oneAlloc zeroDesc) 0x5000 = none ∧
    Live (oneAlloc largeDesc).nodes largeDesc (smallMem 0 0) 64 ∧
    dmaVlookup (oneAlloc largeDesc) (dmaVaddr largeDesc (smallMem 0 0)) = some none :=
  ⟨run_oneAlloc pageDesc_ok, run_oneAlloc zeroDesc_ok,
    ⟨_, mem_cons_self, rfl, by decide +kernel, rfl⟩, by decide +kernel, by decide +kernel,
    ⟨_, mem_cons_self, rfl, by decide +kernel, rfl⟩, by decide +kernel⟩

end SeL4Kernel.Dma
