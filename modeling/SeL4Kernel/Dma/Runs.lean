import Mathlib.Data.List.Forall2
import Mathlib.Data.List.TakeWhile
import SeL4Kernel.Dma.Regions
import SeL4Kernel.Lib.Ranges

/-!
# Runs of the DMA allocator

Whatever is provided, allocated, freed and reclaimed, the regions are disjoint and lie in their
nodes, and an allocated region answers its request.

Two things move the end of an allocated region. An allocation behind it that skips bytes for
its alignment leaves them to it. `dma_reclaim_mem` compacts the first region of every node it
passes, also when that region is allocated. Bytes that are skipped in front of the first
region of a node are lost to the node.
-/

namespace SeL4Kernel.Dma

open List Range

/-! ### The allocator -/

/-- The physical memory of a descriptor. -/
def Descriptor.range (d : Descriptor) : Range Nat := ⟨d.paddr, d.paddr + 2 ^ d.sizeBits⟩

/-- The physical memory of a region. -/
def regionRange (d : Descriptor) (p : Mem × Nat) : Range Nat :=
  ⟨d.paddr + p.1.offset, d.paddr + p.2⟩

structure NodeOk (n : Node) : Prop where
  desc : n.desc.Ok
  inOrder : InOrder n.desc n.mems
  ne_nil : n.mems ≠ []

/-- The nodes are in order and do not share memory. -/
structure Inv (ns : List Node) : Prop where
  nodes : ∀ n ∈ ns, NodeOk n
  apart : (ns.map fun n => n.desc.range).Pairwise Apart

/-- The region is allocated and ends at `stop`. -/
def Live (ns : List Node) (d : Descriptor) (m : Mem) (stop : Nat) : Prop :=
  ∃ n ∈ ns, n.desc = d ∧ (m, stop) ∈ regions d n.mems ∧ m.allocated = true

/-- What happens to the nodes of a list: each keeps its descriptor and its allocated regions,
with their ends and the offset of its first region if `quiet`. -/
def Changes (quiet : Prop) (n n' : Node) : Prop :=
  n'.desc = n.desc ∧ (NodeOk n → NodeOk n' ∧ Keeps n.desc quiet n.mems n'.mems ∧
    (quiet → stopOf n.desc n'.mems = stopOf n.desc n.mems))

variable {a : Allocator} {n n' : Node} {ns ns' : List Node} {q : Request} {fresh : Nat}
  {d : Descriptor}

theorem Changes.refl (quiet : Prop) (n : Node) : Changes quiet n n :=
  ⟨rfl, fun h => ⟨h, .refl quiet, fun _ => rfl⟩⟩

theorem changes_memdAlloc (hsize : 0 < q.size) (halign : 0 < q.align) {quiet : Prop}
    (hquiet : quiet → NoSkip (memdAlloc n.desc q fresh none n.mems).1) :
    Changes quiet n { n with mems := (memdAlloc n.desc q fresh none n.mems).2 } := by
  refine ⟨rfl, fun h => ?_⟩
  have hs := @memdAlloc_spec n.desc q fresh n.mems h.desc hsize halign none nofun h.inOrder
  refine ⟨⟨h.desc, hs.inOrder, hs.ne_nil h.ne_nil⟩, fun m stop hmem halloc => ?_,
    fun hq => hs.stop_eq (hquiet hq)⟩
  obtain ⟨stop', hmem', heq⟩ := hs.keeps m stop hmem halloc
  exact ⟨stop', hmem', fun hq => heq (hquiet hq)⟩

/-- The loop over the nodes. -/
theorem changes_allocNodes (hsize : 0 < q.size) (halign : 0 < q.align) :
    List.Forall₂ (Changes (NoSkip (allocNodes q fresh ns).1)) ns (allocNodes q fresh ns).2 := by
  induction ns with
  | nil => exact .nil
  | cons n ns ih =>
    rw [allocNodes]
    split
    next r mems heq =>
      have hmems : mems = (memdAlloc n.desc q fresh none n.mems).2 := by rw [heq]
      refine .cons ?_ (forall₂_same.mpr fun n' _ => .refl _ n')
      rw [hmems]
      exact changes_memdAlloc hsize halign fun hq => by rw [heq]; exact hq
    next mems heq =>
      have hmems : mems = (memdAlloc n.desc q fresh none n.mems).2 := by rw [heq]
      refine .cons ?_ ih
      rw [hmems]
      exact changes_memdAlloc hsize halign fun _ => by rw [heq]; exact nofun

/-! ### Changes of all nodes -/

section

variable {quiet : Prop}

theorem exists_of_forall₂ {R : Node → Node → Prop} (h : List.Forall₂ R ns ns') (hn : n ∈ ns) :
    ∃ n' ∈ ns', R n n' := by
  induction h with
  | nil => cases hn
  | cons hc _ ih =>
    rcases mem_cons.mp hn with rfl | hn
    · exact ⟨_, mem_cons_self, hc⟩
    · obtain ⟨n', hmem, hc'⟩ := ih hn
      exact ⟨n', mem_cons_of_mem _ hmem, hc'⟩

/-- Every node that is left comes from one before. -/
theorem changes_right (h : List.Forall₂ (Changes quiet) ns ns') (hn : n' ∈ ns') :
    ∃ n ∈ ns, Changes quiet n n' := exists_of_forall₂ h.flip hn

theorem changes_ranges (h : List.Forall₂ (Changes quiet) ns ns') :
    (ns'.map fun n => n.desc.range) = ns.map fun n => n.desc.range := by
  induction h with
  | nil => rfl
  | cons hc _ ih => rw [map_cons, map_cons, ih, hc.1]

theorem Inv.changes (h : Inv ns) (hc : List.Forall₂ (Changes quiet) ns ns') : Inv ns' := by
  refine ⟨fun n' hn' => ?_, changes_ranges hc ▸ h.apart⟩
  obtain ⟨n, hn, hchange⟩ := changes_right hc hn'
  exact (hchange.2 (h.nodes n hn)).1

theorem Live.changes {m : Mem} {stop : Nat} (hlive : Live ns d m stop) (h : Inv ns)
    (hc : List.Forall₂ (Changes quiet) ns ns') :
    ∃ stop', Live ns' d m stop' ∧ (quiet → stop' = stop) := by
  obtain ⟨n, hn, rfl, hmem, halloc⟩ := hlive
  obtain ⟨n', hn', hdesc, hchange⟩ := exists_of_forall₂ hc hn
  obtain ⟨-, hkeeps, -⟩ := hchange (h.nodes n hn)
  obtain ⟨stop', hmem', heq⟩ := hkeeps m stop hmem halloc
  exact ⟨stop', ⟨n', hn', hdesc, hmem', halloc⟩, heq⟩

/-- The first region of every node starts where the node starts. -/
def Unmoved (ns : List Node) : Prop := ∀ n ∈ ns, stopOf n.desc n.mems = 0

theorem Unmoved.changes (hzero : Unmoved ns) (h : Inv ns)
    (hc : List.Forall₂ (Changes quiet) ns ns') (hquiet : quiet) : Unmoved ns' := by
  intro n' hn'
  obtain ⟨n, hn, hdesc, hchange⟩ := changes_right hc hn'
  rw [hdesc, (hchange (h.nodes n hn)).2.2 hquiet]
  exact hzero n hn

end

/-! ### Reclaiming -/

/-- The first region of the node is free, or there is no free region behind it. -/
def HeadQuiet (n : Node) : Prop :=
  ∀ m rest, n.mems = m :: rest → m.allocated = true → rest.dropWhile Mem.isFree = rest

theorem changes_memCompact {quiet : Prop} (hquiet : quiet → HeadQuiet n) :
    Changes quiet n { n with mems := memCompact n.mems } :=
  ⟨rfl, fun h => ⟨⟨h.desc, h.inOrder.memCompact, memCompact_ne_nil h.ne_nil⟩,
    keeps_memCompact fun hq => hquiet hq, fun _ => stopOf_memCompact⟩⟩

/-- A node with one free region after compaction has no allocated region. -/
theorem free_of_oneFree {mems : List Mem} (h : oneFree (memCompact mems) = true) :
    ∀ m ∈ mems, m.allocated = false := by
  cases mems with
  | nil => nofun
  | cons m rest =>
    rw [memCompact] at h
    cases hrest : rest.dropWhile Mem.isFree with
    | cons x xs =>
      rw [hrest] at h
      cases h
    | nil =>
      rw [hrest, oneFree] at h
      have hall := dropWhile_eq_nil_iff.mp hrest
      intro x hx
      rcases mem_cons.mp hx with rfl | hx
      · simpa [Mem.isFree] using h
      · simpa [Mem.isFree] using hall x hx

theorem oneFree_of_free {mems : List Mem} (hne : mems ≠ [])
    (h : ∀ m ∈ mems, m.allocated = false) : oneFree (memCompact mems) = true := by
  obtain ⟨m, rest, rfl⟩ := exists_cons_of_ne_nil hne
  have hrest : rest.dropWhile Mem.isFree = [] := dropWhile_eq_nil_iff.mpr fun x hx => by
    simp [Mem.isFree, h x (mem_cons_of_mem _ hx)]
  rw [memCompact, hrest]
  simp [oneFree, Mem.isFree, h m mem_cons_self]

/-- The node has an allocation. -/
def Node.inUse (n : Node) : Bool := n.mems.any Mem.allocated

/-- What `dma_reclaim_mem` does: the nodes it passes are compacted, and the node that is
removed has no allocation. -/
theorem reclaimNodes_spec (quiet : Prop) (hne : ∀ n ∈ ns, n.mems ≠ [])
    (hquiet : quiet → ∀ n ∈ ns.takeWhile Node.inUse, HeadQuiet n) :
    ((reclaimNodes ns).1 = none ∧ List.Forall₂ (Changes quiet) ns (reclaimNodes ns).2) ∨
      ∃ pre n post pre', ns = pre ++ n :: post ∧ (reclaimNodes ns).1 = some n.desc ∧
        (reclaimNodes ns).2 = pre' ++ post ∧ List.Forall₂ (Changes quiet) pre pre' ∧
        ∀ m ∈ n.mems, m.allocated = false := by
  induction ns with
  | nil => exact .inl ⟨rfl, .nil⟩
  | cons n ns ih =>
    rw [reclaimNodes]
    split
    next hone => exact .inr ⟨[], n, ns, [], rfl, rfl, rfl, .nil, free_of_oneFree hone⟩
    next hone =>
      have hused : n.inUse = true := by
        by_contra hunused
        refine hone (oneFree_of_free (hne n mem_cons_self) ?_)
        simpa [Node.inUse] using hunused
      rw [takeWhile_cons_of_pos hused] at hquiet
      have hchange : Changes quiet n { n with mems := memCompact n.mems } :=
        changes_memCompact fun hq => hquiet hq n mem_cons_self
      rcases ih (fun n' hn' => hne n' (mem_cons_of_mem _ hn'))
          fun hq n' hn' => hquiet hq n' (mem_cons_of_mem _ hn') with
        ⟨hnone, hc⟩ | ⟨pre, x, post, pre', rfl, hsome, hrest, hc, hfree⟩
      · exact .inl ⟨hnone, .cons hchange hc⟩
      refine .inr ⟨n :: pre, x, post, _ :: pre', rfl, hsome, ?_, .cons hchange hc, hfree⟩
      dsimp only
      rw [hrest]
      rfl

/-! ### Steps -/

/-- What the caller makes sure of: memory is not provided twice, and a request is for
something. -/
def Allowed (a : Allocator) : Op → Prop
  | .provide d => d.Ok ∧ ∀ n ∈ a.nodes, d.range.Apart n.desc.range
  | .alloc q morecore => 0 < q.size ∧
      ∀ d ∈ morecore, d.Ok ∧ ∀ n ∈ a.nodes, d.range.Apart n.desc.range
  | .free _ => True
  | .reclaim => True

/-- The free memory of all nodes, in the order in which it is searched. -/
def freeMemory (ns : List Node) : List (Range Nat) :=
  ns.flatMap fun n => freeBlocks n.desc none n.mems

/-- For an allocation, the first free memory that has room for the request starts at an aligned
address. For `dma_reclaim_mem`, in no node before the first one without allocations there is a
free region behind an allocated first one. -/
def Quiet (a : Allocator) : Op → Prop
  | .alloc q morecore => ∀ b,
      (freeMemory a.nodes ++ morecore.toList.map Descriptor.range).find? (hasRoom (effective q)) =
        some b → (effective q).align ∣ b.start
  | .reclaim => ∀ n ∈ a.nodes.takeWhile Node.inUse, HeadQuiet n
  | _ => True

theorem nodeOk_freshNode (hd : d.Ok) (id : Nat) : NodeOk (freshNode d id) := by
  refine ⟨hd, ⟨?_, nofun, trivial⟩, cons_ne_nil _ _⟩
  change 0 < d.nodeSize
  rw [hd.nodeSize_eq]
  exact Nat.two_pow_pos _

theorem Inv.provide (h : Inv ns) (hd : d.Ok) (hapart : ∀ n ∈ ns, d.range.Apart n.desc.range)
    (id : Nat) : Inv (freshNode d id :: ns) := by
  refine ⟨fun n hn => ?_, pairwise_cons.mpr ⟨fun r hr => ?_, h.apart⟩⟩
  · rcases mem_cons.mp hn with rfl | hn
    · exact nodeOk_freshNode hd id
    · exact h.nodes n hn
  · obtain ⟨n, hn, rfl⟩ := mem_map.mp hr
    exact hapart n hn

/-- The two ways in which `dma_alloc` ends: with the nodes that are there, or with one that
`morecore` gave. -/
theorem dmaAlloc_cases (q : Request) (morecore : Option Descriptor) (a : Allocator) :
    (((allocNodes (effective q) a.fresh a.nodes).1.isSome ∨ morecore = none) ∧
      (dmaAlloc q morecore a).1 = (allocNodes (effective q) a.fresh a.nodes).1 ∧
      (dmaAlloc q morecore a).2.nodes = (allocNodes (effective q) a.fresh a.nodes).2) ∨
    ∃ d ∈ morecore, (allocNodes (effective q) a.fresh a.nodes).1 = none ∧
      (dmaAlloc q morecore a).1 =
        (memdAlloc d (effective q) (a.fresh + 1) none (freshNode d a.fresh).mems).1 ∧
      (dmaAlloc q morecore a).2.nodes =
        { freshNode d a.fresh with
          mems := (memdAlloc d (effective q) (a.fresh + 1) none (freshNode d a.fresh).mems).2 } ::
          (allocNodes (effective q) a.fresh a.nodes).2 := by
  obtain ⟨⟨r, nodes⟩, hr⟩ : ∃ x, allocNodes (effective q) a.fresh a.nodes = x := ⟨_, rfl⟩
  rw [hr]
  cases r with
  | some p =>
    have heq : dmaAlloc q morecore a = (some p, { nodes := nodes, fresh := a.fresh + 1 }) := by
      rw [dmaAlloc, hr]
    rw [heq]
    exact .inl ⟨.inl rfl, rfl, rfl⟩
  | none =>
    cases morecore with
    | none =>
      have heq : dmaAlloc q none a = (none, { nodes := nodes, fresh := a.fresh + 1 }) := by
        rw [dmaAlloc, hr]
      rw [heq]
      exact .inl ⟨.inr rfl, rfl, rfl⟩
    | some d =>
      have heq : dmaAlloc q (some d) a = addNode d a.fresh nodes
          (memdAlloc d (effective q) (a.fresh + 1) none (freshNode d a.fresh).mems) := by
        rw [dmaAlloc, hr]
      obtain ⟨x, hx⟩ : ∃ x, memdAlloc d (effective q) (a.fresh + 1) none
        (freshNode d a.fresh).mems = x := ⟨_, rfl⟩
      refine .inr ⟨d, rfl, rfl, ?_⟩
      rw [heq, hx]
      exact ⟨rfl, rfl⟩

theorem effective_pos : 0 < (effective q).align :=
  Nat.lt_of_lt_of_le (by decide : 0 < dmaMinalignBytes) (Nat.le_max_right ..)

/-- The search through the nodes takes the first free memory that has room. -/
theorem allocNodes_first (hsize : 0 < q.size) (h : ∀ n ∈ ns, NodeOk n) :
    (allocNodes q fresh ns).1.map Prod.snd =
      ((freeMemory ns).find? (hasRoom q)).map fun b => roundUp b.start q.align - b.start := by
  induction ns with
  | nil => rfl
  | cons n ns ih =>
    have hn := h n mem_cons_self
    have hfirst := @memdAlloc_first n.desc q fresh n.mems hn.desc hsize none hn.inOrder
    have hrest := ih fun n' hn' => h n' (mem_cons_of_mem _ hn')
    rw [freeMemory, flatMap_cons, find?_append, allocNodes]
    obtain ⟨⟨r, mems⟩, hx⟩ : ∃ x, memdAlloc n.desc q fresh none n.mems = x := ⟨_, rfl⟩
    rw [hx] at hfirst ⊢
    cases hfound : (freeBlocks n.desc none n.mems).find? (hasRoom q) with
    | none =>
      rw [hfound] at hfirst
      obtain rfl : r = none := by simpa using hfirst
      exact hrest
    | some b =>
      rw [hfound] at hfirst
      obtain ⟨r, rfl⟩ : ∃ r', r = some r' := by
        cases r with
        | none => cases hfirst
        | some r => exact ⟨r, rfl⟩
      exact hfirst

/-- An allocation that is quiet moves no start. -/
theorem noSkip_of_quiet (h : Inv a.nodes) {morecore : Option Descriptor}
    (hop : Allowed a (.alloc q morecore)) (hquiet : Quiet a (.alloc q morecore)) :
    NoSkip (dmaAlloc q morecore a).1 := by
  have hnodes := @allocNodes_first a.nodes (effective q) a.fresh hop.1 h.nodes
  have hfirst : (dmaAlloc q morecore a).1.map Prod.snd =
      ((freeMemory a.nodes ++ morecore.toList.map Descriptor.range).find?
        (hasRoom (effective q))).map
          fun b => roundUp b.start (effective q).align - b.start := by
    rw [find?_append]
    rcases dmaAlloc_cases q morecore a with ⟨hfound, hresult, -⟩ | ⟨d, hd, hnone, hresult, -⟩
    · rw [hresult, hnodes]
      rcases hfound with hfound | rfl
      · obtain ⟨b, hb⟩ : ∃ b, (freeMemory a.nodes).find? (hasRoom (effective q)) = some b := by
          rw [← Option.isSome_iff_exists, ← Option.isSome_map, ← hnodes, Option.isSome_map]
          exact hfound
        rw [hb]
        rfl
      · simp
    · obtain rfl : morecore = some d := hd
      have hok := nodeOk_freshNode (hop.2 d rfl).1 a.fresh
      have hnew := @memdAlloc_first d (effective q) (a.fresh + 1) (freshNode d a.fresh).mems
        hok.desc hop.1 none hok.inOrder
      have hempty : (freeMemory a.nodes).find? (hasRoom (effective q)) = none := by
        rw [hnone] at hnodes
        simpa using hnodes.symm
      have hblocks : freeBlocks d none (freshNode d a.fresh).mems = [d.range] := by
        rw [Descriptor.range, ← (hop.2 d rfl).1.nodeSize_eq]
        rfl
      rw [hresult, hnew, hempty, hblocks]
      rfl
  intro p hp
  rw [hp] at hfirst
  obtain ⟨b, hb, hskip⟩ := Option.map_eq_some_iff.mp hfirst.symm
  rw [roundUp_of_dvd (hquiet b hb), Nat.sub_self] at hskip
  exact hskip.symm

/-- What a step does to the allocated regions and to the first offsets. -/
structure StepSpec (a : Allocator) (op : Op) : Prop where
  inv : Inv (step a op).nodes
  live : ∀ d m stop, Live a.nodes d m stop → op ≠ .free m.id →
    ∃ stop', Live (step a op).nodes d m stop' ∧ (Quiet a op → stop' = stop)
  unmoved : Quiet a op → Unmoved a.nodes → Unmoved (step a op).nodes

variable (h : Inv a.nodes)

include h

theorem stepSpec_provide (hop : Allowed a (.provide d)) : StepSpec a (.provide d) := by
  refine ⟨h.provide hop.1 hop.2 a.fresh, ?_, fun _ hzero n hn => ?_⟩
  · rintro d' m stop ⟨n, hn, hdesc, hmem, halloc⟩ _
    exact ⟨stop, ⟨n, mem_cons_of_mem _ hn, hdesc, hmem, halloc⟩, fun _ => rfl⟩
  · rcases mem_cons.mp hn with rfl | hn
    · rfl
    · exact hzero n hn

theorem stepSpec_alloc {morecore : Option Descriptor} (hop : Allowed a (.alloc q morecore)) :
    StepSpec a (.alloc q morecore) := by
  have hskip := noSkip_of_quiet h hop
  have hc := @changes_allocNodes a.nodes (effective q) a.fresh hop.1 effective_pos
  rcases dmaAlloc_cases q morecore a with ⟨-, hresult, hnodes⟩ | ⟨d, hd, hnone, hresult, hnodes⟩
  · rw [← hresult] at hc
    refine ⟨?_, fun d m stop hlive _ => ?_, fun hquiet hzero => ?_⟩
    · rw [step, hnodes]
      exact h.changes hc
    · rw [step, hnodes]
      obtain ⟨stop', hlive', heq⟩ := hlive.changes h hc
      exact ⟨stop', hlive', fun hquiet => heq (hskip hquiet)⟩
    · rw [step, hnodes]
      exact hzero.changes h hc (hskip hquiet)
  · obtain ⟨hok, hapart⟩ := hop.2 d hd
    have hquiet : NoSkip (allocNodes (effective q) a.fresh a.nodes).1 := by rw [hnone]; exact nofun
    have hapart' : ∀ n ∈ (allocNodes (effective q) a.fresh a.nodes).2,
        d.range.Apart n.desc.range := by
      intro n' hn'
      obtain ⟨n, hn, hdesc, -⟩ := changes_right hc hn'
      rw [hdesc]
      exact hapart n hn
    have hnew := @changes_memdAlloc (freshNode d a.fresh) (effective q) (a.fresh + 1) hop.1
      effective_pos (Quiet a (.alloc q morecore)) (by rw [hresult] at hskip; exact hskip)
    have hcons : List.Forall₂ (Changes (Quiet a (.alloc q morecore)))
        (freshNode d a.fresh :: (allocNodes (effective q) a.fresh a.nodes).2)
        (step a (.alloc q morecore)).nodes := by
      rw [step, hnodes]
      exact .cons hnew (forall₂_same.mpr fun n _ => .refl _ n)
    have hinv := (h.changes hc).provide hok hapart' a.fresh
    refine ⟨hinv.changes hcons, fun d' m stop hlive _ => ?_, fun hq hzero => ?_⟩
    · obtain ⟨stop1, hlive1, heq⟩ := hlive.changes h hc
      obtain ⟨n, hn, hdesc, hmem, halloc⟩ := hlive1
      rw [← heq hquiet]
      exact ⟨stop1, ⟨n, by rw [step, hnodes]; exact mem_cons_of_mem _ hn, hdesc, hmem, halloc⟩,
        fun _ => rfl⟩
    · refine Unmoved.changes (fun n hn => ?_) hinv hcons hq
      rcases mem_cons.mp hn with rfl | hn
      · rfl
      · exact hzero.changes h hc hquiet n hn

theorem stepSpec_free (id : Nat) : StepSpec a (.free id) := by
  refine ⟨⟨fun n hn => ?_, ?_⟩, fun d m stop hlive hne => ?_, fun _ hzero n hn => ?_⟩
  · obtain ⟨n0, hn0, rfl⟩ := mem_map.mp hn
    exact ⟨(h.nodes n0 hn0).desc, (freeMem_inOrder (h.nodes n0 hn0).inOrder).1,
      freeMem_ne_nil (h.nodes n0 hn0).ne_nil⟩
  · have hmap : ((step a (.free id)).nodes.map fun n => n.desc.range) =
        a.nodes.map fun n => n.desc.range := by
      rw [step, dmaFree, map_map]
      rfl
    rw [hmap]
    exact h.apart
  · obtain ⟨n, hn, rfl, hmem, halloc⟩ := hlive
    have hid : m.id ≠ id := fun heq => hne (by rw [heq])
    refine ⟨stop, ⟨_, mem_map.mpr ⟨n, hn, rfl⟩, rfl, ?_, halloc⟩, fun _ => rfl⟩
    exact mem_freeMem (h.nodes n hn).inOrder hmem halloc hid
  · obtain ⟨n0, hn0, rfl⟩ := mem_map.mp hn
    exact (freeMem_inOrder (h.nodes n0 hn0).inOrder).2.trans (hzero n0 hn0)

theorem stepSpec_reclaim : StepSpec a .reclaim := by
  rcases @reclaimNodes_spec a.nodes (Quiet a .reclaim) (fun n hn => (h.nodes n hn).ne_nil) id with
    ⟨-, hc⟩ | ⟨pre, x, post, pre', hns, -, hrest, hc, hfree⟩
  · exact ⟨h.changes hc, fun d m stop hlive _ => hlive.changes h hc,
      fun hq hzero => hzero.changes h hc hq⟩
  have hstep : (step a .reclaim).nodes = pre' ++ post := hrest
  have hc' : List.Forall₂ (Changes (Quiet a .reclaim)) (pre ++ post) (pre' ++ post) :=
    rel_append hc (forall₂_same.mpr fun n _ => .refl _ n)
  have hsub : (pre ++ post).Sublist (pre ++ x :: post) :=
    (List.Sublist.refl pre).append (sublist_cons_self x post)
  rw [hns] at h
  have hinv : Inv (pre ++ post) :=
    ⟨fun n hn => h.nodes n (hsub.subset hn), h.apart.sublist (hsub.map _)⟩
  refine ⟨?_, fun d m stop hlive _ => ?_, fun hq hzero => ?_⟩
  · rw [hstep]
    exact hinv.changes hc'
  · rw [hstep]
    refine Live.changes ?_ hinv hc'
    obtain ⟨n, hn, hdesc, hmem, halloc⟩ := hlive
    rw [hns] at hn
    refine ⟨n, ?_, hdesc, hmem, halloc⟩
    rcases mem_append.mp hn with hn | hn
    · exact mem_append_left _ hn
    rcases mem_cons.mp hn with rfl | hn
    · have := hfree m (mem_of_regions hmem)
      rw [halloc] at this
      cases this
    · exact mem_append_right _ hn
  · rw [hstep]
    rw [hns] at hzero
    exact Unmoved.changes (fun n hn => hzero n (hsub.subset hn)) hinv hc' hq

/-- The step lemma. -/
theorem stepSpec {op : Op} (hop : Allowed a op) : StepSpec a op := by
  cases op with
  | provide d => exact stepSpec_provide h hop
  | alloc q morecore => exact stepSpec_alloc h hop
  | free id => exact stepSpec_free h id
  | reclaim => exact stepSpec_reclaim h

omit h

/-! ### Allocations and empty nodes -/

/-- The region that is returned is allocated in one of the nodes, for the request. -/
theorem found_allocNodes (hsize : 0 < q.size) (halign : 0 < q.align)
    (h : ∀ n ∈ ns, NodeOk n) {p : Mem × Nat} (hp : (allocNodes q fresh ns).1 = some p) :
    p.1.size = q.size ∧ p.1.align = q.align ∧
      ∃ d stop, Live (allocNodes q fresh ns).2 d p.1 stop := by
  induction ns with
  | nil => cases hp
  | cons n ns ih =>
    have hn := h n mem_cons_self
    have hs := @memdAlloc_spec n.desc q fresh n.mems hn.desc hsize halign none nofun hn.inOrder
    rw [allocNodes] at hp ⊢
    obtain ⟨⟨r, mems⟩, hx⟩ : ∃ x, memdAlloc n.desc q fresh none n.mems = x := ⟨_, rfl⟩
    rw [hx] at hs hp ⊢
    cases r with
    | some r =>
      cases hp
      obtain ⟨⟨halloc, hsz, hal⟩, hmem⟩ := hs.found _ rfl
      obtain ⟨stop, hstop⟩ := @mem_regions n.desc _ _ hmem
      exact ⟨hsz, hal, n.desc, stop, _, mem_cons_self, rfl, hstop, halloc⟩
    | none =>
      obtain ⟨hsz, hal, d, stop, n', hn', hlive⟩ :=
        ih (fun n' hn' => h n' (mem_cons_of_mem _ hn')) hp
      exact ⟨hsz, hal, d, stop, n', mem_cons_of_mem _ hn', hlive⟩

theorem found_dmaAlloc (h : Inv a.nodes) {morecore : Option Descriptor}
    (hop : Allowed a (.alloc q morecore)) {p : Mem × Nat}
    (hp : (dmaAlloc q morecore a).1 = some p) :
    p.1.size = q.size ∧ p.1.align = max q.align dmaMinalignBytes ∧
      ∃ d stop, Live (step a (.alloc q morecore)).nodes d p.1 stop := by
  rcases dmaAlloc_cases q morecore a with ⟨-, hresult, hnodes⟩ | ⟨d, hd, hnone, hresult, hnodes⟩
  · rw [hresult] at hp
    rw [step, hnodes]
    exact @found_allocNodes a.nodes (effective q) a.fresh hop.1 effective_pos h.nodes p hp
  · have hok := nodeOk_freshNode (hop.2 d hd).1 a.fresh
    have hs := @memdAlloc_spec d (effective q) (a.fresh + 1) (freshNode d a.fresh).mems hok.desc
      hop.1 effective_pos none nofun hok.inOrder
    obtain ⟨x, hx⟩ : ∃ x, memdAlloc d (effective q) (a.fresh + 1) none
      (freshNode d a.fresh).mems = x := ⟨_, rfl⟩
    rw [hx] at hs hresult hnodes
    rw [hresult] at hp
    obtain ⟨⟨halloc, hsz, hal⟩, hmem⟩ := hs.found p hp
    obtain ⟨stop, hstop⟩ := @mem_regions d _ _ hmem
    rw [step, hnodes]
    exact ⟨hsz, hal, d, stop, _, mem_cons_self, rfl, hstop, halloc⟩

theorem memdAlloc_start {m : Mem} {rest : List Mem} (hm : m.isFree = true) :
    memdAlloc d q fresh none (m :: rest) = memdAlloc d q fresh (some m) rest := by
  rw [memdAlloc, if_pos hm]

theorem memdAlloc_merge {m x : Mem} {rest : List Mem} (hx : x.isFree = true) :
    memdAlloc d q fresh (some m) (x :: rest) = memdAlloc d q fresh (some m) rest := by
  rw [memdAlloc, if_pos hx]

/-- The search merges free regions up to the end of the node. -/
theorem memdAlloc_free {m : Mem} {rest : List Mem} (hfree : ∀ x ∈ rest, x.allocated = false) :
    memdAlloc d q fresh (some m) rest = memdAlloc d q fresh (some m) [] := by
  induction rest with
  | nil => rfl
  | cons x rest ih =>
    have hx : x.isFree = true := by simp [Mem.isFree, hfree x mem_cons_self]
    rw [memdAlloc_merge hx]
    exact ih fun y hy => hfree y (mem_cons_of_mem _ hy)

/-- Whether the last region serves a request depends on its offset only. -/
theorem suits_congr {m m' : Mem} (h : m.offset = m'.offset) : Suits d q m [] ↔ Suits d q m' [] := by
  have hpaddr : dmaPaddr d m = dmaPaddr d m' := by rw [dmaPaddr, dmaPaddr, h]
  have halign : memAlign d q.align m = memAlign d q.align m' := by rw [memAlign, memAlign, hpaddr]
  have hsize : memSize d m [] = memSize d m' [] := by rw [memSize, memSize, h]
  rw [Suits, Suits, halign, hsize]

theorem isSome_memdAlloc (m : Mem) :
    (memdAlloc d q fresh (some m) []).1.isSome = decide (Suits d q m []) := by
  rw [memdAlloc]
  split
  next hsuits =>
    rw [decide_eq_true hsuits]
    rfl
  next hsuits =>
    rw [decide_eq_false hsuits]
    rfl

/-- **A node without allocations is as good as new**, if its first region was not moved. -/
theorem serves_again (h : NodeOk n) (hzero : stopOf n.desc n.mems = 0)
    (hfree : ∀ m ∈ n.mems, m.allocated = false) (q : Request) (fresh id : Nat) :
    (memdAlloc n.desc q fresh none n.mems).1.isSome =
      (memdAlloc n.desc q fresh none (freshNode n.desc id).mems).1.isSome := by
  obtain ⟨d, mems⟩ := n
  cases mems with
  | nil => exact absurd rfl h.ne_nil
  | cons m rest =>
    have hm : m.isFree = true := by simp [Mem.isFree, hfree m mem_cons_self]
    dsimp only [freshNode]
    rw [memdAlloc_start hm, memdAlloc_free fun x hx => hfree x (mem_cons_of_mem _ hx),
      memdAlloc_start (by rfl), isSome_memdAlloc, isSome_memdAlloc, decide_eq_decide]
    exact suits_congr hzero

/-! ### Runs -/

inductive Run : Allocator → Prop
  | init : Run .init
  | step {a : Allocator} (op : Op) (prior : Run a) (hop : Allowed a op) : Run (step a op)

/-- The run lemma. -/
theorem Run.inv (h : Run a) : Inv a.nodes := by
  induction h with
  | init => exact ⟨nofun, .nil⟩
  | step op _ hop ih => exact (stepSpec ih hop).inv

/-- Calls one after another, each of which satisfies `P` where it is made. -/
inductive Calls (P : Allocator → Op → Prop) (a : Allocator) : List Op → Allocator → Prop
  | nil : Calls P a [] a
  | cons {b : Allocator} {ops : List Op} {op : Op} (prior : Calls P a ops b) (hop : P b op) :
      Calls P a (op :: ops) (step b op)

/-- An allowed call that is quiet. -/
def QuietCall (a : Allocator) (op : Op) : Prop := Allowed a op ∧ Quiet a op

section

variable {b : Allocator} {ops : List Op} {m : Mem} {stop : Nat}

theorem Run.calls (h : Run a) (hcalls : Calls Allowed a ops b) : Run b := by
  induction hcalls with
  | nil => exact h
  | cons _ hop ih => exact ih.step _ hop

theorem Calls.allowed (h : Calls QuietCall a ops b) : Calls Allowed a ops b := by
  induction h with
  | nil => exact .nil
  | cons _ hop ih => exact ih.cons hop.1

/-- An allocated region stays where it is until it is freed. -/
theorem Run.live (h : Run a) (hcalls : Calls Allowed a ops b) (hlive : Live a.nodes d m stop)
    (hfree : .free m.id ∉ ops) : ∃ stop', Live b.nodes d m stop' := by
  induction hcalls with
  | nil => exact ⟨stop, hlive⟩
  | cons prior hop ih =>
    obtain ⟨hne, hrest⟩ := not_or.mp (mem_cons.not.mp hfree)
    obtain ⟨stop', hlive'⟩ := ih hrest
    obtain ⟨stop'', hlive'', -⟩ :=
      (stepSpec (h.calls prior).inv hop).live d m stop' hlive' (Ne.symm hne)
    exact ⟨stop'', hlive''⟩

/-- Quiet calls leave an allocated region its end as well. -/
theorem Run.live_quiet (h : Run a) (hcalls : Calls QuietCall a ops b)
    (hlive : Live a.nodes d m stop) (hfree : .free m.id ∉ ops) : Live b.nodes d m stop := by
  induction hcalls with
  | nil => exact hlive
  | cons prior hop ih =>
    obtain ⟨hne, hrest⟩ := not_or.mp (mem_cons.not.mp hfree)
    obtain ⟨stop', hlive', heq⟩ :=
      (stepSpec (h.calls prior.allowed).inv hop.1).live d m stop (ih hrest) (Ne.symm hne)
    rwa [heq hop.2] at hlive'

/-- Quiet calls move no first region. -/
theorem Calls.unmoved (h : Calls QuietCall .init ops a) : Unmoved a.nodes := by
  induction h with
  | nil => nofun
  | cons prior hop ih =>
    exact (stepSpec (Run.init.calls prior.allowed).inv hop.1).unmoved hop.2 ih

end

/-- The regions of all nodes. -/
def allRanges (a : Allocator) : List (Range Nat) :=
  a.nodes.flatMap fun n => (regions n.desc n.mems).map (regionRange n.desc)

theorem Inv.regionRange_subset (h : Inv a.nodes) (hn : n ∈ a.nodes) {p : Mem × Nat}
    (hp : p ∈ regions n.desc n.mems) : ∀ x ∈ regionRange n.desc p, x ∈ n.desc.range := by
  intro x hx
  obtain ⟨-, -, hle, -⟩ := (h.nodes n hn).inOrder.region hp
  rw [(h.nodes n hn).desc.nodeSize_eq] at hle
  exact ⟨Nat.le_trans (Nat.le_add_right ..) hx.1,
    Nat.lt_of_lt_of_le hx.2 (Nat.add_le_add_left hle _)⟩

theorem Inv.allRanges_apart (h : Inv a.nodes) : (allRanges a).Pairwise Apart := by
  rw [allRanges, pairwise_flatMap]
  constructor
  · intro n hn
    rw [pairwise_map]
    exact (h.nodes n hn).inOrder.pairwise.imp fun hle => apart_of_le (Nat.add_le_add_left hle _)
  · have hapart := pairwise_map.mp h.apart
    refine hapart.imp_of_mem fun {n n'} hn hn' hab x hx y hy => ?_
    obtain ⟨p, hp, rfl⟩ := mem_map.mp hx
    obtain ⟨p', hp', rfl⟩ := mem_map.mp hy
    exact fun z hz hz' =>
      hab z (h.regionRange_subset hn hp z hz) (h.regionRange_subset hn' hp' z hz')

/-- **Main result.** The regions do not share memory; an allocated one lies in its node, is
aligned and large enough; whatever is called, it stays where it is until it is freed, and it
keeps its end if the calls are quiet; a node that is reclaimed has no allocation; and if all
calls from the beginning were quiet, a node without allocations serves what it served when it was
new. -/
theorem dma_allocator_correct (h : Run a) :
    (allRanges a).Pairwise Apart ∧
      (∀ d m stop, Live a.nodes d m stop →
        stop ≤ 2 ^ d.sizeBits ∧ m.offset + m.size ≤ stop ∧ m.align ∣ d.paddr + m.offset) ∧
      (∀ q morecore p, Allowed a (.alloc q morecore) → (dmaAlloc q morecore a).1 = some p →
        p.1.size = q.size ∧ p.1.align = max q.align dmaMinalignBytes ∧
          ∃ d stop, Live (step a (.alloc q morecore)).nodes d p.1 stop) ∧
      (∀ ops b d m stop, Live a.nodes d m stop → .free m.id ∉ ops →
        (Calls Allowed a ops b → ∃ stop', Live b.nodes d m stop') ∧
        (Calls QuietCall a ops b → Live b.nodes d m stop)) ∧
      (∀ d, (dmaReclaimMem a).1 = some d →
        ∃ n ∈ a.nodes, n.desc = d ∧ ∀ m ∈ n.mems, m.allocated = false) ∧
      ∀ ops, Calls QuietCall .init ops a →
        ∀ n ∈ a.nodes, (∀ m ∈ n.mems, m.allocated = false) →
          ∀ q fresh id, (memdAlloc n.desc q fresh none n.mems).1.isSome =
            (memdAlloc n.desc q fresh none (freshNode n.desc id).mems).1.isSome := by
  have hinv := h.inv
  refine ⟨hinv.allRanges_apart, ?_, fun q morecore p hop hp => found_dmaAlloc hinv hop hp,
    fun ops b d m stop hlive hfree =>
      ⟨fun hcalls => h.live hcalls hlive hfree, fun hcalls => h.live_quiet hcalls hlive hfree⟩,
    fun d hd => ?_,
    fun ops hcalls n hn hfree => serves_again (hinv.nodes n hn) (hcalls.unmoved n hn) hfree⟩
  · rintro d m stop ⟨n, hn, rfl, hmem, halloc⟩
    obtain ⟨-, -, hle, hanswer⟩ := (hinv.nodes n hn).inOrder.region hmem
    rw [(hinv.nodes n hn).desc.nodeSize_eq] at hle
    exact ⟨hle, hanswer halloc⟩
  · rcases @reclaimNodes_spec a.nodes False (fun n hn => (hinv.nodes n hn).ne_nil)
        False.elim with
      ⟨hnone, -⟩ | ⟨pre, n, post, pre', hns, hsome, -, -, hfree⟩
    · rw [dmaReclaimMem] at hd
      rw [hnone] at hd
      cases hd
    · have hdesc : some n.desc = some d := hsome.symm.trans hd
      exact ⟨n, by rw [hns]; simp, Option.some.inj hdesc, hfree⟩

/-- A page of memory. -/
def pageDesc : Descriptor := { vaddr := 0x20000, paddr := 0x10000, sizeBits := 12 }

theorem pageDesc_ok : pageDesc.Ok := ⟨by decide, by decide⟩

/-- A request for 64 bytes, aligned to 32. -/
def smallRequest : Request := { size := 64, align := 32, malloc := true }

/-- The region that answers it at an offset. -/
def smallMem (id offset : Nat) : Mem :=
  { id := id, offset := offset, allocated := true, size := 64, align := 32 }

/-- The request is served from memory that was provided, once and then again. -/
def oneAlloc (d : Descriptor) : Allocator :=
  step (step .init (.provide d)) (.alloc smallRequest none)

def twoAllocs : Allocator := step (oneAlloc pageDesc) (.alloc smallRequest none)

theorem quietCall_small {b : Range Nat}
    (hb : (freeMemory a.nodes).find? (hasRoom (effective smallRequest)) = some b)
    (hdvd : 32 ∣ b.start) : QuietCall a (.alloc smallRequest none) := by
  refine ⟨⟨by decide, nofun⟩, fun b' hb' => ?_⟩
  rw [Option.toList_none, map_nil, append_nil, hb] at hb'
  cases hb'
  exact hdvd

/-- Both allocations are quiet: the first region keeps its 64 bytes. When both are freed, the page
serves a request for all its bytes again. -/
theorem page_correct :
    Live (oneAlloc pageDesc).nodes pageDesc (smallMem 0 0) 64 ∧
      Live twoAllocs.nodes pageDesc (smallMem 0 0) 64 ∧
      ∃ n, (step (step twoAllocs (.free 0)) (.free 1)).nodes = [n] ∧
        (memdAlloc pageDesc { size := 4096, align := 4096, malloc := true } 9 none
          n.mems).1.isSome = true := by
  have hone : Calls QuietCall .init _ (oneAlloc pageDesc) :=
    .cons (.cons .nil ⟨⟨pageDesc_ok, nofun⟩, trivial⟩)
      (quietCall_small (b := ⟨0x10000, 0x11000⟩) (by decide +kernel) (by decide))
  have htwo : QuietCall (oneAlloc pageDesc) (.alloc smallRequest none) :=
    quietCall_small (b := ⟨0x10040, 0x11000⟩) (by decide +kernel) (by decide)
  have hfree : ∀ {b : Allocator} id, QuietCall b (.free id) := fun _ => ⟨trivial, trivial⟩
  have hrun := Run.init.calls hone.allowed
  have hlive : Live (oneAlloc pageDesc).nodes pageDesc (smallMem 0 0) 64 :=
    ⟨_, mem_cons_self, rfl, by decide +kernel, rfl⟩
  have hkept := ((dma_allocator_correct hrun).2.2.2.1 [.alloc smallRequest none] twoAllocs pageDesc
    (smallMem 0 0) 64 hlive (by decide)).2 (.cons .nil htwo)
  have hall : Calls QuietCall .init _ (step (step twoAllocs (.free 0)) (.free 1)) :=
    ((hone.cons htwo).cons (hfree 0)).cons (hfree 1)
  obtain ⟨n, hnodes, hdesc, hunused⟩ :
      ∃ n, (step (step twoAllocs (.free 0)) (.free 1)).nodes = [n] ∧ n.desc = pageDesc ∧
        ∀ m ∈ n.mems, m.allocated = false := ⟨_, rfl, rfl, by decide +kernel⟩
  refine ⟨hlive, hkept, n, hnodes, ?_⟩
  have hserves := (dma_allocator_correct (Run.init.calls hall.allowed)).2.2.2.2.2 _ hall n
    (by rw [hnodes]; exact mem_cons_self) hunused
    { size := 4096, align := 4096, malloc := true } 9 0
  rw [hdesc] at hserves
  rw [hserves]
  decide +kernel

/-! ### What goes wrong -/

/-- A page whose address is not aligned to 64 bytes. -/
def oddDesc : Descriptor := { vaddr := 0x20020, paddr := 0x10020, sizeBits := 12 }

/-- The bytes of an allocated region, from one offset to another. -/
def extentOf (a : Allocator) (id : Nat) : Option (Nat × Nat) :=
  (a.nodes.flatMap fun n => regions n.desc n.mems).findSome? fun p =>
    if p.1.id = id ∧ p.1.allocated = true then some (p.1.offset, p.2) else none

/-- `dma_reclaim_mem` lets an allocated region grow, an allocation lets the region before it
grow, and a node does not serve again what it served when it was new. -/
theorem dma_allocator_wrong :
    let request (size align : Nat) : Op := .alloc { size, align, malloc := true } none
    let one := step (step .init (.provide pageDesc)) (request 64 32)
    let used := step (step .init (.provide oddDesc)) (request 64 64)
    extentOf one 0 = some (0, 64) ∧ extentOf (step one .reclaim) 0 = some (0, 4096) ∧
      extentOf (step one (request 64 128)) 0 = some (0, 128) ∧
      (dmaAlloc { size := 4096, align := 32, malloc := true } none
        (step .init (.provide oddDesc))).1.isSome = true ∧
      (dmaAlloc { size := 4096, align := 32, malloc := true } none
        (step used (.free 0))).1.isSome = false := by
  decide +kernel

end SeL4Kernel.Dma
