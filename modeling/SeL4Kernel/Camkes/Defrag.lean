import SeL4Kernel.Camkes.DmaPoolRuns
import SeL4Kernel.Camkes.FreeList

/-!
# Defragmentation of the DMA pool

`defrag` terminates, and it coalesces regions until no two of them touch. The list in memory
then describes the same bytes as before, at the same physical addresses and with the same flags,
by regions that are still apart, and its nodes are nodes of the list before.

This needs what the assertions of `defrag` and `extract_paddr` ask for: that there is a node,
and that no region is in the first frame of the machine.
-/

namespace SeL4Kernel.Camkes

open List Range

/-- The region has the byte with virtual address `v`, physical address `a` and flag `c`. -/
def Region.Describes (r : Region) (v a : Nat) (c : Bool) : Prop :=
  v ∈ r.range ∧ a = tryExtractPaddr r + (v - r.vaddr) ∧ c = r.cached

variable {pools : List DmaPool} {l l' before after : List Region} {p q : Region} {v a : Nat}
  {c : Bool}

/-! ### Merges -/

theorem describes_growNode (hf : follows p q = true) :
    (growNode q p.size).Describes v a c ↔ p.Describes v a c ∨ q.Describes v a c := by
  obtain ⟨hv, hpaddr, hflag⟩ := of_decide_eq_true hf
  have hgrow : tryExtractPaddr (growNode q p.size) = tryExtractPaddr q := rfl
  simp only [Region.Describes, hgrow, hpaddr, hflag, hv, Region.range, Range.mem_iff]
  simp only [growNode]
  constructor
  · rintro ⟨hmem, ha, hc⟩
    by_cases hlt : v < q.vaddr + q.size
    · exact .inr ⟨⟨hmem.1, hlt⟩, ha, hc⟩
    · exact .inl ⟨by omega, by omega, hc⟩
  · rintro (⟨hmem, ha, hc⟩ | ⟨hmem, ha, hc⟩)
    · exact ⟨by omega, by omega, hc⟩
    · exact ⟨by omega, ha, hc⟩

/-- What a merge keeps: the bytes, that regions are apart, and where the nodes are. -/
structure Same (l l' : List Region) : Prop where
  bytes : ∀ v a c, (∃ r ∈ l', r.Describes v a c) ↔ ∃ r ∈ l, r.Describes v a c
  apart : (l.map Region.range).Pairwise Apart → (l'.map Region.range).Pairwise Apart
  nodes : (l'.map Region.vaddr).Subperm (l.map Region.vaddr)
  room : (∀ r ∈ l, sizeofRegion ≤ r.size) → ∀ r ∈ l', sizeofRegion ≤ r.size

/-- The step lemma. -/
theorem Merge.same (hm : Merge l l') : Same l l' := by
  have hcuts := @Merge.cuts [] l l' (Covered (l.map Region.range)) hm
  simp only [append_nil] at hcuts
  obtain @⟨p, q, _, _, rest, hf, hl, hl'⟩ := hm
  refine ⟨fun v a c => ?_, fun h => (hcuts ⟨h, fun _ => Iff.rfl⟩).apart, ?_, fun h r hr => ?_⟩
  · simp only [hl.mem_iff, hl'.mem_iff, exists_mem_cons_iff, describes_growNode hf, or_assoc]
  · refine (hl'.map Region.vaddr).subperm.trans (Subperm.trans ?_ (hl.map _).symm.subperm)
    exact (sublist_cons_self _ _).subperm
  · rcases mem_cons.mp (hl'.mem_iff.mp hr) with rfl | hr
    · exact Nat.le_add_right_of_le (h q (hl.mem_iff.mpr (mem_cons_of_mem p mem_cons_self)))
    · exact h r (hl.mem_iff.mpr (mem_cons_of_mem p (mem_cons_of_mem q hr)))

/-- The run lemma. -/
theorem same_of_merges (hm : Relation.ReflTransGen Merge l l') : Same l l' := by
  induction hm with
  | refl => exact ⟨fun _ _ _ => Iff.rfl, id, .refl _, id⟩
  | tail _ hstep ih =>
    have h := hstep.same
    exact ⟨fun v a c => (h.bytes v a c).trans (ih.bytes v a c), h.apart ∘ ih.apart,
      h.nodes.trans ih.nodes, h.room ∘ ih.room⟩

/-! ### Completeness -/

/-- Neither of the regions follows the other. -/
def Separate (p q : Region) : Prop := follows p q = false ∧ follows q p = false

theorem touching_none (h : touching p l = none) : ∀ q ∈ l, Separate q p := by
  induction l with
  | nil => nofun
  | cons r l ih =>
    rw [touching] at h
    split at h
    · cases h
    next ht =>
      rw [Bool.or_eq_true_iff, not_or, Bool.not_eq_true, Bool.not_eq_true] at ht
      exact forall_mem_cons.mpr ⟨ht.symm, ih (Option.map_eq_none_iff.mp h)⟩

/-- The nodes before the scan are separate. It goes back behind those that a merge has left as
they were. -/
theorem defragFrom_separate (h : before.Pairwise Separate) :
    (defragFrom before after).Pairwise Separate := by
  fun_induction defragFrom before after with
  | case1 before => exact h
  | case2 before p rest ht ih =>
    refine ih (pairwise_append.mpr ⟨h, pairwise_singleton .., fun q hq r hr => ?_⟩)
    rw [mem_singleton.mp hr]
    exact touching_none ht q hq
  | case3 before p rest q between hf ht hlen ih => exact ih (pairwise_singleton ..)
  | case4 before p rest front q between ht hlen hf hfront ih =>
    rw [(touching_spec ht).1] at h
    exact ih (pairwise_append.mp h).1
  | case5 before p rest front q between ht hlen hf ih =>
    rw [(touching_spec ht).1] at h
    exact ih (h.sublist ((sublist_cons_self q between).append_left front))

/-! ### The list in memory -/

/-- The list from `head` on has these nodes. -/
structure FreeList.Chain (h : FreeList) (l : List Region) : Prop where
  path : Path h.next h.head (l.map Region.vaddr) none
  region : ∀ r ∈ l, h.region r.vaddr = r

/-- Regions that are apart and have room for their nodes have them at different addresses. -/
theorem FreeList.Chain.nodes {h : FreeList} (hl : h.Chain l)
    (hroom : ∀ r ∈ l, sizeofRegion ≤ r.size)
    (hapart : (l.map Region.range).Pairwise Apart) : Nodes h l := by
  have hpos : ∀ r ∈ l, 0 < r.size := fun r hr => Nat.lt_of_lt_of_le (by decide) (hroom r hr)
  refine ⟨hl.region, ?_, hpos⟩
  rw [Nodup, pairwise_map] at *
  refine hapart.imp_of_mem fun {p q} hp hq hpq heq => hpq p.vaddr ?_ ?_
  · exact ⟨Nat.le_refl _, Nat.lt_add_of_pos_right (hpos p hp)⟩
  · exact ⟨Nat.le_of_eq heq.symm, heq ▸ Nat.lt_add_of_pos_right (hpos q hq)⟩

/-- **Main result.** No node is in the list more often than it was before. -/
theorem defrag_coalesces {h : FreeList} {free : List Region} (hfree : h.Chain free)
    (hne : free ≠ []) (hroom : ∀ r ∈ free, sizeofRegion ≤ r.size)
    (hpaddr : ∀ r ∈ free, tryExtractPaddr (extractPaddr pools r) ≠ 0)
    (hapart : (free.map Region.range).Pairwise Apart) :
    ∃ n h' free', (∀ fuel, n ≤ fuel → h.defrag pools fuel = .ok h') ∧ h'.Chain free' ∧
      (∀ v a c, (∃ r ∈ free', r.Describes v a c) ↔
        ∃ r ∈ free, (extractPaddr pools r).Describes v a c) ∧
      (free'.map Region.range).Pairwise Apart ∧
      (free'.map Region.vaddr).Subperm (free.map Region.vaddr) ∧
      (∀ r ∈ free', sizeofRegion ≤ r.size) ∧
      free'.Pairwise fun p q => follows p q = false ∧ follows q p = false := by
  obtain ⟨n, h', hfuel, hpath, hnodes⟩ :=
    FreeList.defrag_eq hne hfree.path (hfree.nodes hroom hapart) hpaddr
  have hsame : Same (free.map (extractPaddr pools)) (defrag pools free) :=
    same_of_merges (merges_defragFrom [] _)
  -- looking its address up changes neither the place nor the size of a node
  have hrange : Region.range ∘ extractPaddr pools = Region.range := by
    funext r
    simp only [Function.comp_apply, Region.range, (extractPaddr_fields r).1,
      (extractPaddr_fields r).2]
  have hvaddr : Region.vaddr ∘ extractPaddr pools = Region.vaddr :=
    funext fun r => (extractPaddr_fields r).1
  refine ⟨n, h', defrag pools free, hfuel, ⟨hpath, hnodes.region⟩, fun v a c => ?_,
    hsame.apart ?_, ?_, hsame.room ?_, defragFrom_separate .nil⟩
  · rw [hsame.bytes]
    simp only [mem_map, exists_exists_and_eq_and]
  · rwa [map_map, hrange]
  · simpa only [map_map, hvaddr] using hsame.nodes
  · exact forall_mem_map.mpr fun r hr => (extractPaddr_fields r).2 ▸ hroom r hr

/-- Three regions of one frame that touch, each before the one it follows. When the first is
coalesced into the second, the loop goes on at the node it has unlinked. -/
def threeNodes : FreeList where
  head := some 4224
  next v := if v = 4224 then some 4160 else if v = 4160 then some 4096 else none
  cached _ := true
  size _ := 64
  paddrUpper _ := 0

theorem threeNodes_coalesce :
    ∃ n h' free', (∀ fuel, n ≤ fuel → threeNodes.defrag twoFrames fuel = .ok h') ∧
      h'.Chain free' ∧
      free'.Pairwise fun p q => follows p q = false ∧ follows q p = false := by
  obtain ⟨n, h', free', hfuel, hchain, -, -, -, -, hsep⟩ := @defrag_coalesces twoFrames threeNodes
    [⟨4224, true, 64, 0⟩, ⟨4160, true, 64, 0⟩, ⟨4096, true, 64, 0⟩]
    ⟨⟨rfl, rfl, rfl, rfl⟩, by simp [FreeList.region, threeNodes]⟩ (by decide) (by decide)
    (by decide) (.cons (forall_mem_cons.mpr ⟨(apart_of_le (Nat.le_refl 4224)).symm,
      forall_mem_singleton.mpr (apart_of_le (show 4160 ≤ 4224 by decide)).symm⟩)
      (pairwise_pair.mpr (apart_of_le (Nat.le_refl 4160)).symm))
  exact ⟨n, h', free', hfuel, hchain, hsep⟩

/-- A region in the first frame of the machine, and a list without nodes: an assertion fails. -/
theorem defrag_asserts :
    (∀ fuel, { threeNodes with head := some 4096 }.defrag [⟨4096, 8191, 4096, [⟨4096, 0, true⟩]⟩]
      (fuel + 1) = .error .assertion) ∧
    ∀ fuel, { threeNodes with head := none }.defrag twoFrames fuel = .error .assertion :=
  ⟨fun _ => rfl, fun _ => rfl⟩

end SeL4Kernel.Camkes
