import SeL4Kernel.Allocman.SplitInv
import SeL4Kernel.Lib.Outcome

/-!
# Runs of the splitting manager

Memory is added, allocated and freed in any order. A run keeps the nodes that were handed out
and the memory that was added. In every state the free and the allocated nodes are a partition
of the memory that was added, and a request fails without a change, or the memory it gets has
the size and the physical address that it asked for (`reaches_right`).

Requests have to be such that nothing fails after the first split: the memory is not smaller
than an untyped object can be, the physical address is aligned to the size, and there are nodes
and slots for the pieces. `unaligned_asserts` is a request for an address that is not aligned.
-/

namespace SeL4Kernel.Split

open List Option Range

variable {s s' : Utspace} {out : Finset ℕ} {hot paddr : Option ℕ} {covered : ℕ → Prop}
  {x a k i l : ℕ} {list : FreeList} {pool : Pool} {q : Request} {news : ℕ → Option ℕ}

/-! ### Nodes without a parent -/

/-- The nodes without a parent, and their memory and lists, are the same. -/
structure SameRoots (s s' : Utspace) : Prop where
  root : ∀ y, y ∈ s'.live ∧ s'.parent y = none ↔ y ∈ s.live ∧ s.parent y = none
  base : ∀ y ∈ s.live, s.parent y = none → s'.base y = s.base y
  bits : ∀ y ∈ s.live, s.parent y = none → s'.bits y = s.bits y
  paddr : ∀ y ∈ s.live, s.parent y = none → s'.paddr y = s.paddr y
  origin : ∀ y ∈ s.live, s.parent y = none → s'.originHead y = s.originHead y

theorem SameRoots.refl (s : Utspace) : SameRoots s s :=
  ⟨fun _ => Iff.rfl, fun _ _ _ => rfl, fun _ _ _ => rfl, fun _ _ _ => rfl, fun _ _ _ => rfl⟩

theorem SameRoots.trans {s'' : Utspace} (h : SameRoots s s') (h' : SameRoots s' s'') :
    SameRoots s s'' := by
  have hroot : ∀ y ∈ s.live, s.parent y = none → y ∈ s'.live ∧ s'.parent y = none :=
    fun y hy hp => (h.root y).2 ⟨hy, hp⟩
  refine ⟨fun y => (h'.root y).trans (h.root y), ?_, ?_, ?_, ?_⟩ <;> intro y hy hp <;>
    obtain ⟨hy', hp'⟩ := hroot y hy hp
  · exact (h'.base y hy' hp').trans (h.base y hy hp)
  · exact (h'.bits y hy' hp').trans (h.bits y hy hp)
  · exact (h'.paddr y hy' hp').trans (h.paddr y hy hp)
  · exact (h'.origin y hy' hp').trans (h.origin y hy hp)

theorem sameRoots_taken : SameRoots s (taken s x) := { SameRoots.refl s with }

theorem sameRoots_returned : SameRoots s (returned s x) := { SameRoots.refl s with }

theorem Hatched.sameRoots {r : ℕ} (hat : Hatched s s' list x l r) (hl : l ∉ s.live)
    (hr : r ∉ s.live) : SameRoots s s' where
  root := by
    intro y
    rw [hat.live]
    constructor
    · rintro ⟨hy | rfl | rfl, hp⟩
      · rw [(hat.same hl hr hy).2.2.1] at hp
        exact ⟨hy, hp⟩
      · rw [hat.left.2.2.1] at hp
        cases hp
      · rw [hat.right.2.2.1] at hp
        cases hp
    · rintro ⟨hy, hp⟩
      exact ⟨.inl hy, by rw [(hat.same hl hr hy).2.2.1]; exact hp⟩
  base := fun y hy _ => (hat.same hl hr hy).1
  bits := fun y hy _ => (hat.same hl hr hy).2.1
  paddr := fun y hy _ => (hat.same hl hr hy).2.2.2.2.2.2
  origin := fun y hy _ => (hat.same hl hr hy).2.2.2.2.2.1

theorem sameRoots_fused {p : ℕ} (hp : s.parent x = some p) (hfam : Family s x p) :
    SameRoots s (fused s x) :=
  { SameRoots.refl s with
    root := by
      intro y
      rw [mem_live_fused]
      refine ⟨fun h => ⟨h.1.2.2, h.2⟩, fun h => ⟨⟨?_, ?_, h.1⟩, h.2⟩⟩
      · rintro rfl
        rw [h.2] at hp
        cases hp
      · rintro rfl
        have hc := h.2.symm.trans hfam.sibling_parent
        cases hc }

/-! ### Splitting down -/

/-- The answers from the `i`-th on are nodes that do not exist. -/
def Fresh (news : ℕ → Option ℕ) (i : ℕ) (s : Utspace) : Prop :=
  ∀ j, i ≤ j → ∃ n, news j = some n ∧ n ∉ s.live

/-- No node is given twice. -/
def Distinct (news : ℕ → Option ℕ) : Prop :=
  ∀ i j n, news i = some n → news j = some n → i = j

section

variable (h : Inv s out hot covered)

include h

theorem holds_iff (hx : x ∈ s.live) (paddr : ℕ) :
    holds s paddr (s.bits x) x = true ↔
      s.paddr x = some (s.base x) ∧ paddr ∈ blk s x ∧ s.base x + 2 ^ s.bits x < 2 ^ 64 := by
  have hfits := h.fits x hx
  unfold holds blk
  rw [mem_iff]
  rcases h.paddr x hx with hp | hp
  · rw [hp]
    simp
  rw [hp, decide_eq_true_iff, and_iff_right rfl]
  unfold word
  rcases Nat.lt_or_eq_of_le hfits with hlt | heq
  · rw [Nat.mod_eq_of_lt hlt, and_iff_left hlt]
  · rw [heq]
    simp

/-- The node that is picked is free, is of the list's size and has the address. -/
theorem pick_spec (hpick : pick s list paddr = some x) :
    x ∈ s.live ∧ s.head x = none ∧ s.originHead x = list ∧
      ∀ a, paddr = some a → holds s a list.bits x = true := by
  have hmem : x ∈ s.heads list ∧ ∀ a, paddr = some a → holds s a list.bits x = true := by
    cases paddr with
    | none => exact ⟨mem_of_head? hpick, by simp⟩
    | some a =>
      refine ⟨mem_of_find?_eq_some hpick, ?_⟩
      rintro b hb
      obtain rfl := some.inj hb
      exact List.find?_some hpick
  obtain ⟨hx, hholds⟩ := hmem
  obtain ⟨hlive, hfree, horigin⟩ := (h.list list x).1 hx
  exact ⟨hlive, hfree, horigin, hholds⟩

/-- Free nodes that have an address in common are the same. -/
theorem Inv.eq_of_holds {y : ℕ} (hx : x ∈ s.live) (hfree : s.head x = none) (hy : y ∈ s.live)
    (hfree' : s.head y = none) (hax : a ∈ blk s x) (hay : a ∈ blk s y) : x = y :=
  h.tiles.eq_of_mem ⟨hx, .inl hfree⟩ ⟨hy, .inl hfree'⟩ hax hay

end

/-- One of the halves of a node that was picked is picked next. -/
theorem pick_hatched (paddr : Option ℕ) {r : ℕ} (h : Inv s' out (some x) covered)
    (hat : Hatched s s' list x l r) (hbits : s.bits x = list.bits + 1)
    (hholds : ∀ a, paddr = some a → s.paddr x = some (s.base x) ∧ a ∈ blk s x ∧
      s.base x + 2 ^ s.bits x < 2 ^ 64) :
    ∃ y, pick s' list paddr = some y ∧ s'.parent y = some x := by
  obtain ⟨hbl, hkl, hpl, hsl, hhl, hol, hal⟩ := hat.left
  obtain ⟨hbr, hkr, hpr, hsr, hhr, hor, har⟩ := hat.right
  cases paddr with
  | none => exact ⟨l, by unfold pick; rw [hat.heads_self]; rfl, hpl⟩
  | some a =>
    obtain ⟨hpx, hax, hlt⟩ := hholds a rfl
    rw [hbits, Nat.pow_succ] at hlt
    have hl : l ∈ s'.live := (hat.live l).2 (.inr (.inl rfl))
    have hr : r ∈ s'.live := (hat.live r).2 (.inr (.inr rfl))
    -- one of the two has the address
    have hsome : (pick s' list (some a)).isSome := by
      unfold pick
      rw [hat.heads_self, List.find?_isSome]
      rcases (hat.halves hbits a).1 hax with ha | ha
      · refine ⟨l, mem_cons_self, ?_⟩
        rw [← hkl]
        refine (holds_iff h hl a).2 ⟨?_, ha, ?_⟩
        · rw [hal, hpx, hbl]
        · rw [hkl]
          omega
      · refine ⟨r, mem_cons_of_mem _ mem_cons_self, ?_⟩
        rw [← hkr]
        refine (holds_iff h hr a).2 ⟨?_, ha, ?_⟩
        · rw [har, hpx, hbr, map_some]
          unfold word
          rw [Nat.mod_eq_of_lt (by omega)]
        · rw [hkr]
          omega
    obtain ⟨y, hy⟩ := isSome_iff_exists.1 hsome
    refine ⟨y, hy, ?_⟩
    obtain ⟨hylive, hyfree, hyorigin, hyholds⟩ := pick_spec h hy
    have hybits : s'.bits y = list.bits := by rw [← h.origin y hylive, hyorigin]
    have hya := hyholds a rfl
    rw [← hybits] at hya
    obtain ⟨-, hya, -⟩ := (holds_iff h hylive a).1 hya
    -- no other free node has it
    rcases (hat.halves hbits a).1 hax with ha | ha
    · rw [h.eq_of_holds hylive hyfree hl hhl hya ha]
      exact hpl
    · rw [h.eq_of_holds hylive hyfree hr hhr hya ha]
      exact hpr

/-- The list has a node for the request, and a pair that is free together has that node. -/
def Filled (s : Utspace) (out : Finset ℕ) (covered : ℕ → Prop) (list : FreeList)
    (paddr : Option ℕ) : Prop :=
  ∃ hot x, Inv s out hot covered ∧ pick s list paddr = some x ∧ (hot = none ∨ hot = s.parent x)

/-- One more split on the way down. -/
theorem splitFirst_spec (hnews : Distinct news) (hk : minUntypedBits ≤ k)
    (hfresh : Fresh news i s) (h : Filled s out covered ⟨pool, k + 1⟩ paddr) :
    ∃ s', splitFirst news pool paddr k i s = .ok (true, i + 2, s') ∧ SameRoots s s' ∧
      Fresh news (i + 2) s' ∧ Filled s' out covered ⟨pool, k⟩ paddr := by
  obtain ⟨hot, x, hinv, hpick, hhot⟩ := h
  obtain ⟨hx, hfree, horigin, hholds⟩ := pick_spec hinv hpick
  have hbits : s.bits x = k + 1 := by rw [← hinv.origin x hx, horigin]
  obtain ⟨l, hl, hllive⟩ := hfresh i (Nat.le_refl i)
  obtain ⟨r, hr, hrlive⟩ := hfresh (i + 1) (Nat.le_succ i)
  have hlr : l ≠ r := by
    rintro rfl
    have hc := hnews i (i + 1) l hl hr
    omega
  have hmem : x ∈ s.heads ⟨pool, k + 1⟩ := (hinv.list _ x).2 ⟨hx, hfree, horigin⟩
  have hat : Hatched (taken s x) (hatched (taken s x) ⟨pool, k⟩ x l r) ⟨pool, k⟩ x l r :=
    hatched_spec hlr
  refine ⟨hatched (taken s x) ⟨pool, k⟩ x l r, ?_, ?_, ?_, some x, ?_⟩
  · unfold splitFirst newNode
    rw [hpick]
    rw [hl]
    rw [hr]
    dsimp only
    rw [if_neg (Nat.not_lt.2 hk), splitNode_eq hinv hmem]
    rfl
  · exact sameRoots_taken.trans (hat.sameRoots hllive hrlive)
  · intro j hj
    obtain ⟨n, hn, hnlive⟩ := hfresh j (by omega)
    refine ⟨n, hn, ?_⟩
    rw [hat.live]
    rintro (hc | rfl | rfl)
    · exact hnlive hc
    · have hc := hnews j i n hn hl
      omega
    · have hc := hnews j (i + 1) n hn hr
      omega
  · have htake := hinv.take hx hfree hhot
    have hinv' := htake.hatch (Finset.mem_insert_self x out)
      (show s.bits x = (⟨pool, k⟩ : FreeList).bits + 1 from hbits) hllive hrlive hlr hat
    rw [Finset.erase_insert (hinv.not_mem_out_of_free hfree)] at hinv'
    obtain ⟨y, hy, hparent⟩ := pick_hatched paddr hinv' hat hbits (by
      intro a ha
      have hha := hholds a ha
      rw [← hbits] at hha
      exact (holds_iff hinv hx a).1 hha)
    exact ⟨y, hinv', hy, .inr hparent.symm⟩

/-- `_refill_pool` fills the list or changes nothing. -/
theorem refillPool_spec (pool : Pool) (paddr : Option ℕ) (hnews : Distinct news) {up : ℕ}
    (hk : minUntypedBits ≤ k) (hfresh : Fresh news i s) (hinv : Inv s out none covered) :
    ∃ filled i' s', refillPool news pool paddr up k i s = .ok (filled, i', s') ∧
      SameRoots s s' ∧ Fresh news i' s' ∧ (filled = false → i' = i ∧ s' = s) ∧
      (filled = true → Filled s' out covered ⟨pool, k⟩ paddr) := by
  fun_induction refillPool news pool paddr up k i s with
  | case1 up k i s hsome =>
    obtain ⟨x, hx⟩ := isSome_iff_exists.1 hsome
    exact ⟨true, i, s, rfl, .refl s, hfresh, by simp, fun _ => ⟨none, x, hinv, hx, .inl rfl⟩⟩
  | case2 k i s => exact ⟨false, i, s, rfl, .refl s, hfresh, by simp, by simp⟩
  | case3 k i s _ up ih =>
    obtain ⟨filled, i', s', heq, hroots, hfresh', hnot, hyes⟩ :=
      ih (Nat.le_succ_of_le hk) hfresh hinv
    rw [heq]
    cases filled with
    | false => exact ⟨false, i', s', rfl, hroots, hfresh', hnot, by simp⟩
    | true =>
      obtain ⟨s'', heq', hroots', hfresh'', hfilled⟩ := splitFirst_spec hnews hk hfresh' (hyes rfl)
      exact ⟨true, i' + 2, s'', heq', hroots.trans hroots', hfresh'', by simp, fun _ => hfilled⟩

/-! ### Allocation -/

/-- The condition on a request that gets as far as the lists. -/
structure Request.Served (q : Request) : Prop where
  large : minUntypedBits ≤ q.sizeBits
  small : q.sizeBits < wordBits
  aligned : ∀ a, q.paddr = some a → 2 ^ q.sizeBits ∣ a
  nodes : ∀ i, (q.news i).isSome
  retype : q.retypeOk = true

/-- What a request may do to the pools: nothing, or hand out a node of the size and address. -/
inductive Allocated (q : Request) (s : Utspace) (out : Finset ℕ) (covered : ℕ → Prop) :
    Option ℕ → Utspace → Prop where
  | none : Allocated q s out covered none s
  | some (x : ℕ) (s' : Utspace) : x ∉ out → Inv s' (insert x out) none covered →
      SameRoots s s' → s'.bits x = q.sizeBits → (∀ a, q.paddr = .some a → s'.base x = a) →
      Allocated q s out covered (some x) s'

/-- The node that was picked, or another one that has the address, is handed out. -/
theorem takeNode_spec (hq : q.Served) (hinv : Inv s' out hot covered) (hroots : SameRoots s s')
    (hmem : x ∈ s'.heads ⟨pool, q.sizeBits⟩) (hhot : hot = none ∨ hot = s'.parent x)
    (haddr : ∀ a, q.paddr = some a → s'.base x = a) :
    ∃ s'', takeNode q pool x s' = .ok (some x, s'') ∧ Allocated q s out covered (some x) s'' := by
  obtain ⟨hx, hfree, horigin⟩ := (hinv.list _ x).1 hmem
  refine ⟨taken s' x, ?_, .some x _ (hinv.not_mem_out_of_free hfree) (hinv.take hx hfree hhot)
    (hroots.trans sameRoots_taken) ?_ haddr⟩
  · unfold takeNode
    rw [if_pos hq.retype, removeNode_eq hinv hmem]
    rfl
  · change s'.bits x = q.sizeBits
    rw [← hinv.origin x hx, horigin]

/-- An aligned address in an aligned block of its size is the start of the block. -/
theorem eq_of_aligned {b : ℕ} (ha : 2 ^ k ∣ a) (hb : 2 ^ k ∣ b) (h1 : b ≤ a) (h2 : a < b + 2 ^ k) :
    b = a := by
  obtain ⟨c, hc⟩ := Nat.dvd_sub ha hb
  rcases Nat.eq_zero_or_pos c with rfl | hpos
  · omega
  · have hle := Nat.le_mul_of_pos_right (2 ^ k) hpos
    omega

variable (hq : q.Served) (hnews : Distinct q.news) (h : Inv s out none covered)

include hq hnews h

/-- A request for memory at a physical address. -/
theorem allocAt_spec (hfresh : Fresh q.news 0 s) (ha : q.paddr = some a) :
    ∃ cookie s', allocAt q a s = .ok (cookie, s') ∧ Allocated q s out covered cookie s' := by
  unfold allocAt
  cases hpool : poolForPaddr s q a with
  | none => exact ⟨none, s, rfl, .none⟩
  | some pool =>
    obtain ⟨filled, i', s', heq, hroots, -, hnot, hyes⟩ :=
      refillPool_spec pool (some a) hnews hq.large hfresh h
    dsimp only
    rw [heq]
    cases filled with
    | false =>
      obtain ⟨-, rfl⟩ := hnot rfl
      exact ⟨none, s', rfl, .none⟩
    | true =>
      obtain ⟨hot, x, hinv, hpick, hhot⟩ := hyes rfl
      obtain ⟨hx, hfree, horigin, hholds⟩ := pick_spec hinv hpick
      have hbits : s'.bits x = q.sizeBits := by rw [← hinv.origin x hx, horigin]
      have hxa := hholds a rfl
      rw [← hbits] at hxa
      obtain ⟨hpaddr, hxa, -⟩ := (holds_iff hinv hx a).1 hxa
      have hbase : s'.base x = a := by
        have hdvd := hinv.aligned x hx
        unfold blk at hxa
        rw [hbits] at hdvd hxa
        exact eq_of_aligned (hq.aligned a ha) hdvd hxa.1 hxa.2
      -- so the search finds a node, and it is this one
      have hsome : (findNode s' ⟨pool, q.sizeBits⟩ a).isSome := by
        unfold findNode
        rw [List.find?_isSome]
        refine ⟨x, (hinv.list _ x).2 ⟨hx, hfree, horigin⟩, ?_⟩
        rw [hpaddr, hbase]
        simp
      obtain ⟨y, hy⟩ := isSome_iff_exists.1 hsome
      have hymem : y ∈ s'.heads ⟨pool, q.sizeBits⟩ := mem_of_find?_eq_some hy
      obtain ⟨hylive, hyfree, hyorigin⟩ := (hinv.list _ y).1 hymem
      have hypaddr : s'.paddr y = some a := by simpa using List.find?_some hy
      have hybase : s'.base y = a := by
        rcases hinv.paddr y hylive with hc | hc
        · rw [hc] at hypaddr
          cases hypaddr
        · exact some.inj (hc.symm.trans hypaddr)
      have hya : a ∈ blk s' y := by
        unfold blk
        rw [hybase]
        exact ⟨Nat.le_refl a, Nat.lt_add_of_pos_right (Nat.two_pow_pos _)⟩
      obtain rfl := hinv.eq_of_holds hx hfree hylive hyfree hxa hya
      obtain ⟨s'', htake, halloc⟩ := takeNode_spec hq hinv hroots hymem hhot (by
        intro b hb
        exact hbase.trans (some.inj (ha.symm.trans hb)))
      refine ⟨some x, s'', ?_, halloc⟩
      rw [ok_bind]
      rw [hy]
      exact htake

theorem allocFrom_spec (pool : Pool) (hfresh : Fresh q.news i s) (ha : q.paddr = none) :
    ∃ done i' cookie s', allocFrom q pool i s = .ok (done, i', cookie, s') ∧
      Allocated q s out covered cookie s' ∧ (done = false → s' = s ∧ i' = i) := by
  obtain ⟨filled, i', s', heq, hroots, hfresh', hnot, hyes⟩ :=
    refillPool_spec pool none hnews hq.large hfresh h
  unfold allocFrom
  rw [heq]
  cases filled with
  | false =>
    obtain ⟨rfl, rfl⟩ := hnot rfl
    exact ⟨false, i', none, s', rfl, .none, fun _ => ⟨rfl, rfl⟩⟩
  | true =>
    obtain ⟨hot, x, hinv, hpick, hhot⟩ := hyes rfl
    have hmem : x ∈ s'.heads ⟨pool, q.sizeBits⟩ := mem_of_head? hpick
    obtain ⟨s'', htake, halloc⟩ := takeNode_spec hq hinv hroots hmem hhot (by
      intro b hb
      rw [ha] at hb
      cases hb)
    refine ⟨true, i', some x, s'', ?_, halloc, by simp⟩
    have hhead : (s'.heads ⟨pool, q.sizeBits⟩).head? = some x := hpick
    rw [ok_bind]
    dsimp only
    rw [hhead]
    dsimp only
    rw [htake]
    rfl

theorem allocAny_spec (hfresh : Fresh q.news 0 s) (ha : q.paddr = none) :
    ∃ cookie s', allocAny q s = .ok (cookie, s') ∧ Allocated q s out covered cookie s' := by
  unfold allocAny
  split
  · obtain ⟨done, i', cookie, s', heq, halloc, hnot⟩ :=
      allocFrom_spec hq hnews h .devMemHeads hfresh ha
    rw [heq]
    cases done with
    | true => exact ⟨cookie, s', rfl, halloc⟩
    | false =>
      obtain ⟨rfl, rfl⟩ := hnot rfl
      obtain ⟨done, i', cookie, s', heq, halloc, -⟩ := allocFrom_spec hq hnews h .heads hfresh ha
      refine ⟨cookie, s', ?_, halloc⟩
      rw [ok_bind]
      dsimp only
      rw [heq]
      rfl
  · obtain ⟨done, i', cookie, s', heq, halloc, -⟩ := allocFrom_spec hq hnews h .heads hfresh ha
    rw [heq]
    exact ⟨cookie, s', rfl, halloc⟩

omit hq

/-- `_utspace_split_alloc`. -/
theorem alloc_spec (hq : q.sizeOk = true → q.sizeBits ≠ 0 → q.Served)
    (hfresh : ∀ i n, q.news i = some n → n ∉ s.live) :
    ∃ cookie s', alloc q s = .ok (cookie, s') ∧ Allocated q s out covered cookie s' := by
  unfold alloc
  by_cases hsize : q.sizeOk = false ∨ q.sizeBits = 0
  · rw [if_pos hsize]
    exact ⟨none, s, rfl, .none⟩
  rw [not_or, Bool.not_eq_false] at hsize
  have hserved := hq hsize.1 hsize.2
  have hfresh' : Fresh q.news 0 s := by
    intro i _
    obtain ⟨n, hn⟩ := isSome_iff_exists.1 (hserved.nodes i)
    exact ⟨n, hn, hfresh i n hn⟩
  rw [if_neg (by simp [hsize]), if_neg (Nat.not_le.2 hserved.small)]
  cases ha : q.paddr with
  | none => exact allocAny_spec hserved hnews h hfresh' ha
  | some a => exact allocAt_spec hserved hnews h hfresh' ha

/-! ### Freeing -/

omit hnews

/-- A node that cannot be merged goes back to its list. -/
theorem insertNode_spec (hx : x ∈ out) (hlist : s.head x = some list)
    (hwhole : s.parent x = none ∨ s.head (s.sibling x) ≠ none) :
    ∃ s', (Except.ok (insertNode list x s) : Except Failure Utspace) = .ok s' ∧
      Inv s' (out.erase x) none covered ∧ SameRoots s s' := by
  rw [h.head_eq x (h.out_live x hx).1 list hlist]
  exact ⟨_, rfl, h.putBack hx hwhole, sameRoots_returned⟩

/-- `_utspace_split_free` returns, and merges all that can be merged. -/
theorem free_spec {fuel : ℕ} (hx : x ∈ out) (hfuel : wordBits ≤ s.bits x + fuel) :
    ∃ s', free fuel x s = .ok s' ∧ Inv s' (out.erase x) none covered ∧ SameRoots s s' := by
  fun_induction free fuel x s generalizing out with
  | case1 x s =>
    have hsmall := h.small x (h.out_live x hx).1
    omega
  | case2 fuel x s p hp hsib sibling =>
    rename_i ih
    have hlive := (h.out_live x hx).1
    have hfam := h.family x hlive p hp
    rw [removeNode_eq h (h.mem_heads hfam.sibling_live hsib)]
    -- the parent takes the place of the two
    have htake := h.take hfam.sibling_live hsib (.inl rfl)
    have hfuse := htake.fuse (x := x) (p := p) (Finset.mem_insert_of_mem hx)
      (Finset.mem_insert_self _ _) hp
    have hout : insert p (((insert sibling out).erase x).erase sibling) =
        insert p (out.erase x) := by
      rw [Finset.erase_right_comm, Finset.erase_insert (h.not_mem_out_of_free hsib)]
    have hpout : p ∉ out.erase x := by
      intro hc
      exact (h.out_live p (Finset.mem_of_mem_erase hc)).2.2 x hlive hp
    change Inv _ (insert p (((insert sibling out).erase x).erase sibling)) none covered at hfuse
    rw [hout] at hfuse
    have hbits : s.bits p = s.bits x + 1 := hfam.bits
    obtain ⟨s', heq, hinv', hroots⟩ := ih _ hfuse (Finset.mem_insert_self p _)
      (show wordBits ≤ s.bits p + fuel by omega)
    rw [Finset.erase_insert hpout] at hinv'
    refine ⟨s', heq, hinv', ?_⟩
    have hfused : SameRoots (taken s sibling) (fused (taken s sibling) x) :=
      sameRoots_fused hp (htake.family x hlive p hp)
    exact sameRoots_taken.trans (hfused.trans hroots)
  | case3 fuel x s _ _ _ hhead | case5 fuel x s _ hhead => exact absurd hhead (h.out_live x hx).2.1
  | case4 fuel x s _ _ hsib list hlist => exact insertNode_spec h hx hlist (.inr hsib)
  | case6 fuel x s hp list hlist => exact insertNode_spec h hx hlist (.inl hp)

omit h

/-! ### Runs -/

/-- A node with the pool it was added to and its memory. -/
structure Root where
  node : ℕ
  pool : Pool
  ut : Added
  deriving DecidableEq, Repr

/-- The manager, the nodes that are handed out, and what was added. -/
structure Run where
  s : Utspace
  out : Finset ℕ
  added : List Root

/-- The calls of the interface. -/
inductive Call where
  | addUts (pool : Pool) (uts : List (Added × Option ℕ))
  | alloc (q : Request)
  | free (cookie : ℕ)

/-- The memory of a call that gets a node, up to the first that gets none. -/
def rootsOf (pool : Pool) : List (Added × Option ℕ) → List Root
  | [] => []
  | (_, none) :: _ => []
  | (ut, some node) :: uts => ⟨node, pool, ut⟩ :: rootsOf pool uts

def perform (r : Run) : Call → Except Failure Run
  | .addUts pool uts => do
    let (_, s) ← addUts pool uts r.s
    return { r with s := s, added := r.added ++ rootsOf pool uts }
  | .alloc q => do
    let (cookie, s) ← alloc q r.s
    return { r with s := s, out := cookie.elim r.out (insert · r.out) }
  | .free cookie => do
    let s ← free wordBits cookie r.s
    return { r with s := s, out := r.out.erase cookie }

/-- `utspace_split_create`: all lists are empty. -/
def Run.start : Run where
  s :=
    { live := ∅, base := fun _ => 0, bits := fun _ => 0, parent := fun _ => none
      sibling := fun _ => 0, head := fun _ => none, originHead := fun _ => ⟨.heads, 0⟩
      paddr := fun _ => none, heads := fun _ => [] }
  out := ∅
  added := []

/-- The memory that was added. -/
def Run.memory (r : Run) (a : ℕ) : Prop := ∃ root ∈ r.added, a ∈ root.ut.block

/-- What the caller, the kernel and the allocator promise: new nodes do not exist yet, memory
that is added was not added before, and only what was allocated is freed. -/
inductive Promised (r : Run) : Call → Prop where
  | addUts (pool : Pool) (uts : List (Added × Option ℕ)) :
      (∀ e ∈ uts, e.1.Untyped) → (∀ e ∈ uts, ∀ n, e.2 = some n → n ∉ r.s.live) →
      (∀ e ∈ uts, ∀ a ∈ e.1.block, ¬r.memory a) →
      uts.Pairwise (fun e e' => e.1.block.Apart e'.1.block ∧ ∀ n, e.2 = some n → e'.2 ≠ some n) →
      Promised r (.addUts pool uts)
  | alloc (q : Request) : Distinct q.news → (∀ i n, q.news i = some n → n ∉ r.s.live) →
      Promised r (.alloc q)
  | free (cookie : ℕ) : cookie ∈ r.out → Promised r (.free cookie)

/-- The condition on the calls: a request that gets as far as the lists is served. -/
def Served : Call → Prop
  | .alloc q => q.sizeOk = true → q.sizeBits ≠ 0 → q.Served
  | _ => True

/-- The runs whose calls are promised and served. -/
inductive Reaches : Run → Prop where
  | start : Reaches .start
  | step {r r' : Run} {c : Call} : Reaches r → Promised r c → Served c →
      perform r c = .ok r' → Reaches r'

/-- The nodes without a parent are those that were added. -/
structure Rooted (s : Utspace) (added : List Root) : Prop where
  node : ∀ y, y ∈ s.live ∧ s.parent y = none ↔ ∃ root ∈ added, root.node = y
  eq : ∀ root ∈ added, s.base root.node = root.ut.base ∧ s.bits root.node = root.ut.bits ∧
    s.paddr root.node = root.ut.paddr ∧ s.originHead root.node = ⟨root.pool, root.ut.bits⟩

theorem Rooted.congr {added : List Root} (h : Rooted s added) (hroots : SameRoots s s') :
    Rooted s' added where
  node := fun y => (hroots.root y).trans (h.node y)
  eq := by
    intro root hroot
    obtain ⟨hlive, hparent⟩ := (h.node root.node).2 ⟨root, hroot, rfl⟩
    rw [hroots.base _ hlive hparent, hroots.bits _ hlive hparent, hroots.paddr _ hlive hparent,
      hroots.origin _ hlive hparent]
    exact h.eq root hroot

/-- The invariant of a run. -/
structure RunInv (r : Run) : Prop where
  inv : Inv r.s r.out none r.memory
  rooted : Rooted r.s r.added

theorem runInv_start : RunInv .start where
  inv := by
    constructor
    case tiles =>
      constructor
      · rintro x y ⟨hx, -⟩
        simp [Run.start] at hx
      · intro a
        simp [Run.memory, Run.start, Leaf]
    all_goals simp [Run.start]
  rooted := ⟨by simp [Run.start], by simp [Run.start]⟩

variable {r : Run}

/-- One more node. -/
theorem RunInv.enlist (pool : Pool) {ut : Added} {n : ℕ} (h : RunInv r)
    (hut : ut.Untyped) (hn : n ∉ r.s.live) (hfresh : ∀ a ∈ ut.block, ¬r.memory a) :
    RunInv ⟨enlisted r.s pool ut n, r.out, r.added ++ [⟨n, pool, ut⟩]⟩ where
  inv := by
    have hinv := h.inv.add pool hn hut hfresh
    have hmem : (fun a => r.memory a ∨ a ∈ ut.block) =
        Run.memory ⟨enlisted r.s pool ut n, r.out, r.added ++ [⟨n, pool, ut⟩]⟩ := by
      funext a
      simp [Run.memory, or_and_right, exists_or]
    rw [← hmem]
    exact hinv
  rooted := by
    obtain ⟨hb, hk, hp, -, ho, ha⟩ := enlisted_self r.s pool ut n
    have hne : ∀ y ∈ r.s.live, y ≠ n := fun y hy hc => hn (hc ▸ hy)
    constructor
    · intro y
      rw [mem_live_enlisted]
      by_cases hy : y = n
      · subst hy
        exact iff_of_true ⟨.inl rfl, hp⟩ ⟨_, mem_append_right _ mem_cons_self, rfl⟩
      rw [or_iff_right hy, (sameNode_enlisted r.s pool ut hy).2.2.1, h.rooted.node]
      constructor
      · rintro ⟨root, hroot, heq⟩
        exact ⟨root, mem_append_left _ hroot, heq⟩
      · rintro ⟨root, hroot, rfl⟩
        rcases mem_append.1 hroot with hroot | hroot
        · exact ⟨root, hroot, rfl⟩
        · rw [mem_singleton.1 hroot] at hy
          exact absurd rfl hy
    · intro root hroot
      rcases mem_append.1 hroot with hroot | hroot
      · have hlive := ((h.rooted.node root.node).2 ⟨root, hroot, rfl⟩).1
        obtain ⟨h1, h2, -, -, -, h3, h4⟩ := sameNode_enlisted r.s pool ut (hne _ hlive)
        rw [h1, h2, h3, h4]
        exact h.rooted.eq root hroot
      · rw [mem_singleton.1 hroot]
        exact ⟨hb, hk, ha, ho⟩

/-- `_utspace_split_add_uts`. -/
theorem addUts_spec (uts : List (Added × Option ℕ)) :
    ∀ {r : Run}, RunInv r → Promised r (.addUts pool uts) →
      ∃ error s', addUts pool uts r.s = .ok (error, s') ∧
        RunInv ⟨s', r.out, r.added ++ rootsOf pool uts⟩ := by
  induction uts with
  | nil =>
    intro r h _
    refine ⟨false, r.s, rfl, ?_⟩
    rw [rootsOf, append_nil]
    exact h
  | cons e uts ih =>
    intro r h hpromised
    obtain ⟨ut, new⟩ := e
    cases hpromised with
    | addUts _ _ hut hnode hmem hpair =>
      rw [pairwise_cons] at hpair
      have hut' := hut _ mem_cons_self
      unfold addUts
      rw [if_neg (Nat.not_le.2 hut'.small)]
      cases new with
      | none =>
        refine ⟨true, r.s, rfl, ?_⟩
        rw [rootsOf, append_nil]
        exact h
      | some n =>
        have hn := hnode _ mem_cons_self n rfl
        have hrun := h.enlist pool hut' hn (hmem _ mem_cons_self)
        obtain ⟨error, s', heq, hrun'⟩ := ih hrun (by
          refine .addUts pool uts (fun e he => hut e (mem_cons_of_mem _ he)) ?_ ?_ hpair.2
          · intro e he m hm
            rw [mem_live_enlisted]
            rintro (rfl | hc)
            · exact (hpair.1 e he).2 m rfl hm
            · exact hnode e (mem_cons_of_mem _ he) m hm hc
          · rintro e he a ha ⟨root, hroot, har⟩
            rcases mem_append.1 hroot with hroot | hroot
            · exact hmem e (mem_cons_of_mem _ he) a ha ⟨root, hroot, har⟩
            · rw [mem_singleton.1 hroot] at har
              exact (hpair.1 e he).1 a har ha)
        refine ⟨error, s', heq, ?_⟩
        rw [rootsOf, append_cons]
        exact hrun'

/-- What a call returns is right. -/
def Answered (r r' : Run) : Call → Prop
  | .alloc q => r' = r ∨ ∃ x, x ∉ r.out ∧ r'.out = insert x r.out ∧ r'.s.bits x = q.sizeBits ∧
      ∀ a, q.paddr = some a → r'.s.base x = a
  | .free cookie => r'.out = r.out.erase cookie
  | .addUts _ _ => r'.out = r.out

/-- Every call returns and keeps the invariant. -/
theorem perform_spec {c : Call} (h : RunInv r) (hpromised : Promised r c)
    (hserved : Served c) : ∃ r', perform r c = .ok r' ∧ RunInv r' ∧ Answered r r' c := by
  cases c with
  | addUts pool uts =>
    obtain ⟨error, s', heq, hrun⟩ := addUts_spec uts h hpromised
    refine ⟨_, ?_, hrun, rfl⟩
    rw [perform, heq]
    rfl
  | alloc q =>
    cases hpromised with
    | alloc _ hnews hfresh =>
      obtain ⟨cookie, s', heq, halloc⟩ := alloc_spec hnews h.inv hserved hfresh
      rw [perform, heq]
      refine ⟨_, rfl, ?_⟩
      cases halloc with
      | none => exact ⟨h, .inl rfl⟩
      | some x _ hx hinv hroots hbits hbase =>
        exact ⟨⟨hinv, h.rooted.congr hroots⟩, .inr ⟨x, hx, rfl, hbits, hbase⟩⟩
  | free cookie =>
    cases hpromised with
    | free _ hcookie =>
      obtain ⟨s', heq, hinv, hroots⟩ := free_spec h.inv hcookie (Nat.le_add_left _ _)
      refine ⟨⟨s', r.out.erase cookie, r.added⟩, ?_, ⟨hinv, h.rooted.congr hroots⟩, rfl⟩
      rw [perform, heq]
      rfl

theorem Reaches.runInv (h : Reaches r) : RunInv r := by
  induction h with
  | start => exact runInv_start
  | step _ hpromised hserved hperform ih =>
    obtain ⟨r'', heq, hinv, -⟩ := perform_spec ih hpromised hserved
    rw [hperform] at heq
    cases heq
    exact hinv

/-! ### The partition -/

/-- A node that is in a list or handed out. -/
def Run.Piece (r : Run) (x : ℕ) : Prop := (∃ l, x ∈ r.s.heads l) ∨ x ∈ r.out

/-- The state of a run is right. -/
structure Right (r : Run) : Prop where
  /-- no two pieces overlap -/
  apart : ∀ x y, r.Piece x → r.Piece y → x ≠ y → (blk r.s x).Apart (blk r.s y)
  /-- and together they are the memory that was added -/
  cover : ∀ a, r.memory a ↔ ∃ x, r.Piece x ∧ a ∈ blk r.s x
  /-- a node is free in one list or handed out -/
  once : ∀ l x, x ∈ r.s.heads l → x ∉ r.out ∧ ∀ l', x ∈ r.s.heads l' → l' = l
  nodup : ∀ l, (r.s.heads l).Nodup
  aligned : ∀ l, ∀ x ∈ r.s.heads l, 2 ^ r.s.bits x ∣ r.s.base x
  size : ∀ l, ∀ x ∈ r.s.heads l, l.bits = r.s.bits x
  /-- when nothing is handed out, the lists have the memory that was added -/
  restored : r.out = ∅ → ∀ l x, x ∈ r.s.heads l ↔
    ∃ root ∈ r.added, root.node = x ∧ l = ⟨root.pool, root.ut.bits⟩ ∧ blk r.s x = root.ut.block

theorem RunInv.piece_iff (h : RunInv r) (x : ℕ) : r.Piece x ↔ Leaf r.s r.out x := by
  constructor
  · rintro (⟨l, hx⟩ | hx)
    · obtain ⟨hlive, hfree, -⟩ := (h.inv.list l x).1 hx
      exact ⟨hlive, .inl hfree⟩
    · exact ⟨(h.inv.out_live x hx).1, .inr hx⟩
  · rintro ⟨hlive, hfree | hx⟩
    · exact .inl ⟨_, h.inv.mem_heads hlive hfree⟩
    · exact .inr hx

theorem RunInv.restored (h : RunInv r) (hout : r.out = ∅) (l : FreeList) (x : ℕ) :
    x ∈ r.s.heads l ↔ ∃ root ∈ r.added, root.node = x ∧ l = ⟨root.pool, root.ut.bits⟩ ∧
      blk r.s x = root.ut.block := by
  have hinv := h.inv
  rw [hout] at hinv
  rw [hinv.list]
  constructor
  · rintro ⟨hlive, -, horigin⟩
    obtain ⟨root, hroot, rfl⟩ := (h.rooted.node x).1 ⟨hlive, hinv.parent_eq_none hlive⟩
    obtain ⟨hb, hk, -, ho⟩ := h.rooted.eq root hroot
    refine ⟨root, hroot, rfl, horigin.symm.trans ho, ?_⟩
    unfold blk Added.block
    rw [hb, hk]
  · rintro ⟨root, hroot, rfl, rfl, -⟩
    obtain ⟨hlive, -⟩ := (h.rooted.node root.node).2 ⟨root, hroot, rfl⟩
    exact ⟨hlive, hinv.head_eq_none hlive, (h.rooted.eq root hroot).2.2.2⟩

theorem RunInv.right (h : RunInv r) : Right r where
  apart := by
    intro x y hx hy
    exact h.inv.tiles.apart x y ((h.piece_iff x).1 hx) ((h.piece_iff y).1 hy)
  cover := by
    intro a
    simp only [h.piece_iff]
    exact h.inv.tiles.cover a
  once := by
    intro l x hx
    obtain ⟨-, hfree, horigin⟩ := (h.inv.list l x).1 hx
    refine ⟨h.inv.not_mem_out_of_free hfree, fun l' hx' => ?_⟩
    obtain ⟨-, -, horigin'⟩ := (h.inv.list l' x).1 hx'
    exact horigin'.symm.trans horigin
  nodup := h.inv.nodup
  aligned := fun l x hx => h.inv.aligned x ((h.inv.list l x).1 hx).1
  size := by
    intro l x hx
    obtain ⟨hlive, -, rfl⟩ := (h.inv.list l x).1 hx
    exact h.inv.origin x hlive
  restored := h.restored

/-- **Main result.** In every state of a run the free and the allocated nodes partition the
memory that was added, and the next call returns with a right answer. -/
theorem reaches_right (h : Reaches r) :
    Right r ∧ ∀ c, Promised r c → Served c → ∃ r', perform r c = .ok r' ∧ Answered r r' c := by
  refine ⟨h.runInv.right, fun c hpromised hserved => ?_⟩
  obtain ⟨r', heq, -, hanswer⟩ := perform_spec h.runInv hpromised hserved
  exact ⟨r', heq, hanswer⟩

/-! ### A request for an address that is not aligned -/

/-- Four pages of memory. -/
def fourPages : Added := ⟨0x4000, 14, some 0x4000⟩

/-- The manager with four pages. -/
def pagesAdded : Run := ⟨enlisted Run.start.s .heads fourPages 0, ∅, [⟨0, .heads, fourPages⟩]⟩

/-- A page at a physical address. -/
def pageAt (paddr : ℕ) : Request := ⟨12, true, some paddr, false, true, fun i => some (i + 1)⟩

theorem reaches_pagesAdded : Reaches pagesAdded := by
  refine .step .start (c := .addUts .heads [(fourPages, some 0)]) ?_ trivial rfl
  refine .addUts _ _ ?_ ?_ ?_ (pairwise_singleton _ _)
  · intro e he
    rw [mem_singleton.1 he]
    exact ⟨by decide, by decide, by decide, .inr rfl⟩
  · intro e _ n _
    exact Finset.notMem_empty n
  · rintro e _ a _ ⟨root, hroot, -⟩
    cases hroot

theorem promised_pageAt (paddr : ℕ) : Promised pagesAdded (.alloc (pageAt paddr)) := by
  refine .alloc _ ?_ ?_
  · intro i j n hi hj
    have heq : i + 1 = j + 1 := some.inj (hi.trans hj.symm)
    omega
  · intro i n hn
    have hn : i + 1 = n := some.inj hn
    change n ∉ insert 0 (∅ : Finset ℕ)
    rw [Finset.mem_insert]
    rintro (hc | hc)
    · omega
    · exact Finset.notMem_empty n hc

theorem pagesAdded_right : Served (.alloc (pageAt 0x5000)) ∧ Right pagesAdded ∧
    ∃ r', perform pagesAdded (.alloc (pageAt 0x5000)) = .ok r' ∧
      Answered pagesAdded r' (.alloc (pageAt 0x5000)) := by
  have hserved : Served (.alloc (pageAt 0x5000)) := by
    refine fun _ _ => ⟨by decide, by decide, ?_, fun _ => rfl, rfl⟩
    intro a ha
    obtain rfl : 0x5000 = a := some.inj ha
    decide
  obtain ⟨hright, hnext⟩ := reaches_right reaches_pagesAdded
  exact ⟨hserved, hright, hnext _ (promised_pageAt _) hserved⟩

/-- The manager splits the four pages down to the page that has the address. No page begins
there, and the assertion behind the search fails. -/
theorem unaligned_asserts : Reaches pagesAdded ∧ Promised pagesAdded (.alloc (pageAt 0x5800)) ∧
    perform pagesAdded (.alloc (pageAt 0x5800)) = .error .assertion :=
  ⟨reaches_pagesAdded, promised_pageAt _, rfl⟩

end SeL4Kernel.Split
