import SeL4Kernel.Allocman.Split

/-!
# The invariant of the splitting manager

The nodes that are free or handed out tile the memory that was added (`Inv`). There are four
changes to the nodes, and each keeps the invariant: a free node is handed out (`Inv.take`), a
node comes back (`Inv.putBack`), a free node is split (`Inv.split`), and a node and its free
sibling are merged (`Inv.merge`). A fifth one adds memory (`Inv.add`).

No node is free together with its sibling. The parameter `hot` is the parent of the one pair
that may be free while a request is served.
-/

namespace SeL4Kernel.Split

open Function Finset Option List Range

/-- The memory of a node. -/
def blk (s : Utspace) (x : ℕ) : Range ℕ := ⟨s.base x, s.base x + 2 ^ s.bits x⟩

/-- A node that is free or handed out. -/
def Leaf (s : Utspace) (out : Finset ℕ) (x : ℕ) : Prop :=
  x ∈ s.live ∧ (s.head x = none ∨ x ∈ out)

/-- The parent `p` of a node was split into the node and its sibling. -/
structure Family (s : Utspace) (x p : ℕ) : Prop where
  parent_live : p ∈ s.live
  parent_head : s.head p ≠ none
  sibling_live : s.sibling x ∈ s.live
  sibling_ne : s.sibling x ≠ x
  sibling_sibling : s.sibling (s.sibling x) = x
  sibling_parent : s.parent (s.sibling x) = some p
  bits : s.bits p = s.bits x + 1
  halves : ∀ a, a ∈ blk s p ↔ a ∈ blk s x ∨ a ∈ blk s (s.sibling x)

/-- The invariant, for the nodes `out` that are handed out and the memory `covered`. -/
structure Inv (s : Utspace) (out : Finset ℕ) (hot : Option ℕ) (covered : ℕ → Prop) : Prop where
  origin : ∀ x ∈ s.live, (s.originHead x).bits = s.bits x
  small : ∀ x ∈ s.live, s.bits x < wordBits
  aligned : ∀ x ∈ s.live, 2 ^ s.bits x ∣ s.base x
  fits : ∀ x ∈ s.live, s.base x + 2 ^ s.bits x ≤ 2 ^ 64
  head_eq : ∀ x ∈ s.live, ∀ l, s.head x = some l → l = s.originHead x
  list : ∀ l x, x ∈ s.heads l ↔ x ∈ s.live ∧ s.head x = none ∧ s.originHead x = l
  nodup : ∀ l, (s.heads l).Nodup
  out_live : ∀ x ∈ out, x ∈ s.live ∧ s.head x ≠ none ∧ ∀ y ∈ s.live, s.parent y ≠ some x
  family : ∀ x ∈ s.live, ∀ p, s.parent x = some p → Family s x p
  only : ∀ x ∈ s.live, ∀ y ∈ s.live, ∀ p, s.parent x = some p → s.parent y = some p →
    y = x ∨ y = s.sibling x
  inner : ∀ x ∈ s.live, s.head x ≠ none → x ∈ out ∨ ∃ y ∈ s.live, s.parent y = some x
  paddr : ∀ x ∈ s.live, s.paddr x = none ∨ s.paddr x = some (s.base x)
  pairs : ∀ x ∈ s.live, s.parent x ≠ none → s.head x = none → s.head (s.sibling x) = none →
    s.parent x = hot
  tiles : Tiles (Leaf s out) (blk s) covered

variable {s : Utspace} {out : Finset ℕ} {hot : Option ℕ} {covered : ℕ → Prop} {x p : ℕ}
  {l : FreeList} {y : ℕ} (h : Inv s out hot covered)

include h

theorem Inv.not_parent_of_free (hfree : s.head x = none) (hy : y ∈ s.live) :
    s.parent y ≠ some x := by
  intro hp
  exact (h.family y hy x hp).parent_head hfree

theorem Inv.not_mem_out_of_free (hfree : s.head x = none) :
    x ∉ out := fun hx => (h.out_live x hx).2.1 hfree

/-- A free node is in the list it came from. -/
theorem Inv.mem_heads (hx : x ∈ s.live) (hfree : s.head x = none) :
    x ∈ s.heads (s.originHead x) := (h.list _ x).2 ⟨hx, hfree, rfl⟩

omit h

/-- What the invariant says about a node by itself. -/
structure Sound (s : Utspace) (x : ℕ) : Prop where
  origin : (s.originHead x).bits = s.bits x
  small : s.bits x < wordBits
  aligned : 2 ^ s.bits x ∣ s.base x
  fits : s.base x + 2 ^ s.bits x ≤ 2 ^ 64
  head_eq : ∀ l, s.head x = some l → l = s.originHead x
  paddr : s.paddr x = none ∨ s.paddr x = some (s.base x)

include h in
theorem Inv.sound (hx : x ∈ s.live) : Sound s x :=
  ⟨h.origin x hx, h.small x hx, h.aligned x hx, h.fits x hx, h.head_eq x hx, h.paddr x hx⟩

variable {heads : FreeList → List ℕ}

/-- A node goes to the front of its list. -/
theorem mem_update_cons {l l' : FreeList} :
    y ∈ update heads l (x :: heads l) l' ↔ y = x ∧ l' = l ∨ y ∈ heads l' := by
  by_cases hl : l' = l
  · rw [hl, update_self, List.mem_cons, and_iff_left rfl]
  · rw [update_of_ne hl, or_iff_right fun hc => hl hc.2]

theorem nodup_update {nodes : List ℕ} (h : ∀ l, (heads l).Nodup) (hnodes : nodes.Nodup)
    (l' : FreeList) : (update heads l nodes l').Nodup :=
  (forall_update_iff heads fun _ nodes => nodes.Nodup).2 ⟨hnodes, fun l _ => h l⟩ l'

/-! ### Handing out -/

/-- `_remove_node` for a free node. -/
def taken (s : Utspace) (x : ℕ) : Utspace :=
  { s with
    heads := update s.heads (s.originHead x) ((s.heads (s.originHead x)).erase x)
    head := update s.head x (some (s.originHead x)) }

include h

theorem removeNode_eq (hx : x ∈ s.heads l) : removeNode l x s = .ok (taken s x) := by
  obtain ⟨_, _, rfl⟩ := (h.list l x).1 hx
  exact if_pos hx

/-- The lists without a node that was in one of them. -/
theorem Inv.list_taken (l : FreeList) (y : ℕ) :
    y ∈ (taken s x).heads l ↔
      y ∈ s.live ∧ (taken s x).head y = none ∧ s.originHead y = l := by
  have hmem : y ∈ (taken s x).heads l ↔ y ≠ x ∧ y ∈ s.heads l := by
    unfold taken
    dsimp only
    by_cases hl : l = s.originHead x
    · rw [hl, update_self, (h.nodup _).mem_erase_iff]
    · rw [update_of_ne hl, iff_and_self]
      rintro hy rfl
      exact hl ((h.list l y).1 hy).2.2.symm
  rw [hmem, h.list]
  by_cases hyx : y = x
  · simp [hyx, taken]
  · simp [hyx, taken]

variable {out' : Finset ℕ} {hot' : Option ℕ} {pool : Pool}

/-- A node without children is handed out or comes back: only what is said about it changes. -/
theorem Inv.rehead {v : Option FreeList} (hx : Leaf s out x)
    (hleaf : ∀ z ∈ s.live, s.parent z ≠ some x) (hv : ∀ l, v = some l → l = s.originHead x)
    (hself : v = none ↔ x ∉ out') (hout : ∀ y, y ≠ x → (y ∈ out' ↔ y ∈ out))
    (hlist : ∀ l y, y ∈ heads l ↔ y ∈ s.live ∧ update s.head x v y = none ∧ s.originHead y = l)
    (hnodup : ∀ l, (heads l).Nodup)
    (hpairs : ∀ y ∈ s.live, s.parent y ≠ none → update s.head x v y = none →
      update s.head x v (s.sibling y) = none → s.parent y = hot') :
    Inv { s with heads := heads, head := update s.head x v } out' hot' covered := by
  have hat : update s.head x v x = v := update_self ..
  have hne : ∀ {y}, y ≠ x → update s.head x v y = s.head y := fun hy => update_of_ne hy ..
  exact { h with
    list := hlist
    nodup := hnodup
    pairs := hpairs
    head_eq := by
      intro y hy l hl
      by_cases hyx : y = x
      · subst hyx
        exact hv l (hat.symm.trans hl)
      · exact h.head_eq y hy l ((hne hyx).symm.trans hl)
    out_live := by
      intro y hy
      by_cases hyx : y = x
      · subst hyx
        refine ⟨hx.1, fun hc => ?_, hleaf⟩
        exact hself.1 (hat.symm.trans hc) hy
      · obtain ⟨hlive, hhead, hchild⟩ := h.out_live y ((hout y hyx).1 hy)
        exact ⟨hlive, fun hc => hhead ((hne hyx).symm.trans hc), hchild⟩
    family := by
      intro y hy q hq
      have hfam := h.family y hy q hq
      have hqx : q ≠ x := fun hc => hleaf y hy (hc ▸ hq)
      exact { hfam with
        parent_head := fun hc => hfam.parent_head ((hne hqx).symm.trans hc) }
    inner := by
      intro y hy hhead
      by_cases hyx : y = x
      · subst hyx
        exact .inl (not_not.1 fun hc => hhead (hat.trans (hself.2 hc)))
      · refine (h.inner y hy fun hc => hhead ((hne hyx).trans hc)).imp_left ?_
        exact (hout y hyx).2
    tiles := by
      refine h.tiles.congr (fun y => ?_) fun y _ => rfl
      by_cases hyx : y = x
      · subst hyx
        refine iff_of_true ⟨hx.1, ?_⟩ hx
        exact (em (y ∈ out')).symm.imp_left fun hc => hat.trans (hself.2 hc)
      · refine and_congr_right fun _ => or_congr ?_ (hout y hyx)
        exact (hne hyx).congr_left }

/-- A free node is handed out. -/
theorem Inv.take (hx : x ∈ s.live) (hfree : s.head x = none)
    (hhot : hot = none ∨ hot = s.parent x) : Inv (taken s x) (insert x out) none covered := by
  refine h.rehead ⟨hx, .inl hfree⟩ (fun z hz => h.not_parent_of_free hfree hz)
    (fun l hl => (some.inj hl).symm)
    (iff_of_false (some_ne_none _) fun hc => hc (mem_insert_self ..))
    (fun y hyx => by rw [mem_insert, or_iff_right hyx]) h.list_taken
    (nodup_update h.nodup ((h.nodup _).erase x)) ?_
  -- the pair that was free is that of `x`, which is not free now
  intro y hy hparent hfree' hsib
  exfalso
  by_cases hyx : y = x
  · rw [hyx, update_self] at hfree'
    cases hfree'
  by_cases hsx : s.sibling y = x
  · rw [hsx, update_self] at hsib
    cases hsib
  rw [update_of_ne hyx] at hfree'
  rw [update_of_ne hsx] at hsib
  have heq := h.pairs y hy hparent hfree' hsib
  rcases hhot with hnone | hhot
  · exact hparent (heq.trans hnone)
  obtain ⟨q, hq⟩ := ne_none_iff_exists'.1 hparent
  have hxq : s.parent x = some q := hhot.symm.trans (heq.symm.trans hq)
  rcases h.only y hy x hx q hq hxq with hc | hc
  · exact hyx hc.symm
  · exact hsx hc.symm

omit h

/-! ### Coming back -/

/-- `_insert_node` for a node that was handed out. -/
def returned (s : Utspace) (x : ℕ) : Utspace := insertNode (s.originHead x) x s

/-- A node comes back whose sibling, if it has one, is not free. -/
theorem Inv.putBack (h : Inv s out none covered) (hx : x ∈ out)
    (hsib : s.parent x = none ∨ s.head (s.sibling x) ≠ none) :
    Inv (returned s x) (out.erase x) none covered := by
  obtain ⟨hlive, hhead, hleaf⟩ := h.out_live x hx
  have hnot : ∀ l, x ∉ s.heads l := fun l hc => hhead ((h.list l x).1 hc).2.1
  refine h.rehead ⟨hlive, .inr hx⟩ hleaf nofun (iff_of_true rfl fun hc => (mem_erase.1 hc).1 rfl)
    (fun y hyx => by rw [mem_erase, and_iff_right hyx]) (fun l y => ?_)
    (nodup_update h.nodup (nodup_cons.2 ⟨hnot _, h.nodup _⟩)) ?_
  · refine mem_update_cons.trans ?_
    rw [h.list]
    by_cases hyx : y = x
    · simp [hyx, hlive, hhead, eq_comm]
    · simp [hyx]
  · intro y hy hparent hfree hsib'
    exfalso
    obtain ⟨q, hq⟩ := ne_none_iff_exists'.1 hparent
    have hfam := h.family y hy q hq
    -- if one of the two is `x`, the other one was free before
    by_cases hyx : y = x
    · subst hyx
      rw [update_of_ne hfam.sibling_ne] at hsib'
      rcases hsib with hc | hc
      · exact hparent hc
      · exact hc hsib'
    · rw [update_of_ne hyx] at hfree
      by_cases hsx : s.sibling y = x
      · rcases hsib with hc | hc
        · rw [← hsx, hfam.sibling_parent] at hc
          cases hc
        · rw [← hsx, hfam.sibling_sibling] at hc
          exact hc hfree
      · rw [update_of_ne hsx] at hsib'
        exact hparent (h.pairs y hy hparent hfree hsib')

/-! ### Two children -/

/-- The memory, list and links of a node are the same. -/
def SameNode (s s' : Utspace) (y : ℕ) : Prop :=
  s'.base y = s.base y ∧ s'.bits y = s.bits y ∧ s'.parent y = s.parent y ∧
    s'.sibling y = s.sibling y ∧ s'.head y = s.head y ∧ s'.originHead y = s.originHead y ∧
    s'.paddr y = s.paddr y

theorem SameNode.blk_eq {s' : Utspace} (h : SameNode s s' y) : blk s' y = blk s y := by
  unfold blk
  rw [h.1, h.2.1]

theorem SameNode.sound {s' : Utspace} (h : SameNode s s' y) (hy : Sound s y) : Sound s' y := by
  obtain ⟨hb, hk, -, -, hh, ho, ha⟩ := h
  obtain ⟨h1, h2, h3, h4, h5, h6⟩ := hy
  constructor
  all_goals simp only [hb, hk, hh, ho, ha]
  all_goals assumption

/-- A free node of untyped memory. -/
theorem sound_of_free {list : FreeList} {base : ℕ} {paddr : Option ℕ} (hb : s.base y = base)
    (hk : s.bits y = list.bits) (hh : s.head y = none) (ho : s.originHead y = list)
    (ha : s.paddr y = paddr) (hsmall : list.bits < wordBits) (hdvd : 2 ^ list.bits ∣ base)
    (hfits : base + 2 ^ list.bits ≤ 2 ^ 64) (hpaddr : paddr = none ∨ paddr = some base) :
    Sound s y := by
  subst hb ho ha
  rw [← hk] at hsmall hdvd hfits
  exact ⟨hk.symm, hsmall, hdvd, hfits, fun l hl => (some_ne_none l (hl ▸ hh)).elim, hpaddr⟩

/-- A free node of size `list.bits` with its parent and sibling. -/
def Half (s' : Utspace) (list : FreeList) (x y other base : ℕ) (paddr : Option ℕ) : Prop :=
  s'.base y = base ∧ s'.bits y = list.bits ∧ s'.parent y = some x ∧ s'.sibling y = other ∧
    s'.head y = none ∧ s'.originHead y = list ∧ s'.paddr y = paddr

/-- The two halves of a node are a family. -/
theorem Half.family {s' : Utspace} {list : FreeList} {l r b b' : ℕ} {a a' : Option ℕ}
    (hl : Half s' list x l r b a) (hr : Half s' list x r l b' a') (hx : x ∈ s'.live)
    (hhead : s'.head x ≠ none) (hlive : r ∈ s'.live) (hne : r ≠ l)
    (hbits : s'.bits x = list.bits + 1)
    (hhalves : ∀ a, a ∈ blk s' x ↔ a ∈ blk s' l ∨ a ∈ blk s' r) : Family s' l x := by
  obtain ⟨-, hk, -, hs, -⟩ := hl
  obtain ⟨-, -, hp, hs', -⟩ := hr
  rw [← hs] at hlive hne hhalves
  exact ⟨hx, hhead, hlive, hne, by rw [hs, hs'], by rw [hs, hp], by rw [hbits, hk], hhalves⟩

/-- The node `x` gets the children `l` and `r`. -/
structure Hatched (s s' : Utspace) (list : FreeList) (x l r : ℕ) : Prop where
  live : ∀ y, y ∈ s'.live ↔ y ∈ s.live ∨ y = l ∨ y = r
  heads_self : s'.heads list = l :: r :: s.heads list
  heads_other : ∀ list', list' ≠ list → s'.heads list' = s.heads list'
  old : ∀ y, y ≠ l → y ≠ r → SameNode s s' y
  left : Half s' list x l r (s.base x) (s.paddr x)
  right : Half s' list x r l (s.base x + 2 ^ list.bits)
    ((s.paddr x).map fun p => word (p + 2 ^ list.bits))

/-- The two retypes of a node that was taken from its list. -/
def hatched (s : Utspace) (list : FreeList) (x l r : ℕ) : Utspace :=
  insertNode list l (insertNode list r
    { s with
      live := insert r (insert l s.live)
      base := update (update s.base l (s.base x)) r
        (s.base x + 2 ^ list.bits)
      bits := update (update s.bits l list.bits) r list.bits
      parent := update (update s.parent l (some x)) r (some x)
      sibling := update (update s.sibling l r) r l
      originHead := update (update s.originHead l list) r list
      paddr := update (update s.paddr l (s.paddr x)) r
        ((s.paddr x).map fun p => word (p + 2 ^ list.bits)) })

theorem hatched_spec {list : FreeList} {l r : ℕ} (hlr : l ≠ r) :
    Hatched s (hatched s list x l r) list x l r where
  live := by
    intro y
    simp only [hatched, insertNode, mem_insert]
    tauto
  heads_self := by simp [hatched, insertNode]
  heads_other := by
    intro list' hne
    simp [hatched, insertNode, update_of_ne hne]
  old := by
    intro y hl hr
    simp [SameNode, hatched, insertNode, update_of_ne hl, update_of_ne hr]
  left := by simp [Half, hatched, insertNode, hlr]
  right := by simp [Half, hatched, insertNode, hlr.symm]

include h in
theorem splitNode_eq {k : ℕ} {l r : ℕ} (hx : x ∈ s.heads ⟨pool, k + 1⟩) :
    splitNode pool k x l r { s with live := insert r (insert l s.live) } =
      .ok (hatched (taken s x) ⟨pool, k⟩ x l r) := by
  obtain ⟨_, _, horigin⟩ := (h.list _ x).1 hx
  unfold splitNode removeNode
  rw [if_pos hx]
  unfold hatched taken
  rw [horigin]
  rfl

theorem Family.congr {s' : Utspace} {q y : ℕ} (h : Family s y q) (hlive : s.live ⊆ s'.live)
    (hq : SameNode s s' q) (hy : SameNode s s' y) (hsib : SameNode s s' (s.sibling y)) :
    Family s' y q := by
  obtain ⟨_, hbitsy, _, hsiby, _, _, _⟩ := id hy
  obtain ⟨_, _, hparents, hsibs, _, _, _⟩ := id hsib
  obtain ⟨_, hbitsq, _, _, hheadq, _, _⟩ := id hq
  exact
    { parent_live := hlive h.parent_live
      parent_head := by rw [hheadq]; exact h.parent_head
      sibling_live := by rw [hsiby]; exact hlive h.sibling_live
      sibling_ne := by rw [hsiby]; exact h.sibling_ne
      sibling_sibling := by rw [hsiby, hsibs]; exact h.sibling_sibling
      sibling_parent := by rw [hsiby, hparents]; exact h.sibling_parent
      bits := by rw [hbitsq, hbitsy]; exact h.bits
      halves := by
        intro a
        rw [hsiby, hq.blk_eq, hy.blk_eq, hsib.blk_eq]
        exact h.halves a }

namespace Hatched

variable {s' : Utspace} {list : FreeList} {l r : ℕ} (hat : Hatched s s' list x l r)

include hat

/-- A node of the old state is neither child. -/
theorem same (hl : l ∉ s.live) (hr : r ∉ s.live) (hy : y ∈ s.live) : SameNode s s' y :=
  hat.old y (fun hc => hl (hc ▸ hy)) fun hc => hr (hc ▸ hy)

/-- The blocks of the children are the halves of that of the node. -/
theorem halves (hbits : s.bits x = list.bits + 1) (a : ℕ) :
    a ∈ blk s x ↔ a ∈ blk s' l ∨ a ∈ blk s' r := by
  obtain ⟨hbl, hkl, -⟩ := hat.left
  obtain ⟨hbr, hkr, -⟩ := hat.right
  unfold blk
  simp only [mem_iff]
  rw [hkl, hkr, hbits]
  omega

theorem apart : (blk s' l).Apart (blk s' r) := by
  obtain ⟨hbl, hkl, -⟩ := hat.left
  obtain ⟨hbr, hkr, -⟩ := hat.right
  refine apart_of_le (le_of_eq ?_)
  unfold blk
  rw [hbl, hkl, hbr]

end Hatched

/-! ### New nodes -/

/-- New free nodes at the front of a list, with the parent `up`. -/
structure Grown (s s' : Utspace) (list : FreeList) (up : Option ℕ) (new : List ℕ) : Prop where
  live : ∀ y, y ∈ s'.live ↔ y ∈ s.live ∨ y ∈ new
  heads_self : s'.heads list = new ++ s.heads list
  heads_other : ∀ list', list' ≠ list → s'.heads list' = s.heads list'
  old : ∀ y, y ∉ new → SameNode s s' y
  nodup : new.Nodup
  fresh : ∀ y ∈ new, y ∉ s.live
  free : ∀ y ∈ new, s'.parent y = up ∧ s'.head y = none ∧ s'.originHead y = list

include h in
/-- New nodes keep the invariant, if they are sound by themselves and tile the memory together
with the others. Their parent was handed out before. -/
theorem Inv.grow {s' : Utspace} {list : FreeList} {up : Option ℕ} {new : List ℕ}
    {covered' : ℕ → Prop} (g : Grown s s' list up new) (hsound : ∀ y ∈ new, Sound s' y)
    (hout : ∀ y, y ∈ out' ↔ y ∈ out ∧ up ≠ some y) (hup : ∀ x, up = some x → x ∈ out ∧ new ≠ [] ∧
      ∀ y ∈ new, Family s' y x ∧ ∀ z ∈ new, z = y ∨ z = s'.sibling y)
    (hhot : up = none ∧ hot' = hot ∨ hot = none ∧ hot' = up)
    (htiles : Tiles (Leaf s' out') (blk s') covered') : Inv s' out' hot' covered' := by
  have hsame : ∀ {y}, y ∈ s.live → SameNode s s' y := fun hy => g.old _ fun hc => g.fresh _ hc hy
  have hsub : s.live ⊆ s'.live := fun y hy => (g.live y).2 (.inl hy)
  have hall : ∀ y ∈ s'.live, Sound s' y := by
    intro y hy
    rcases (g.live y).1 hy with hy | hy
    · exact (hsame hy).sound (h.sound hy)
    · exact hsound y hy
  -- a node with a parent had it before, or is new
  have hparent : ∀ {y q}, y ∈ s'.live → s'.parent y = some q →
      y ∈ s.live ∧ s.parent y = some q ∨ y ∈ new ∧ up = some q := by
    intro y q hy hq
    rcases (g.live y).1 hy with hy | hy
    · exact .inl ⟨hy, (hsame hy).2.2.1 ▸ hq⟩
    · exact .inr ⟨hy, (g.free y hy).1.symm.trans hq⟩
  exact
    { origin := fun y hy => (hall y hy).origin
      small := fun y hy => (hall y hy).small
      aligned := fun y hy => (hall y hy).aligned
      fits := fun y hy => (hall y hy).fits
      head_eq := fun y hy => (hall y hy).head_eq
      paddr := fun y hy => (hall y hy).paddr
      list := by
        intro l y
        have hmem : y ∈ s'.heads l ↔ y ∈ new ∧ l = list ∨ y ∈ s.heads l := by
          by_cases hl : l = list
          · rw [hl, g.heads_self, mem_append, and_iff_left rfl]
          · rw [g.heads_other l hl, or_iff_right fun hc => hl hc.2]
        rw [hmem, g.live, h.list]
        by_cases hy : y ∈ new
        · obtain ⟨-, hh, ho⟩ := g.free y hy
          simp [hy, g.fresh y hy, hh, ho, eq_comm]
        · obtain ⟨-, -, -, -, hh, ho, -⟩ := g.old y hy
          simp [hy, hh, ho]
      nodup := by
        intro l
        by_cases hl : l = list
        · rw [hl, g.heads_self]
          refine nodup_append'.2 ⟨g.nodup, h.nodup _, ?_⟩
          exact fun y hy hc => g.fresh y hy ((h.list _ y).1 hc).1
        · rw [g.heads_other l hl]
          exact h.nodup l
      out_live := by
        intro y hy
        obtain ⟨hy, hyup⟩ := (hout y).1 hy
        obtain ⟨hylive, hyhead, hyleaf⟩ := h.out_live y hy
        refine ⟨hsub hylive, by rw [(hsame hylive).2.2.2.2.1]; exact hyhead, ?_⟩
        intro z hz hzy
        rcases hparent hz hzy with ⟨hz, hzy⟩ | ⟨-, hc⟩
        · exact hyleaf z hz hzy
        · exact hyup hc
      family := by
        intro y hy q hq
        rcases hparent hy hq with ⟨hy, hq⟩ | ⟨hy, hq⟩
        · have hfam := h.family y hy q hq
          exact hfam.congr hsub (hsame hfam.parent_live) (hsame hy) (hsame hfam.sibling_live)
        · exact ((hup q hq).2.2 y hy).1
      only := by
        intro y hy z hz q hyq hzq
        rcases hparent hy hyq with ⟨hy, hyq⟩ | ⟨hy, hq⟩
        · rw [(hsame hy).2.2.2.1]
          rcases hparent hz hzq with ⟨hz, hzq⟩ | ⟨-, hq⟩
          · exact h.only y hy z hz q hyq hzq
          · exact absurd hyq ((h.out_live q (hup q hq).1).2.2 y hy)
        · rcases hparent hz hzq with ⟨hz, hzq⟩ | ⟨hz, -⟩
          · exact absurd hzq ((h.out_live q (hup q hq).1).2.2 z hz)
          · exact ((hup q hq).2.2 y hy).2 z hz
      inner := by
        intro y hy hne
        rcases (g.live y).1 hy with hy | hy
        · rw [(hsame hy).2.2.2.2.1] at hne
          rcases h.inner y hy hne with hc | ⟨z, hz, hzy⟩
          · by_cases hyup : up = some y
            · obtain ⟨z, hz⟩ := exists_mem_of_ne_nil new (hup y hyup).2.1
              exact .inr ⟨z, (g.live z).2 (.inr hz), (g.free z hz).1.trans hyup⟩
            · exact .inl ((hout y).2 ⟨hc, hyup⟩)
          · exact .inr ⟨z, hsub hz, by rw [(hsame hz).2.2.1]; exact hzy⟩
        · exact absurd (g.free y hy).2.1 hne
      pairs := by
        intro y hy hne hfree hsib
        obtain ⟨q, hq⟩ := ne_none_iff_exists'.1 hne
        rcases hparent hy hq with ⟨hy, hq'⟩ | ⟨-, hq'⟩
        · have hfam := h.family y hy q hq'
          rw [(hsame hy).2.2.2.2.1] at hfree
          rw [(hsame hy).2.2.2.1, (hsame hfam.sibling_live).2.2.2.2.1] at hsib
          have hc := h.pairs y hy (by rw [hq']; simp) hfree hsib
          rw [hq'] at hc
          rcases hhot with ⟨-, rfl⟩ | ⟨rfl, -⟩
          · exact hq.trans hc
          · cases hc
        · rcases hhot with ⟨rfl, -⟩ | ⟨-, rfl⟩
          · cases hq'
          · exact hq.trans hq'.symm
      tiles := htiles }

/-- A node that was taken gets two free children. -/
theorem Inv.hatch {s' : Utspace} {list : FreeList} {l r : ℕ} (h : Inv s out none covered)
    (hx : x ∈ out) (hbits : s.bits x = list.bits + 1) (hl : l ∉ s.live) (hr : r ∉ s.live)
    (hlr : l ≠ r) (hat : Hatched s s' list x l r) : Inv s' (out.erase x) (some x) covered := by
  obtain ⟨hlive, hhead, hleaf⟩ := h.out_live x hx
  have hsame : ∀ {y}, y ∈ s.live → SameNode s s' y := fun hy => hat.same hl hr hy
  obtain ⟨hbl, hkl, hpl, hsl, hhl, hol, hal⟩ := hat.left
  obtain ⟨hbr, hkr, hpr, hsr, hhr, hor, har⟩ := hat.right
  have hgrown : Grown s s' list (some x) [l, r] :=
    { live := fun y => by rw [hat.live, mem_pair]
      heads_self := hat.heads_self
      heads_other := hat.heads_other
      old := fun y hy => by
        rw [mem_pair, not_or] at hy
        exact hat.old y hy.1 hy.2
      nodup := by simpa using hlr
      fresh := by simp [hl, hr]
      free := by simp [hpl, hhl, hol, hpr, hhr, hor] }
  refine h.grow hgrown ?_ (fun y => ?_) ?_ (.inr ⟨rfl, rfl⟩) ?_
  · have hfits := h.fits x hlive
    have hdvd := h.aligned x hlive
    have hsmall := h.small x hlive
    rw [hbits] at hfits hdvd hsmall
    have hdvd' : 2 ^ list.bits ∣ s.base x := Nat.dvd_trans (Nat.pow_dvd_pow 2 (Nat.le_succ _)) hdvd
    intro y hy
    rcases mem_pair.1 hy with rfl | rfl
    · exact sound_of_free hbl hkl hhl hol hal (by omega) hdvd' (by omega) (h.paddr x hlive)
    refine sound_of_free hbr hkr hhr hor har (by omega) (Nat.dvd_add hdvd' (Nat.dvd_refl _))
      (by omega) ?_
    refine (h.paddr x hlive).imp (fun hc => by rw [hc]; rfl) fun hc => ?_
    rw [hc, map_some]
    unfold word
    rw [Nat.mod_eq_of_lt (by omega)]
  · rw [mem_erase, and_comm, ne_eq, ne_eq, some.injEq, eq_comm]
  · have hx' := hsame hlive
    have hxlive : x ∈ s'.live := (hat.live x).2 (.inl hlive)
    have hhead' : s'.head x ≠ none := by
      rw [hx'.2.2.2.2.1]
      exact hhead
    have hbits' : s'.bits x = list.bits + 1 := by rw [hx'.2.1, hbits]
    have hhalves : ∀ a, a ∈ blk s' x ↔ a ∈ blk s' l ∨ a ∈ blk s' r := by
      rw [hx'.blk_eq]
      exact hat.halves hbits
    rintro _ ⟨⟩
    refine ⟨hx, cons_ne_nil _ _, fun y hy => ?_⟩
    rcases mem_pair.1 hy with rfl | rfl
    · refine ⟨hat.left.family hat.right hxlive hhead' ((hat.live r).2 (.inr (.inr rfl))) hlr.symm
        hbits' hhalves, ?_⟩
      simp [hsl]
    · refine ⟨hat.right.family hat.left hxlive hhead' ((hat.live l).2 (.inr (.inl rfl))) hlr
        hbits' fun a => (hhalves a).trans or_comm, ?_⟩
      simp [hsr]
  · refine h.tiles.split (x := x) (l := l) (r := r) ⟨hlive, .inr hx⟩ ?_ ?_
      (hat.halves hbits) hat.apart
    · intro y
      unfold Leaf
      rw [hat.live]
      by_cases hy : y ∈ s.live
      · have hyl : y ≠ l := fun hc => hl (hc ▸ hy)
        have hyr : y ≠ r := fun hc => hr (hc ▸ hy)
        rw [(hsame hy).2.2.2.2.1]
        by_cases hyx : y = x
        · subst hyx
          simp [hhead, hyl, hyr]
        · simp [hy, hyx, hyl, hyr]
      · rw [or_iff_right hy]
        constructor
        · exact fun hc => .inr hc.1
        rintro (hc | hc)
        · exact absurd hc.1.1 hy
        refine ⟨hc, .inl ?_⟩
        rcases hc with rfl | rfl
        · exact hhl
        · exact hhr
    · exact fun y hy _ => (hsame hy.1).blk_eq

/-! ### Merging -/

/-- The two children of a node, deleted. -/
def fused (s : Utspace) (x : ℕ) : Utspace := deleteNode x (deleteNode (s.sibling x) s)

theorem mem_live_fused : y ∈ (fused s x).live ↔ y ≠ x ∧ y ≠ s.sibling x ∧ y ∈ s.live := by
  unfold fused deleteNode
  rw [mem_erase, mem_erase]

/-- Two siblings that are taken are deleted, and their parent is taken. -/
theorem Inv.fuse (h : Inv s out none covered) (hx : x ∈ out) (hsib : s.sibling x ∈ out)
    (hp : s.parent x = some p) :
    Inv (fused s x) (insert p ((out.erase x).erase (s.sibling x))) none covered := by
  obtain ⟨hlive, hhead, hleaf⟩ := h.out_live x hx
  obtain ⟨hlive', hhead', hleaf'⟩ := h.out_live _ hsib
  have hfam := h.family x hlive p hp
  have hsub : ∀ {y}, y ∈ (fused s x).live → y ∈ s.live := fun hy => (mem_live_fused.1 hy).2.2
  -- the parent is neither of the two, as they have no children
  have hpx : p ≠ x := fun hc => hleaf x hlive (hc ▸ hp)
  have hps : p ≠ s.sibling x := fun hc => hleaf' x hlive (hc ▸ hp)
  have hplive : p ∈ (fused s x).live := mem_live_fused.2 ⟨hpx, hps, hfam.parent_live⟩
  have hchild : ∀ {y}, y ∈ (fused s x).live → s.parent y ≠ some p := by
    intro y hy hc
    obtain ⟨hyx, hys, hy⟩ := mem_live_fused.1 hy
    rcases h.only x hlive y hy p hp hc with hc | hc
    · exact hyx hc
    · exact hys hc
  have hout : ∀ {y}, y ∈ (out.erase x).erase (s.sibling x) →
      y ≠ x ∧ y ≠ s.sibling x ∧ y ∈ out := by
    intro y hy
    obtain ⟨hys, hy⟩ := mem_erase.1 hy
    obtain ⟨hyx, hy⟩ := mem_erase.1 hy
    exact ⟨hyx, hys, hy⟩
  exact
    { origin := fun y hy => h.origin y (hsub hy)
      small := fun y hy => h.small y (hsub hy)
      aligned := fun y hy => h.aligned y (hsub hy)
      fits := fun y hy => h.fits y (hsub hy)
      head_eq := fun y hy => h.head_eq y (hsub hy)
      list := by
        intro l y
        refine (h.list l y).trans ⟨?_, fun hy => ⟨hsub hy.1, hy.2⟩⟩
        rintro ⟨hy, hfree, horigin⟩
        refine ⟨mem_live_fused.2 ⟨?_, ?_, hy⟩, hfree, horigin⟩
        · exact fun hc => hhead (hc ▸ hfree)
        · exact fun hc => hhead' (hc ▸ hfree)
      nodup := h.nodup
      out_live := by
        intro y hy
        rcases mem_insert.1 hy with rfl | hy
        · exact ⟨hplive, hfam.parent_head, fun z hz => hchild hz⟩
        · obtain ⟨hyx, hys, hy⟩ := hout hy
          obtain ⟨hylive, hyhead, hyleaf⟩ := h.out_live y hy
          exact ⟨mem_live_fused.2 ⟨hyx, hys, hylive⟩, hyhead, fun z hz => hyleaf z (hsub hz)⟩
      family := by
        intro y hy q hq
        obtain ⟨hyx, hys, hylive⟩ := mem_live_fused.1 hy
        have hfam' := h.family y hylive q hq
        have hq' : ∀ z ∈ out, q ≠ z := fun z hz hc => (h.out_live z hz).2.2 y hylive (hc ▸ hq)
        have hsib' : s.sibling y ≠ x ∧ s.sibling y ≠ s.sibling x := by
          constructor
          · intro hc
            rw [← hc, hfam'.sibling_sibling] at hys
            exact hys rfl
          · intro hc
            rw [← hfam'.sibling_sibling, hc, hfam.sibling_sibling] at hyx
            exact hyx rfl
        exact
          { hfam' with
            parent_live := mem_live_fused.2 ⟨hq' x hx, hq' _ hsib, hfam'.parent_live⟩
            sibling_live := mem_live_fused.2 ⟨hsib'.1, hsib'.2, hfam'.sibling_live⟩ }
      only := fun y hy z hz => h.only y (hsub hy) z (hsub hz)
      inner := by
        intro y hy hne
        by_cases hyp : y = p
        · exact .inl (mem_insert.2 (.inl hyp))
        obtain ⟨hyx, hys, hylive⟩ := mem_live_fused.1 hy
        rcases h.inner y hylive hne with hc | ⟨z, hz, hzy⟩
        · exact .inl (mem_insert_of_mem (mem_erase.2 ⟨hys, mem_erase.2 ⟨hyx, hc⟩⟩))
        -- the children of the other nodes stay
        refine .inr ⟨z, mem_live_fused.2 ⟨?_, ?_, hz⟩, hzy⟩
        · rintro rfl
          exact hyp (some.inj (hzy.symm.trans hp))
        · rintro rfl
          exact hyp (some.inj (hzy.symm.trans hfam.sibling_parent))
      paddr := fun y hy => h.paddr y (hsub hy)
      pairs := fun y hy => h.pairs y (hsub hy)
      tiles := by
        refine h.tiles.merge (l := x) (r := s.sibling x) (x := p) ⟨hlive, .inr hx⟩
          ⟨hlive', .inr hsib⟩ ?_ (fun y _ _ _ => rfl) hfam.halves
        intro y
        unfold Leaf
        rw [mem_live_fused, mem_insert, mem_erase, mem_erase]
        have hplive' := hfam.parent_live
        constructor
        · rintro ⟨⟨hyx, hys, hy⟩, hc | hc | hc⟩
          · exact .inl ⟨⟨hy, .inl hc⟩, hyx, hys⟩
          · exact .inr hc
          · exact .inl ⟨⟨hy, .inr hc.2.2⟩, hyx, hys⟩
        · rintro (⟨⟨hy, hc | hc⟩, hyx, hys⟩ | rfl)
          · exact ⟨⟨hyx, hys, hy⟩, .inl hc⟩
          · exact ⟨⟨hyx, hys, hy⟩, .inr (.inr ⟨hys, hyx, hc⟩)⟩
          · exact ⟨⟨hpx, hps, hplive'⟩, .inr (.inl rfl)⟩ }

/-! ### Adding -/

/-- A new node for memory that is added. -/
def enlisted (s : Utspace) (pool : Pool) (ut : Added) (x : ℕ) : Utspace :=
  insertNode ⟨pool, ut.bits⟩ x
    { s with
      live := insert x s.live
      parent := update s.parent x none
      base := update s.base x ut.base
      bits := update s.bits x ut.bits
      paddr := update s.paddr x ut.paddr
      originHead := update s.originHead x ⟨pool, ut.bits⟩ }

def Added.block (ut : Added) : Range ℕ := ⟨ut.base, ut.base + 2 ^ ut.bits⟩

/-- What the kernel says about untyped memory. -/
structure Added.Untyped (ut : Added) : Prop where
  small : ut.bits < wordBits
  aligned : 2 ^ ut.bits ∣ ut.base
  fits : ut.base + 2 ^ ut.bits ≤ 2 ^ 64
  paddr : ut.paddr = none ∨ ut.paddr = some ut.base

variable {ut : Added}

theorem mem_live_enlisted : y ∈ (enlisted s pool ut x).live ↔ y = x ∨ y ∈ s.live := mem_insert

theorem sameNode_enlisted (s : Utspace) (pool : Pool) (ut : Added) (hy : y ≠ x) :
    SameNode s (enlisted s pool ut x) y := by
  simp [SameNode, enlisted, insertNode, update_of_ne hy]

theorem enlisted_self (s : Utspace) (pool : Pool) (ut : Added) (x : ℕ) :
    (enlisted s pool ut x).base x = ut.base ∧ (enlisted s pool ut x).bits x = ut.bits ∧
      (enlisted s pool ut x).parent x = none ∧ (enlisted s pool ut x).head x = none ∧
      (enlisted s pool ut x).originHead x = ⟨pool, ut.bits⟩ ∧
      (enlisted s pool ut x).paddr x = ut.paddr := by
  simp [enlisted, insertNode]

/-- A node for memory that was not there before. -/
theorem Inv.add (pool : Pool) (h : Inv s out hot covered) (hx : x ∉ s.live) (hut : ut.Untyped)
    (hfresh : ∀ a ∈ ut.block, ¬covered a) :
    Inv (enlisted s pool ut x) out hot (fun a => covered a ∨ a ∈ ut.block) := by
  obtain ⟨hb, hk, hp, hh, ho, ha⟩ := enlisted_self s pool ut x
  have hsame : ∀ {y}, y ∈ s.live → SameNode s (enlisted s pool ut x) y :=
    fun {y} hy => sameNode_enlisted s pool ut fun hc => hx (hc ▸ hy)
  have hblk : blk (enlisted s pool ut x) x = ut.block := by
    unfold blk Added.block
    rw [hb, hk]
  have hgrown : Grown s (enlisted s pool ut x) ⟨pool, ut.bits⟩ none [x] :=
    { live := fun y => by rw [mem_live_enlisted, List.mem_singleton, or_comm]
      heads_self := update_self _ _ _
      heads_other := fun _ hne => update_of_ne hne _ _
      old := fun y hy => sameNode_enlisted s pool ut fun hc => hy (List.mem_singleton.2 hc)
      nodup := nodup_singleton x
      fresh := by simpa using hx
      free := by simp [hp, hh, ho] }
  refine h.grow hgrown ?_ (fun y => by simp) (nofun) (.inl ⟨rfl, rfl⟩) ?_
  · intro y hy
    rw [List.mem_singleton.1 hy]
    exact sound_of_free hb hk hh ho ha hut.small hut.aligned hut.fits hut.paddr
  · refine h.tiles.add (x := x) ?_ (fun y hy => (hsame hy.1).blk_eq) ?_ ?_
    · intro y
      unfold Leaf
      rw [mem_live_enlisted]
      by_cases hyx : y = x
      · subst hyx
        rw [hh]
        exact iff_of_true ⟨.inl rfl, .inl rfl⟩ (.inr rfl)
      · rw [(sameNode_enlisted s pool ut hyx).2.2.2.2.1, or_iff_right hyx, or_iff_left hyx]
    · rw [hblk]
      exact hfresh
    · intro a
      rw [hblk]

/-! ### When nothing is handed out -/

/-- No node is split when no node is handed out. -/
theorem Inv.parent_eq_none (h : Inv s ∅ none covered) (hx : x ∈ s.live) : s.parent x = none := by
  -- a smallest node with a parent has no children, and its sibling neither: both are free
  suffices ∀ k, ∀ x ∈ s.live, s.bits x = k → s.parent x = none from this _ x hx rfl
  intro k
  induction k using Nat.strong_induction_on with
  | _ k ih =>
    intro x hx hk
    by_contra hparent
    obtain ⟨p, hp⟩ := ne_none_iff_exists'.1 hparent
    have hfam := h.family x hx p hp
    have hfree : ∀ y ∈ s.live, s.bits y = k → s.head y = none := by
      intro y hy hyk
      by_contra hne
      rcases h.inner y hy hne with hc | ⟨z, hz, hzy⟩
      · simp at hc
      · have hbits := (h.family z hz y hzy).bits
        rw [ih (s.bits z) (by omega) z hz rfl] at hzy
        cases hzy
    have hsib : s.bits (s.sibling x) = k := by
      have h1 := hfam.bits
      have h2 := (h.family _ hfam.sibling_live p hfam.sibling_parent).bits
      omega
    exact hparent (h.pairs x hx hparent (hfree x hx hk) (hfree _ hfam.sibling_live hsib))

theorem Inv.head_eq_none (h : Inv s ∅ none covered) (hx : x ∈ s.live) : s.head x = none := by
  by_contra hne
  rcases h.inner x hx hne with hc | ⟨y, hy, hyx⟩
  · simp at hc
  · rw [h.parent_eq_none hy] at hyx
    cases hyx

end SeL4Kernel.Split
