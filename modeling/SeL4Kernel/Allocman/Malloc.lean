import SeL4Kernel.Lib.Circle
import SeL4Kernel.Lib.Tiling

/-!
# The heap of `allocman`

`mspace/k_r_malloc.c` of `libsel4allocman`: first fit on a circular list of free blocks in
address order. A block starts with a header, a pointer to the next free block and its
size in headers; `freep` is where the next search starts. The list always holds `base`,
an empty block in the heap's own structure. Memory comes from the function `morecore`,
and a freed block is joined with the free blocks next to it. The invariant `Inv` is kept by
`free` (`free_spec`) and by `alloc` (`allocLoop_spec`).

Addresses and sizes are words of 64 bits, and pointers to headers move in steps of
`sizeof(k_r_malloc_header_t)`. Loops take fuel.
-/

namespace SeL4Kernel.KRMalloc

open Function Finset

/-! ### The functions -/

/-- `sizeof(k_r_malloc_header_t)`. -/
def headerSize : ℕ := 16

/-- The headers in memory, and `freep`, which is 0 before the first request. -/
structure Heap where
  ptr : ℕ → ℕ
  size : ℕ → ℕ
  freep : ℕ

/-- `p + n` for a pointer `p` to a header. -/
def headersAfter (p n : ℕ) : ℕ := (p + headerSize * n) % 2 ^ 64

/-- The number of headers that a request takes. -/
def nunits (nbytes : ℕ) : ℕ := (nbytes + (headerSize - 1)) % 2 ^ 64 / headerSize + 1

/-- The loop of `mspace_k_r_malloc_free`: where `bp` goes in. -/
def insertionPoint (h : Heap) (bp : ℕ) : ℕ → ℕ → Option ℕ
  | 0, _ => none
  | fuel + 1, p =>
    if p < bp ∧ bp < h.ptr p then some p
    -- the block goes before the first or behind the last one
    else if h.ptr p ≤ p ∧ (p < bp ∨ bp < h.ptr p) then some p
    else insertionPoint h bp fuel (h.ptr p)

def joinUpper (p bp : ℕ) (h : Heap) : Heap :=
  if headersAfter bp (h.size bp) = h.ptr p then
    { h with
      size := update h.size bp ((h.size bp + h.size (h.ptr p)) % 2 ^ 64)
      ptr := update h.ptr bp (h.ptr (h.ptr p)) }
  else { h with ptr := update h.ptr bp (h.ptr p) }

def joinLower (p bp : ℕ) (h : Heap) : Heap :=
  if headersAfter p (h.size p) = bp then
    { h with
      size := update h.size p ((h.size p + h.size bp) % 2 ^ 64)
      ptr := update h.ptr p (h.ptr bp) }
  else { h with ptr := update h.ptr p bp }

/-- `mspace_k_r_malloc_free`. -/
def free (fuel ap : ℕ) (h : Heap) : Option Heap :=
  if ap = 0 then some h
  else do
    let bp := ap - headerSize
    let p ← insertionPoint h bp fuel h.freep
    some { joinLower p bp (joinUpper p bp h) with freep := p }

/-- The block `p` behind `prevp` is big enough: it is taken whole, or its tail is. -/
def takeBlock (units prevp p : ℕ) (h : Heap) : ℕ × Heap :=
  if h.size p = units then
    (headersAfter p 1, { h with ptr := update h.ptr prevp (h.ptr p), freep := prevp })
  else
    let left := h.size p - units
    let tail := headersAfter p left
    (headersAfter tail 1,
      { h with
        size := update (update h.size p left) tail units
        freep := prevp })

/-- The loop of `mspace_k_r_malloc_alloc`. The calls of `morecore` give the answers in a
list, and NULL when it is empty; the answers that are left over are returned. -/
def allocLoop (units : ℕ) : ℕ → ℕ → ℕ → List (Option ℕ) → Heap →
    Option (ℕ × List (Option ℕ) × Heap)
  | 0, _, _, _, _ => none
  | fuel + 1, prevp, p, answers, h =>
    if units ≤ h.size p then
      let (result, h) := takeBlock units prevp p h
      some (result, answers, h)
    else if p = h.freep then
      match answers with
      | [] => some (0, [], h)
      | none :: rest => some (0, rest, h)
      | some q :: rest => do
        let h ← free fuel (headersAfter q 1) { h with size := update h.size q units }
        allocLoop units fuel h.freep (h.ptr h.freep) rest h
    else allocLoop units fuel p (h.ptr p) answers h

/-- The list with `base` alone. -/
def start (base : ℕ) (h : Heap) : Heap :=
  if h.freep = 0 then
    { ptr := update h.ptr base base
      size := update h.size base 0
      freep := base }
  else h

/-- `mspace_k_r_malloc_alloc`. -/
def alloc (base fuel nbytes : ℕ) (answers : List (Option ℕ)) (h : Heap) :
    Option (ℕ × List (Option ℕ) × Heap) :=
  let h := start base h
  allocLoop (nunits nbytes) fuel h.freep (h.ptr h.freep) answers h

/-! ### The invariant -/

/-- The length of a block in bytes. -/
def Heap.len (h : Heap) (a : ℕ) : ℕ := headerSize * h.size a

/-- The memory that `morecore` has given, `owned`, is away from the header `base`, and does
not end where it starts. The address behind an object is a word, too. -/
structure Away (base : ℕ) (owned : ℕ → Prop) : Prop where
  base_pos : 0 < base
  base_lt : base + headerSize ≤ 2 ^ 64
  away : ∀ x, owned x → x + 1 < base ∨ base + headerSize ≤ x
  owned_pos : ∀ x, owned x → 0 < x
  owned_lt : ∀ x, owned x → x + 1 < 2 ^ 64

/-- The free list is a circle in address order through `base` and `list`, no free block
ends where the next one starts, and free and live blocks tile the memory. -/
structure Inv (base : ℕ) (owned : ℕ → Prop) (live list : Finset ℕ) (h : Heap) : Prop where
  circle : Circle (insert base list) h.ptr
  base_notMem : base ∉ list
  base_size : h.size base = 0
  freep : h.freep ∈ insert base list
  disjoint : Disjoint list live
  tiling : Tiling (list ∪ live) h.len owned
  gap : ∀ a ∈ list, a + h.len a ≠ h.ptr a

variable {base : ℕ} {owned : ℕ → Prop} {live list : Finset ℕ} {h h' : Heap} {a b p bp units : ℕ}

theorem len_update (size : ℕ → ℕ) (n : ℕ) :
    (fun x => headerSize * update size a n x) =
      update (fun x => headerSize * size x) a (headerSize * n) := by
  funext x
  by_cases hx : x = a
  · rw [hx, update_self, update_self]
  · rw [update_of_ne hx, update_of_ne hx]

theorem disjoint_insert_erase {s t : Finset ℕ} (hd : Disjoint s t) :
    Disjoint (insert a s) (t.erase a) := by
  rw [disjoint_insert_left]
  exact ⟨notMem_erase a t, disjoint_of_subset_right (erase_subset a t) hd⟩

variable (hw : Away base owned) (hi : Inv base owned live list h)

namespace Inv

section Facts

include hw hi

/-- Where a block lies. -/
theorem bounds (ha : a ∈ list ∪ live) :
    0 < a ∧ 0 < h.size a ∧ a + h.len a < 2 ^ 64 ∧ (a + h.len a < base ∨ base + headerSize ≤ a) := by
  have hpos := hi.tiling.pos a ha
  have hsize : 0 < h.size a := Nat.pos_of_mul_pos_left hpos
  have hfirst : owned a := hi.tiling.covered_of_mem ha ⟨by omega, by omega⟩
  have hlast : owned (a + h.len a - 1) := hi.tiling.covered_of_mem ha ⟨by omega, by omega⟩
  refine ⟨hw.owned_pos a hfirst, hsize, ?_, ?_⟩
  · have := hw.owned_lt _ hlast
    omega
  rcases hw.away a hfirst with hlow | hhigh
  · rcases hw.away _ hlast with hlow' | hhigh'
    · exact .inl (by omega)
    · -- then the byte at `base` would be in the block
      have hmid : owned base := hi.tiling.covered_of_mem ha ⟨by omega, by omega⟩
      have := hw.away base hmid
      unfold headerSize at this
      omega
  · exact .inr hhigh

theorem bounds_of_mem (ha : a ∈ insert base list) : 0 < a ∧ a < 2 ^ 64 := by
  rcases mem_insert.1 ha with rfl | ha
  · have := hw.base_lt
    unfold headerSize at this
    exact ⟨hw.base_pos, by omega⟩
  · obtain ⟨hpos, _, hle, _⟩ := hi.bounds hw (mem_union_left live ha)
    exact ⟨hpos, by omega⟩

/-- Within the block pointers do not wrap around. -/
theorem headersAfter_eq (ha : a ∈ list ∪ live) {n : ℕ} (hn : n ≤ h.size a) :
    headersAfter a n = a + headerSize * n := by
  obtain ⟨_, _, hlt, _⟩ := hi.bounds hw ha
  unfold Heap.len at hlt
  refine Nat.mod_eq_of_lt ?_
  have := Nat.mul_le_mul_left headerSize hn
  omega

theorem size_lt (ha : a ∈ list ∪ live) : h.size a < 2 ^ 60 := by
  obtain ⟨_, _, hlt, _⟩ := hi.bounds hw ha
  unfold Heap.len headerSize at hlt
  omega

/-- A free block that ends where another one starts is followed by it. -/
theorem next_of_meet (ha : a ∈ list) (hb : b ∈ insert base list) (hmeet : a + h.len a = b) :
    h.ptr a = b := by
  have hamem := mem_union_left live ha
  obtain ⟨_, _, _, hbase⟩ := hi.bounds hw hamem
  have hpos := hi.tiling.pos a hamem
  have hgap := hi.circle.gap a (mem_insert_of_mem ha) b hb
  have hnext := hi.circle.mem a (mem_insert_of_mem ha)
  by_contra hne
  -- the next one would start within the block
  have hin : a < h.ptr a ∧ h.ptr a < b := by
    unfold Between at hgap
    omega
  rcases mem_insert.1 hnext with hc | hc
  · omega
  · have := hi.tiling.apart a hamem _ (mem_union_left live hc) hin.1
    omega

/-- The block behind `p` leaves the list. -/
theorem unlink (hp : p ∈ insert base list) (hbase : h.ptr p ≠ base) :
    h.ptr p ∈ list ∧ p ≠ h.ptr p ∧
      Circle (insert base (list.erase (h.ptr p))) (update h.ptr p (h.ptr (h.ptr p))) ∧
      p ∈ insert base (list.erase (h.ptr p)) ∧
      ∀ a ∈ list.erase (h.ptr p), a + h.len a ≠ update h.ptr p (h.ptr (h.ptr p)) a := by
  have hn := hi.circle.mem p hp
  have hpn : h.ptr p ≠ p := by
    intro hc
    exact hbase (hi.circle.eq_of_next_eq hp hc (mem_insert_self base list) ▸ hc)
  have hset : (insert base list).erase (h.ptr p) = insert base (list.erase (h.ptr p)) :=
    erase_insert_of_ne hbase.symm
  rw [← hset, mem_erase]
  refine ⟨(mem_insert.1 hn).resolve_left hbase, hpn.symm, hi.circle.erase hp hpn,
    ⟨hpn.symm, hp⟩, ?_⟩
  intro a ha
  rw [mem_erase] at ha
  by_cases hap : a = p
  · subst hap
    rw [update_self]
    intro hc
    have hnext := hi.next_of_meet hw ha.2 (hi.circle.mem _ hn) hc
    exact hpn (hi.circle.next_inj hp hn hnext).symm
  · rw [update_of_ne hap]
    exact hi.gap a ha.2

omit hw in
/-- Only the pointers in the list and the sizes of blocks count. -/
theorem congr (hptr : ∀ a ∈ insert base list, h'.ptr a = h.ptr a)
    (hsize : ∀ a ∈ insert base (list ∪ live), h'.size a = h.size a) (hfreep : h'.freep = h.freep) :
    Inv base owned live list h' := by
  have hlen : ∀ a ∈ list ∪ live, h'.len a = h.len a := by
    intro a ha
    unfold Heap.len
    rw [hsize a (mem_insert_of_mem ha)]
  refine ⟨hi.circle.congr hptr, hi.base_notMem, ?_, ?_, hi.disjoint, hi.tiling.congr hlen, ?_⟩
  · rw [hsize base (mem_insert_self _ _)]
    exact hi.base_size
  · rw [hfreep]
    exact hi.freep
  · intro a ha
    rw [hlen a (mem_union_left live ha), hptr a (mem_insert_of_mem ha)]
    exact hi.gap a ha

end Facts

end Inv

/-! ### Freeing -/

/-- The test of the loop is that `bp` belongs between `p` and the block behind it. -/
theorem insertionPoint_succ (bp fuel p : ℕ) :
    insertionPoint h bp (fuel + 1) p =
      if Between p bp (h.ptr p) then some p else insertionPoint h bp fuel (h.ptr p) := by
  rw [insertionPoint]
  by_cases hb : Between p bp (h.ptr p)
  · rw [if_pos hb]
    rcases hb with h1 | h2
    · rw [if_pos h1]
    · rw [if_pos h2, ite_self]
  · rw [if_neg hb, if_neg fun h1 => hb (.inl h1), if_neg fun h2 => hb (.inr h2)]

/-- The loop ends at the gap for `bp`. -/
theorem insertionPoint_spec {s : Finset ℕ} (hc : Circle s h.ptr) (hbp : bp ∉ s) :
    ∀ fuel p, p ∈ s → Circle.ahead s p bp < fuel →
      ∃ q ∈ s, insertionPoint h bp fuel p = some q ∧ Between q bp (h.ptr q) := by
  intro fuel
  induction fuel with
  | zero =>
    intro p _ hfuel
    omega
  | succ fuel ih =>
    intro p hp hfuel
    rw [insertionPoint_succ]
    split
    · rename_i hbetween
      exact ⟨p, hp, rfl, hbetween⟩
    · rename_i hbetween
      have hn := hc.mem p hp
      have hlt := hc.ahead_next_lt hp hbetween (fun he => hbp (he ▸ hn))
      exact ih _ hn (by omega)

theorem insertionPoint_mono (h : Heap) (bp : ℕ) : ∀ (fuel fuel' p q : ℕ), fuel ≤ fuel' →
    insertionPoint h bp fuel p = some q → insertionPoint h bp fuel' p = some q := by
  intro fuel
  induction fuel with
  | zero =>
    intro fuel' p q _ hq
    cases hq
  | succ fuel ih =>
    intro fuel' p q hle hq
    obtain ⟨fuel', rfl⟩ : ∃ n, fuel' = n + 1 := ⟨fuel' - 1, by omega⟩
    rw [insertionPoint_succ] at hq ⊢
    split at hq
    · rename_i hbetween
      rw [if_pos hbetween]
      exact hq
    · rename_i hbetween
      rw [if_neg hbetween]
      exact ih fuel' _ q (by omega) hq

section Free

variable (hbp : bp ∈ live) (hp : p ∈ insert base list) (hbetween : Between p bp (h.ptr p))
include hw hi hbp

omit hw in
theorem notMem_of_live : bp ∉ list := fun hc => disjoint_left.1 hi.disjoint hc hbp

theorem ne_base_of_live : bp ≠ base := by
  intro hc
  obtain ⟨_, _, _, hbase⟩ := hi.bounds hw (mem_union_right list hbp)
  unfold headerSize at hbase
  omega

theorem notMem_insert_of_live : bp ∉ insert base list := by
  rw [mem_insert, not_or]
  exact ⟨ne_base_of_live hw hi hbp, notMem_of_live hi hbp⟩

omit hw hi in
/-- The block is freed: the set of all blocks stays the same. -/
theorem union_insert : insert bp list ∪ live.erase bp = list ∪ live := by
  ext x
  by_cases hx : x = bp
  · simp [hx, hbp]
  · simp [hx]

include hp hbetween

/-- `bp` is put into the list, joined with nothing. -/
theorem inv_insert (hupper : bp + h.len bp ≠ h.ptr p) (hlower : p ∈ list → p + h.len p ≠ bp) :
    Inv base owned (live.erase bp) (insert bp list)
      { h with
        ptr := update (update h.ptr bp (h.ptr p)) p bp
        freep := p } := by
  have hnot := notMem_insert_of_live hw hi hbp
  have hcircle := hi.circle.insert hp hnot hbetween
  have hpbp : bp ≠ p := fun hc => hnot (hc ▸ hp)
  refine ⟨?_, ?_, hi.base_size, ?_, ?_, ?_, ?_⟩
  · rw [insert_comm]
    exact hcircle
  · rw [mem_insert, not_or]
    exact ⟨(ne_base_of_live hw hi hbp).symm, hi.base_notMem⟩
  · rw [insert_comm]
    exact mem_insert_of_mem hp
  · exact disjoint_insert_erase hi.disjoint
  · rw [union_insert hbp]
    exact hi.tiling
  intro a ha
  show a + h.len a ≠ update (update h.ptr bp (h.ptr p)) p bp a
  rcases mem_insert.1 ha with rfl | hal
  · rw [update_of_ne hpbp, update_self]
    exact hupper
  by_cases hap : a = p
  · subst hap
    rw [update_self]
    exact hlower hal
  · rw [update_of_ne hap, update_of_ne]
    · exact hi.gap a hal
    · rintro rfl
      exact hnot (mem_insert_of_mem hal)

omit hw in
/-- `bp` is joined to the free block before it. -/
theorem inv_lower (hpl : p ∈ list) (hupper : bp + h.len bp ≠ h.ptr p) (hlower : p + h.len p = bp) :
    Inv base owned (live.erase bp) list
      { h with
        size := update h.size p (h.size p + h.size bp)
        freep := p } := by
  have hpbase : base ≠ p := fun hc => hi.base_notMem (hc ▸ hpl)
  have hset : (list ∪ live).erase bp = list ∪ live.erase bp := by
    rw [erase_union_distrib, erase_eq_of_notMem (notMem_of_live hi hbp)]
  refine ⟨hi.circle, hi.base_notMem, ?_, hp, ?_, ?_, ?_⟩
  · exact (update_of_ne hpbase _ _).trans hi.base_size
  · exact disjoint_of_subset_right (erase_subset _ _) hi.disjoint
  · have hjoin := hi.tiling.join (mem_union_left live hpl) (mem_union_right list hbp)
      hlower
    rw [hset] at hjoin
    unfold Heap.len at hjoin ⊢
    rw [len_update, Nat.mul_add]
    exact hjoin
  · intro a ha
    show a + headerSize * update h.size p (h.size p + h.size bp) a ≠ h.ptr a
    by_cases hap : a = p
    · subst hap
      rw [update_self]
      unfold Heap.len at hlower hupper
      rw [Nat.mul_add]
      omega
    · rw [update_of_ne hap]
      exact hi.gap a ha

/-- The free block behind `bp` is joined to it, and leaves the list. -/
theorem inv_upper (hupper : bp + h.len bp = h.ptr p) :
    let h' : Heap :=
      { ptr := update h.ptr p (h.ptr (h.ptr p))
        size := update h.size bp (h.size bp + h.size (h.ptr p))
        freep := p }
    Inv base owned live (list.erase (h.ptr p)) h' ∧ p ∈ insert base (list.erase (h.ptr p)) ∧
      Between p bp (h'.ptr p) ∧ bp + h'.len bp ≠ h'.ptr p ∧ h.ptr p ∈ list := by
  intro h'
  have hnot := notMem_insert_of_live hw hi hbp
  have hbpmem := mem_union_right list hbp
  have hn := hi.circle.mem p hp
  -- no block ends at `base`
  have hnbase : h.ptr p ≠ base := by
    intro hc
    obtain ⟨_, _, _, hbase⟩ := hi.bounds hw hbpmem
    have := hi.tiling.pos bp hbpmem
    omega
  obtain ⟨hnl, -, hcircle, hmem, hrest⟩ := hi.unlink hw hp hnbase
  have hptr : h'.ptr p = h.ptr (h.ptr p) := update_self _ _ _
  have hlen : h'.len bp = h.len bp + h.len (h.ptr p) := by
    show headerSize * update h.size bp _ bp = _
    rw [update_self, Nat.mul_add]
    rfl
  refine ⟨⟨hcircle, ?_, ?_, hmem, ?_, ?_, ?_⟩, hmem, ?_, ?_, hnl⟩
  · exact fun hc => hi.base_notMem (mem_of_mem_erase hc)
  · exact (update_of_ne (ne_base_of_live hw hi hbp).symm _ _).trans hi.base_size
  · exact disjoint_of_subset_left (erase_subset _ _) hi.disjoint
  · have hjoin := hi.tiling.join hbpmem (mem_union_left live hnl) hupper
    have hnlive : h.ptr p ∉ live := disjoint_left.1 hi.disjoint hnl
    rw [erase_union_distrib, erase_eq_of_notMem hnlive] at hjoin
    show Tiling _ (fun x => headerSize * update h.size bp _ x) owned
    rw [len_update, Nat.mul_add]
    exact hjoin
  · intro a ha
    have halen : h'.len a = h.len a := by
      show headerSize * update h.size bp _ a = _
      rw [update_of_ne]
      · rfl
      · rintro rfl
        exact hnot (mem_insert_of_mem (mem_of_mem_erase ha))
    rw [halen]
    exact hrest a ha
  · have hgap := hi.circle.gap (h.ptr p) hn p hp
    have hgap' := hi.circle.gap p hp (h.ptr (h.ptr p)) (hi.circle.mem _ hn)
    unfold Between at hbetween hgap hgap' ⊢
    omega
  · have := hi.gap _ hnl
    omega

/-- The second half of freeing: the heap `k` has the pointer of `bp` already, and is like `h`
but for the pointer of `p`, which is written now. -/
theorem inv_joinLower {k : Heap} (hupper : bp + h.len bp ≠ h.ptr p) (hnext : k.ptr bp = h.ptr p)
    (hptr : ∀ a ∈ insert base list, a ≠ p → k.ptr a = h.ptr a) (hsize : k.size = h.size) :
    ∃ list', Inv base owned (live.erase bp) list' { joinLower p bp k with freep := p } ∧
      list'.card ≤ list.card + 1 ∧ ∃ a ∈ list', h.size bp ≤ (joinLower p bp k).size a := by
  have hnot := notMem_insert_of_live hw hi hbp
  have hpbp : p ≠ bp := fun hc => hnot (hc ▸ hp)
  have hpend : p ∈ list → headersAfter p (h.size p) = p + h.len p := fun hpl =>
    hi.headersAfter_eq hw (mem_union_left live hpl) (Nat.le_refl _)
  unfold joinLower
  rw [hsize, hnext]
  by_cases hlower : headersAfter p (h.size p) = bp
  · -- `base` is empty and joins with nothing
    have hpl : p ∈ list := by
      refine (mem_insert.1 hp).resolve_left ?_
      rintro rfl
      rw [hi.base_size] at hlower
      unfold headersAfter at hlower
      rw [Nat.mul_zero, Nat.add_zero, Nat.mod_eq_of_lt (hi.bounds_of_mem hw hp).2] at hlower
      exact hpbp hlower
    have hsum : (h.size p + h.size bp) % 2 ^ 64 = h.size p + h.size bp := by
      have h1 := hi.size_lt hw (mem_union_right list hbp)
      have h2 := hi.size_lt hw (mem_union_left live hpl)
      omega
    have hfin := inv_lower hi hbp hp hbetween hpl hupper ((hpend hpl).symm.trans hlower)
    rw [if_pos hlower, hsum]
    refine ⟨list, hfin.congr ?_ (fun _ _ => rfl) rfl, Nat.le_succ _, p, hpl, ?_⟩
    · intro a ha
      by_cases hap : a = p
      · rw [hap]
        exact update_self _ _ _
      · exact (update_of_ne hap _ _).trans (hptr a ha hap)
    · show h.size bp ≤ update h.size p _ p
      rw [update_self]
      omega
  · have hfin := inv_insert hw hi hbp hp hbetween hupper fun hpl => (hpend hpl).symm ▸ hlower
    rw [if_neg hlower]
    refine ⟨insert bp list, hfin.congr ?_ ?_ rfl, card_insert_le _ _, bp, mem_insert_self _ _, ?_⟩
    · intro a ha
      show update k.ptr p bp a = update (update h.ptr bp (h.ptr p)) p bp a
      by_cases hap : a = p
      · rw [hap, update_self, update_self]
      rw [update_of_ne hap, update_of_ne hap]
      by_cases hab : a = bp
      · rw [hab, update_self]
        exact hnext
      · rw [update_of_ne hab]
        rw [insert_comm] at ha
        exact hptr a (mem_of_mem_insert_of_ne ha hab) hap
    · intro a _
      rfl
    · exact Nat.le_refl _

/-- Both halves, when the place for `bp` is found. -/
theorem inv_join :
    ∃ list', Inv base owned (live.erase bp) list'
        { joinLower p bp (joinUpper p bp h) with freep := p } ∧ list'.card ≤ list.card + 1 ∧
      ∃ a ∈ list', h.size bp ≤ (joinLower p bp (joinUpper p bp h)).size a := by
  have hnot := notMem_insert_of_live hw hi hbp
  have hbpmem := mem_union_right list hbp
  have hbpend : headersAfter bp (h.size bp) = bp + h.len bp :=
    hi.headersAfter_eq hw hbpmem (Nat.le_refl _)
  by_cases hupper : bp + h.len bp = h.ptr p
  · obtain ⟨hi', hp', hbetween', hupper', hnl⟩ := inv_upper hw hi hbp hp hbetween hupper
    have hsum : (h.size bp + h.size (h.ptr p)) % 2 ^ 64 = h.size bp + h.size (h.ptr p) := by
      have h1 := hi.size_lt hw hbpmem
      have h2 := hi.size_lt hw (mem_union_left live hnl)
      omega
    unfold joinUpper
    rw [if_pos (hbpend.trans hupper), hsum]
    obtain ⟨list', hinv, hcard, a, ha, hbig⟩ := inv_joinLower
      (k := { h with
        size := update h.size bp (h.size bp + h.size (h.ptr p))
        ptr := update h.ptr bp (h.ptr (h.ptr p)) })
      hw hi' hbp hp' hbetween' hupper'
      (by
        show update h.ptr bp _ bp = update h.ptr p (h.ptr (h.ptr p)) p
        rw [update_self, update_self])
      (by
        intro a ha hap
        refine (update_of_ne ?_ _ _).trans (update_of_ne hap _ _).symm
        rintro rfl
        exact hnot (insert_subset_insert base (erase_subset _ _) ha)) rfl
    refine ⟨list', hinv, ?_, a, ha, Nat.le_trans ?_ hbig⟩
    · have := card_erase_le (s := list) (a := h.ptr p)
      omega
    show h.size bp ≤ update h.size bp _ bp
    rw [update_self]
    omega
  · unfold joinUpper
    rw [if_neg (hbpend ▸ hupper)]
    refine inv_joinLower hw hi hbp hp hbetween hupper (update_self _ _ _) ?_ rfl
    intro a ha _
    refine update_of_ne ?_ _ _
    rintro rfl
    exact hnot ha

end Free

theorem ahead_lt (base : ℕ) (list : Finset ℕ) (a x : ℕ) :
    Circle.ahead (insert base list) a x < list.card + 2 := by
  have h1 : Circle.ahead (insert base list) a x ≤ (insert base list).card := card_filter_le _ _
  have h2 := card_insert_le base list
  omega

include hw hi in
/-- **Freeing.** A live block goes back into the free list. -/
theorem free_spec (hbp : bp ∈ live) {fuel : ℕ} (hfuel : list.card + 1 < fuel) :
    ∃ h' list', free fuel (headersAfter bp 1) h = some h' ∧
      Inv base owned (live.erase bp) list' h' ∧ list'.card ≤ list.card + 1 ∧
      ∃ a ∈ list', h.size bp ≤ h'.size a := by
  have hnot := notMem_insert_of_live hw hi hbp
  have hbpmem := mem_union_right list hbp
  have hap : headersAfter bp 1 = bp + headerSize := hi.headersAfter_eq hw hbpmem
    (hi.bounds hw hbpmem).2.1
  have hahead := ahead_lt base list h.freep bp
  obtain ⟨p, hp, hfound, hbetween⟩ := insertionPoint_spec hi.circle hnot fuel h.freep hi.freep
    (by omega)
  obtain ⟨list', hinv, hcard, hbig⟩ := inv_join hw hi hbp hp hbetween
  refine ⟨_, list', ?_, hinv, hcard, hbig⟩
  unfold free
  rw [hap]
  dsimp only
  rw [Nat.add_sub_cancel, hfound]
  rfl

/-! ### Allocating -/

/-- What a successful request leads to: a block of `units` headers that was free, or part
of a free block, is live. -/
def Taken (base : ℕ) (owned : ℕ → Prop) (live : Finset ℕ) (units result : ℕ) (h : Heap) : Prop :=
  ∃ a list, result = a + headerSize ∧ a ∉ live ∧ h.size a = units ∧
    Inv base owned (insert a live) list h

section Take

variable {prevp : ℕ} (hprev : prevp ∈ insert base list) (hunits : 0 < units)
  (hbig : units ≤ h.size (h.ptr prevp))
include hw hi hprev hunits hbig

theorem takeBlock_spec :
    Taken base owned live units (takeBlock units prevp (h.ptr prevp) h).1
      (takeBlock units prevp (h.ptr prevp) h).2 := by
  have hp := hi.circle.mem prevp hprev
  have hpbase : h.ptr prevp ≠ base := by
    intro hc
    rw [hc, hi.base_size] at hbig
    omega
  obtain ⟨hpl, hne, hcircle, hmem, hrest⟩ := hi.unlink hw hprev hpbase
  generalize h.ptr prevp = p at hp hpbase hbig hpl hne hcircle hmem hrest
  have hpmem := mem_union_left live hpl
  have hplive : p ∉ live := disjoint_left.1 hi.disjoint hpl
  obtain ⟨_, _, hlt, hside⟩ := hi.bounds hw hpmem
  unfold takeBlock
  by_cases hexact : h.size p = units
  · -- the whole block leaves the list
    rw [if_pos hexact]
    refine ⟨p, list.erase p, ?_, hplive, hexact, ?_⟩
    · rw [hi.headersAfter_eq hw hpmem (by omega), Nat.mul_one]
    refine ⟨hcircle, ?_, hi.base_size, hmem, ?_, ?_, hrest⟩
    · exact fun hc => hi.base_notMem (mem_of_mem_erase hc)
    · exact (disjoint_insert_erase hi.disjoint.symm).symm
    · rw [union_comm, union_insert hpl, union_comm]
      exact hi.tiling
  · -- the tail of the block is taken
    have hdiff : h.len p - headerSize * units = headerSize * (h.size p - units) :=
      (Nat.mul_sub _ _ _).symm
    have hunits' : headerSize * units < h.len p := Nat.mul_lt_mul_of_pos_left (by omega) (by decide)
    have htail : headersAfter p (h.size p - units) = p + headerSize * (h.size p - units) :=
      hi.headersAfter_eq hw hpmem (Nat.sub_le _ _)
    obtain ⟨hfresh, htiling⟩ := hi.tiling.split hpmem
      (Nat.mul_pos (by decide) hunits : 0 < headerSize * units) hunits'
    rw [hdiff] at hfresh htiling
    rw [if_neg hexact]
    dsimp only
    rw [htail]
    generalize hq : p + headerSize * (h.size p - units) = q at hfresh htiling
    have hqbase : q ≠ base := by
      rintro rfl
      omega
    have hq1 : headersAfter q 1 = q + headerSize := by
      refine Nat.mod_eq_of_lt ?_
      have := Nat.mul_le_mul_left headerSize hunits
      omega
    have hsizes : ({ h with
        size := update (update h.size p (h.size p - units)) q units
        freep := prevp } : Heap).len =
        update (update h.len p (headerSize * (h.size p - units))) q
          (headerSize * units) := by
      show (fun x => headerSize * update (update h.size p (h.size p - units)) q units x) = _
      rw [len_update]
      congr 1
      exact len_update h.size _
    refine ⟨q, list, hq1, ?_, update_self _ _ _, ?_⟩
    · exact fun hc => hfresh (mem_union_right list hc)
    refine ⟨hi.circle, hi.base_notMem, ?_, hprev, ?_, ?_, ?_⟩
    · show update (update h.size p _) q units base = 0
      rw [update_of_ne hqbase.symm, update_of_ne hpbase.symm]
      exact hi.base_size
    · rw [disjoint_insert_right]
      exact ⟨fun hc => hfresh (mem_union_left live hc), hi.disjoint⟩
    · rw [Finset.union_insert, hsizes]
      exact htiling
    · intro a ha
      rw [hsizes]
      have haq : a ≠ q := fun hc => hfresh (hc ▸ mem_union_left live ha)
      rw [update_of_ne haq]
      by_cases hap : a = p
      · subst hap
        rw [update_self, hq]
        -- the next free block does not start within the old block
        intro hc
        have hn := hi.circle.mem a hp
        rw [← hc] at hn
        exact hfresh (mem_union_left live ((mem_insert.1 hn).resolve_left hqbase))
      · rw [update_of_ne hap]
        exact hi.gap a ha

end Take

section Loop

variable {fuel prevp : ℕ} {answers rest : List (Option ℕ)}

theorem allocLoop_of_fit (hfit : units ≤ h.size p) :
    allocLoop units (fuel + 1) prevp p answers h =
      some ((takeBlock units prevp p h).1, answers, (takeBlock units prevp p h).2) := by
  exact if_pos hfit

theorem allocLoop_of_ne (hfit : ¬units ≤ h.size p) (hne : p ≠ h.freep) :
    allocLoop units (fuel + 1) prevp p answers h = allocLoop units fuel p (h.ptr p) answers h := by
  exact (if_neg hfit).trans (if_neg hne)

theorem allocLoop_wrapped (hfit : ¬units ≤ h.size p) (hp : p = h.freep) :
    allocLoop units (fuel + 1) prevp p answers h =
      (match answers with
      | [] => some (0, [], h)
      | none :: rest => some (0, rest, h)
      | some q :: rest => do
        let h ← free fuel (headersAfter q 1) { h with size := update h.size q units }
        allocLoop units fuel h.freep (h.ptr h.freep) rest h) := by
  exact (if_neg hfit).trans (if_pos hp)

end Loop

/-- Memory from `morecore` is new. -/
structure Fresh (base : ℕ) (owned : ℕ → Prop) (q units : ℕ) : Prop where
  away : Away base fun x => owned x ∨ InBlock q (headerSize * units) x
  new : ∀ x, InBlock q (headerSize * units) x → ¬owned x

include hi in
/-- New memory is a live block, until it is freed. -/
theorem inv_grow {q : ℕ} (hunits : 0 < units) (hfresh : Fresh base owned q units) :
    q ∉ list ∪ live ∧ Inv base (fun x => owned x ∨ InBlock q (headerSize * units) x)
      (insert q live) list { h with size := update h.size q units } := by
  have hpos : 0 < headerSize * units := Nat.mul_pos (by decide) hunits
  obtain ⟨hnot, htiling⟩ := hi.tiling.add hpos hfresh.new
  have hqbase : q ≠ base := by
    rintro rfl
    have := hfresh.away.away q (.inr ⟨Nat.le_refl _, by omega⟩)
    unfold headerSize at this
    omega
  have hlen : ({ h with size := update h.size q units } : Heap).len =
      update h.len q (headerSize * units) := len_update h.size units
  refine ⟨hnot, hi.circle, hi.base_notMem, ?_, hi.freep, ?_, ?_, ?_⟩
  · exact (update_of_ne hqbase.symm _ _).trans hi.base_size
  · rw [disjoint_insert_right]
    exact ⟨fun hc => hnot (mem_union_left live hc), hi.disjoint⟩
  · rw [Finset.union_insert, hlen]
    exact htiling
  · intro a ha
    rw [hlen, update_of_ne]
    · exact hi.gap a ha
    · rintro rfl
      exact hnot (mem_union_left live ha)

include hi in
/-- A step of the search for a big block that does not end at `freep`. -/
theorem ahead_step (hp : p ∈ insert base list) (hne : h.ptr p ≠ h.freep) :
    Circle.ahead (insert base list) (h.ptr p) h.freep <
      Circle.ahead (insert base list) p h.freep :=
  hi.circle.ahead_next_lt hp (hi.circle.gap p hp _ hi.freep) hne

include hw hi in
/-- The search takes a block that is big enough, or it comes to `freep` past blocks that are too
small. -/
theorem allocLoop_search (hunits : 0 < units) (answers : List (Option ℕ)) :
    ∀ (n fuel prevp : ℕ), prevp ∈ insert base list →
      (h.ptr prevp = h.freep ∨
        Circle.ahead (insert base list) (h.ptr prevp) h.freep < n) → n < fuel →
      (∃ result h', allocLoop units fuel prevp (h.ptr prevp) answers h =
        some (result, answers, h') ∧ Taken base owned live units result h') ∨
      (∀ a ∈ list, a = h.ptr prevp ∨ h.ptr prevp ≠ h.freep ∧ Between (h.ptr prevp) a h.freep →
        ¬units ≤ h.size a) ∧ ¬units ≤ h.size h.freep ∧
      ∃ fuel' prevp', fuel ≤ fuel' + n + 1 ∧ allocLoop units fuel prevp (h.ptr prevp) answers h =
        allocLoop units (fuel' + 1) prevp' h.freep answers h := by
  intro n
  induction n with
  | zero =>
    intro fuel prevp hprev hn hfuel
    obtain ⟨fuel, rfl⟩ : ∃ k, fuel = k + 1 := ⟨fuel - 1, by omega⟩
    have hfreep : h.ptr prevp = h.freep := hn.resolve_right (by omega)
    by_cases hfit : units ≤ h.size (h.ptr prevp)
    · rw [allocLoop_of_fit hfit]
      exact .inl ⟨_, _, rfl, takeBlock_spec hw hi hprev hunits hfit⟩
    · rw [hfreep] at hfit ⊢
      refine .inr ⟨?_, hfit, fuel, prevp, by omega, rfl⟩
      rintro a _ (rfl | hc)
      · exact hfit
      · exact absurd rfl hc.1
  | succ n ih =>
    intro fuel prevp hprev hn hfuel
    by_cases hfreep : h.ptr prevp = h.freep
    · refine (ih fuel prevp hprev (.inl hfreep) (by omega)).imp_right ?_
      rintro ⟨hsmall, hfit, fuel', prevp', hle, heq⟩
      exact ⟨hsmall, hfit, fuel', prevp', by omega, heq⟩
    · obtain ⟨fuel, rfl⟩ : ∃ k, fuel = k + 1 := ⟨fuel - 1, by omega⟩
      have hp := hi.circle.mem prevp hprev
      by_cases hfit : units ≤ h.size (h.ptr prevp)
      · rw [allocLoop_of_fit hfit]
        exact .inl ⟨_, _, rfl, takeBlock_spec hw hi hprev hunits hfit⟩
      rw [allocLoop_of_ne hfit hfreep]
      refine (ih fuel (h.ptr prevp) hp ?_ (by omega)).imp_right ?_
      · by_cases hlast : h.ptr (h.ptr prevp) = h.freep
        · exact .inl hlast
        · have := ahead_step hi hp hlast
          exact .inr (by have := hn.resolve_left hfreep; omega)
      · rintro ⟨hsmall, hfree, fuel', prevp', hle, heq⟩
        refine ⟨fun a ha hahead hbig => ?_, hfree, fuel', prevp', by omega, heq⟩
        have hgap := hi.circle.gap _ hp a (mem_insert_of_mem ha)
        have hap : a ≠ h.ptr prevp := by
          rintro rfl
          exact hfit hbig
        refine hsmall a ha ?_ hbig
        unfold Between at hahead hgap ⊢
        omega

/-- What a request leads to. -/
inductive Allocated (base : ℕ) (owned : ℕ → Prop) (live : Finset ℕ) (units : ℕ)
    (answers : List (Option ℕ)) (h : Heap) : ℕ → List (Option ℕ) → Heap → Prop where
  | found {result : ℕ} {h' : Heap} (htaken : Taken base owned live units result h') :
      Allocated base owned live units answers h result answers h'
  | failed {rest : List (Option ℕ)} (hrest : answers = [] ∧ rest = [] ∨ answers = none :: rest) :
      Allocated base owned live units answers h 0 rest h
  | grown {q result : ℕ} {rest : List (Option ℕ)} {h' : Heap} (hrest : answers = some q :: rest)
      (htaken : Taken base (fun x => owned x ∨ InBlock q (headerSize * units) x) live units
        result h') : Allocated base owned live units answers h result rest h'

include hw hi in
theorem allocLoop_spec (hunits : 0 < units) {answers : List (Option ℕ)}
    (hfresh : ∀ q rest, answers = some q :: rest → Fresh base owned q units) {fuel : ℕ}
    (hfuel : 2 * list.card + 8 < fuel) :
    ∃ result rest h', allocLoop units fuel h.freep (h.ptr h.freep) answers h =
        some (result, rest, h') ∧ Allocated base owned live units answers h result rest h' := by
  rcases allocLoop_search hw hi hunits answers (list.card + 2) fuel h.freep hi.freep
    (.inr (ahead_lt ..)) (by omega) with ⟨result, h', hloop, htaken⟩ |
      ⟨-, hfit, fuel', prevp, hle, hloop⟩
  · exact ⟨_, _, _, hloop, .found htaken⟩
  rw [hloop, allocLoop_wrapped hfit rfl]
  cases answers with
  | nil => exact ⟨_, _, _, rfl, .failed (.inl ⟨rfl, rfl⟩)⟩
  | cons answer rest =>
    cases answer with
    | none => exact ⟨_, _, _, rfl, .failed (.inr rfl)⟩
    | some q =>
      have hf := hfresh q rest rfl
      obtain ⟨hnot, hgrow⟩ := inv_grow hi hunits hf
      obtain ⟨h1, list1, hfree, hinv, hcard, a, ha, hbig⟩ := free_spec hf.away hgrow
        (mem_insert_self q live) (show list.card + 1 < fuel' by omega)
      rw [erase_insert fun hc => hnot (mem_union_right list hc)] at hinv
      have hsize : units ≤ h1.size a := by
        refine Nat.le_trans ?_ hbig
        show units ≤ update h.size q units q
        rw [update_self]
      dsimp only
      rw [hfree]
      -- the block that was freed is big enough, so the second search ends with one
      rcases allocLoop_search hf.away hinv hunits rest (list1.card + 2) fuel' h1.freep hinv.freep
        (.inr (ahead_lt ..)) (by omega) with ⟨result, h2, hloop, htaken⟩ | ⟨hsmall, hfit, -⟩
      · exact ⟨result, rest, h2, hloop, .grown rfl htaken⟩
      have hgap := hinv.circle.gap _ hinv.freep a (mem_insert_of_mem ha)
      have hne : a ≠ h1.freep := by
        rintro rfl
        exact hfit hsize
      refine absurd hsize (hsmall a ha ?_)
      unfold Between at hgap ⊢
      omega

end SeL4Kernel.KRMalloc
