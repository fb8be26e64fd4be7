import Mathlib.Data.List.Perm.Basic
import SeL4Kernel.Lib.ArrayLists

/-!
# Virtqueues

`virtqueue.c` of `libvirtqueue`: a table of descriptors and two rings of indices into it, in memory
that a driver and a device share. The driver links descriptors into a chain and puts the index of
the first one into the available ring. The device takes it from there and puts it into the used
ring, from where it comes back to the driver.

An end of a ring is an index modulo the length of the queue, so equal ends mean that a ring is
empty, or that it is full.
-/

namespace SeL4Kernel.Virtqueue

open Function List

/-- `vq_flags_t`. -/
inductive VqFlags where
  | read
  | write
  | rw
  deriving DecidableEq, Repr

/-- What a descriptor says about memory. -/
structure Buf where
  addr : ℕ
  len : ℕ
  flags : VqFlags
  deriving DecidableEq, Repr

/-- `vq_vring_desc_t`. -/
structure Desc where
  buf : Buf
  next : ℕ
  deriving DecidableEq, Repr

/-- `vq_vring_used_elem_t`. -/
structure UsedElem where
  id : ℕ
  len : ℕ
  deriving DecidableEq, Repr

/-- The memory that is shared, and the own data of `virtqueue_driver_t` and `virtqueue_device_t`. -/
structure Vq where
  queueLen : ℕ
  desc : ℕ → Desc
  availIdx : ℕ
  availRing : ℕ → ℕ
  usedIdx : ℕ
  usedRing : ℕ → UsedElem
  freeDescHead : ℕ
  uRingLastSeen : ℕ
  aRingLastSeen : ℕ

/-- `virtqueue_ring_object_t`. -/
structure RingObject where
  cur : ℕ
  first : ℕ
  deriving DecidableEq, Repr

/-- `virtqueue_init_driver` and `virtqueue_init_device`. -/
def init (queueLen : ℕ) : Vq where
  queueLen := queueLen
  desc := fun i => ⟨⟨0, 0, .read⟩, i + 1⟩
  availIdx := 0
  availRing := fun _ => 0
  usedIdx := 0
  usedRing := fun _ => ⟨0, 0⟩
  freeDescHead := 0
  uRingLastSeen := queueLen - 1
  aRingLastSeen := queueLen - 1

/-- `virtqueue_init_ring_object`. -/
def initRingObject : RingObject := ⟨2 ^ 32 - 1, 2 ^ 32 - 1⟩

/-! ### The driver -/

def vqAddDesc (buf : Buf) (prev : ℕ) (vq : Vq) : ℕ × Vq :=
  let new := vq.freeDescHead
  if new = vq.queueLen then (new, vq)
  else
    let desc := update vq.desc new ⟨buf, vq.queueLen⟩
    let desc := if prev < vq.queueLen then
      update desc prev { desc prev with next := new } else desc
    (new, { vq with freeDescHead := (vq.desc new).next, desc := desc })

/-- `vq_pop_desc`, with the descriptor behind and the buffer. -/
def vqPopDesc (idx : ℕ) (vq : Vq) : (ℕ × Buf) × Vq :=
  let desc := vq.desc idx
  ((desc.next, desc.buf),
    { vq with
      desc := update vq.desc idx { desc with next := vq.freeDescHead }
      freeDescHead := idx })

/-- `virtqueue_add_available_buf`; `none` is the result 0. -/
def addAvailableBuf (obj : RingObject) (buf : Buf) (vq : Vq) : Option (RingObject × Vq) :=
  let (idx, vq) := vqAddDesc buf obj.cur vq
  if idx = vq.queueLen then none
  else if obj.first ≥ vq.queueLen then
    some (⟨idx, idx⟩,
      { vq with
        availRing := update vq.availRing vq.availIdx idx
        availIdx := (vq.availIdx + 1) &&& (vq.queueLen - 1) })
  else some ({ obj with cur := idx }, vq)

/-- `virtqueue_get_used_buf`. -/
def getUsedBuf (vq : Vq) : Option (RingObject × ℕ × Vq) :=
  let next := (vq.uRingLastSeen + 1) &&& (vq.queueLen - 1)
  if next = vq.usedIdx then none
  else
    let elem := vq.usedRing next
    some (⟨elem.id, elem.id⟩, elem.len, { vq with uRingLastSeen := next })

/-- `virtqueue_gather_used`. -/
def gatherUsed (robj : RingObject) (vq : Vq) : Option (Buf × RingObject × Vq) :=
  if robj.cur ≥ vq.queueLen then none
  else
    let ((next, buf), vq) := vqPopDesc robj.cur vq
    some (buf, { robj with cur := next }, vq)

/-! ### The device -/

/-- `virtqueue_get_available_buf`. -/
def getAvailableBuf (vq : Vq) : Option (RingObject × Vq) :=
  let next := (vq.aRingLastSeen + 1) &&& (vq.queueLen - 1)
  if next = vq.availIdx then none
  else
    let first := vq.availRing next
    some (⟨first, first⟩, { vq with aRingLastSeen := next })

/-- `virtqueue_gather_available`. -/
def gatherAvailable (robj : RingObject) (vq : Vq) : Option (Buf × RingObject) :=
  if robj.cur ≥ vq.queueLen then none
  else some ((vq.desc robj.cur).buf, { robj with cur := (vq.desc robj.cur).next })

/-- `virtqueue_add_used_buf`. -/
def addUsedBuf (first len : ℕ) (vq : Vq) : Vq :=
  { vq with
    usedRing := update vq.usedRing vq.usedIdx ⟨first, len⟩
    usedIdx := (vq.usedIdx + 1) &&& (vq.queueLen - 1) }

/-! ### Whole chains -/

/-- A chain is built until a buffer is refused; the result has the buffers that were taken. -/
def addBufs : List Buf → RingObject → Vq → List Buf × Vq
  | [], _, vq => ([], vq)
  | buf :: bufs, obj, vq =>
    match addAvailableBuf obj buf vq with
    | none => ([], vq)
    | some (obj, vq) =>
      let (taken, vq) := addBufs bufs obj vq
      (buf :: taken, vq)

/-- The device gathers until there is no buffer; `none` when there is no end. -/
def gatherAllAvailable : ℕ → RingObject → Vq → Option (List Buf)
  | 0, _, _ => none
  | fuel + 1, robj, vq =>
    match gatherAvailable robj vq with
    | none => some []
    | some (buf, robj) => (gatherAllAvailable fuel robj vq).map (buf :: ·)

/-- The driver gathers until there is no buffer; `none` when there is no end. -/
def gatherAllUsed : ℕ → RingObject → Vq → Option (List Buf × Vq)
  | 0, _, _ => none
  | fuel + 1, robj, vq =>
    match gatherUsed robj vq with
    | none => some ([], vq)
    | some (buf, robj, vq) =>
      (gatherAllUsed fuel robj vq).map fun (bufs, vq) => (buf :: bufs, vq)

/-! ### The table -/

/-- Descriptors that are linked, and their buffers. -/
structure Chain where
  ixs : List ℕ
  bufs : List Buf

/-- The index of the first descriptor. -/
def Chain.head (n : ℕ) (c : Chain) : ℕ := c.ixs.headD n

/-- The links of a table. -/
def nextOf (desc : ℕ → Desc) (i : ℕ) : ℕ := (desc i).next

/-- The table has the chain. -/
structure Spells (desc : ℕ → Desc) (n : ℕ) (c : Chain) : Prop where
  links : Follows (nextOf desc) n (c.head n) c.ixs
  bufs : c.ixs.map (fun i => (desc i).buf) = c.bufs

/-- The table has the free list and the chains, and no descriptor is in two of them. -/
structure Table (desc : ℕ → Desc) (n free : ℕ) (frees : List ℕ) (cs : List Chain) : Prop where
  links : Follows (nextOf desc) n free frees
  spells : ∀ c ∈ cs, Spells desc n c
  nodup : (frees ++ cs.flatMap Chain.ixs).Nodup
  lt : ∀ i ∈ frees ++ cs.flatMap Chain.ixs, i < n

variable {desc desc' : ℕ → Desc} {n free i z y : ℕ} {frees ixs : List ℕ} {cs cs' : List Chain}
  {c : Chain} {bufs : List Buf} {buf : Buf}

theorem Spells.congr (h : Spells desc n c) (heq : ∀ i ∈ c.ixs, desc' i = desc i) :
    Spells desc' n c where
  links := h.links.congr fun i hi => by rw [nextOf, heq i hi, nextOf]
  bufs := by
    rw [← h.bufs]
    exact map_congr_left fun i hi => by rw [heq i hi]

theorem Table.perm (h : Table desc n free frees cs) (hperm : cs.Perm cs') :
    Table desc n free frees cs' := by
  have hflat : (frees ++ cs.flatMap Chain.ixs).Perm (frees ++ cs'.flatMap Chain.ixs) :=
    (hperm.flatMap_right _).append_left _
  exact ⟨h.links, fun c hc => h.spells c (hperm.mem_iff.2 hc), hflat.nodup_iff.1 h.nodup,
    fun i hi => h.lt i (hflat.mem_iff.2 hi)⟩

/-- An empty chain may be left out. -/
theorem Table.drop_nil (h : Table desc n free frees (⟨[], bufs⟩ :: cs)) :
    Table desc n free frees cs :=
  ⟨h.links, fun c hc => h.spells c (mem_cons_of_mem _ hc), h.nodup, h.lt⟩

theorem table_init (n : ℕ) : Table (init n).desc n 0 (List.range n) [] where
  links := by
    have h : Follows (nextOf (init n).desc) (0 + n) 0 (List.range' 0 n) :=
      Follows.range n fun _ => rfl
    rw [Nat.zero_add] at h
    rw [range_eq_range']
    exact h
  spells := by simp
  nodup := by simpa using nodup_range
  lt := by simp

theorem mem_flatMap_ixs (hc : c ∈ cs) (hi : i ∈ c.ixs) :
    i ∈ cs.flatMap Chain.ixs := mem_flatMap.2 ⟨c, hc, hi⟩

variable (h : Table desc n free (z :: frees) cs)

include h

/-- The first free descriptor is in no other place. -/
theorem Table.head_free : free = z ∧ z < n ∧ z ∉ frees ∧ ∀ c ∈ cs, z ∉ c.ixs := by
  have hnodup := h.nodup
  rw [cons_append, nodup_cons] at hnodup
  refine ⟨h.links.1, h.lt z mem_cons_self, fun hc => hnodup.1 (mem_append_left _ hc), ?_⟩
  intro c hc hz
  exact hnodup.1 (mem_append_right _ (mem_flatMap_ixs hc hz))

theorem Table.ne_of_free (hc : c ∈ cs) (hi : i ∈ c.ixs) : i ≠ z := by
  rintro rfl
  exact h.head_free.2.2.2 c hc hi

/-- A free descriptor becomes a chain. -/
theorem Table.alloc (buf : Buf) :
    Table (update desc z ⟨buf, n⟩) n (desc z).next frees (⟨[z], [buf]⟩ :: cs) := by
  obtain ⟨-, hlt, hnot, hfree⟩ := h.head_free
  have hother : ∀ {i}, i ≠ z → update desc z ⟨buf, n⟩ i = desc i := fun hi => update_of_ne hi _ _
  refine ⟨?_, ?_, ?_, ?_⟩
  · refine h.links.2.congr fun i hi => ?_
    rw [nextOf, hother fun hc => hnot (hc ▸ hi), nextOf]
  · intro c hc
    rcases mem_cons.1 hc with rfl | hc
    · refine ⟨⟨rfl, ?_⟩, ?_⟩
      · change (update desc z ⟨buf, n⟩ z).next = n
        rw [update_self]
      · change [(update desc z ⟨buf, n⟩ z).buf] = [buf]
        rw [update_self]
    · exact (h.spells c hc).congr fun i hi => hother (h.ne_of_free hc hi)
  · have hperm : (z :: frees ++ cs.flatMap Chain.ixs).Perm
        (frees ++ (⟨[z], [buf]⟩ :: cs).flatMap Chain.ixs) := by
      exact perm_middle.symm
    exact hperm.nodup_iff.1 h.nodup
  · intro i hi
    refine h.lt i ?_
    simp only [flatMap_cons, mem_append, mem_cons, not_mem_nil, or_false]
      at hi ⊢
    tauto

omit h

/-- A chain of one descriptor is linked behind another chain. -/
theorem Table.link (h : Table desc n free frees (⟨[z], [buf]⟩ :: ⟨ixs ++ [y], bufs⟩ :: cs)) :
    Table (update desc y { desc y with next := z }) n free frees
      (⟨ixs ++ [y, z], bufs ++ [buf]⟩ :: cs) := by
  have hperm : (frees ++ z :: ((ixs ++ [y]) ++ cs.flatMap Chain.ixs)).Perm
      (frees ++ ((ixs ++ [y, z]) ++ cs.flatMap Chain.ixs)) := by
    have hmid := (@perm_middle _ z (ixs ++ [y]) (cs.flatMap Chain.ixs)).symm
    simp only [append_assoc, cons_append, nil_append] at hmid ⊢
    exact hmid.append_left _
  have hnodup := hperm.nodup_iff.1 h.nodup
  rw [append_assoc, ← append_assoc, cons_append, nodup_middle, nodup_cons] at hnodup
  simp only [cons_append, nil_append, mem_append, mem_cons, not_or] at hnodup
  obtain ⟨⟨⟨hyfree, hyixs⟩, hyz, hycs⟩, -⟩ := hnodup
  have hother : ∀ {i}, i ≠ y → update desc y { desc y with next := z } i = desc i :=
    fun hi => update_of_ne hi _ _
  have hbuf : ∀ i, (update desc y { desc y with next := z } i).buf = (desc i).buf := by
    intro i
    by_cases hi : i = y
    · rw [hi, update_self]
    · rw [hother hi]
  have hlast := h.spells ⟨[z], [buf]⟩ mem_cons_self
  have hchain := h.spells ⟨ixs ++ [y], bufs⟩ (by simp)
  refine ⟨?_, ?_, hperm.nodup_iff.1 h.nodup, fun i hi => h.lt i (hperm.mem_iff.2 hi)⟩
  · refine h.links.congr fun i hi => ?_
    rw [nextOf, hother fun hc => hyfree (hc ▸ hi), nextOf]
  intro c hc
  rcases mem_cons.1 hc with rfl | hcs
  · refine ⟨?_, ?_⟩
    · have hhead : Chain.head n ⟨ixs ++ [y, z], bufs ++ [buf]⟩ =
          Chain.head n ⟨ixs ++ [y], bufs⟩ := by
        cases ixs <;> rfl
      rw [hhead]
      refine hchain.links.snoc ?_ ?_ ?_
      · intro i hi
        rw [nextOf, hother fun hc => hyixs (hc ▸ hi), nextOf]
      · rw [nextOf, update_self]
      · rw [nextOf, hother (Ne.symm hyz)]
        exact hlast.links.2
    · have hbufs : bufs = _ := hchain.bufs.symm
      have hz : [buf] = _ := hlast.bufs.symm
      simp only [hbuf, hbufs, hz, ← map_append, append_assoc]
      rfl
  · refine (h.spells c (by simp [hcs])).congr fun i hi => hother ?_
    rintro rfl
    exact hycs (mem_flatMap_ixs hcs hi)

/-- A free descriptor is linked behind a chain. -/
theorem Table.append (h : Table desc n free (z :: frees) (⟨ixs ++ [y], bufs⟩ :: cs)) (buf : Buf) :
    Table (update (update desc z ⟨buf, n⟩) y
        { update desc z ⟨buf, n⟩ y with next := z }) n (desc z).next frees
      (⟨ixs ++ [y, z], bufs ++ [buf]⟩ :: cs) := (h.alloc buf).link

/-- The first descriptor of a chain becomes free. -/
theorem Table.release (h : Table desc n free frees (⟨i :: ixs, buf :: bufs⟩ :: cs)) :
    (desc i).buf = buf ∧ (desc i).next = ixs.headD n ∧ i < n ∧
      Table (update desc i { desc i with next := free }) n i (i :: frees)
        (⟨ixs, bufs⟩ :: cs) := by
  have hchain := h.spells _ mem_cons_self
  have hbufs : (desc i).buf :: ixs.map (fun j => (desc j).buf) = buf :: bufs := hchain.bufs
  have hlinks : Follows (nextOf desc) n ((desc i).next) ixs := hchain.links.2
  have hnext : (desc i).next = ixs.headD n := by
    cases ixs with
    | nil => exact hlinks
    | cons j ixs => exact hlinks.1
  have hperm : (frees ++ (⟨i :: ixs, buf :: bufs⟩ :: cs).flatMap Chain.ixs).Perm
      (i :: frees ++ (⟨ixs, bufs⟩ :: cs).flatMap Chain.ixs) := by
    exact perm_middle
  have hnodup := hperm.nodup_iff.1 h.nodup
  rw [cons_append, nodup_cons] at hnodup
  have hifree : i ∉ frees := fun hc => hnodup.1 (mem_append_left _ hc)
  have hiixs : i ∉ ixs := fun hc => hnodup.1 (mem_append_right _ (mem_append_left _ hc))
  have hics : ∀ c ∈ cs, i ∉ c.ixs := fun c hc hi =>
    hnodup.1 (mem_append_right _ (mem_append_right _ (mem_flatMap_ixs hc hi)))
  have hother : ∀ {j}, j ≠ i → update desc i { desc i with next := free } j = desc j :=
    fun hj => update_of_ne hj _ _
  refine ⟨(List.cons.inj hbufs).1, hnext, ?_, ?_, ?_, ?_, ?_⟩
  · exact h.lt i (mem_append_right _ (mem_flatMap_ixs mem_cons_self mem_cons_self))
  · refine ⟨rfl, ?_⟩
    rw [nextOf, update_self]
    refine h.links.congr fun j hj => ?_
    rw [nextOf, hother fun hc => hifree (hc ▸ hj), nextOf]
  · intro c hc
    rcases mem_cons.1 hc with rfl | hcs
    · refine Spells.congr ⟨?_, (List.cons.inj hbufs).2⟩ fun j hj => hother fun hc => hiixs (hc ▸ hj)
      rw [hnext] at hlinks
      exact hlinks
    · refine (h.spells c (mem_cons_of_mem _ hcs)).congr fun j hj => hother ?_
      rintro rfl
      exact hics c hcs hj
  · rw [cons_append, nodup_cons]
    exact hnodup
  · exact fun j hj => h.lt j (hperm.mem_iff.2 hj)

end SeL4Kernel.Virtqueue
