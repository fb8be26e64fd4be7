import SeL4Kernel.Lib.Chain
import SeL4Kernel.Object.CNode

/-!
# What the operations do to the mapping database

The pointers of the mapping database after each function that inserts, moves or swaps a slot,
node by node. They stay linked: the node of an empty slot is null, next and previous nodes
point at each other, and no chain closes on itself (`MdbInv`). Moving and swapping rename
slots, and change nothing else.
-/

namespace SeL4Kernel

open Function CSpace Equiv

variable (c : Cap) (n : MdbNode)

namespace CSpace

def next (cs : CSpace) (slot : Slot) : Option Slot := (cs.mdb slot).mdbNext

def prev (cs : CSpace) (slot : Slot) : Option Slot := (cs.mdb slot).mdbPrev

variable (cs : CSpace) (slot s : Slot) (ptr p : Option Slot)

@[simp] theorem next_setCap : (cs.setCap slot c).next = cs.next := rfl

@[simp] theorem prev_setCap : (cs.setCap slot c).prev = cs.prev := rfl

@[simp] theorem next_setMdb : (cs.setMdb slot n).next = update cs.next slot n.mdbNext :=
  comp_update MdbNode.mdbNext cs.mdb slot n

@[simp] theorem prev_setMdb : (cs.setMdb slot n).prev = update cs.prev slot n.mdbPrev :=
  comp_update MdbNode.mdbPrev cs.mdb slot n

theorem mdb_setMdbNext : (cs.setMdbNext ptr p).mdb s =
    if ptr = some s then { cs.mdb s with mdbNext := p } else cs.mdb s := by
  cases ptr with
  | none => rfl
  | some a =>
    by_cases h : a = s
    · subst h
      simp [setMdbNext]
    · simp [setMdbNext, h, Ne.symm h]

theorem mdb_setMdbPrev : (cs.setMdbPrev ptr p).mdb s =
    if ptr = some s then { cs.mdb s with mdbPrev := p } else cs.mdb s := by
  cases ptr with
  | none => rfl
  | some a =>
    by_cases h : a = s
    · subst h
      simp [setMdbPrev]
    · simp [setMdbPrev, h, Ne.symm h]

@[simp] theorem next_setMdbNext :
    (cs.setMdbNext ptr p).next s = if ptr = some s then p else cs.next s := by
  rw [next, mdb_setMdbNext]
  split <;> rfl

@[simp] theorem prev_setMdbNext : (cs.setMdbNext ptr p).prev = cs.prev := by
  funext s
  rw [prev, mdb_setMdbNext]
  split <;> rfl

@[simp] theorem prev_setMdbPrev :
    (cs.setMdbPrev ptr p).prev s = if ptr = some s then p else cs.prev s := by
  rw [prev, mdb_setMdbPrev]
  split <;> rfl

@[simp] theorem next_setMdbPrev : (cs.setMdbPrev ptr p).next = cs.next := by
  funext s
  rw [next, mdb_setMdbPrev]
  split <;> rfl

end CSpace

/-- The mapping database is linked, and empty slots are not part of it. -/
structure MdbInv (cs : CSpace) : Prop where
  linked : Linked cs.next cs.prev
  empty : ∀ slot, cs.cap slot = .null → cs.mdb slot = nullMDBNode

namespace MdbInv

variable {cs : CSpace} {slot a b : Slot} (h : MdbInv cs)

include h

theorem next_eq_none (hnull : cs.cap slot = .null) : cs.next slot = none := by
  rw [next, h.empty slot hnull]
  rfl

theorem prev_eq_none (hnull : cs.cap slot = .null) : cs.prev slot = none := by
  rw [prev, h.empty slot hnull]
  rfl

/-- What follows another slot is not empty. -/
theorem cap_ne_null_of_next (hab : cs.next a = some b) : cs.cap b ≠ .null := by
  intro hnull
  have hb := (h.linked.paired a b).1 hab
  rw [h.prev_eq_none hnull] at hb
  cases hb

theorem cap_ne_null_of_prev (hab : cs.prev b = some a) : cs.cap a ≠ .null := by
  intro hnull
  have ha := (h.linked.paired a b).2 hab
  rw [h.next_eq_none hnull] at ha
  cases ha

end MdbInv

/-! ### Writing nodes -/

/-- The two flags of a node. -/
def CSpace.flags (cs : CSpace) (slot : Slot) : Bool × Bool :=
  ((cs.mdb slot).mdbRevocable, (cs.mdb slot).mdbFirstBadged)

/-- A node is known by its pointers and its flags. -/
theorem mdb_eq_of_parts {cs : CSpace} {slot : Slot} {n : MdbNode}
    (hnext : cs.next slot = n.mdbNext) (hprev : cs.prev slot = n.mdbPrev)
    (hflags : cs.flags slot = (n.mdbRevocable, n.mdbFirstBadged)) : cs.mdb slot = n := by
  have hr : (cs.mdb slot).mdbRevocable = n.mdbRevocable := congrArg Prod.fst hflags
  have hf : (cs.mdb slot).mdbFirstBadged = n.mdbFirstBadged := congrArg Prod.snd hflags
  unfold next at hnext
  unfold prev at hprev
  generalize cs.mdb slot = m at hnext hprev hr hf
  cases m
  simp_all

@[simp] theorem flags_setCap (cs : CSpace) (slot : Slot) :
    (cs.setCap slot c).flags = cs.flags := rfl

@[simp] theorem flags_setMdb (cs : CSpace) (slot : Slot) :
    (cs.setMdb slot n).flags = update cs.flags slot (n.mdbRevocable, n.mdbFirstBadged) :=
  comp_update (fun n : MdbNode => (n.mdbRevocable, n.mdbFirstBadged)) cs.mdb slot n

/-- The flags are not changed by writing pointers. -/
@[simp] theorem flags_setMdbNext (cs : CSpace) (ptr p : Option Slot) :
    (cs.setMdbNext ptr p).flags = cs.flags := by
  funext s
  rw [flags, mdb_setMdbNext]
  split <;> rfl

@[simp] theorem flags_setMdbPrev (cs : CSpace) (ptr p : Option Slot) :
    (cs.setMdbPrev ptr p).flags = cs.flags := by
  funext s
  rw [flags, mdb_setMdbPrev]
  split <;> rfl

/-! ### Inserting -/

section Insert

variable {cs : CSpace} {newCap : Cap} {src dest : Slot}

theorem mdb_setUntypedCapAsFull (srcCap newCap : Cap) (srcSlot : Slot) :
    (setUntypedCapAsFull srcCap newCap srcSlot cs).mdb = cs.mdb := by
  unfold setUntypedCapAsFull
  split
  · split <;> rfl
  · rfl

theorem setUntypedCapAsFull_eq_null {slot : Slot} (srcCap newCap : Cap) (srcSlot : Slot)
    (cs : CSpace) (hsrc : cs.cap srcSlot = srcCap) :
    (setUntypedCapAsFull srcCap newCap srcSlot cs).cap slot = .null ↔ cs.cap slot = .null := by
  unfold setUntypedCapAsFull
  split
  · split
    · by_cases hs : slot = srcSlot
      · subst hs
        simp [hsrc]
      · simp [hs]
    · rfl
  · rfl

theorem cap_cteInsert :
    (cteInsert newCap src dest cs).cap = update
      (setUntypedCapAsFull (cs.cap src) newCap src cs).cap dest newCap := by
  unfold cteInsert
  rw [cap_setMdbPrev, cap_setMdbNext, cap_setMdb, cap_setCap]

theorem next_cteInsert (hne : dest ≠ src) (s : Slot) :
    (cteInsert newCap src dest cs).next s =
      if s = src then some dest else if s = dest then cs.next src else cs.next s := by
  have hcs : (setUntypedCapAsFull (cs.cap src) newCap src cs).next = cs.next := by
    funext slot
    rw [next, mdb_setUntypedCapAsFull]
    rfl
  unfold cteInsert
  rw [next_setMdbPrev, next_setMdbNext, next_setMdb, next_setCap, hcs, update_apply]
  by_cases hs : s = src
  · subst hs
    rw [if_pos rfl, if_pos rfl]
  · rw [if_neg (fun h => hs (Option.some.inj h).symm), if_neg hs]
    rfl

theorem prev_cteInsert (hnext : cs.next src ≠ some dest) (s : Slot) :
    (cteInsert newCap src dest cs).prev s =
      if s = dest then some src else if cs.next src = some s then some dest else cs.prev s := by
  have hcs : (setUntypedCapAsFull (cs.cap src) newCap src cs).prev = cs.prev := by
    funext slot
    rw [prev, mdb_setUntypedCapAsFull]
    rfl
  unfold cteInsert
  rw [prev_setMdbPrev, prev_setMdbNext, prev_setMdb, prev_setCap, hcs, update_apply]
  change (if cs.next src = some s then _ else _) = _
  by_cases hs : s = dest
  · subst hs
    rw [if_neg hnext, if_pos rfl, if_pos rfl]
  · rw [if_neg hs, if_neg hs]

theorem mdbInv_cteInsert (h : MdbInv cs) (hdest : cs.cap dest = .null)
    (hsrc : cs.cap src ≠ .null) (hnew : newCap ≠ .null) :
    MdbInv (cteInsert newCap src dest cs) := by
  have hne : dest ≠ src := by
    rintro rfl
    exact hsrc hdest
  have hnext : cs.next src ≠ some dest := fun hn => h.cap_ne_null_of_next hn hdest
  constructor
  · exact h.linked.insert hne (h.next_eq_none hdest) (h.prev_eq_none hdest)
      (next_cteInsert hne) (prev_cteInsert hnext)
  intro slot hslot
  rw [cap_cteInsert] at hslot
  have hsd : slot ≠ dest := by
    rintro rfl
    rw [update_self] at hslot
    exact hnew hslot
  rw [update_of_ne hsd, setUntypedCapAsFull_eq_null _ _ _ _ rfl] at hslot
  have hss : slot ≠ src := by
    rintro rfl
    exact hsrc hslot
  have hn : (cs.mdb src).mdbNext ≠ some slot := fun hn => h.cap_ne_null_of_next hn hslot
  unfold cteInsert
  rw [mdb_setMdbPrev, if_neg hn, mdb_setMdbNext,
    if_neg (fun he => hss (Option.some.inj he).symm), mdb_setMdb, update_of_ne hsd, mdb_setCap,
    mdb_setUntypedCapAsFull]
  exact h.empty slot hslot

end Insert

/-! ### Moving and swapping -/

/-- A node after its slots are renamed. -/
def MdbNode.relabel (e : Slot → Slot) (n : MdbNode) : MdbNode :=
  { n with mdbNext := n.mdbNext.map e, mdbPrev := n.mdbPrev.map e }

/-- The slots are renamed by `e`. -/
def Relabelled (e : Slot ≃ Slot) (cs cs' : CSpace) : Prop :=
  ∀ slot, cs'.mdb (e slot) = (cs.mdb slot).relabel e

namespace Relabelled

variable {e : Slot ≃ Slot} {cs cs' : CSpace} (h : Relabelled e cs cs')

include h

theorem next (s : Slot) : cs'.next (e s) = (cs.next s).map e := by
  rw [CSpace.next, h s]
  rfl

theorem prev (s : Slot) : cs'.prev (e s) = (cs.prev s).map e := by
  rw [CSpace.prev, h s]
  rfl

/-- The slots that are empty were so under their old names. -/
theorem mdbInv (hinv : MdbInv cs) (hcap : ∀ s, cs'.cap (e s) = .null → cs.cap s = .null) :
    MdbInv cs' := by
  refine ⟨hinv.linked.relabel e h.next h.prev, fun slot hslot => ?_⟩
  obtain ⟨s, rfl⟩ := e.surjective slot
  rw [h s, hinv.empty s (hcap s hslot)]
  rfl

end Relabelled

theorem map_swap_of_ne {a b : Slot} {o : Option Slot} (ha : o ≠ some a) (hb : o ≠ some b) :
    o.map (swap a b) = o := by
  cases o with
  | none => rfl
  | some s =>
    have hsa : s ≠ a := fun he => ha (by rw [he])
    have hsb : s ≠ b := fun he => hb (by rw [he])
    simp [swap_apply_of_ne_of_ne hsa hsb]

section Move

variable {cs : CSpace} {newCap cap1 cap2 : Cap} {src dest slot1 slot2 : Slot}

theorem relabelled_cteMove (h : MdbInv cs) (hdest : cs.cap dest = .null) (hne : src ≠ dest) :
    Relabelled (swap src dest) cs (cteMove newCap src dest cs) := by
  have hnd : ∀ s, cs.next s ≠ some dest := fun s hs => h.cap_ne_null_of_next hs hdest
  have hpd : ∀ s, cs.prev s ≠ some dest := fun s hs => h.cap_ne_null_of_prev hs hdest
  have hns : cs.next src ≠ some src := fun hs => h.linked.ne_of_next hs rfl
  have hps : cs.prev src ≠ some src := fun hs => hns ((h.linked.paired src src).2 hs)
  have hnext : ∀ s, (cteMove newCap src dest cs).next s =
      if cs.prev src = some s then some dest
      else if s = src then none else if s = dest then cs.next src else cs.next s := by
    intro s
    unfold cteMove
    rw [next_setMdbPrev, next_setMdbNext, next_setMdb, next_setMdb,
      next_setCap, next_setCap, update_apply, update_apply]
    rfl
  have hprev : ∀ s, (cteMove newCap src dest cs).prev s =
      if cs.next src = some s then some dest
      else if s = src then none else if s = dest then cs.prev src else cs.prev s := by
    intro s
    unfold cteMove
    rw [prev_setMdbPrev, prev_setMdbNext, prev_setMdb, prev_setMdb,
      prev_setCap, prev_setCap, update_apply, update_apply]
    rfl
  have hflags : ∀ s, (cteMove newCap src dest cs).flags s =
      if s = src then (false, false) else if s = dest then cs.flags src else cs.flags s := by
    intro s
    unfold cteMove
    rw [flags_setMdbPrev, flags_setMdbNext, flags_setMdb, flags_setMdb, flags_setCap,
      flags_setCap, update_apply, update_apply]
    rfl
  intro s
  by_cases hs : s = src
  · -- the node that moves
    subst hs
    rw [swap_apply_left]
    apply mdb_eq_of_parts
    · rw [hnext, if_neg (hpd s), if_neg hne.symm, if_pos rfl]
      exact (map_swap_of_ne hns (hnd s)).symm
    · rw [hprev, if_neg (hnd s), if_neg hne.symm, if_pos rfl]
      exact (map_swap_of_ne hps (hpd s)).symm
    · rw [hflags, if_neg hne.symm, if_pos rfl]
      rfl
  · by_cases hd : s = dest
    · subst hd
      rw [swap_apply_right, h.empty s hdest]
      apply mdb_eq_of_parts
      · rw [hnext, if_neg hps, if_pos rfl]
        rfl
      · rw [hprev, if_neg hns, if_pos rfl]
        rfl
      · rw [hflags, if_pos rfl]
        rfl
    · rw [swap_apply_of_ne_of_ne hs hd]
      have hsn := h.linked.paired s src
      have hsp := h.linked.paired src s
      apply mdb_eq_of_parts
      · rw [hnext]
        split
        · rename_i hp
          rw [MdbNode.relabel, show (cs.mdb s).mdbNext = some src from hsn.2 hp]
          simp
        · rename_i hp
          exact (map_swap_of_ne (fun hn => hp (hsn.1 hn)) (hnd s)).symm
      · rw [hprev]
        split
        · rename_i hn
          rw [MdbNode.relabel, show (cs.mdb s).mdbPrev = some src from hsp.1 hn]
          simp
        · rename_i hn
          exact (map_swap_of_ne (fun hp => hn (hsp.2 hp)) (hpd s)).symm
      · rw [hflags, if_neg hs, if_neg hd]
        rfl

/-- The pointers that `cteSwap` leaves in one direction are those of renamed slots; `prev'`
is the pointer of the second slot in the other direction when it is read. -/
theorem swapped_pointer {next prev next' : Slot → Option Slot} (h : Paired next prev)
    (hself : ∀ s, next s ≠ some s) (hne : slot1 ≠ slot2)
    (hnext : ∀ s, next' s =
      if (if next slot1 = some slot2 then some slot2 else prev slot2) = some s then some slot1
      else if s = slot2 then next slot1
      else if s = slot1 then (if prev slot1 = some slot2 then some slot2 else next slot2)
      else if prev slot1 = some s then some slot2 else next s) (s : Slot) :
    next' (swap slot1 slot2 s) = (next s).map (swap slot1 slot2) := by
  have hself' : ∀ s, prev s ≠ some s := fun s hs => hself s ((h s s).2 hs)
  have h12 := h slot1 slot2
  have h21 := h slot2 slot1
  by_cases hs1 : s = slot1
  · subst hs1
    rw [swap_apply_left, hnext]
    by_cases hn : next s = some slot2
    · rw [hn]
      simp
    · rw [if_neg hn, if_neg (hself' slot2), if_pos rfl, map_swap_of_ne (hself s) hn]
  · by_cases hs2 : s = slot2
    · subst hs2
      have hread : (if next slot1 = some s then some s else prev s) ≠ some slot1 := by
        split
        · exact fun he => hne (Option.some.inj he).symm
        · rename_i hn
          exact fun hp => hn (h12.2 hp)
      rw [swap_apply_right, hnext, if_neg hread, if_neg hne, if_pos rfl]
      split
      next hp =>
        rw [h21.2 hp]
        simp
      next hp => rw [map_swap_of_ne (fun hn => hp (h21.1 hn)) (hself s)]
    · have hs1' := h s slot1
      have hs2' := h s slot2
      rw [swap_apply_of_ne_of_ne hs1 hs2, hnext, if_neg hs2, if_neg hs1]
      by_cases hn1 : next s = some slot1
      · have hread : (if next slot1 = some slot2 then some slot2 else prev slot2) ≠ some s := by
          split
          · exact fun he => hs2 (Option.some.inj he).symm
          · intro hp
            rw [hs2'.2 hp] at hn1
            exact hne (Option.some.inj hn1).symm
        rw [if_neg hread, if_pos (hs1'.1 hn1), hn1]
        simp
      · by_cases hn2 : next s = some slot2
        · have hread : next slot1 ≠ some slot2 := fun hn => hs1 (h.eq_of_eq hn2 hn)
          rw [if_neg hread, if_pos (hs2'.1 hn2), hn2]
          simp
        · have hread : (if next slot1 = some slot2 then some slot2 else prev slot2) ≠ some s := by
            split
            · exact fun he => hs2 (Option.some.inj he).symm
            · exact fun hp => hn2 (hs2'.2 hp)
          rw [if_neg hread, if_neg (fun hp => hn1 (hs1'.2 hp)), map_swap_of_ne hn1 hn2]

theorem relabelled_cteSwap (h : Linked cs.next cs.prev) (hne : slot1 ≠ slot2) :
    Relabelled (swap slot1 slot2) cs (cteSwap cap1 slot1 cap2 slot2 cs) := by
  have hself : ∀ s, cs.next s ≠ some s := fun s hs => h.ne_of_next hs rfl
  have hself' : ∀ s, cs.prev s ≠ some s := fun s hs => hself s ((h.paired s s).2 hs)
  -- the node of the second slot is read after the neighbours of the first are updated
  have hnext : ∀ s, (cteSwap cap1 slot1 cap2 slot2 cs).next s =
      if (if cs.next slot1 = some slot2 then some slot2 else cs.prev slot2) = some s then some slot1
      else if s = slot2 then cs.next slot1
      else if s = slot1 then (if cs.prev slot1 = some slot2 then some slot2 else cs.next slot2)
      else if cs.prev slot1 = some s then some slot2 else cs.next s := by
    intro s
    unfold cteSwap
    rw [next_setMdbPrev, next_setMdbNext, ← prev, ← prev,
      prev_setMdbPrev, prev_setMdbNext, prev_setCap, prev_setCap,
      next_setMdb, next_setMdb, update_apply, update_apply,
      ← next, ← next, next_setMdbPrev, next_setMdbNext,
      next_setMdbNext, next_setCap, next_setCap]
  have hprev : ∀ s, (cteSwap cap1 slot1 cap2 slot2 cs).prev s =
      if (if cs.prev slot1 = some slot2 then some slot2 else cs.next slot2) = some s then some slot1
      else if s = slot2 then cs.prev slot1
      else if s = slot1 then (if cs.next slot1 = some slot2 then some slot2 else cs.prev slot2)
      else if cs.next slot1 = some s then some slot2 else cs.prev s := by
    intro s
    unfold cteSwap
    rw [prev_setMdbPrev, prev_setMdbNext, ← next, ← next,
      next_setMdbPrev, next_setMdbNext, next_setCap, next_setCap,
      prev_setMdb, prev_setMdb, update_apply, update_apply,
      ← prev, ← prev, prev_setMdbPrev, prev_setMdbPrev,
      prev_setMdbNext, prev_setCap, prev_setCap]
  have hflags : ∀ s, (cteSwap cap1 slot1 cap2 slot2 cs).flags s =
      if s = slot2 then cs.flags slot1 else if s = slot1 then cs.flags slot2 else cs.flags s := by
    intro s
    unfold cteSwap
    rw [flags_setMdbPrev, flags_setMdbNext, flags_setMdb, flags_setMdb, ← flags,
      ← flags, flags_setMdbPrev, flags_setMdbNext, flags_setCap, flags_setCap,
      update_apply, update_apply]
  intro s
  apply mdb_eq_of_parts
  · exact swapped_pointer h.paired hself hne hnext s
  · exact swapped_pointer (fun a b => (h.paired b a).symm) hself' hne hprev s
  rw [hflags]
  by_cases hs1 : s = slot1
  · subst hs1
    rw [swap_apply_left, if_pos rfl]
    rfl
  · by_cases hs2 : s = slot2
    · subst hs2
      rw [swap_apply_right, if_neg hne, if_pos rfl]
      rfl
    · rw [swap_apply_of_ne_of_ne hs1 hs2, if_neg hs2, if_neg hs1]
      rfl

theorem cap_cteMove (newCap : Cap) (src dest : Slot) (cs : CSpace) :
    (cteMove newCap src dest cs).cap =
      update (update cs.cap dest newCap) src .null := by
  unfold cteMove
  rw [cap_setMdbPrev, cap_setMdbNext, cap_setMdb, cap_setMdb, cap_setCap, cap_setCap]

theorem cap_cteSwap (cap1 cap2 : Cap) (slot1 slot2 : Slot) (cs : CSpace) :
    (cteSwap cap1 slot1 cap2 slot2 cs).cap =
      update (update cs.cap slot1 cap2) slot2 cap1 := by
  unfold cteSwap
  rw [cap_setMdbPrev, cap_setMdbNext, cap_setMdb, cap_setMdb,
    cap_setMdbPrev, cap_setMdbNext, cap_setCap, cap_setCap]

/-- A slot that is empty after a move was the source, or was empty before. -/
theorem mdbInv_cteMove (h : MdbInv cs) (hdest : cs.cap dest = .null) (hsrc : cs.cap src ≠ .null)
    (hnew : newCap ≠ .null) : MdbInv (cteMove newCap src dest cs) := by
  have hne : src ≠ dest := by
    rintro rfl
    exact hsrc hdest
  refine (relabelled_cteMove h hdest hne).mdbInv h fun s hs => ?_
  rw [cap_cteMove, update_apply, update_apply, swap_apply_def] at hs
  split_ifs at hs <;> simp_all

theorem mdbInv_cteSwap (h : MdbInv cs) (hne : slot1 ≠ slot2)
    (h1 : cap1 = .null ↔ cs.cap slot1 = .null) (h2 : cap2 = .null ↔ cs.cap slot2 = .null) :
    MdbInv (cteSwap cap1 slot1 cap2 slot2 cs) := by
  refine (relabelled_cteSwap h.linked hne).mdbInv h fun s hs => ?_
  rw [cap_cteSwap, update_apply, update_apply, swap_apply_def] at hs
  split_ifs at hs <;> simp_all

end Move

/-! ### New capabilities -/

theorem cap_insertNewCap (parent slot : Slot) (cap : Cap) (cs : CSpace) :
    (insertNewCap parent slot cap cs).cap = update cs.cap slot cap := by
  unfold insertNewCap
  rw [cap_setMdbNext, cap_setMdbPrev, cap_setMdb, cap_setCap]

end SeL4Kernel
