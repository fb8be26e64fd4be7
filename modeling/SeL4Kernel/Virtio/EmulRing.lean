import Mathlib.Tactic.Ring
import SeL4Kernel.GuestRam.Touch
import SeL4Kernel.Virtio.Emul

/-!
# What the rings of an emulated device hold

An access to guest memory reaches its bytes when they lie in one registered region
(`Backed`). On that rests what `ringUsedAdd` does for the guest that looks at its
used ring (`UsedAdded`): the index is one higher, the entry stands in the slot of
the old index and no byte outside the ring has changed.

A chain is what the guest describes, whatever the device makes of it: the
descriptors that are reached from a head through `next`, as long as the one before
has its flag set (`Walk`), with the addresses of their buffers laid end to end
(`buffers`).
-/

namespace SeL4Kernel.Virtio

open List GuestRam

/-! ### Numbers in memory -/

@[simp] theorem length_leBytes (k n : ℕ) : (leBytes k n).length = k := by
  induction k generalizing n with
  | zero => rfl
  | succ k ih => rw [leBytes, length_cons, ih]

/-- A number that is written is read back, as far as it fits. -/
theorem leNat_leBytes (k n : ℕ) : leNat (leBytes k n) = n % 256 ^ k := by
  induction k generalizing n with
  | zero => simp [leBytes, leNat, Nat.mod_one]
  | succ k ih =>
    have hlow : (UInt8.ofNat n).toNat = n % 256 := by simp
    rw [leBytes, leNat, ih, hlow, pow_succ, mul_comm (256 ^ k), Nat.mod_mul]

theorem leNat_lt (bytes : List UInt8) : leNat bytes < 256 ^ bytes.length := by
  induction bytes with
  | nil => simp [leNat]
  | cons b bytes ih =>
    have hb : b.toNat < 256 := UInt8.toNat_lt b
    rw [leNat, length_cons]
    omega

/-! ### Accesses that are not refused -/

/-- The bytes `[addr, addr + len)` lie in one registered region. -/
def Backed (ram : List RamRegion) (addr len : ℕ) : Prop :=
  ∃ r ∈ ram, r.start ≤ addr ∧ addr + len ≤ r.start + r.size ∧ r.start + r.size < 2 ^ 64

section

variable {ram : List RamRegion} {addr len : ℕ}

theorem flatMap_pieces {stop cur : ℕ} {as : List Access} (h : Pieces addr stop cur as) :
    cur ≤ stop ∧ as.flatMap (fun a => range' a.currentAddr a.size) = range' cur (stop - cur) := by
  induction as generalizing cur with
  | nil =>
    obtain rfl : cur = stop := h
    rw [Nat.sub_self]
    exact ⟨le_refl cur, rfl⟩
  | cons a as ih =>
    obtain ⟨hcur, -, -, hrest⟩ := h
    obtain ⟨hle, heq⟩ := ih hrest
    refine ⟨by omega, ?_⟩
    rw [flatMap_cons, heq, hcur, range'_append_1, ← Nat.add_sub_assoc hle, Nat.add_comm cur,
      Nat.add_sub_add_left]

/-- The bytes of an access are those of the pieces that the callback gets. -/
theorem touched_eq {as : List Access} (hend : addr + len + 4096 ≤ 2 ^ 64)
    (h : vmRamTouch ram addr len = some as) :
    touched ram addr len = as.flatMap fun a => range' a.currentAddr a.size := by
  rw [(flatMap_pieces (vmRamTouch_pieces hend h)).2]
  rw [vmRamTouch] at h
  split at h
  next hram =>
    simp only [touched, Nat.mod_eq_of_lt (show addr < 2 ^ 64 by omega), hram, if_true,
      Nat.mod_eq_of_lt (show addr + len < 2 ^ 64 by omega)]
  next => cases h

theorem Backed.part (h : Backed ram addr len) {w n : ℕ} (hw : w + n ≤ len) :
    Backed ram (addr + w) n := by
  obtain ⟨r, hr, hstart, hend, hlt⟩ := h
  exact ⟨r, hr, by omega, by omega, hlt⟩

theorem Backed.touch (h : Backed ram addr len) : touched ram addr len = range' addr len := by
  obtain ⟨r, hr, hstart, hend, hlt⟩ := h
  have haddr : addr % 2 ^ 64 = addr := Nat.mod_eq_of_lt (by omega)
  have hsum : (addr + len) % 2 ^ 64 = addr + len := Nat.mod_eq_of_lt (by omega)
  have hregion : isRamRegion ram addr len = true := by
    rw [isRamRegion, any_eq_true]
    refine ⟨r, hr, ?_⟩
    rw [RamRegion.holds, RamRegion.stop, hsum, Nat.mod_eq_of_lt hlt]
    simp [hstart, hend]
  simp only [touched, haddr, hregion, hsum, if_true, Nat.add_sub_cancel_left]

end

namespace Emul

variable {e e' : Emul} {v : Vring} {addr len : ℕ}

theorem vmGuestReadMem_of_backed (h : Backed e.ram addr len) :
    e.vmGuestReadMem addr len = (range' addr len).map e.mem := by
  rw [vmGuestReadMem, h.touch]

theorem readLocal_of_backed (h : Backed e.ram addr len) :
    e.readLocal addr len = .ok ((range' addr len).map e.mem) := by
  simp only [readLocal, vmGuestReadMem_of_backed h, length_map, length_range', if_true]

theorem vmGuestWriteMem_of_backed {data : List UInt8} (h : Backed e.ram addr data.length) :
    e.vmGuestWriteMem addr data =
      { e with mem := scatter e.mem (range' addr data.length) data } := by
  rw [vmGuestWriteMem, h.touch]

/-- A variable depends on the bytes that are read for it. -/
theorem readLocal_congr (hram : e'.ram = e.ram)
    (h : ∀ a ∈ touched e.ram addr len, e'.mem a = e.mem a) :
    e'.readLocal addr len = e.readLocal addr len := by
  have hread : e'.vmGuestReadMem addr len = e.vmGuestReadMem addr len := by
    rw [vmGuestReadMem, hram]
    exact map_congr_left h
  rw [readLocal, readLocal, hread]

/-- The bytes of a descriptor. -/
def entry (e : Emul) (v : Vring) (idx : ℕ) : List ℕ := touched e.ram (v.desc + 16 * idx) 16

theorem ringDesc_congr {idx : ℕ} (hram : e'.ram = e.ram)
    (h : ∀ a ∈ e.entry v idx, e'.mem a = e.mem a) : e'.ringDesc v idx = e.ringDesc v idx := by
  rw [ringDesc, ringDesc, readLocal_congr hram h]

/-! ### The used ring -/

/-- An entry of the used ring, as the guest reads it. -/
def usedElem (e : Emul) (v : Vring) (slot : ℕ) : Except Failure VringUsedElem := do
  let elem ← e.readLocal (v.used + 4 + 8 * slot) 8
  return ⟨leNat (elem.take 4), leNat (elem.drop 4)⟩

/-- The used ring of the queue lies in one registered region. -/
structure UsedBacked (e : Emul) (q : Queue) : Prop where
  num_pos : 0 < (e.vring q).num
  backed : Backed e.ram (e.vring q).used (4 + 8 * (e.vring q).num)

/-- The device `e'` is `e` after `elem` has been put in the used ring. -/
structure UsedAdded (q : Queue) (elem : VringUsedElem) (e e' : Emul) : Prop where
  rest : e' = { e with mem := e'.mem, trace := e.trace ++ [.used q elem] }
  added : ∃ k, e.usedIdx (e.vring q) = .ok k ∧
    e'.usedIdx (e.vring q) = .ok ((k + 1) % 2 ^ 16) ∧
    e'.usedElem (e.vring q) (k % (e.vring q).num) = .ok elem ∧
    ∀ slot < (e.vring q).num, slot ≠ k % (e.vring q).num →
      e'.usedElem (e.vring q) slot = e.usedElem (e.vring q) slot
  frame : ∀ a, a ∉ List.range' (e.vring q).used (4 + 8 * (e.vring q).num) → e'.mem a = e.mem a

namespace UsedBacked

variable {q : Queue}

theorem idx (h : e.UsedBacked q) : Backed e.ram ((e.vring q).used + 2) 2 := h.backed.part (by omega)

theorem slot (h : e.UsedBacked q) {slot : ℕ} (hs : slot < (e.vring q).num) :
    Backed e.ram ((e.vring q).used + 4 + 8 * slot) 8 := by
  rw [add_assoc]
  exact h.backed.part (by omega)

end UsedBacked

/-- Guest memory after an entry has been put in the slot of the index `k`. -/
def usedWritten (m : Bytes) (v : Vring) (k : ℕ) (elem : VringUsedElem) : Bytes :=
  scatter
    (scatter m (List.range' (v.used + 4 + 8 * (k % v.num)) 8)
      (leBytes 4 elem.id ++ leBytes 4 elem.len))
    (List.range' (v.used + 2) 2) (leBytes 2 (k + 1))

section

variable {m : Bytes} {k : ℕ} {elem : VringUsedElem}

theorem map_usedWritten_idx :
    (range' (v.used + 2) 2).map (usedWritten m v k elem) = leBytes 2 (k + 1) :=
  map_scatter nodup_range' (by simp)

/-- The entries lie behind the index. -/
theorem map_usedWritten_entry {slot : ℕ} :
    (range' (v.used + 4 + 8 * slot) 8).map (usedWritten m v k elem) =
      (range' (v.used + 4 + 8 * slot) 8).map
        (scatter m (range' (v.used + 4 + 8 * (k % v.num)) 8)
          (leBytes 4 elem.id ++ leBytes 4 elem.len)) := by
  refine map_scatter_of_disjoint fun a ha => ?_
  simp only [mem_range'_1] at ha ⊢
  omega

theorem map_usedWritten_slot :
    (range' (v.used + 4 + 8 * (k % v.num)) 8).map (usedWritten m v k elem) =
      leBytes 4 elem.id ++ leBytes 4 elem.len := by
  rw [map_usedWritten_entry]
  exact map_scatter nodup_range' (by simp)

theorem map_usedWritten_other {slot : ℕ} (h : slot ≠ k % v.num) :
    (range' (v.used + 4 + 8 * slot) 8).map (usedWritten m v k elem) =
      (range' (v.used + 4 + 8 * slot) 8).map m := by
  rw [map_usedWritten_entry]
  refine map_scatter_of_disjoint fun a ha => ?_
  simp only [mem_range'_1] at ha ⊢
  omega

theorem usedWritten_frame {a : ℕ} (hpos : 0 < v.num)
    (h : a ∉ range' v.used (4 + 8 * v.num)) : usedWritten m v k elem a = m a := by
  have hslot : k % v.num < v.num := Nat.mod_lt _ hpos
  simp only [mem_range'_1] at h
  rw [usedWritten, scatter_of_notMem, scatter_of_notMem]
  · simp only [mem_range'_1]
    omega
  · simp only [mem_range'_1]
    omega

end

theorem ringUsedAdd_eq {q : Queue} {elem : VringUsedElem} {k : ℕ} (h : e.UsedBacked q)
    (hk : e.usedIdx (e.vring q) = .ok k) :
    e.ringUsedAdd q elem =
      .ok { e with
        mem := usedWritten e.mem (e.vring q) k elem
        trace := e.trace ++ [.used q elem] } := by
  have hpos := h.num_pos
  have hslot := h.slot (Nat.mod_lt k hpos)
  rw [ringUsedAdd, hk, ok_bind, if_neg (by omega), vmGuestWriteMem_of_backed (by simpa using hslot)]
  dsimp only
  rw [vmGuestWriteMem_of_backed (by simpa using h.idx)]
  rfl

/-- **What `ringUsedAdd` does.** -/
theorem ringUsedAdd_spec {q : Queue} (elem : VringUsedElem) (h : e.UsedBacked q)
    (hid : elem.id < 2 ^ 32) (hlen : elem.len < 2 ^ 32) :
    ∃ e', e.ringUsedAdd q elem = .ok e' ∧ UsedAdded q elem e e' := by
  obtain ⟨k, hk⟩ : ∃ k, e.usedIdx (e.vring q) = .ok k := by
    rw [usedIdx, readLocal_of_backed h.idx]
    exact ⟨_, rfl⟩
  have hslot := h.slot (Nat.mod_lt k h.num_pos)
  refine ⟨_, ringUsedAdd_eq h hk, rfl, ⟨k, hk, ?_, ?_, ?_⟩, ?_⟩
  · rw [usedIdx, readLocal_of_backed (by exact h.idx), ok_bind, map_usedWritten_idx, leNat_leBytes]
    rfl
  · rw [usedElem, readLocal_of_backed (by exact hslot), ok_bind, map_usedWritten_slot,
      take_left' (length_leBytes _ _), drop_left' (length_leBytes _ _), leNat_leBytes,
      leNat_leBytes, Nat.mod_eq_of_lt (by omega), Nat.mod_eq_of_lt (by omega)]
    rfl
  · intro slot hs hne
    rw [usedElem, usedElem, readLocal_of_backed (by exact h.slot hs), map_usedWritten_other hne,
      readLocal_of_backed (h.slot hs)]
  · intro a ha
    exact usedWritten_frame h.num_pos ha

/-! ### Descriptors and chains -/

/-- The length in a descriptor is a word of thirty-two bits. -/
theorem len_lt_of_ringDesc {idx : ℕ} {d : VringDesc} (h : e.ringDesc v idx = .ok d) :
    d.len < 2 ^ 32 := by
  obtain ⟨desc, -, hd⟩ := bind_eq_ok.mp h
  cases hd
  have hlt := leNat_lt ((desc.drop 8).take 4)
  have hle : ((desc.drop 8).take 4).length ≤ 4 := by simp
  calc leNat ((desc.drop 8).take 4)
      < 256 ^ ((desc.drop 8).take 4).length := hlt
    _ ≤ 256 ^ 4 := Nat.pow_le_pow_right (by omega) hle

theorem head_lt_of_ringAvail {idx : BitVec 16} {head : ℕ} (h : e.ringAvail v idx = .ok head) :
    head < 2 ^ 32 := by
  rw [ringAvail] at h
  split at h
  · cases h
  obtain ⟨elem, hread, hd⟩ := bind_eq_ok.mp h
  cases hd
  have hlen : elem.length = 2 := by
    rw [readLocal] at hread
    split at hread
    · cases hread
      assumption
    · cases hread
  have hlt := leNat_lt elem
  rw [hlen] at hlt
  omega

/-- The descriptors met from `i` on, each but the last with the flag that leads to
the next. -/
inductive Walk (e : Emul) (v : Vring) : ℕ → List (ℕ × VringDesc) → Prop
  | last {i : ℕ} {d : VringDesc} : e.ringDesc v i = .ok d → Walk e v i [(i, d)]
  | next {i : ℕ} {d : VringDesc} {l : List (ℕ × VringDesc)} : e.ringDesc v i = .ok d →
      d.hasNext = true → Walk e v d.next l → Walk e v i ((i, d) :: l)

variable {l : List (ℕ × VringDesc)}

theorem Walk.head {i j : ℕ} {d : VringDesc}
    (h : Walk e v i ((j, d) :: l)) : j = i ∧ e.ringDesc v i = .ok d := by
  cases h with
  | last hd => exact ⟨rfl, hd⟩
  | next hd _ _ => exact ⟨rfl, hd⟩

theorem Walk.tail {i j : ℕ} {d : VringDesc} {p : ℕ × VringDesc}
    (h : Walk e v i ((j, d) :: p :: l)) : d.hasNext = true ∧ Walk e v d.next (p :: l) := by
  cases h with
  | next _ hn hw => exact ⟨hn, hw⟩

theorem Walk.ne_nil {i : ℕ} (h : Walk e v i l) : l ≠ [] := by cases h <;> simp

end Emul

/-- The addresses of the buffers, laid end to end. -/
def buffers (l : List (ℕ × VringDesc)) : List ℕ :=
  l.flatMap fun p => List.range' p.2.addr p.2.len

@[simp] theorem buffers_nil : buffers [] = [] := rfl

@[simp] theorem buffers_cons (p : ℕ × VringDesc) (l : List (ℕ × VringDesc)) :
    buffers (p :: l) = range' p.2.addr p.2.len ++ buffers l := rfl

namespace VringDesc

variable {d : VringDesc}

theorem tooShort_iff : d.tooShort = true ↔ d.flags = 0 := by
  rw [tooShort]
  split <;> simp_all [vringDescFNext]

theorem hasNext_of_flags (h : d.flags = 0) : d.hasNext = false := by simp [hasNext, h]

/-- The buffer of the descriptor is guest memory. -/
def Buffered (ram : List RamRegion) (d : VringDesc) : Prop := d.len = 0 ∨ Backed ram d.addr d.len

theorem touched_zero (ram : List RamRegion) (addr : ℕ) : touched ram addr 0 = [] := by
  simp [touched]

theorem Buffered.touch {ram : List RamRegion} (h : d.Buffered ram) {w n : ℕ}
    (hw : w + n ≤ d.len) : touched ram (d.addr + w) n = range' (d.addr + w) n := by
  rcases h with h | h
  · obtain rfl : n = 0 := by omega
    rw [touched_zero, range'_zero]
  · exact (h.part hw).touch

end VringDesc

end SeL4Kernel.Virtio
