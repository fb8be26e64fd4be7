import Mathlib.Algebra.Group.Nat.Defs
import Mathlib.Data.List.Basic

/-!
# Circular buffers with inclusive ends

A buffer of `cap` cells holds a queue between two inclusive indices: `head` is
the first item and `tail` the last one, so a queue is never empty and `head =
tail` means one item. Indices advance by comparison with the last cell, never
by a division.

`Ring.toList` reads the queue off in order. What the operations do to a buffer
is stated once on that list: `toList_pop` drops the first item, `toList_push`
appends one, `toList_setHead` and `toList_setTail` replace the two ends.
-/

namespace SeL4Kernel

open Function List

/-- A circular buffer; cells outside the queue hold arbitrary values. -/
structure Ring (α : Type*) where
  cells : Nat → α
  cap : Nat
  head : Nat
  tail : Nat

namespace Ring

variable {α : Type*}

/-- The index after `i` in a buffer of `cap` cells. -/
def next (cap i : Nat) : Nat := if i = cap - 1 then 0 else i + 1

/-- The number of items in the queue. -/
def size (r : Ring α) : Nat :=
  if r.head ≤ r.tail then r.tail - r.head + 1 else r.tail + 1 + (r.cap - r.head)

/-- Where the `i`-th item of the queue lives. -/
def slot (r : Ring α) (i : Nat) : Nat :=
  if r.head + i < r.cap then r.head + i else r.head + i - r.cap

/-- The queue, from the head to the tail. -/
def toList (r : Ring α) : List α := (List.range r.size).map fun i => r.cells (r.slot i)

/-- Both ends lie inside the buffer. -/
structure Wf (r : Ring α) : Prop where
  head_lt : r.head < r.cap
  tail_lt : r.tail < r.cap

/-- Advance the head by one item. -/
def pop (r : Ring α) : Ring α := { r with head := next r.cap r.head }

/-- Advance the tail by one item and store `x` there. -/
def push (r : Ring α) (x : α) : Ring α :=
  { r with tail := next r.cap r.tail, cells := update r.cells (next r.cap r.tail) x }

/-- Overwrite the first item. -/
def setHead (r : Ring α) (x : α) : Ring α := { r with cells := update r.cells r.head x }

/-- Overwrite the last item. -/
def setTail (r : Ring α) (x : α) : Ring α := { r with cells := update r.cells r.tail x }

/-! ### Indices -/

theorem next_lt {cap i : Nat} (hi : i < cap) : next cap i < cap := by
  unfold next
  split <;> omega

theorem size_pos (r : Ring α) : 0 < r.size := by
  unfold size
  split <;> omega

variable {r : Ring α} (h : r.Wf)

include h

theorem Wf.size_le : r.size ≤ r.cap := by
  have h2 := h.tail_lt
  unfold size
  split <;> omega

theorem size_eq_one_iff : r.size = 1 ↔ r.head = r.tail := by
  have h1 := h.head_lt
  unfold size
  split <;> omega

theorem Wf.pop : r.pop.Wf := ⟨next_lt h.head_lt, h.tail_lt⟩

theorem Wf.push (x : α) : (r.push x).Wf := ⟨h.head_lt, next_lt h.tail_lt⟩

theorem Wf.setHead (x : α) : (r.setHead x).Wf := ⟨h.head_lt, h.tail_lt⟩

theorem Wf.setTail (x : α) : (r.setTail x).Wf := ⟨h.head_lt, h.tail_lt⟩

theorem size_pop (hne : r.head ≠ r.tail) : r.pop.size + 1 = r.size := by
  have h1 := h.head_lt
  have h2 := h.tail_lt
  unfold size pop next
  simp only
  split_ifs <;> omega

omit h

theorem size_push (hlt : r.size < r.cap) (x : α) : (r.push x).size = r.size + 1 := by
  unfold size at hlt
  unfold size push next
  simp only
  split_ifs at hlt ⊢ <;> omega

theorem slot_inj {i j : Nat} (hi : i < r.cap) (hj : j < r.cap)
    (he : r.slot i = r.slot j) : i = j := by
  unfold slot at he
  split_ifs at he <;> omega

theorem slot_pop {i : Nat} (hi : i + 1 < r.cap) : r.pop.slot i = r.slot (i + 1) := by
  unfold slot pop next
  simp only
  split_ifs <;> omega

include h

theorem slot_zero : r.slot 0 = r.head := by
  have h1 := h.head_lt
  unfold slot
  split_ifs <;> omega

theorem slot_last : r.slot (r.size - 1) = r.tail := by
  have h1 := h.head_lt
  have h2 := h.tail_lt
  unfold slot size
  split_ifs <;> omega

/-- The cell after the tail is the first free one. -/
theorem slot_size : r.slot r.size = next r.cap r.tail := by
  have h1 := h.head_lt
  have h2 := h.tail_lt
  unfold slot size next
  split_ifs <;> omega

omit h

/-! ### The queue as a list -/

@[simp] theorem length_toList : r.toList.length = r.size := by simp [toList]

theorem toList_ne_nil (r : Ring α) : r.toList ≠ [] := by
  intro h
  have := r.size_pos
  rw [← length_toList, h] at this
  simp at this

theorem getElem_toList {i : Nat} (hi : i < r.toList.length) :
    r.toList[i] = r.cells (r.slot i) := by simp [toList]

include h

theorem toList_pop (hne : r.head ≠ r.tail) : r.toList = r.cells r.head :: r.pop.toList := by
  have hs := size_pop h hne
  have hle := h.size_le
  apply ext_getElem (by simp [hs])
  intro i hi hi'
  rw [getElem_toList]
  cases i with
  | zero => simp [slot_zero h]
  | succ i =>
    rw [length_toList] at hi
    rw [getElem_cons_succ, getElem_toList, slot_pop (by omega)]
    rfl

theorem toList_single (he : r.head = r.tail) : r.toList = [r.cells r.head] := by
  have hs := (size_eq_one_iff h).mpr he
  simp [toList, hs, range_succ, slot_zero h]

/-- The list starts with the item at the head index. -/
theorem toList_cons : ∃ l, r.toList = r.cells r.head :: l := by
  by_cases he : r.head = r.tail
  · exact ⟨[], toList_single h he⟩
  · exact ⟨_, toList_pop h he⟩

theorem toList_push (hlt : r.size < r.cap) (x : α) : (r.push x).toList = r.toList ++ [x] := by
  have hs := size_push hlt x
  apply ext_getElem (by simp [hs])
  intro i hi hi'
  have hslot : ∀ j, (r.push x).slot j = r.slot j := fun _ => rfl
  rw [length_toList] at hi
  rw [getElem_toList, hslot]
  by_cases hlast : i < r.toList.length
  · rw [getElem_append_left hlast, getElem_toList]
    rw [length_toList] at hlast
    have hne : r.slot i ≠ next r.cap r.tail := by
      rw [← slot_size h]
      intro he
      have := slot_inj (by omega) (by omega) he
      omega
    simp [push, update_of_ne hne]
  · rw [length_toList] at hlast
    have hi2 : i = r.size := by omega
    subst hi2
    simp [push, slot_size h]

theorem toList_setHead (x : α) : (r.setHead x).toList = x :: r.toList.tail := by
  obtain ⟨l, hl⟩ := toList_cons h
  have hlen : (r.setHead x).size = r.size := rfl
  have hle := h.size_le
  apply ext_getElem (by rw [length_toList, hlen, ← length_toList, hl]; simp)
  intro i hi hi'
  have hslot : (r.setHead x).slot i = r.slot i := rfl
  rw [length_toList] at hi
  rw [getElem_toList, hslot]
  cases i with
  | zero => simp [setHead, slot_zero h]
  | succ i =>
    have hne : r.slot (i + 1) ≠ r.head := by
      rw [← slot_zero h]
      intro he
      have := slot_inj (by omega) (by omega) he
      omega
    rw [getElem_cons_succ, getElem_tail, getElem_toList]
    simp [setHead, update_of_ne hne]

theorem toList_setTail (x : α) : (r.setTail x).toList = r.toList.dropLast ++ [x] := by
  have hlen : (r.setTail x).size = r.size := rfl
  have hpos := r.size_pos
  have hle := h.size_le
  apply ext_getElem (by rw [length_toList]; simp; omega)
  intro i hi hi'
  have hslot : (r.setTail x).slot i = r.slot i := rfl
  rw [length_toList] at hi
  rw [getElem_toList, hslot]
  by_cases hlast : i < r.size - 1
  · have hne : r.slot i ≠ r.tail := by
      rw [← slot_last h]
      intro he
      have := slot_inj (by omega) (by omega) he
      omega
    rw [getElem_append_left (by simpa using hlast), getElem_dropLast, getElem_toList]
    simp [setTail, update_of_ne hne]
  · have hi2 : i = r.size - 1 := by omega
    subst hi2
    simp [setTail, slot_last h]

theorem getLast_toList : r.toList.getLast r.toList_ne_nil = r.cells r.tail := by
  rw [getLast_eq_getElem, getElem_toList]
  simp [slot_last h]

end Ring

end SeL4Kernel
