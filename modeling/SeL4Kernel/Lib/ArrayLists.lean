import SeL4Kernel.Lib.Around

/-!
# Lists that are kept in arrays

* `Follows next stop x l`: from the index `x` the links of an array run through `l` and end at
  `stop`.
* `Stored n cell r l`: the items of `l` are in `n` cells that form a circle, from the cell `r` on.
  The position `r` is a count that is not reduced: it only grows.
* `Circular n cell idx last l`: a queue in such a circle, whose writer keeps the cell `idx` that is
  next and whose reader keeps the cell `last` that was read last.
* `occupied n f`: the items of an array in which cells may be empty.
-/

namespace SeL4Kernel

open Function List

/-! ### Links -/

/-- The links from `x` run through the list and end at `stop`. -/
def Follows (next : ℕ → ℕ) (stop : ℕ) : ℕ → List ℕ → Prop
  | x, [] => x = stop
  | x, y :: l => x = y ∧ Follows next stop (next y) l

namespace Follows

variable {next next' : ℕ → ℕ} {stop x y z : ℕ} {l : List ℕ}

theorem congr (h : Follows next stop x l) (heq : ∀ y ∈ l, next' y = next y) :
    Follows next' stop x l := by
  induction l generalizing x with
  | nil => exact h
  | cons y l ih =>
    refine ⟨h.1, ?_⟩
    rw [heq y mem_cons_self]
    exact ih h.2 fun z hz => heq z (mem_cons_of_mem _ hz)

/-- An index is appended behind the last one. -/
theorem snoc (h : Follows next stop x (l ++ [y])) (hl : ∀ w ∈ l, next' w = next w)
    (hy : next' y = z) (hz : next' z = stop) : Follows next' stop x (l ++ [y, z]) := by
  induction l generalizing x with
  | nil => exact ⟨h.1, hy, hz⟩
  | cons w l ih =>
    refine ⟨h.1, ?_⟩
    rw [hl w mem_cons_self]
    exact ih h.2 fun v hv => hl v (mem_cons_of_mem _ hv)

/-- The indices from `x` up to `stop`, each linked to the one behind it. -/
theorem range (k : ℕ) (h : ∀ y, next y = y + 1) : Follows next (x + k) x (List.range' x k) := by
  induction k generalizing x with
  | zero => rfl
  | succ k ih =>
    refine ⟨rfl, ?_⟩
    rw [h, Nat.add_comm k 1, ← Nat.add_assoc]
    exact ih

end Follows

/-! ### Circles -/

variable {α : Type*}

/-- The items of the list are in the cells from `r` on. -/
def Stored (n : ℕ) (cell : ℕ → α) (r : ℕ) (l : List α) : Prop :=
  ∀ i x, l[i]? = some x → cell ((r + i) % n) = x

namespace Stored

variable {n r : ℕ} {cell : ℕ → α} {x : α} {l : List α}

theorem nil (n r : ℕ) (cell : ℕ → α) : Stored n cell r [] := by
  intro i x h
  simp at h

theorem head (h : Stored n cell r (x :: l)) : cell (r % n) = x := h 0 x rfl

theorem pop (h : Stored n cell r (x :: l)) : Stored n cell (r + 1) l := by
  intro i y hy
  have hcell := h (i + 1) y hy
  rw [Nat.add_assoc, Nat.add_comm 1 i]
  exact hcell

theorem push (h : Stored n cell r l) (hlen : l.length < n) (x : α) :
    Stored n (update cell ((r + l.length) % n) x) r (l ++ [x]) := by
  intro i y hy
  rcases Nat.lt_trichotomy i l.length with hlt | rfl | hgt
  · rw [List.getElem?_append_left hlt] at hy
    rw [update_of_ne (mod_ne_of_lt (by omega) (by omega))]
    exact h i y hy
  · rw [List.getElem?_concat_length] at hy
    rw [update_self]
    exact Option.some.inj hy
  · rw [List.getElem?_eq_none (by simp; omega)] at hy
    cases hy

/-- An item is replaced. -/
theorem set (h : Stored n cell r l) (hlen : l.length ≤ n) {i : ℕ} (hi : i < l.length) (x : α) :
    Stored n (update cell ((r + i) % n) x) r (l.set i x) := by
  intro j y hy
  by_cases hij : i = j
  · subst hij
    rw [getElem?_set_self hi] at hy
    rw [update_self]
    exact Option.some.inj hy
  · rw [getElem?_set_ne hij] at hy
    have hj := (List.getElem?_eq_some_iff.1 hy).1
    rw [update_of_ne]
    · exact h j y hy
    · rcases Nat.lt_or_gt_of_ne hij with hc | hc
      · exact (mod_ne_of_lt (by omega) (by omega)).symm
      · exact mod_ne_of_lt (by omega) (by omega)

/-- With less than `n` items the two ends meet only when there are none. -/
theorem ends_eq_iff (hlen : l.length < n) : r % n = (r + l.length) % n ↔ l = [] := by
  constructor
  · intro heq
    by_contra hne
    have hpos := length_pos_iff.2 hne
    exact mod_ne_of_lt (by omega) (by omega) heq
  · rintro rfl
    rfl

end Stored

/-! ### Queues -/

/-- A queue with less than `n` items in `n` cells. -/
structure Circular (n : ℕ) (cell : ℕ → α) (idx last : ℕ) (l : List α) : Prop where
  stored : ∃ r, Stored n cell r l ∧ idx = (r + l.length) % n ∧ (last + 1) % n = r % n
  lt : l.length < n

namespace Circular

variable {n idx last : ℕ} {cell : ℕ → α} {x : α} {l : List α}

theorem empty (hn : 0 < n) (cell : ℕ → α) : Circular n cell 0 (n - 1) [] := by
  refine ⟨⟨0, Stored.nil n 0 cell, (Nat.zero_mod n).symm, ?_⟩, hn⟩
  rw [Nat.sub_add_cancel hn, Nat.mod_self, Nat.zero_mod]

theorem push (h : Circular n cell idx last l) (hlen : l.length + 1 < n) (x : α) :
    Circular n (update cell idx x) ((idx + 1) % n) last (l ++ [x]) := by
  obtain ⟨r, hstored, rfl, hlast⟩ := h.stored
  refine ⟨⟨r, hstored.push h.lt x, ?_, hlast⟩, ?_⟩
  · rw [Nat.mod_add_mod, length_append, length_singleton, Nat.add_assoc]
  · rw [length_append]
    exact hlen

/-- The reader sees that the queue is empty exactly when it is. -/
theorem next_eq_iff (h : Circular n cell idx last l) : (last + 1) % n = idx ↔ l = [] := by
  obtain ⟨r, -, rfl, hlast⟩ := h.stored
  rw [hlast]
  exact Stored.ends_eq_iff h.lt

theorem pop (h : Circular n cell idx last (x :: l)) :
    cell ((last + 1) % n) = x ∧ Circular n cell idx ((last + 1) % n) l := by
  obtain ⟨r, hstored, rfl, hlast⟩ := h.stored
  have hlt := h.lt
  rw [length_cons] at hlt
  refine ⟨hlast ▸ hstored.head, ⟨⟨r + 1, hstored.pop, ?_, ?_⟩, by omega⟩⟩
  · rw [length_cons, Nat.add_assoc, Nat.add_comm 1]
  · rw [hlast, Nat.mod_add_mod]

end Circular

/-! ### Cells that may be empty -/

/-- The items of the first `n` cells. -/
def occupied (n : ℕ) (f : ℕ → Option α) : List α := (List.range n).filterMap f

theorem filterMap_update_of_notMem {l : List ℕ} {f : ℕ → Option α} {i : ℕ} (hi : i ∉ l)
    (x : Option α) : l.filterMap (update f i x) = l.filterMap f := by
  refine filterMap_congr fun j hj => ?_
  rw [update_of_ne]
  rintro rfl
  exact hi hj

theorem filterMap_update_perm {l : List ℕ} (hl : l.Nodup) {i : ℕ} (hi : i ∈ l) (f : ℕ → Option α)
    (x : α) : (l.filterMap (update f i (some x))).Perm
      (x :: l.filterMap (update f i none)) := by
  induction l with
  | nil => cases hi
  | cons j l ih =>
    obtain ⟨hj, hl'⟩ := nodup_cons.1 hl
    by_cases hij : i = j
    · subst hij
      rw [filterMap_cons_some (update_self i (some x) f),
        filterMap_cons_none (update_self i none f),
        filterMap_update_of_notMem hj, filterMap_update_of_notMem hj]
    · have hmem : i ∈ l := (mem_cons.1 hi).resolve_left hij
      have hsome : update f i (some x) j = f j := update_of_ne (Ne.symm hij) _ _
      have hnone : update f i none j = f j := update_of_ne (Ne.symm hij) _ _
      cases hf : f j with
      | none =>
        rw [filterMap_cons_none (hsome.trans hf), filterMap_cons_none (hnone.trans hf)]
        exact ih hl' hmem
      | some y =>
        rw [filterMap_cons_some (hsome.trans hf), filterMap_cons_some (hnone.trans hf)]
        exact ((ih hl' hmem).cons y).trans (List.Perm.swap x y _)

/-- An item is put into an empty cell. -/
theorem occupied_fill {n i : ℕ} {f : ℕ → Option α} (hi : i < n) (hf : f i = none) (x : α) :
    (occupied n (update f i (some x))).Perm (x :: occupied n f) := by
  have hperm := filterMap_update_perm nodup_range (mem_range.2 hi) f x
  have hsame : update f i none = f := update_eq_self_iff.2 hf.symm
  rw [hsame] at hperm
  exact hperm

/-- An item is taken out of its cell. -/
theorem occupied_clear {n i : ℕ} {f : ℕ → Option α} {x : α} (hi : i < n) (hf : f i = some x) :
    (occupied n f).Perm (x :: occupied n (update f i none)) := by
  have hperm := filterMap_update_perm nodup_range (mem_range.2 hi) f x
  have hsame : update f i (some x) = f := update_eq_self_iff.2 hf.symm
  rw [hsame] at hperm
  exact hperm

end SeL4Kernel
