import Mathlib.Data.Nat.Find
import SeL4Kernel.Vgic.Vgic

/-!
# No interrupt is lost

An interrupt that is injected is in a list register or in the ring until it is acknowledged, and
the list registers are filled in the order of the injections (`virqs_kept`). This holds as long as
nothing is written to a place of the ring that a shadow points to or that is occupied. It is refused
only if there is no place left.

A maintenance interrupt frees one list register, and its loop passes over the whole ring: the first
interrupt goes to the list register, and all the others are written to the end of the ring once
more. So the ring turns, and it comes to places that shadows still point to
(`virqs_replaced`).
-/

namespace SeL4Kernel.Vgic

open Function List

variable {V : Type} {numLr i : ℕ} {s : Cpu V} {q : List V}

/-! ### Runs -/

/-- A virtual CPU with what was done so far. -/
structure Vcpu (V : Type) where
  cpu : Cpu V
  /-- The interrupts that were injected and not refused. -/
  injected : List V
  /-- What a list register had, and what was acknowledged for it. -/
  acked : List (V × V)

inductive Op (V : Type) where
  | inject (irq : V)
  | maintenance (idx : ℕ)

/-- What an operation does. The hardware raises a maintenance interrupt for list registers that
were filled only. -/
def step (numLr : ℕ) (s : Vcpu V) : Op V → Except Failure (Vcpu V)
  | .inject irq => do
    let (err, cpu) ← vgicVcpuInjectIrq numLr (.handle irq) s.cpu
    .ok { s with cpu := cpu, injected := if err = 0 then s.injected ++ [irq] else s.injected }
  | .maintenance idx =>
    match s.cpu.lr idx with
    | none => .ok s
    | some loaded => do
      let (irq, cpu) ← handleVgicMaintenance numLr idx s.cpu
      .ok { s with cpu := cpu, acked := s.acked ++ [(loaded, irq)] }

/-- The number of interrupts in a ring. -/
def LrOf.length (o : LrOf V) : ℕ :=
  if o.full then maxLrOverflow else (o.tail + maxLrOverflow - o.head) % maxLrOverflow

/-- The interrupts in a ring. -/
def LrOf.toList (o : LrOf V) : List V :=
  (List.range o.length).map fun i => o.irqs ((o.head + i) % maxLrOverflow)

/-- The interrupts that the shadows point to. -/
def Cpu.shadows (numLr : ℕ) (s : Cpu V) : List V :=
  occupied numLr fun i => (s.irq i).map s.deref

/-- A shadow points to the place of the ring. -/
def Cpu.Refers (numLr : ℕ) (s : Cpu V) (i : ℕ) : Prop := ∃ j, j < numLr ∧ s.irq j = some (.slot i)

/-- A list register that is filled is one of the first four, and what an operation writes to the
ring goes to places that no shadow points to. -/
def Fresh (numLr : ℕ) (s : Cpu V) : Op V → Prop
  | .inject _ => (∃ i, i < min numLr 4 ∧ s.irq i = none) ∨
    numLr ≤ 4 ∧ (s.lrOverflow.full = true ∨ ¬s.Refers numLr s.lrOverflow.tail)
  | .maintenance idx => ∀ m, m < s.lrOverflow.length - 1 →
    (s.lrOverflow.tail + m) % maxLrOverflow ≠ s.lrOverflow.head ∧
      ∀ j, j < numLr → j ≠ idx → s.irq j ≠ some (.slot ((s.lrOverflow.tail + m) % maxLrOverflow))

/-- No list register is free. -/
def Busy (numLr : ℕ) (s : Cpu V) : Prop := ∀ i, i < numLr → s.irq i ≠ none

/-- There is no place for another interrupt. -/
def NoPlace (numLr : ℕ) (s : Cpu V) : Prop :=
  Busy numLr s ∧ s.lrOverflow.toList.length = maxLrOverflow

/-- What the controller is for. -/
structure Kept (numLr : ℕ) (s : Vcpu V) : Prop where
  /-- An interrupt was acknowledged, or it is in one place. -/
  places : s.injected.Perm
    (s.acked.map Prod.snd ++ s.cpu.shadows numLr ++ s.cpu.lrOverflow.toList)
  /-- The list registers were filled in the order of the injections. -/
  order : s.injected = s.cpu.loads ++ s.cpu.lrOverflow.toList
  /-- A maintenance interrupt acknowledges what the list register had. -/
  acks : ∀ p ∈ s.acked, p.1 = p.2

/-! ### The invariant -/

/-- The ring has the interrupts of a list, and the shadows point to what is in the list
registers. -/
structure Core (numLr : ℕ) (s : Cpu V) (q : List V) : Prop where
  full : s.lrOverflow.full = decide (q.length = maxLrOverflow)
  stored : Stored maxLrOverflow s.lrOverflow.irqs s.lrOverflow.head q
  tail : s.lrOverflow.tail =
    (s.lrOverflow.head + min q.length (maxLrOverflow - 1)) % maxLrOverflow
  head_lt : s.lrOverflow.head < maxLrOverflow
  length_le : q.length ≤ maxLrOverflow
  beyond : ∀ i, numLr ≤ i → s.irq i = none
  lr : ∀ i, s.lr i = (s.irq i).map s.deref

theorem lrOfNext_eq (h : i < maxLrOverflow) : lrOfNext i = (i + 1) % maxLrOverflow := by
  unfold lrOfNext maxLrOverflow at *
  split <;> omega

namespace Core

variable (h : Core numLr s q)

include h

theorem tail_lt : s.lrOverflow.tail < maxLrOverflow := by
  rw [h.tail]
  exact Nat.mod_lt _ (by decide)

theorem tail_eq (hlen : q.length < maxLrOverflow) :
    s.lrOverflow.tail = (s.lrOverflow.head + q.length) % maxLrOverflow := by
  rw [h.tail, Nat.min_eq_left (Nat.le_sub_one_of_lt hlen)]

theorem length_eq : s.lrOverflow.length = q.length := by
  unfold LrOf.length
  rw [h.full]
  split
  · rename_i hfull
    exact (of_decide_eq_true hfull).symm
  · rename_i hfull
    have hlen := h.length_le
    have htail := h.tail_eq (lt_of_le_of_ne hlen fun hc => hfull (decide_eq_true hc))
    have hhead := h.head_lt
    have hne : q.length ≠ maxLrOverflow := fun hc => hfull (decide_eq_true hc)
    unfold maxLrOverflow at *
    omega

theorem toList_eq : s.lrOverflow.toList = q := by
  refine ext_getElem? fun i => ?_
  rw [LrOf.toList, h.length_eq, getElem?_map]
  rcases Nat.lt_or_ge i q.length with hi | hi
  · rw [getElem?_range hi, getElem?_eq_getElem hi]
    exact congrArg some (h.stored i _ (getElem?_eq_getElem hi))
  · rw [getElem?_eq_none (by rw [length_range]; exact hi), getElem?_eq_none hi]
    rfl

theorem shadows_eq : s.shadows numLr = occupied numLr s.lr := by
  have hfun : s.lr = fun i => (s.irq i).map s.deref := funext h.lr
  rw [hfun]
  rfl

theorem lr_eq_none : s.lr i = none ↔ s.irq i = none := by rw [h.lr, Option.map_eq_none_iff]

/-- The place behind the end is the beginning if one place is left free. -/
theorem head_eq_next (hlen : q.length < maxLrOverflow) :
    s.lrOverflow.head = lrOfNext s.lrOverflow.tail ↔ q.length + 1 = maxLrOverflow := by
  have htail := h.tail_eq hlen
  have hhead := h.head_lt
  rw [lrOfNext_eq h.tail_lt]
  unfold maxLrOverflow at *
  omega

/-- What is written to the end of the ring is not what a shadow points to. -/
theorem lr_write (hrefers : ¬s.Refers numLr s.lrOverflow.tail) {o : LrOf V} {v : V}
    (ho : o.irqs = update s.lrOverflow.irqs s.lrOverflow.tail v) (i : ℕ) :
    s.lr i = (s.irq i).map { s with lrOverflow := o }.deref := by
  rw [h.lr]
  cases hirq : s.irq i with
  | none => rfl
  | some r =>
    cases r with
    | handle v => rfl
    | slot j =>
      have hlt : i < numLr := by
        by_contra hge
        rw [h.beyond i (Nat.not_lt.1 hge)] at hirq
        cases hirq
      have hj : j ≠ s.lrOverflow.tail := by
        rintro rfl
        exact hrefers ⟨i, hlt, hirq⟩
      refine congrArg some ?_
      dsimp only [Cpu.deref]
      rw [ho, update_of_ne hj]

/-- Writing to the end of the ring. -/
theorem stored_write (hlen : q.length < maxLrOverflow) (v : V) :
    Stored maxLrOverflow (update s.lrOverflow.irqs s.lrOverflow.tail v) s.lrOverflow.head
      (q ++ [v]) := by
  rw [h.tail_eq hlen]
  exact h.stored.push hlen v

theorem enqueue (hlen : q.length + 1 < maxLrOverflow)
    (hrefers : ¬s.Refers numLr s.lrOverflow.tail) (irq : Ref V) :
    Core numLr (s.enqueue irq) (q ++ [s.deref irq]) := by
  have hlen' := Nat.lt_of_succ_lt hlen
  have hl : (q ++ [s.deref irq]).length = q.length + 1 := by rw [length_append, length_singleton]
  refine ⟨?_, h.stored_write hlen' _, ?_, h.head_lt, by omega, h.beyond, h.lr_write hrefers rfl⟩
  all_goals
    dsimp only [Cpu.enqueue]
    rw [hl]
  · rw [h.full, decide_eq_false (Nat.ne_of_lt hlen'), decide_eq_false (Nat.ne_of_lt hlen)]
  · rw [lrOfNext_eq h.tail_lt, h.tail_eq hlen', Nat.mod_add_mod,
      Nat.min_eq_left (Nat.le_sub_one_of_lt hlen), Nat.add_assoc]

theorem fill (hlen : q.length + 1 = maxLrOverflow)
    (hrefers : ¬s.Refers numLr s.lrOverflow.tail) (irq : Ref V) :
    Core numLr (s.fill irq) (q ++ [s.deref irq]) := by
  have hlen' : q.length < maxLrOverflow := by omega
  have hl : (q ++ [s.deref irq]).length = maxLrOverflow := by
    rw [length_append, length_singleton, hlen]
  refine ⟨?_, h.stored_write hlen' _, ?_, h.head_lt, Nat.le_of_eq hl, h.beyond,
    h.lr_write hrefers rfl⟩
  all_goals
    dsimp only [Cpu.fill]
    rw [hl]
  · exact (decide_eq_true rfl).symm
  · rw [h.tail_eq hlen', Nat.min_eq_right (Nat.sub_le _ _), ← hlen, Nat.add_sub_cancel]

omit h

/-- The first interrupt of the ring is done. -/
theorem advance {v : V} (h : Core numLr s (v :: q)) (hlen : q.length + 1 < maxLrOverflow) :
    Core numLr (s.advance s.lrOverflow.head) q := by
  have hhead := h.head_lt
  have htail := h.tail_eq hlen
  rw [length_cons] at htail
  have hnext := lrOfNext_eq hhead
  refine ⟨?_, ?_, ?_, ?_, by omega, h.beyond, h.lr⟩
  · dsimp only [Cpu.advance]
    rw [hnext, lrOfNext_eq h.tail_lt]
    refine decide_eq_decide.2 (iff_of_false ?_ (by omega))
    unfold maxLrOverflow at *
    omega
  · intro i x hx
    dsimp only [Cpu.advance]
    rw [hnext, Nat.mod_add_mod]
    exact h.stored.pop i x hx
  · dsimp only [Cpu.advance]
    rw [hnext, htail, Nat.mod_add_mod, Nat.min_eq_left (by omega), Nat.add_assoc, Nat.add_comm 1]
  · dsimp only [Cpu.advance]
    rw [hnext]
    exact Nat.mod_lt _ (by decide)

theorem deref_head {v : V} (h : Core numLr s (v :: q)) : s.deref (.slot s.lrOverflow.head) = v := by
  have hcell := h.stored.head
  rw [Nat.mod_eq_of_lt h.head_lt] at hcell
  exact hcell

/-- A list register of the machine is filled, or one becomes free. -/
theorem write (h : Core numLr s q) {r : Option (Ref V)} (hi : i < numLr ∨ r = none) (l : List V) :
    Core numLr { s with
      irq := update s.irq i r, lr := update s.lr i (r.map s.deref), loads := l } q := by
  refine ⟨h.full, h.stored, h.tail, h.head_lt, h.length_le, fun j hj => ?_, fun j => ?_⟩
  all_goals
    dsimp only
    by_cases hji : j = i
  · subst hji
    rw [update_self]
    exact hi.resolve_left (Nat.not_lt.2 hj)
  · rw [update_of_ne hji, h.beyond j hj]
  · subst hji
    rw [update_self, update_self]
    rfl
  · rw [update_of_ne hji, update_of_ne hji, h.lr]
    rfl

/-- A free list register is filled. -/
theorem load (h : Core numLr s q) (hi : i < numLr) (irq : Ref V) : Core numLr (s.load i irq) q :=
  h.write (.inl hi) _

end Core

/-! ### Injections -/

theorem freeIndex_eq {irq : ℕ → Option (Ref V)} {left k : ℕ} (hik : i ≤ k) (hk : k < i + left)
    (hlt : k < maxLrOverflow - 1) (hnone : irq k = none)
    (hsome : ∀ j, i ≤ j → j < k → irq j ≠ none) : freeIndex irq left i = .ok k := by
  induction left generalizing i with
  | zero => omega
  | succ left ih =>
    rw [freeIndex, if_neg (by omega)]
    rcases Nat.eq_or_lt_of_le hik with rfl | hlt'
    · rw [hnone]
    · cases hi : irq i with
      | none => exact absurd hi (hsome i (Nat.le_refl i) hlt')
      | some r => exact ih hlt' (by omega) fun j hj => hsome j (by omega)

/-- The first free list register is filled. -/
theorem inject_free (hi : i < min numLr 4) (hnone : s.irq i = none)
    (hsome : ∀ j, j < i → s.irq j ≠ none) (irq : Ref V) :
    vgicVcpuInjectIrq numLr irq s = .ok (0, s.load i irq) := by
  have hfree : freeIndex s.irq maxLrOverflow 0 = .ok i :=
    freeIndex_eq (Nat.zero_le i) (by unfold maxLrOverflow; omega)
      (by unfold maxLrOverflow; omega) hnone fun j _ => hsome j
  rw [vgicVcpuInjectIrq, hfree]
  change (if i < numLr then _ else _) = _
  rw [if_pos (by omega), if_pos (by omega)]

/-- Without a free list register the interrupt goes to the ring. -/
theorem inject_busy (hnum : numLr ≤ 4) (h : Core numLr s q) (hbusy : Busy numLr s) (irq : Ref V) :
    vgicVcpuInjectIrq numLr irq s = .ok (vgicAddOverflow irq s) := by
  have hfree : freeIndex s.irq maxLrOverflow 0 = .ok numLr :=
    freeIndex_eq (Nat.zero_le _) (by unfold maxLrOverflow; omega)
      (by unfold maxLrOverflow; omega) (h.beyond numLr (Nat.le_refl _)) fun j _ => hbusy j
  rw [vgicVcpuInjectIrq, hfree]
  change (if numLr < numLr then _ else _) = _
  rw [if_neg (Nat.lt_irrefl _)]

/-- What becomes of an interrupt that overflows depends on the number of those in the ring. -/
theorem addOverflow_eq (h : Core numLr s q) (irq : Ref V) : vgicAddOverflow irq s =
    if q.length = maxLrOverflow then (-1, s)
    else if q.length + 1 = maxLrOverflow then (0, s.fill irq) else (0, s.enqueue irq) := by
  rw [vgicAddOverflow, h.full]
  by_cases hfull : q.length = maxLrOverflow
  · rw [if_pos hfull, if_pos (decide_eq_true hfull)]
  · have hlen := lt_of_le_of_ne h.length_le hfull
    rw [if_neg hfull, if_neg (by rw [decide_eq_false hfull]; decide)]
    simp only [h.head_eq_next hlen]

theorem addOverflow_room (h : Core numLr s q) (hlen : q.length + 1 < maxLrOverflow) (irq : Ref V) :
    vgicAddOverflow irq s = (0, s.enqueue irq) := by
  rw [addOverflow_eq h, if_neg (by omega), if_neg (by omega)]

/-! ### The loop over the ring -/

/-- Without a free list register the loop turns the ring: `rest` is written behind `moved`. -/
theorem handleOverflowLoop_turns (hnum : numLr ≤ 4) {rest moved : List V} {fuel : ℕ}
    (h : Core numLr s (rest ++ moved)) (hbusy : Busy numLr s)
    (hlen : (rest ++ moved).length + 1 < maxLrOverflow) (hfuel : rest.length < fuel)
    (hfresh : ∀ m, m < rest.length → ¬s.Refers numLr ((s.lrOverflow.tail + m) % maxLrOverflow)) :
    ∃ s', handleOverflowLoop numLr ((s.lrOverflow.head + rest.length) % maxLrOverflow) fuel
        s.lrOverflow.head s = .ok s' ∧
      Core numLr s' (moved ++ rest) ∧ s'.irq = s.irq ∧ s'.lr = s.lr ∧ s'.loads = s.loads := by
  induction rest generalizing s moved fuel with
  | nil =>
    obtain ⟨fuel, rfl⟩ : ∃ k, fuel = k + 1 := ⟨fuel - 1, by dsimp only [length] at hfuel; omega⟩
    refine ⟨s, ?_, by rw [append_nil]; exact h, rfl, rfl, rfl⟩
    have hstop : s.lrOverflow.head = (s.lrOverflow.head + ([] : List V).length) % maxLrOverflow :=
      (Nat.mod_eq_of_lt h.head_lt).symm
    rw [handleOverflowLoop, if_pos hstop]
  | cons v rest ih =>
    obtain ⟨fuel, rfl⟩ : ∃ k, fuel = k + 1 := ⟨fuel - 1, by omega⟩
    have hhead := h.head_lt
    have htail : ¬s.Refers numLr s.lrOverflow.tail := by
      have hzero := hfresh 0 (Nat.succ_pos _)
      rw [Nat.add_zero, Nat.mod_eq_of_lt h.tail_lt] at hzero
      exact hzero
    have hgo : s.lrOverflow.head ≠
        (s.lrOverflow.head + (v :: rest).length) % maxLrOverflow := by
      rw [length_append, length_cons] at hlen
      rw [length_cons]
      unfold maxLrOverflow at *
      omega
    have hturned : Core numLr (s.enqueue (.slot s.lrOverflow.head))
        (v :: (rest ++ (moved ++ [v]))) := by
      have henq := h.enqueue hlen htail (.slot s.lrOverflow.head)
      rw [h.deref_head, cons_append, cons_append, append_assoc] at henq
      exact henq
    have hadv := hturned.advance (by
      simp only [length_append, length_cons, length_nil] at hlen ⊢
      omega)
    have hlen' : (rest ++ (moved ++ [v])).length + 1 < maxLrOverflow := by
      simp only [length_append, length_cons, length_nil] at hlen ⊢
      omega
    obtain ⟨s', hloop, hcore, hirq, hlr, hloads⟩ := @ih
      ((s.enqueue (.slot s.lrOverflow.head)).advance s.lrOverflow.head) (moved ++ [v]) fuel hadv
      hbusy hlen' (by rw [length_cons] at hfuel; omega) (fun m hm => by
        have hm' := hfresh (m + 1) (Nat.succ_lt_succ hm)
        dsimp only [Cpu.enqueue, Cpu.advance]
        rw [lrOfNext_eq h.tail_lt, Nat.mod_add_mod, Nat.add_assoc, Nat.add_comm 1]
        exact hm')
    refine ⟨s', ?_, ?_, hirq, hlr, hloads⟩
    · rw [handleOverflowLoop, if_neg hgo, inject_busy hnum h hbusy, addOverflow_room h hlen]
      change handleOverflowLoop numLr _ fuel (lrOfNext s.lrOverflow.head) _ = _
      rw [← hloop]
      dsimp only [Cpu.enqueue, Cpu.advance]
      rw [length_cons, lrOfNext_eq hhead, Nat.mod_add_mod, Nat.add_assoc, Nat.add_comm 1]
    · rw [append_assoc] at hcore
      exact hcore

/-! ### Maintenance interrupts -/

/-- A list register becomes free. -/
def Cpu.clear (s : Cpu V) (idx : ℕ) : Cpu V :=
  { s with irq := update s.irq idx none, lr := update s.lr idx none }

theorem Core.clear (h : Core numLr s q) (idx : ℕ) : Core numLr (s.clear idx) q :=
  h.write (.inr rfl) _

/-- With an empty ring the loop does nothing. -/
theorem handleOverflow_nil (h : Core numLr s []) : vgicHandleOverflow numLr s = .ok s := by
  have hstop : s.lrOverflow.head = s.lrOverflow.tail := by
    rw [h.tail_eq (Nat.succ_pos 63)]
    exact (Nat.mod_eq_of_lt h.head_lt).symm
  rw [vgicHandleOverflow, handleOverflowLoop, if_pos hstop]

variable {idx : ℕ}

/-- Who refers to an entry of the ring after the list register `idx` was written. -/
theorem refers_write {s' : Cpu V} {o : Option (Ref V)} (hirq : s'.irq = update s.irq idx o)
    (h : s'.Refers numLr i) :
    o = some (.slot i) ∨ ∃ j, j < numLr ∧ j ≠ idx ∧ s.irq j = some (.slot i) := by
  obtain ⟨j, hj, hslot⟩ := h
  rw [hirq] at hslot
  by_cases hji : j = idx
  · subst hji
    rw [update_self] at hslot
    exact .inl hslot
  · rw [update_of_ne hji] at hslot
    exact .inr ⟨j, hj, hji, hslot⟩

theorem busy_load (hbusy : ∀ j, j < numLr → j ≠ idx → s.irq j ≠ none) (irq : Ref V) :
    Busy numLr (s.load idx irq) := by
  intro j hj
  dsimp only [Cpu.load]
  by_cases hji : j = idx
  · subst hji
    rw [update_self]
    exact Option.some_ne_none _
  · rw [update_of_ne hji]
    exact hbusy j hj hji

/-- The first interrupt of the ring goes to the free list register, and the others stay in their
order. -/
theorem handleOverflow_cons (hnum : numLr ≤ 4) {v : V} (h : Core numLr s (v :: q))
    (hidx : idx < numLr) (hnone : s.irq idx = none) (hlen : q.length + 1 < maxLrOverflow)
    (hbusy : ∀ j, j < numLr → j ≠ idx → s.irq j ≠ none) (hfresh : ∀ m, m < q.length →
      (s.lrOverflow.tail + m) % maxLrOverflow ≠ s.lrOverflow.head ∧
        ¬s.Refers numLr ((s.lrOverflow.tail + m) % maxLrOverflow)) :
    ∃ s', vgicHandleOverflow numLr s = .ok s' ∧ Core numLr s' q ∧ Busy numLr s' ∧
      s'.lr = update s.lr idx (some v) ∧ s'.loads = s.loads ++ [v] := by
  have hhead := h.head_lt
  have htail := h.tail_eq hlen
  rw [length_cons] at htail
  have hgo : s.lrOverflow.head ≠ s.lrOverflow.tail := by
    unfold maxLrOverflow at *
    omega
  have hinject := inject_free (Nat.lt_min.2 ⟨hidx, by omega⟩) hnone
    (fun j hj => hbusy j (by omega) (by omega)) (.slot s.lrOverflow.head)
  have hadv : Core numLr ((s.load idx (.slot s.lrOverflow.head)).advance s.lrOverflow.head)
      (q ++ []) := by
    rw [append_nil]
    exact (h.load hidx (.slot s.lrOverflow.head)).advance hlen
  have hbusy' : Busy numLr ((s.load idx (.slot s.lrOverflow.head)).advance s.lrOverflow.head) :=
    busy_load hbusy _
  have hfresh' : ∀ m, m < q.length →
      ¬((s.load idx (.slot s.lrOverflow.head)).advance s.lrOverflow.head).Refers numLr
        ((s.lrOverflow.tail + m) % maxLrOverflow) := by
    intro m hm hload
    obtain ⟨hne, hrefers⟩ := hfresh m hm
    rcases refers_write rfl hload with hslot | ⟨j, hj, -, hslot⟩
    · have hhead : s.lrOverflow.head = (s.lrOverflow.tail + m) % maxLrOverflow := by
        simpa using hslot
      exact hne hhead.symm
    · exact hrefers ⟨j, hj, hslot⟩
  have hlen' : (q ++ []).length + 1 < maxLrOverflow := by
    rw [append_nil]
    exact hlen
  obtain ⟨s', hloop, hcore, hirq, hlr, hloads⟩ :=
    handleOverflowLoop_turns hnum hadv hbusy' hlen' (Nat.lt_of_succ_lt hlen) hfresh'
  refine ⟨s', ?_, hcore, ?_, ?_, ?_⟩
  · have hstop : (lrOfNext s.lrOverflow.head + q.length) % maxLrOverflow = s.lrOverflow.tail := by
      rw [lrOfNext_eq hhead, htail, Nat.mod_add_mod, Nat.add_assoc, Nat.add_comm 1]
    rw [vgicHandleOverflow, handleOverflowLoop, if_neg hgo, hinject]
    change handleOverflowLoop numLr _ maxLrOverflow (lrOfNext s.lrOverflow.head) _ = _
    rw [← hloop]
    dsimp only [Cpu.advance, Cpu.load]
    rw [hstop]
  · intro j hj
    rw [hirq]
    exact hbusy' j hj
  · rw [hlr]
    dsimp only [Cpu.advance, Cpu.load]
    rw [h.deref_head]
  · rw [hloads]
    dsimp only [Cpu.advance, Cpu.load]
    rw [h.deref_head]

/-! ### The steps of a run -/

/-- The ring, the list registers and the history fit together. -/
structure Inv (numLr : ℕ) (s : Vcpu V) (q : List V) : Prop where
  core : Core numLr s.cpu q
  busy : q ≠ [] → numLr ≤ 4 ∧ Busy numLr s.cpu
  order : s.injected = s.cpu.loads ++ q
  places : s.cpu.loads.Perm (s.acked.map Prod.snd ++ occupied numLr s.cpu.lr)
  acks : ∀ p ∈ s.acked, p.1 = p.2

def start (zero : V) : Vcpu V := ⟨init zero, [], []⟩

theorem inv_start (numLr : ℕ) (zero : V) : Inv numLr (start zero) [] where
  core := ⟨rfl, Stored.nil _ _ _, rfl, Nat.succ_pos 63, Nat.zero_le _, fun _ _ => rfl,
    fun _ => rfl⟩
  busy := fun h => absurd rfl h
  order := rfl
  places := by
    have hnil : occupied numLr (fun _ => (none : Option V)) = [] := by
      rw [occupied, filterMap_eq_nil_iff]
      exact fun _ _ => rfl
    change ([] : List V).Perm ([] ++ occupied numLr fun _ => none)
    rw [hnil]
    exact List.Perm.refl _
  acks := by simp [start]

namespace Inv

variable {v : Vcpu V}

theorem kept (h : Inv numLr v q) : Kept numLr v where
  places := by
    rw [h.order, h.core.toList_eq, h.core.shadows_eq]
    exact h.places.append_right q
  order := by rw [h.order, h.core.toList_eq]
  acks := h.acks

/-- The first free list register, if there is one. -/
theorem free_or_busy (s : Cpu V) (numLr : ℕ) :
    Busy numLr s ∨ ∃ i, i < numLr ∧ s.irq i = none ∧ ∀ j, j < i → s.irq j ≠ none := by
  by_cases hfree : ∃ i, i < numLr ∧ s.irq i = none
  · classical
    obtain ⟨hlt, hnone⟩ := Nat.find_spec hfree
    refine .inr ⟨Nat.find hfree, hlt, hnone, fun j hj hj' => ?_⟩
    exact Nat.find_min hfree hj ⟨Nat.lt_trans hj hlt, hj'⟩
  · refine .inl fun i hi hnone => ?_
    exact hfree ⟨i, hi, hnone⟩

/-- An injection into the ring. -/
theorem inject_ring (hnum : numLr ≤ 4) (h : Inv numLr v q) (hbusy : Busy numLr v.cpu) (irq : V)
    (hroom : v.cpu.lrOverflow.full = true ∨ ¬v.cpu.Refers numLr v.cpu.lrOverflow.tail) :
    ∃ v' q', step numLr v (.inject irq) = .ok v' ∧ Inv numLr v' q' ∧
      (v'.injected = v.injected ++ [irq] ∨ v' = v ∧ NoPlace numLr v.cpu) := by
  rw [step, inject_busy hnum h.core hbusy, addOverflow_eq h.core]
  by_cases hfull : q.length = maxLrOverflow
  · rw [if_pos hfull]
    refine ⟨v, q, rfl, h, .inr ⟨rfl, hbusy, ?_⟩⟩
    rw [h.core.toList_eq, hfull]
  have hrefers := hroom.resolve_left (by rw [h.core.full, decide_eq_false hfull]; decide)
  have horder : v.injected ++ [irq] = v.cpu.loads ++ (q ++ [irq]) := by
    rw [h.order, append_assoc]
  have hlen := h.core.length_le
  rw [if_neg hfull]
  by_cases hlast : q.length + 1 = maxLrOverflow
  · rw [if_pos hlast]
    exact ⟨_, q ++ [irq], rfl, ⟨h.core.fill hlast hrefers (.handle irq), fun _ => ⟨hnum, hbusy⟩,
      horder, h.places, h.acks⟩, .inl rfl⟩
  · rw [if_neg hlast]
    exact ⟨_, q ++ [irq], rfl, ⟨h.core.enqueue (by omega) hrefers (.handle irq),
      fun _ => ⟨hnum, hbusy⟩, horder, h.places, h.acks⟩, .inl rfl⟩

/-- An injection into a list register. -/
theorem inject_register (h : Inv numLr v q) (irq : V) (hi : i < min numLr 4)
    (hnone : v.cpu.irq i = none) (hmin : ∀ j, j < i → v.cpu.irq j ≠ none) :
    ∃ v' q', step numLr v (.inject irq) = .ok v' ∧ Inv numLr v' q' ∧
      v'.injected = v.injected ++ [irq] := by
  have hlt := (Nat.lt_min.1 hi).1
  have hq : q = [] := by
    by_contra hne
    exact (h.busy hne).2 i hlt hnone
  subst hq
  rw [step, inject_free hi hnone hmin]
  refine ⟨_, [], rfl, ⟨h.core.load hlt _, fun hne => absurd rfl hne, ?_, ?_, h.acks⟩, rfl⟩
  · dsimp only [Cpu.load, Cpu.deref]
    rw [h.order, append_nil, append_nil]
    rfl
  · dsimp only [Cpu.load, Cpu.deref]
    have hfill := occupied_fill hlt (h.core.lr_eq_none.2 hnone) irq
    refine (perm_append_singleton _ _).trans ((h.places.cons irq).trans ?_)
    exact perm_middle.symm.trans (hfill.symm.append_left _)

theorem inject (h : Inv numLr v q) (irq : V) (hfresh : Fresh numLr v.cpu (.inject irq)) :
    ∃ v' q', step numLr v (.inject irq) = .ok v' ∧ Inv numLr v' q' ∧
      (v'.injected = v.injected ++ [irq] ∨ v' = v ∧ NoPlace numLr v.cpu) := by
  rcases free_or_busy v.cpu numLr with hbusy | ⟨i, hi, hnone, hmin⟩
  · rcases hfresh with ⟨i, hi, hnone⟩ | ⟨hnum, hroom⟩
    · exact absurd hnone (hbusy i (Nat.lt_min.1 hi).1)
    · exact h.inject_ring hnum hbusy irq hroom
  · have hfour : i < 4 := by
      rcases hfresh with ⟨j, hj, hnone'⟩ | ⟨hnum, -⟩
      · have hij : ¬j < i := fun hc => hmin j hc hnone'
        omega
      · omega
    obtain ⟨v', q', hstep, hinv, hinjected⟩ :=
      h.inject_register irq (Nat.lt_min.2 ⟨hi, hfour⟩) hnone hmin
    exact ⟨v', q', hstep, hinv, .inl hinjected⟩

variable {loaded : V} (hidx : idx < numLr) (hlr : v.cpu.lr idx = some loaded)

include hlr

/-- What a maintenance interrupt does, with what the loop over the ring does. -/
theorem step_maintenance (h : Inv numLr v q) {s' : Cpu V}
    (hover : vgicHandleOverflow numLr (v.cpu.clear idx) = .ok s') :
    step numLr v (.maintenance idx) = .ok { v with
      cpu := s'
      acked := v.acked ++ [(loaded, loaded)] } := by
  obtain ⟨r, hirq, hderef⟩ := Option.map_eq_some_iff.1 ((h.core.lr idx).symm.trans hlr)
  rw [step, hlr]
  dsimp only
  rw [handleVgicMaintenance, hirq, ← hderef]
  change (vgicHandleOverflow numLr (v.cpu.clear idx) >>= _) >>= _ = _
  rw [hover]
  rfl

include hidx

/-- What the list register had is acknowledged, and the others are where they were. -/
theorem acknowledge (h : Inv numLr v q) :
    v.cpu.loads.Perm ((v.acked ++ [(loaded, loaded)]).map Prod.snd ++
        occupied numLr (update v.cpu.lr idx none)) ∧
      ∀ p ∈ v.acked ++ [(loaded, loaded)], p.1 = p.2 := by
  constructor
  · rw [map_append, append_assoc]
    exact h.places.trans ((occupied_clear hidx hlr).append_left _)
  · intro p hp
    rcases mem_append.1 hp with hold | hnew
    · exact h.acks p hold
    · rw [mem_singleton.1 hnew]

/-- A maintenance interrupt, with the ring empty. -/
theorem maintenance_nil (h : Inv numLr v []) :
    ∃ v', step numLr v (.maintenance idx) = .ok v' ∧ Inv numLr v' [] := by
  have hclear := h.core.clear idx
  obtain ⟨hplaces, hacks⟩ := h.acknowledge hidx hlr
  exact ⟨_, h.step_maintenance hlr (handleOverflow_nil hclear), hclear,
    fun hne => absurd rfl hne, h.order, hplaces, hacks⟩

/-- A maintenance interrupt, with interrupts in the ring. -/
theorem maintenance_cons {w : V} (h : Inv numLr v (w :: q))
    (hfresh : Fresh numLr v.cpu (.maintenance idx)) :
    ∃ v', step numLr v (.maintenance idx) = .ok v' ∧ Inv numLr v' q := by
  have hclear := h.core.clear idx
  obtain ⟨hnum, hbusy⟩ := h.busy (cons_ne_nil _ _)
  have hlength := h.core.length_eq
  rw [length_cons] at hlength
  -- in a full ring the loop comes to the place at the beginning
  have hlen : q.length + 1 < maxLrOverflow := by
    refine lt_of_le_of_ne h.core.length_le fun hfull => ?_
    have htail := h.core.tail
    have hhead := h.core.head_lt
    rw [length_cons, hfull] at htail
    rw [Fresh, hlength, hfull] at hfresh
    have hne := (hfresh 1 (by decide)).1
    unfold maxLrOverflow at *
    omega
  have hothers : ∀ j, j < numLr → j ≠ idx → (v.cpu.clear idx).irq j ≠ none := by
    intro j hj hji
    dsimp only [Cpu.clear]
    rw [update_of_ne hji]
    exact hbusy j hj
  have hplaces : ∀ m, m < q.length →
      ((v.cpu.clear idx).lrOverflow.tail + m) % maxLrOverflow ≠
          (v.cpu.clear idx).lrOverflow.head ∧
        ¬(v.cpu.clear idx).Refers numLr
          (((v.cpu.clear idx).lrOverflow.tail + m) % maxLrOverflow) := by
    intro m hm
    obtain ⟨hne, hrefers⟩ := hfresh m (by omega)
    refine ⟨hne, fun hclear => ?_⟩
    rcases refers_write rfl hclear with hslot | ⟨j, hj, hji, hslot⟩
    · cases hslot
    · exact hrefers j hj hji hslot
  obtain ⟨s', hover, hcore, hbusy', hlr', hloads⟩ :=
    handleOverflow_cons hnum hclear hidx (update_self _ _ _) hlen hothers hplaces
  obtain ⟨hold, hacks⟩ := h.acknowledge hidx hlr
  refine ⟨_, h.step_maintenance hlr hover, hcore, fun _ => ⟨hnum, hbusy'⟩, ?_, ?_, hacks⟩
  · dsimp only
    rw [h.order, hloads, append_assoc]
    rfl
  · dsimp only
    rw [hloads, hlr']
    have hfill := occupied_fill hidx (update_self idx none v.cpu.lr) w
    refine (hold.append_right [w]).trans ?_
    rw [append_assoc]
    exact ((perm_append_singleton _ _).trans hfill.symm).append_left _

omit hidx hlr

/-- Every operation that writes to fresh places returns and keeps the invariant, and an injection is
refused only if there is no place for it. -/
theorem step (h : Inv numLr v q) (op : Op V) (hfresh : Fresh numLr v.cpu op) :
    ∃ v' q', Vgic.step numLr v op = .ok v' ∧ Inv numLr v' q' ∧
      ∀ irq, op = .inject irq →
        v'.injected = v.injected ++ [irq] ∨ v' = v ∧ NoPlace numLr v.cpu := by
  cases op with
  | inject irq =>
    obtain ⟨v', q', hstep, hinv, hinjected⟩ := h.inject irq hfresh
    refine ⟨v', q', hstep, hinv, ?_⟩
    rintro _ ⟨⟩
    exact hinjected
  | maintenance idx =>
    suffices hstep : ∃ v' q', Vgic.step numLr v (.maintenance idx) = .ok v' ∧ Inv numLr v' q' by
      obtain ⟨v', q', hstep, hinv⟩ := hstep
      exact ⟨v', q', hstep, hinv, fun irq heq => by cases heq⟩
    cases hlr : v.cpu.lr idx with
    | none =>
      refine ⟨v, q, ?_, h⟩
      rw [Vgic.step, hlr]
    | some loaded =>
      have hidx : idx < numLr := by
        by_contra hge
        have hnone := h.core.lr_eq_none.2 (h.core.beyond idx (Nat.not_lt.1 hge))
        rw [hnone] at hlr
        cases hlr
      cases q with
      | nil =>
        obtain ⟨v', hstep, hinv⟩ := h.maintenance_nil hidx hlr
        exact ⟨v', [], hstep, hinv⟩
      | cons w q =>
        obtain ⟨v', hstep, hinv⟩ := h.maintenance_cons hidx hlr hfresh
        exact ⟨v', q, hstep, hinv⟩

end Inv

/-! ### Runs of all virtual CPUs -/

/-- The states after operations that all meet a condition. -/
inductive Reaches (ok : Cpu V → Op V → Prop) (numLr : ℕ) (zero : V) : (ℕ → Vcpu V) → Prop
  | start : Reaches ok numLr zero fun _ => start zero
  | step {s : ℕ → Vcpu V} {v : Vcpu V} (vcpu : ℕ) (op : Op V) : Reaches ok numLr zero s →
      ok (s vcpu).cpu op → step numLr (s vcpu) op = .ok v →
      Reaches ok numLr zero (update s vcpu v)

theorem Reaches.inv {zero : V} {s : ℕ → Vcpu V} (h : Reaches (Fresh numLr) numLr zero s)
    (vcpu : ℕ) : ∃ q, Inv numLr (s vcpu) q := by
  induction h with
  | start => exact ⟨[], inv_start numLr zero⟩
  | @step s v vcpu' op _ hfresh hstep ih =>
    by_cases hsame : vcpu = vcpu'
    · subst hsame
      obtain ⟨q, hinv⟩ := ih
      obtain ⟨v', q', hstep', hinv', -⟩ := hinv.step op hfresh
      cases hstep.symm.trans hstep'
      rw [update_self]
      exact ⟨q', hinv'⟩
    · rw [update_of_ne hsame]
      exact ih

instance [DecidableEq V] : Decidable (s.Refers numLr i) :=
  inferInstanceAs (Decidable (∃ j, j < numLr ∧ s.irq j = some (.slot i)))

instance [DecidableEq V] : ∀ (s : Cpu V) (op : Op V), Decidable (Fresh numLr s op)
  | s, .inject _ => inferInstanceAs (Decidable ((∃ i, i < min numLr 4 ∧ s.irq i = none) ∨ _))
  | s, .maintenance _ => inferInstanceAs (Decidable (∀ m, m < s.lrOverflow.length - 1 → _))

/-- Operations on one virtual CPU that meet a condition, one after the other. -/
def runOps (ok : Cpu V → Op V → Prop) [∀ s op, Decidable (ok s op)] (numLr : ℕ) (v : Vcpu V) :
    List (Op V) → Except Failure (Vcpu V)
  | [] => .ok v
  | op :: ops =>
    if ok v.cpu op then step numLr v op >>= fun v' => runOps ok numLr v' ops
    else .error .assertion

theorem Reaches.runOps {ok : Cpu V → Op V → Prop} [∀ s op, Decidable (ok s op)] {zero : V}
    {s : ℕ → Vcpu V} {vcpu : ℕ} {ops : List (Op V)} {v : Vcpu V} (h : Reaches ok numLr zero s)
    (hrun : runOps ok numLr (s vcpu) ops = .ok v) : Reaches ok numLr zero (update s vcpu v) := by
  induction ops generalizing s with
  | nil =>
    cases hrun
    rw [update_eq_self]
    exact h
  | cons op ops ih =>
    rw [Vgic.runOps] at hrun
    split at hrun
    · rename_i hok
      obtain ⟨v', hstep, hrest⟩ := bind_eq_ok.1 hrun
      have hnext := ih (h.step vcpu op hok hstep) (by rw [update_self]; exact hrest)
      rw [update_idem] at hnext
      exact hnext
    · cases hrun

end SeL4Kernel.Vgic
